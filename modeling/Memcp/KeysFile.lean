import Memcp.Data.Loop
import Memcp.Http.Auth

/-!
The keys file resolves without ambiguity: it loads when no name and no secret
occurs twice, and then each token finds the one key that lists its digest.
-/

namespace Memcp

open Python

/-- Whether a key lists the token of a digest. -/
def KeyEntry.lists (digest : String) (entry : KeyEntry) : Bool :=
  secretPrefix ++ digest ∈ entry.secrets

theorem digestOf_append (digest : String) : digestOf (secretPrefix ++ digest) = digest := by
  have leads : secretPrefix.toList.isPrefixOf (secretPrefix ++ digest).toList = true := by
    rw [String.toList_append, List.isPrefixOf_iff_prefix]
    exact List.prefix_append _ _
  rw [digestOf, removePrefix, if_pos leads, String.toList_append, List.drop_left,
    String.ofList_toList]

theorem append_digestOf {secret : String} (form : isSecret secret = true) :
    secretPrefix ++ digestOf secret = secret := by
  unfold isSecret at form
  rw [Bool.and_eq_true, Bool.and_eq_true] at form
  obtain ⟨rest, leads⟩ := List.isPrefixOf_iff_prefix.mp form.1.1
  have text : secret = secretPrefix ++ String.ofList rest := by
    rw [← String.toList_inj, String.toList_append, String.toList_ofList, leads]
  rw [text, digestOf_append]

/-! What the loops leave, as a function of what they have read. -/

/-- The digests of a key, with its position and what they resolve to. -/
def KeyEntry.claims (numbered : KeyEntry × Nat) : List (String × Nat × Key) :=
  numbered.1.secrets.map fun secret => (digestOf secret, numbered.2, numbered.1.key)

def KeyMaps.of (claims : List (String × Nat × Key)) (names : List (String × Nat)) :
    KeyMaps where
  byDigest := Dict.ofList (claims.map fun claim => (claim.1, claim.2.2))
  owner := Dict.ofList (claims.map fun claim => (claim.1, claim.2.1))
  names := Dict.ofList names

variable {path : String} {n : Nat} {key : Key} {claims : List (String × Nat × Key)}
  {names : List (String × Nat)}

theorem loadSecret_ok {secret : String} (fresh : digestOf secret ∉ claims.map Prod.fst) :
    loadSecret path n key (.of claims names) secret =
      .ok (.of (claims ++ [(digestOf secret, n, key)]) names) := by
  have unowned : (KeyMaps.of claims names).owner.get? (digestOf secret) = none := by
    rw [Dict.get?_eq_none_iff, KeyMaps.of, Dict.mem_ofList_iff, List.map_map]
    exact fresh
  rw [loadSecret, unowned, if_neg nofun]
  simp only [KeyMaps.of, List.map_append, List.map_cons, List.map_nil, Dict.ofList_append]
  rfl

theorem loadSecret_error {secret : String} (known : digestOf secret ∈ claims.map Prod.fst) :
    ∃ error, loadSecret path n key (.of claims names) secret = .error error ∧
      error.IsValueError := by
  have owned : digestOf secret ∈ (KeyMaps.of claims names).owner := by
    rw [KeyMaps.of, Dict.mem_ofList_iff, List.map_map]
    exact known
  obtain ⟨other, found⟩ := Dict.exists_of_mem owned
  rw [loadSecret, found]
  split
  · exact ⟨_, rfl, trivial⟩
  · exact ⟨_, rfl, trivial⟩

theorem nodup_append_singleton {α : Type} {items : List α} {item : α} :
    (items ++ [item]).Nodup ↔ items.Nodup ∧ item ∉ items := by
  rw [← List.concat_eq_append, List.nodup_concat, and_comm]

theorem guards_secrets (path : String) (n : Nat) (key : Key)
    (claims : List (String × Nat × Key)) (names : List (String × Nat)) :
    List.Guards (loadSecret path n key)
      (fun secrets => .of (claims ++ secrets.map fun secret => (digestOf secret, n, key)) names)
      (fun secrets => (claims.map Prod.fst ++ secrets.map digestOf).Nodup)
      Exc.IsValueError where
  earlier secrets secret holds := by
    rw [List.map_append, ← List.append_assoc] at holds
    exact (List.nodup_append.mp holds).1
  passes secrets secret holds := by
    rw [List.map_append, ← List.append_assoc, List.map_singleton, nodup_append_singleton]
      at holds
    rw [loadSecret_ok (by simpa using holds.2)]
    simp
  raises secrets secret holds breaks := by
    rw [List.map_append, ← List.append_assoc, List.map_singleton, nodup_append_singleton]
      at breaks
    apply loadSecret_error
    have known := not_not.mp fun absent => breaks ⟨holds, absent⟩
    simpa using known

/-- What is loaded of the keys read so far. -/
def KeyMaps.loaded (read : List (KeyEntry × Nat)) : KeyMaps :=
  .of (read.flatMap KeyEntry.claims) (read.map fun numbered => (numbered.1.name, numbered.2))

/-- No name and no digest occurs twice. -/
structure Unambiguous (entries : List KeyEntry) : Prop where
  names : (entries.map KeyEntry.name).Nodup
  digests : (entries.flatMap fun entry => entry.secrets.map digestOf).Nodup

theorem digests_claims (read : List (KeyEntry × Nat)) :
    (read.flatMap KeyEntry.claims).map Prod.fst =
      (read.map Prod.fst).flatMap fun entry => entry.secrets.map digestOf := by
  simp [List.map_flatMap, List.flatMap_map, KeyEntry.claims, Function.comp_def]

theorem unambiguous_append {entries : List KeyEntry} {entry : KeyEntry} :
    Unambiguous (entries ++ [entry]) ↔ Unambiguous entries ∧
      entry.name ∉ entries.map KeyEntry.name ∧
      ((entries.flatMap fun entry => entry.secrets.map digestOf) ++
        entry.secrets.map digestOf).Nodup := by
  constructor
  · intro ⟨names, digests⟩
    rw [List.map_append, List.map_singleton, nodup_append_singleton] at names
    rw [List.flatMap_append, List.flatMap_singleton] at digests
    exact ⟨⟨names.1, (List.nodup_append.mp digests).1⟩, names.2, digests⟩
  · intro ⟨earlier, name, digests⟩
    constructor
    · rw [List.map_append, List.map_singleton, nodup_append_singleton]
      exact ⟨earlier.names, name⟩
    · rw [List.flatMap_append, List.flatMap_singleton]
      exact digests

theorem loadKey_eq {read : List (KeyEntry × Nat)} {entry : KeyEntry}
    (free : entry.name ∉ (read.map Prod.fst).map KeyEntry.name) :
    loadKey path (.loaded read) (entry, n) =
      entry.secrets.foldlM (loadSecret path n entry.key)
        (.of (read.flatMap KeyEntry.claims)
          ((read ++ [(entry, n)]).map fun numbered => (numbered.1.name, numbered.2))) := by
  have unnamed : (KeyMaps.loaded read).names.get? entry.name = none := by
    rw [Dict.get?_eq_none_iff, KeyMaps.loaded, KeyMaps.of, Dict.mem_ofList_iff]
    simpa [List.map_map, Function.comp_def] using free
  simp only [loadKey, unnamed]
  simp only [KeyMaps.loaded, KeyMaps.of, List.map_append, List.map_singleton,
    Dict.ofList_append]

theorem guards_keys (path : String) :
    List.Guards (loadKey path) KeyMaps.loaded
      (fun read => Unambiguous (read.map Prod.fst)) Exc.IsValueError where
  earlier read numbered holds := by
    rw [List.map_append, List.map_singleton, unambiguous_append] at holds
    exact holds.1
  passes read numbered holds := by
    rw [List.map_append, List.map_singleton, unambiguous_append] at holds
    obtain ⟨-, free, digests⟩ := holds
    have guards := guards_secrets path numbered.2 numbered.1.key
      (read.flatMap KeyEntry.claims)
      ((read ++ [numbered]).map fun numbered => (numbered.1.name, numbered.2))
    rw [← digests_claims] at digests
    have ran := guards.foldlM_ok digests
    rw [List.map_nil, List.append_nil] at ran
    rw [loadKey_eq free, ran]
    simp [KeyMaps.loaded, KeyEntry.claims]
  raises read numbered holds breaks := by
    rw [List.map_append, List.map_singleton, unambiguous_append] at breaks
    by_cases free : numbered.1.name ∈ (read.map Prod.fst).map KeyEntry.name
    · have named : numbered.1.name ∈ (KeyMaps.loaded read).names := by
        rw [KeyMaps.loaded, KeyMaps.of, Dict.mem_ofList_iff]
        simpa [List.map_map, Function.comp_def] using free
      obtain ⟨other, found⟩ := Dict.exists_of_mem named
      simp only [loadKey, found]
      exact ⟨_, rfl, trivial⟩
    · have guards := guards_secrets path numbered.2 numbered.1.key
        (read.flatMap KeyEntry.claims)
        ((read ++ [numbered]).map fun numbered => (numbered.1.name, numbered.2))
      rw [loadKey_eq free]
      have first : ((read.flatMap KeyEntry.claims).map Prod.fst ++
          ([] : List String).map digestOf).Nodup := by
        rw [List.map_nil, List.append_nil, digests_claims]
        exact holds.digests
      have raised := guards.foldlM_error numbered.1.secrets first
        fun digests => breaks ⟨holds, free, digests_claims read ▸ digests⟩
      rw [List.map_nil, List.append_nil] at raised
      exact raised

theorem unambiguous_iff {entries : List KeyEntry} :
    Unambiguous entries ↔ (entries.map KeyEntry.name).Nodup ∧
      (entries.flatMap KeyEntry.secrets).Nodup := by
  have digests : (entries.flatMap fun entry => entry.secrets.map digestOf) =
      (entries.flatMap KeyEntry.secrets).map digestOf := by
    rw [List.map_flatMap]
  have apart : ∀ left ∈ entries.flatMap KeyEntry.secrets,
      ∀ right ∈ entries.flatMap KeyEntry.secrets,
        digestOf left = digestOf right → left = right := by
    intro left leftMember right rightMember same
    obtain ⟨entry, -, leftMember⟩ := List.mem_flatMap.mp leftMember
    obtain ⟨other, -, rightMember⟩ := List.mem_flatMap.mp rightMember
    rw [← append_digestOf (entry.secret left leftMember), same,
      append_digestOf (other.secret right rightMember)]
  constructor
  · intro clear
    have nodup := clear.digests
    rw [digests] at nodup
    exact ⟨clear.names, nodup.of_map⟩
  · intro ⟨names, secrets⟩
    refine ⟨names, ?_⟩
    rw [digests]
    exact secrets.map_on apart

/-! The table of an unambiguous file. -/

/-- What each digest of the file resolves to. -/
def KeysFile.resolutions (file : KeysFile) : List (String × Key) :=
  file.keys.flatMap fun entry => entry.secrets.map fun secret => (digestOf secret, entry.key)

theorem loaded_byDigest (read : List (KeyEntry × Nat)) :
    (KeyMaps.loaded read).byDigest = Dict.ofList ((read.map Prod.fst).flatMap
      fun entry => entry.secrets.map fun secret => (digestOf secret, entry.key)) := by
  simp [KeyMaps.loaded, KeyMaps.of, KeyEntry.claims, List.map_flatMap, List.flatMap_map,
    Function.comp_def]

theorem loadKeys_ok {file : KeysFile} (clear : Unambiguous file.keys) (path : String) :
    loadKeys path file = .ok ⟨Dict.ofList file.resolutions⟩ := by
  rw [← List.zipIdx_map_fst 1 file.keys] at clear
  have ran := (guards_keys path).foldlM_ok clear
  have left := loaded_byDigest (file.keys.zipIdx 1)
  rw [List.zipIdx_map_fst] at left
  unfold loadKeys
  change ((file.keys.zipIdx 1).foldlM (loadKey path) (.loaded []) >>= _) = _
  rw [ran]
  exact congrArg (fun byDigest => Except.ok (KeyTable.mk byDigest)) left

theorem loadKeys_error {file : KeysFile} (unclear : ¬ Unambiguous file.keys)
    (path : String) :
    ∃ error, loadKeys path file = .error error ∧ error.IsValueError := by
  rw [← List.zipIdx_map_fst 1 file.keys] at unclear
  obtain ⟨error, raised, kind⟩ := (guards_keys path).foldlM_error (file.keys.zipIdx 1)
    ⟨List.nodup_nil, List.nodup_nil⟩ unclear
  refine ⟨error, ?_, kind⟩
  unfold loadKeys
  change ((file.keys.zipIdx 1).foldlM (loadKey path) (.loaded []) >>= _) = _
  rw [raised]
  rfl

section Table

variable {file : KeysFile} (clear : Unambiguous file.keys)

include clear

theorem entries_resolutions : (Dict.ofList file.resolutions).entries = file.resolutions := by
  have nodup : (file.resolutions.map Prod.fst).Nodup := by
    have digests := clear.digests
    simpa [KeysFile.resolutions, List.map_flatMap, Function.comp_def] using digests
  exact congrArg Dict.entries (Dict.ofList_entries ⟨file.resolutions, nodup⟩)

theorem get?_resolutions {digest : String} {key : Key} :
    (Dict.ofList file.resolutions).get? digest = some key ↔
      ∃ entry ∈ file.keys, entry.lists digest = true ∧ entry.key = key := by
  rw [Dict.get?_eq_some_iff, entries_resolutions clear, KeysFile.resolutions,
    List.mem_flatMap]
  refine exists_congr fun entry => and_congr_right fun member => ?_
  rw [List.mem_map, KeyEntry.lists, decide_eq_true_eq]
  constructor
  · rintro ⟨secret, listed, same⟩
    obtain ⟨rfl, rfl⟩ := Prod.mk.inj same
    rw [append_digestOf (entry.secret secret listed)]
    exact ⟨listed, rfl⟩
  · rintro ⟨listed, rfl⟩
    exact ⟨_, listed, by rw [digestOf_append]⟩

/-- At most one key lists a digest. -/
theorem filter_lists (digest : String) :
    file.keys.filter (KeyEntry.lists digest) = [] ∨
      ∃ entry, file.keys.filter (KeyEntry.lists digest) = [entry] := by
  have disjoint := (List.nodup_flatMap.mp (unambiguous_iff.mp clear).2).2.filter
    (KeyEntry.lists digest)
  have lists : ∀ entry ∈ file.keys.filter (KeyEntry.lists digest),
      secretPrefix ++ digest ∈ entry.secrets := by
    intro entry member
    simpa [KeyEntry.lists] using (List.mem_filter.mp member).2
  generalize file.keys.filter (KeyEntry.lists digest) = found at disjoint lists
  cases found with
  | nil => exact .inl rfl
  | cons entry others =>
      cases others with
      | nil => exact .inr ⟨entry, rfl⟩
      | cons other rest =>
          have apart := (List.pairwise_cons.mp disjoint).1 other List.mem_cons_self
          exact absurd (lists other (List.mem_cons_of_mem _ List.mem_cons_self))
            (apart (lists entry List.mem_cons_self))

end Table

/-! The keys of a table, each once. -/

theorem keys_ofList_append {α : Type} {pairs : List (Key × Unit)} {key : Key}
    (fresh : key ∉ Dict.ofList pairs) (cells : List α) (some : 1 ≤ cells.length) :
    (Dict.ofList (pairs ++ cells.map fun _ => (key, ()))).keys =
      (Dict.ofList pairs).keys ++ [key] := by
  induction cells using List.reverseRecOn with
  | nil => cases some
  | append_singleton cells cell induction =>
      rw [List.map_append, ← List.append_assoc, List.map_singleton, Dict.ofList_append]
      cases cells with
      | nil =>
          rw [List.map_nil, List.append_nil]
          exact Dict.keys_set_of_not_mem fresh ()
      | cons head tail =>
          rw [Dict.keys_set_of_mem, induction (by simp)]
          rw [Dict.mem_ofList_iff]
          simp

theorem keys_resolutions {entries : List KeyEntry}
    (names : (entries.map KeyEntry.name).Nodup) :
    (Dict.ofList ((entries.flatMap fun entry => entry.secrets.map fun _ =>
      (entry.key, ())))).keys = entries.map KeyEntry.key := by
  induction entries using List.reverseRecOn with
  | nil => rfl
  | append_singleton entries entry induction =>
      rw [List.map_append, List.map_singleton, nodup_append_singleton] at names
      rw [List.flatMap_append, List.flatMap_singleton, keys_ofList_append _ _ entry.listed,
        induction names.1, List.map_append, List.map_singleton]
      rw [Dict.mem_iff_keys, induction names.1]
      intro known
      obtain ⟨other, member, same⟩ := List.mem_map.mp known
      exact names.2 (List.mem_map.mpr ⟨other, member, congrArg Key.name same⟩)

theorem loaded_keys {file : KeysFile} (clear : Unambiguous file.keys) :
    (KeyTable.mk (Dict.ofList file.resolutions)).keys = file.keys.map KeyEntry.key := by
  rw [KeyTable.keys, Dict.values, entries_resolutions clear, ← keys_resolutions clear.names]
  simp [KeysFile.resolutions, List.map_flatMap, Function.comp_def]

theorem load_keys_resolves (path : String) (file : KeysFile) :
    ((∃ error, loadKeys path file = .error error) ↔
      ¬ (file.keys.map KeyEntry.name).Nodup ∨
        ¬ (file.keys.flatMap KeyEntry.secrets).Nodup) ∧
    ∀ table, loadKeys path file = .ok table →
      (∀ (sha256 : String → String) (token : String),
        let listing := file.keys.filter (KeyEntry.lists (sha256 token))
        (listing = [] ∧ table.resolve sha256 token = none) ∨
          ∃ entry, listing = [entry] ∧
            table.resolve sha256 token = some entry.key) ∧
      table.keys = file.keys.map KeyEntry.key ∧ table.keys.Nodup := by
  rw [← not_and_or, ← unambiguous_iff]
  by_cases clear : Unambiguous file.keys
  · have loaded := loadKeys_ok clear path
    refine ⟨?_, ?_⟩
    · rw [loaded]
      simp [clear]
    · intro table same
      obtain rfl := Except.ok.inj (loaded.symm.trans same)
      refine ⟨?_, loaded_keys clear, Dict.keys_nodup _⟩
      intro sha256 token listing
      rcases filter_lists clear (sha256 token) with none | ⟨entry, one⟩
      · refine .inl ⟨none, ?_⟩
        rw [KeyTable.resolve, Option.eq_none_iff_forall_not_mem]
        intro key found
        obtain ⟨entry, member, lists, -⟩ := (get?_resolutions clear).mp found
        exact List.filter_eq_nil_iff.mp none entry member lists
      · have member : entry ∈ file.keys.filter (KeyEntry.lists (sha256 token)) := by
          rw [one]
          exact List.mem_cons_self
        obtain ⟨member, lists⟩ := List.mem_filter.mp member
        exact .inr ⟨entry, one, (get?_resolutions clear).mpr ⟨entry, member, lists, rfl⟩⟩
  · obtain ⟨error, raised, -⟩ := loadKeys_error clear path
    refine ⟨by simp [clear, raised], ?_⟩
    intro table same
    rw [raised] at same
    cases same

/-- A key with two secrets, and another with one. -/
def rotatingKeys : KeysFile where
  keys := [
    { name := "laptop"
      secrets := ['a', 'b'].map fun c => secretPrefix ++ String.ofList (List.replicate 64 c)
      grants := [⟨"team", .writer⟩]
      named := by decide +kernel
      secret := by decide +kernel
      listed := by decide
      granted := by decide },
    { name := "ci"
      secrets := [secretPrefix ++ String.ofList (List.replicate 64 '0')]
      grants := [⟨"team", .reader⟩]
      named := by decide +kernel
      secret := by decide +kernel
      listed := by decide
      granted := by decide }]
  filled := by decide

theorem load_keys_resolves_rotating :
    let table : KeyTable := ⟨Dict.ofList rotatingKeys.resolutions⟩
    let sha256 := fun token => if token = "new" then String.ofList (List.replicate 64 'b') else ""
    loadKeys "keys.toml" rotatingKeys = .ok table ∧
      table.resolve sha256 "new" = some ⟨"laptop", ⟨"team", .writer⟩⟩ ∧
      table.keys = [⟨"laptop", ⟨"team", .writer⟩⟩, ⟨"ci", ⟨"team", .reader⟩⟩] := by
  intro table sha256
  have loaded : loadKeys "keys.toml" rotatingKeys = .ok table := by
    decide +kernel
  obtain ⟨resolves, listed, -⟩ := (load_keys_resolves "keys.toml" rotatingKeys).2 table loaded
  refine ⟨loaded, ?_, listed⟩
  rcases resolves sha256 "new" with ⟨none, -⟩ | ⟨entry, one, found⟩
  · exact absurd none (by decide +kernel)
  · rw [found]
    have first : rotatingKeys.keys.filter (KeyEntry.lists (sha256 "new")) =
        [rotatingKeys.keys.head (by decide)] := rfl
    obtain rfl := (List.cons.inj (one.symm.trans first)).1
    rfl

end Memcp
