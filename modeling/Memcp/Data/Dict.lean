import Mathlib.Data.List.Induction
import Mathlib.Data.List.Nodup
import Mathlib.Data.List.Perm.Basic

/-!
Dictionaries that keep the order in which their keys were first inserted.
Setting a key that is present replaces its value in place; a key that was
erased and set again goes to the end.
-/

structure Dict (κ α : Type) where
  entries : List (κ × α)
  nodup : (entries.map Prod.fst).Nodup

namespace Dict

variable {κ α β : Type}

theorem ext {left right : Dict κ α} (same : left.entries = right.entries) :
    left = right := by
  cases left
  cases right
  cases same
  rfl

instance [DecidableEq κ] [DecidableEq α] : DecidableEq (Dict κ α) :=
  fun left right => decidable_of_iff (left.entries = right.entries)
    ⟨ext, fun same => same ▸ rfl⟩

instance : EmptyCollection (Dict κ α) := ⟨⟨[], List.nodup_nil⟩⟩

instance : Inhabited (Dict κ α) := ⟨∅⟩

@[simp] theorem entries_empty : (∅ : Dict κ α).entries = [] := rfl

def keys (dict : Dict κ α) : List κ := dict.entries.map Prod.fst

def values (dict : Dict κ α) : List α := dict.entries.map Prod.snd

@[simp] theorem keys_empty : (∅ : Dict κ α).keys = [] := rfl

theorem keys_nodup (dict : Dict κ α) : dict.keys.Nodup := dict.nodup

/-- Whether there is nothing in it, which a truth test reads as false. -/
def isEmpty (dict : Dict κ α) : Bool := dict.entries.isEmpty

@[simp] theorem isEmpty_iff (dict : Dict κ α) :
    dict.isEmpty = true ↔ dict = ∅ := by
  constructor
  · intro empty
    exact ext (List.isEmpty_iff.mp empty)
  · rintro rfl
    rfl

theorem isEmpty_keys (dict : Dict κ α) : dict.keys.isEmpty = dict.isEmpty := by
  simp [isEmpty, keys]

/-- What a truth test leaves of an optional dictionary. -/
def given (dict : Option (Dict κ α)) : Option (Dict κ α) :=
  dict.filter fun dict => !dict.isEmpty

@[simp] theorem given_none : given (none : Option (Dict κ α)) = none := rfl

theorem given_eq_some_iff {dict : Option (Dict κ α)} {held : Dict κ α} :
    given dict = some held ↔ dict = some held ∧ held ≠ ∅ := by
  rw [given, Option.filter_eq_some_iff, Bool.not_eq_true', ← Bool.not_eq_true,
    isEmpty_iff]

theorem getD_of_given_eq_none {dict : Option (Dict κ α)}
    (empty : given dict = none) : dict.getD ∅ = ∅ := by
  cases dict with
  | none => rfl
  | some held =>
      rcases Classical.em (held = ∅) with same | differ
      · exact same
      · rw [given_eq_some_iff.mpr ⟨rfl, differ⟩] at empty
        cases empty

/-! Replacing values and dropping keys. -/

def map (f : κ → α → β) (dict : Dict κ α) : Dict κ β where
  entries := dict.entries.map fun entry => (entry.1, f entry.1 entry.2)
  nodup := by
    have same : (dict.entries.map fun entry => (entry.1, f entry.1 entry.2)).map
        Prod.fst = dict.keys := by
      simp [keys]
    rw [same]
    exact dict.nodup

/-- The entries whose key and value pass a test. -/
def filter (keep : κ → α → Bool) (dict : Dict κ α) : Dict κ α where
  entries := dict.entries.filter fun entry => keep entry.1 entry.2
  nodup := (List.filter_sublist.map Prod.fst).nodup dict.nodup

@[simp] theorem entries_map (f : κ → α → β) (dict : Dict κ α) :
    (dict.map f).entries =
      dict.entries.map fun entry => (entry.1, f entry.1 entry.2) := rfl

@[simp] theorem keys_map (f : κ → α → β) (dict : Dict κ α) :
    (dict.map f).keys = dict.keys := by
  simp [keys]

@[simp] theorem entries_filter (keep : κ → α → Bool) (dict : Dict κ α) :
    (dict.filter keep).entries =
      dict.entries.filter fun entry => keep entry.1 entry.2 := rfl

theorem map_map {γ : Type} (f : κ → α → β) (g : κ → β → γ)
    (dict : Dict κ α) :
    (dict.map f).map g = dict.map fun key value => g key (f key value) := by
  apply ext
  simp

@[simp] theorem map_self (dict : Dict κ α) :
    (dict.map fun _ value => value) = dict := by
  apply ext
  simp

instance : Membership κ (Dict κ α) := ⟨fun dict key => key ∈ dict.keys⟩

theorem mem_iff_keys {key : κ} {dict : Dict κ α} :
    key ∈ dict ↔ key ∈ dict.keys := Iff.rfl

@[simp] theorem not_mem_empty (key : κ) : key ∉ (∅ : Dict κ α) := by
  simp [mem_iff_keys]

@[simp] theorem mem_map_iff {key : κ} {f : κ → α → β} {dict : Dict κ α} :
    key ∈ dict.map f ↔ key ∈ dict := by
  simp [mem_iff_keys]

section

variable [DecidableEq κ]

def get? (dict : Dict κ α) (key : κ) : Option α := dict.entries.lookup key

def contains (dict : Dict κ α) (key : κ) : Bool := decide (key ∈ dict.keys)

instance (key : κ) (dict : Dict κ α) : Decidable (key ∈ dict) :=
  inferInstanceAs (Decidable (key ∈ dict.keys))

@[simp] theorem contains_iff {key : κ} {dict : Dict κ α} :
    dict.contains key = true ↔ key ∈ dict := by
  simp [contains, mem_iff_keys]

@[simp] theorem get?_empty (key : κ) : (∅ : Dict κ α).get? key = none := rfl

theorem get?_eq_some_iff {dict : Dict κ α} {key : κ} {value : α} :
    dict.get? key = some value ↔ (key, value) ∈ dict.entries := by
  obtain ⟨entries, nodup⟩ := dict
  simp only [get?]
  induction entries with
  | nil => simp
  | cons head tail induction =>
      obtain ⟨headKey, headValue⟩ := head
      simp only [List.map_cons, List.nodup_cons] at nodup
      rw [List.lookup_cons]
      by_cases same : key = headKey
      · subst same
        have absent : (key, value) ∉ tail := fun member =>
          nodup.1 (List.mem_map.mpr ⟨(key, value), member, rfl⟩)
        simp only [beq_self_eq_true, Option.some.injEq, List.mem_cons,
          Prod.mk.injEq, true_and, absent, or_false]
        exact eq_comm
      · simp only [beq_eq_false_iff_ne.mpr same, List.mem_cons,
          Prod.mk.injEq, same, false_and, false_or]
        exact induction nodup.2

theorem get?_eq_none_iff {dict : Dict κ α} {key : κ} :
    dict.get? key = none ↔ key ∉ dict := by
  simp only [get?, List.lookup_eq_none_iff, mem_iff_keys, keys, List.mem_map,
    not_exists, not_and, bne_iff_ne, ne_eq]
  constructor
  · intro absent entry member same
    exact absent entry member same.symm
  · intro absent entry member same
    exact absent entry member same.symm

theorem get?_isSome_iff {dict : Dict κ α} {key : κ} :
    (dict.get? key).isSome = true ↔ key ∈ dict := by
  rw [Option.isSome_iff_ne_none, ne_eq, get?_eq_none_iff, not_not]

theorem mem_of_get? {dict : Dict κ α} {key : κ} {value : α}
    (found : dict.get? key = some value) : key ∈ dict :=
  get?_isSome_iff.mp (by rw [found]; rfl)

theorem exists_of_mem {dict : Dict κ α} {key : κ} (member : key ∈ dict) :
    ∃ value, dict.get? key = some value :=
  Option.isSome_iff_exists.mp (get?_isSome_iff.mpr member)

theorem mem_iff_exists {dict : Dict κ α} {key : κ} :
    key ∈ dict ↔ ∃ value, (key, value) ∈ dict.entries := by
  simp only [← get?_eq_some_iff]
  exact ⟨exists_of_mem, fun ⟨_, found⟩ => mem_of_get? found⟩

@[simp] theorem get?_map (f : κ → α → β) (dict : Dict κ α) (key : κ) :
    (dict.map f).get? key = (dict.get? key).map (f key) := by
  cases found : dict.get? key with
  | none =>
      rw [Option.map_none, get?_eq_none_iff, mem_map_iff]
      exact get?_eq_none_iff.mp found
  | some value =>
      rw [Option.map_some, get?_eq_some_iff, entries_map, List.mem_map]
      exact ⟨(key, value), get?_eq_some_iff.mp found, rfl⟩

theorem get?_filter (keep : κ → α → Bool) (dict : Dict κ α) (key : κ) :
    (dict.filter keep).get? key = (dict.get? key).filter (keep key) := by
  apply Option.ext
  intro value
  simp [get?_eq_some_iff, Option.filter_eq_some_iff, List.mem_filter]

theorem entry_unique {dict : Dict κ α} {left right : κ × α}
    (leftMember : left ∈ dict.entries) (rightMember : right ∈ dict.entries)
    (same : left.1 = right.1) : left = right := by
  have leftFound := get?_eq_some_iff.mpr leftMember
  have rightFound := get?_eq_some_iff.mpr rightMember
  rw [same, rightFound] at leftFound
  exact Prod.ext same (Option.some.inj leftFound).symm

theorem find?_entries (dict : Dict κ α) (keep : κ → α → Bool) (key : κ) :
    (dict.entries.find? fun entry => keep entry.1 entry.2 && entry.1 = key) =
      ((dict.get? key).filter (keep key)).map fun value => (key, value) := by
  cases found : (dict.get? key).filter (keep key) with
  | none =>
      rw [Option.map_none, List.find?_eq_none]
      intro entry member passes
      simp only [Bool.and_eq_true, decide_eq_true_eq] at passes
      obtain ⟨kept, rfl⟩ := passes
      rw [get?_eq_some_iff.mpr member, Option.filter_some, if_pos kept] at found
      cases found
  | some value =>
      rw [Option.filter_eq_some_iff] at found
      have exists_entry : (dict.entries.find? fun entry =>
          keep entry.1 entry.2 && entry.1 = key).isSome = true := by
        rw [List.find?_isSome]
        exact ⟨(key, value), get?_eq_some_iff.mp found.1, by simp [found.2]⟩
      obtain ⟨entry, first⟩ := Option.isSome_iff_exists.mp exists_entry
      have passes := List.find?_some first
      simp only [Bool.and_eq_true, decide_eq_true_eq] at passes
      obtain ⟨-, rfl⟩ := passes
      have same := get?_eq_some_iff.mpr (List.mem_of_find?_eq_some first)
      rw [first, Option.map_some, ← Option.some.inj (same.symm.trans found.1)]

/-! Setting and erasing one key. -/

def set (dict : Dict κ α) (key : κ) (value : α) : Dict κ α :=
  if present : key ∈ dict.keys then
    dict.map fun other old => if other = key then value else old
  else
    { entries := dict.entries ++ [(key, value)]
      nodup := by
        rw [List.map_append, List.nodup_append]
        refine ⟨dict.nodup, by simp, ?_⟩
        intro left leftMember right rightMember same
        simp only [List.map_cons, List.map_nil, List.mem_singleton]
          at rightMember
        subst rightMember
        exact present (same ▸ leftMember) }

/-- Set a key that has a value. -/
def setSome (dict : Dict κ α) (key : κ) : Option α → Dict κ α
  | none => dict
  | some value => dict.set key value

def erase (dict : Dict κ α) (key : κ) : Dict κ α :=
  dict.filter fun other _ => other ≠ key

theorem set_of_mem {dict : Dict κ α} {key : κ} (member : key ∈ dict)
    (value : α) :
    dict.set key value =
      dict.map fun other old => if other = key then value else old := by
  rw [set, dif_pos (mem_iff_keys.mp member)]

theorem entries_set_of_not_mem {dict : Dict κ α} {key : κ}
    (absent : key ∉ dict) (value : α) :
    (dict.set key value).entries = dict.entries ++ [(key, value)] := by
  rw [set, dif_neg (mt mem_iff_keys.mpr absent)]

theorem get?_set (dict : Dict κ α) (key other : κ) (value : α) :
    (dict.set key value).get? other =
      if other = key then some value else dict.get? other := by
  by_cases member : key ∈ dict
  · rw [set_of_mem member, get?_map]
    by_cases same : other = key
    · subst same
      obtain ⟨old, found⟩ := exists_of_mem member
      simp [found]
    · simp [same]
  · apply Option.ext
    intro found
    rw [get?_eq_some_iff, entries_set_of_not_mem member, List.mem_append,
      ← get?_eq_some_iff]
    by_cases same : other = key
    · subst same
      simp [get?_eq_none_iff.mpr member, eq_comm]
    · simp [same]

@[simp] theorem get?_set_self (dict : Dict κ α) (key : κ) (value : α) :
    (dict.set key value).get? key = some value := by
  simp [get?_set]

@[simp] theorem mem_set {dict : Dict κ α} {key other : κ} {value : α} :
    other ∈ dict.set key value ↔ other = key ∨ other ∈ dict := by
  rw [← get?_isSome_iff, get?_set, ← get?_isSome_iff]
  by_cases same : other = key <;> simp [same]

theorem keys_set_of_not_mem {dict : Dict κ α} {key : κ}
    (absent : key ∉ dict) (value : α) :
    (dict.set key value).keys = dict.keys ++ [key] := by
  simp [keys, entries_set_of_not_mem absent]

theorem keys_set_of_mem {dict : Dict κ α} {key : κ}
    (member : key ∈ dict) (value : α) :
    (dict.set key value).keys = dict.keys := by
  rw [set_of_mem member, keys_map]

theorem get?_erase (dict : Dict κ α) (key other : κ) :
    (dict.erase key).get? other =
      if other = key then none else dict.get? other := by
  rw [erase, get?_filter]
  by_cases same : other = key
  · cases dict.get? other <;> simp [same, Option.filter]
  · cases dict.get? other <;> simp [same, Option.filter]

theorem entries_foldl_erase (dict : Dict κ α) (keys : List κ) :
    (keys.foldl erase dict).entries =
      dict.entries.filter fun entry => entry.1 ∉ keys := by
  induction keys generalizing dict with
  | nil => simp
  | cons head tail induction =>
      rw [List.foldl_cons, induction, erase, entries_filter, List.filter_filter]
      refine List.filter_congr fun entry _ => ?_
      simp [Bool.and_comm]

theorem get?_foldl_erase (dict : Dict κ α) (keys : List κ) (key : κ) :
    (keys.foldl erase dict).get? key =
      if key ∈ keys then none else dict.get? key := by
  induction keys generalizing dict with
  | nil => simp
  | cons head tail induction =>
      rw [List.foldl_cons, induction, get?_erase]
      rcases eq_or_ne key head with same | differ
      · simp [same]
      · simp [differ]

@[simp] theorem mem_erase {dict : Dict κ α} {key other : κ} :
    other ∈ dict.erase key ↔ other ≠ key ∧ other ∈ dict := by
  rw [← get?_isSome_iff, get?_erase, ← get?_isSome_iff]
  by_cases same : other = key <;> simp [same]

/-! Setting every entry of another dictionary. -/

def update (dict : Dict κ α) (other : Dict κ α) : Dict κ α :=
  other.entries.foldl (fun dict entry => dict.set entry.1 entry.2) dict

/-- A dictionary built from pairs; a later pair with the same key wins. -/
def ofList (pairs : List (κ × α)) : Dict κ α :=
  pairs.foldl (fun dict entry => dict.set entry.1 entry.2) ∅

private theorem get?_foldl_set (pairs : List (κ × α))
    (nodup : (pairs.map Prod.fst).Nodup) (dict : Dict κ α) (key : κ) :
    (pairs.foldl (fun dict entry => dict.set entry.1 entry.2) dict).get? key =
      (pairs.lookup key).or (dict.get? key) := by
  induction pairs generalizing dict with
  | nil => simp
  | cons head tail induction =>
      simp only [List.map_cons, List.nodup_cons] at nodup
      rw [List.foldl_cons, induction nodup.2, get?_set, List.lookup_cons]
      by_cases same : key = head.1
      · have absent : tail.lookup key = none := by
          rw [List.lookup_eq_none_iff]
          intro entry member
          have distinct : entry.1 ≠ head.1 := fun equal =>
            nodup.1 (equal ▸ List.mem_map_of_mem member)
          simpa [same] using Ne.symm distinct
        rw [absent]
        simp [same]
      · simp [same, beq_eq_false_iff_ne.mpr same]

theorem get?_foldl_set_of_not_mem {pairs : List (κ × α)} {key : κ}
    (absent : key ∉ pairs.map Prod.fst) (dict : Dict κ α) :
    (pairs.foldl (fun dict entry => dict.set entry.1 entry.2) dict).get? key =
      dict.get? key := by
  induction pairs generalizing dict with
  | nil => rfl
  | cons head tail induction =>
      obtain ⟨differ, absent⟩ := List.ne_and_not_mem_of_not_mem_cons absent
      rw [List.foldl_cons, induction absent, get?_set, if_neg differ]

theorem get?_update (dict other : Dict κ α) (key : κ) :
    (dict.update other).get? key = (other.get? key).or (dict.get? key) :=
  get?_foldl_set other.entries other.nodup dict key

@[simp] theorem mem_update {dict other : Dict κ α} {key : κ} :
    key ∈ dict.update other ↔ key ∈ other ∨ key ∈ dict := by
  rw [← get?_isSome_iff, get?_update, ← get?_isSome_iff, ← get?_isSome_iff]
  simp

@[simp] theorem update_empty (dict : Dict κ α) : dict.update ∅ = dict := rfl

/-! Setting what is already held. -/

theorem set_of_held {dict : Dict κ α} {key : κ} {value : α}
    (held : dict.get? key = some value) : dict.set key value = dict := by
  have member := mem_of_get? held
  rw [set_of_mem member]
  apply ext
  rw [entries_map]
  refine (List.map_congr_left fun entry listed => ?_).trans (List.map_id _)
  by_cases same : entry.1 = key
  · have own := get?_eq_some_iff.mpr listed
    rw [same, held] at own
    rw [if_pos same, Option.some.inj own]
    rfl
  · rw [if_neg same]
    rfl

theorem update_of_held {dict other : Dict κ α}
    (held : ∀ entry ∈ other.entries, dict.get? entry.1 = some entry.2) :
    dict.update other = dict := by
  unfold update
  generalize other.entries = entries at held
  induction entries with
  | nil => rfl
  | cons head tail induction =>
      obtain ⟨first, rest⟩ := List.forall_mem_cons.mp held
      rw [List.foldl_cons, set_of_held first]
      exact induction rest

theorem update_update (dict other : Dict κ α) :
    (dict.update other).update other = dict.update other := by
  apply update_of_held
  intro entry listed
  rw [get?_update, get?_eq_some_iff.mpr listed]
  rfl

private theorem mem_of_get?_foldl_set {pairs : List (κ × α)}
    {dict : Dict κ α} {key : κ} {value : α}
    (found : (pairs.foldl (fun dict entry => dict.set entry.1 entry.2)
      dict).get? key = some value) :
    (key, value) ∈ pairs ∨ dict.get? key = some value := by
  induction pairs generalizing dict with
  | nil => exact .inr found
  | cons head tail induction =>
      rcases induction found with member | found
      · exact .inl (List.mem_cons_of_mem head member)
      · rw [get?_set] at found
        split at found
        case isTrue same =>
          cases found
          exact .inl (same ▸ List.mem_cons_self)
        case isFalse => exact .inr found

theorem mem_of_get?_ofList {pairs : List (κ × α)} {key : κ} {value : α}
    (found : (ofList pairs).get? key = some value) : (key, value) ∈ pairs := by
  rcases mem_of_get?_foldl_set found with member | found
  · exact member
  · simp at found

theorem ofList_append (pairs : List (κ × α)) (entry : κ × α) :
    ofList (pairs ++ [entry]) = (ofList pairs).set entry.1 entry.2 := by
  simp [ofList, List.foldl_append]

theorem mem_ofList_iff {pairs : List (κ × α)} {key : κ} :
    key ∈ ofList pairs ↔ key ∈ pairs.map Prod.fst := by
  induction pairs using List.reverseRecOn with
  | nil => simp [ofList]
  | append_singleton pairs entry induction =>
      rw [ofList_append, mem_set, induction]
      simp [or_comm]

/-- The last pair with a key is the one that counts. -/
theorem get?_ofList (pairs : List (κ × α)) (key : κ) :
    (ofList pairs).get? key =
      ((pairs.filter fun entry => entry.1 = key).getLast?).map Prod.snd := by
  induction pairs using List.reverseRecOn with
  | nil => rfl
  | append_singleton pairs entry induction =>
      rw [ofList_append, get?_set, List.filter_append]
      by_cases same : entry.1 = key
      · simp [same]
      · simp [same, Ne.symm same, induction]

@[simp] theorem ofList_entries (dict : Dict κ α) :
    ofList dict.entries = dict := by
  have prefixes : ∀ (rest done : List (κ × α))
      (nodup : ((done ++ rest).map Prod.fst).Nodup)
      (nodupDone : (done.map Prod.fst).Nodup),
      (rest.foldl (fun dict entry => dict.set entry.1 entry.2)
        (⟨done, nodupDone⟩ : Dict κ α)).entries = done ++ rest := by
    intro rest
    induction rest with
    | nil => simp
    | cons head tail induction =>
        intro done nodup nodupDone
        have absent : head.1 ∉ (⟨done, nodupDone⟩ : Dict κ α) := by
          rw [List.map_append, List.nodup_append] at nodup
          exact fun member => nodup.2.2 head.1 member head.1 (by simp) rfl
        have step : (⟨done, nodupDone⟩ : Dict κ α).set head.1 head.2 =
            ⟨done ++ [head], by
              refine List.Nodup.sublist ?_ nodup
              simp⟩ := by
          apply ext
          exact entries_set_of_not_mem absent head.2
        rw [List.foldl_cons, step, induction (done ++ [head])]
        · simp
        · simpa using nodup
  apply ext
  exact prefixes dict.entries [] (by simpa using dict.nodup) List.nodup_nil

/-- Dropping keys commutes with an update that sets none of them, in the order
of the entries too. -/
theorem filter_update {keep : κ → Bool} {dict other : Dict κ α}
    (kept : ∀ key ∈ other, keep key = true) :
    (dict.update other).filter (fun key _ => keep key) =
      (dict.filter fun key _ => keep key).update other := by
  have commutes : ∀ (pairs : List (κ × α)),
      (∀ entry ∈ pairs, keep entry.1 = true) → ∀ dict : Dict κ α,
      (pairs.foldl (fun dict entry => dict.set entry.1 entry.2) dict).filter
          (fun key _ => keep key) =
        pairs.foldl (fun dict entry => dict.set entry.1 entry.2)
          (dict.filter fun key _ => keep key) := by
    intro pairs
    induction pairs with
    | nil => simp
    | cons head tail induction =>
        intro all dict
        rw [List.foldl_cons, List.foldl_cons,
          induction fun entry member => all entry (List.mem_cons_of_mem _ member)]
        congr 1
        have keepHead := all head (by simp)
        by_cases member : head.1 ∈ dict
        · have memberFilter : head.1 ∈ dict.filter fun key _ => keep key := by
            obtain ⟨value, found⟩ := exists_of_mem member
            rw [← get?_isSome_iff, get?_filter, found]
            simp [Option.filter, keepHead]
          rw [set_of_mem member, set_of_mem memberFilter]
          apply ext
          simp [List.filter_map, Function.comp_def]
        · have absentFilter : head.1 ∉ dict.filter fun key _ => keep key := by
            rw [← get?_eq_none_iff, get?_filter, get?_eq_none_iff.mpr member]
            rfl
          apply ext
          rw [entries_filter, entries_set_of_not_mem member,
            entries_set_of_not_mem absentFilter, List.filter_append]
          simp [keepHead]
  exact commutes other.entries
    (fun entry member => kept entry.1 (mem_iff_exists.mpr ⟨entry.2, member⟩))
    dict

/-! Dictionaries with the same entries in any order, which `==` identifies. -/

def Same (left right : Dict κ α) : Prop :=
  ∀ key, left.get? key = right.get? key

theorem Same.refl (dict : Dict κ α) : dict.Same dict := fun _ => rfl

theorem Same.symm {left right : Dict κ α} (same : left.Same right) :
    right.Same left := fun key => (same key).symm

theorem Same.trans {first second third : Dict κ α}
    (left : first.Same second) (right : second.Same third) :
    first.Same third := fun key => (left key).trans (right key)

theorem same_iff_perm {left right : Dict κ α} :
    left.Same right ↔ left.entries.Perm right.entries := by
  constructor
  · intro same
    have nodup : ∀ dict : Dict κ α, dict.entries.Nodup :=
      fun dict => dict.nodup.of_map
    rw [List.perm_ext_iff_of_nodup (nodup left) (nodup right)]
    rintro ⟨key, value⟩
    rw [← get?_eq_some_iff, ← get?_eq_some_iff, same key]
  · intro perm key
    apply Option.ext
    intro value
    rw [get?_eq_some_iff, get?_eq_some_iff]
    exact perm.mem_iff

end

end Dict
