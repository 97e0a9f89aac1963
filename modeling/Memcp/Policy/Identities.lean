import Memcp.Policy.Sessions
import Mathlib.Data.Prod.Lex

/-!
The identity of a memory, its content and the text of its scope, and the index
of a space by identity.  An import that reads the whole space begins with an
exact index and keeps it exact.
-/

namespace Memcp

open Python Interaction

/-! Sorted pairs. -/

theorem pairLe_iff (left right : String × String) :
    pairLe left right = true ↔ toLex left ≤ toLex right := by
  rw [Prod.Lex.toLex_le_toLex]
  simp [pairLe]

/-- Sorting pairs forgets the order they come in, and nothing else. -/
theorem insertionSort_pairs_eq_iff {left right : List (String × String)} :
    left.insertionSort (fun a b => pairLe a b) =
        right.insertionSort (fun a b => pairLe a b) ↔ left.Perm right := by
  let le : String × String → String × String → Prop := fun a b => pairLe a b = true
  have total : Std.Total le := ⟨fun a b => by
    simpa only [le, pairLe_iff] using le_total (toLex a) (toLex b)⟩
  have trans : IsTrans _ le := ⟨fun a b c => by
    simpa only [le, pairLe_iff] using le_trans⟩
  have antisymm : Std.Antisymm le := ⟨fun a b first second => by
    simp only [le, pairLe_iff] at first second
    exact toLex.injective (le_antisymm first second)⟩
  constructor
  · intro same
    exact (List.perm_insertionSort le left).symm.trans
      ((List.Perm.of_eq same).trans (List.perm_insertionSort le right))
  · intro perm
    apply List.Perm.eq_of_pairwise' (List.pairwise_insertionSort le left)
      (List.pairwise_insertionSort le right)
    exact (List.perm_insertionSort le left).trans
      (perm.trans (List.perm_insertionSort le right).symm)

/-! The identity of a scope. -/

/-- No value is null, so each key takes part in the identity. -/
def Concrete (scope : Option (Dict String Json)) : Prop :=
  ∀ held, scope = some held → ∀ entry ∈ held.entries, entry.2 ≠ .null

/-- The identity of a stored scope. -/
def textKey (scope : Dict String String) : ScopeKey :=
  scope.entries.insertionSort fun left right => pairLe left right

theorem textKey_eq_iff {left right : Dict String String} :
    textKey left = textKey right ↔ left.Same right :=
  insertionSort_pairs_eq_iff.trans Dict.same_iff_perm.symm

theorem scopeKey_of_concrete {unicode : Unicode} {scope : Option (Dict String Json)}
    (concrete : Concrete scope) :
    scopeKey unicode scope = textKey (scopeAsText unicode (scope.getD ∅)) := by
  cases scope with
  | none => rfl
  | some scope =>
      have kept : (scope.filter fun _ value => value ≠ .null) = scope := by
        apply Dict.ext
        exact List.filter_eq_self.mpr fun entry member => by
          simpa using concrete scope rfl entry member
      simp only [scopeKey, textKey, kept, scopeAsText, Option.getD_some,
        Dict.entries_map]

theorem concrete_textScope (scope : Dict String String) :
    Concrete (some (textScope scope)) := by
  rintro _ ⟨⟩ entry member
  obtain ⟨held, -, rfl⟩ := List.mem_map.mp member
  exact nofun

@[simp] theorem scopeAsText_textScope (unicode : Unicode) (scope : Dict String String) :
    scopeAsText unicode (textScope scope) = scope := by
  apply Dict.ext
  simp only [scopeAsText, textScope, Dict.entries_map, List.map_map]
  exact List.map_id _

@[simp] theorem scopeKey_textScope (unicode : Unicode) (scope : Dict String String) :
    scopeKey unicode (some (textScope scope)) = textKey scope := by
  rw [scopeKey_of_concrete (concrete_textScope scope), Option.getD_some,
    scopeAsText_textScope]

/-! The identity of a memory. -/

theorem Item.identity_eq (unicode : Unicode) (item : Item) :
    item.identity unicode = (item.content, textKey item.scope) := by
  simp [Item.identity, dedupKey]

theorem Item.identity_eq_iff {unicode : Unicode} {item other : Item} :
    item.identity unicode = other.identity unicode ↔
      item.content = other.content ∧ item.scope.Same other.scope := by
  rw [Item.identity_eq, Item.identity_eq, Prod.mk.injEq, textKey_eq_iff]

namespace Import

variable {unicode : Unicode} {options : ImportOptions} {index : Nat}
  {entry : Dict String Json} {entries : List (Dict String Json)}
  {before after : Progress} {report : Report} {reports : List Report}

theorem identity_created {item : ImportItem} (concrete : Concrete item.scope)
    (given : Fresh) :
    (created unicode options index item given).identity unicode =
      dedupKey unicode item.content item.scope := by
  rw [Item.identity_eq, dedupKey, scopeKey_of_concrete concrete]
  rfl

theorem identity_overwritten {item : ImportItem} {now : String} {dup : Memory}
    {old : Item} (same : old.content = item.content) :
    (overwritten options index item now dup old).identity unicode =
      old.identity unicode := by
  rw [Item.identity_eq, Item.identity_eq, same]
  rfl

/-! The index. -/

/-- Each identity is known by the last memory that has it. -/
def Exact (unicode : Unicode) (userId : String) (progress : Progress) : Prop :=
  ∀ key, progress.existing.get? key =
    ((progress.items.filter fun item => item.identity unicode = key).getLast?).map
      (Item.memory userId none)

theorem exact_start (mode : options.onConflict ≠ .duplicate) {limit : Nat}
    {items : List Item} (whole : items.length ≤ limit) :
    Exact unicode options.userId (start unicode options limit items) := by
  intro key
  simp only [start, mode, if_false, List.take_of_length_le whole]
  exact get?_indexed options.userId items key

/-- The scopes read from the entries hold no null value. -/
def ReadsConcrete (unicode : Unicode) (options : ImportOptions)
    (entries : List (Dict String Json)) : Prop :=
  ∀ entry ∈ entries, ∀ item, readEntry unicode options entry = .ok item →
    Concrete item.scope

theorem Exact.held {userId : String} {progress : Progress} {key : DedupKey} {dup : Memory}
    {old : Item} (exact : Exact unicode userId progress)
    (ids : (progress.items.map Item.id).Nodup)
    (known : progress.existing.get? key = some dup)
    (found : Space.find dup.id progress.items = some old) :
    dup = old.memory userId none ∧ old ∈ progress.items ∧ old.identity unicode = key ∧
      (progress.items.filter fun item => item.identity unicode = key).getLast? =
        some old := by
  rw [exact key] at known
  obtain ⟨held, isLast, rfl⟩ := Option.map_eq_some_iff.mp known
  obtain ⟨member, identity⟩ := List.mem_filter.mp (List.mem_of_getLast? isLast)
  obtain rfl : held = old :=
    Option.some.inj ((find_of_mem ids member).symm.trans found)
  exact ⟨rfl, member, of_decide_eq_true identity, isLast⟩

theorem identity_kept {item : ImportItem} {now : String} {dup : Memory} {old : Item}
    {items : List Item} (ids : (items.map Item.id).Nodup) (member : old ∈ items)
    (content : old.content = item.content) : ∀ other ∈ items,
      (if other.id = old.id then overwritten options index item now dup old
        else other).identity unicode = other.identity unicode := by
  intro other otherMember
  split
  · rename_i same
    have twice := List.inj_on_of_nodup_map ids otherMember member same
    rw [twice]
    exact identity_overwritten content
  · rfl

theorem Exact.step (exact : Exact unicode options.userId before)
    (ids : (before.items.map Item.id).Nodup)
    (step : Step unicode options index entry before report after)
    (concrete : ∀ item, readEntry unicode options entry = .ok item →
      Concrete item.scope) :
    Exact unicode options.userId after := by
  cases step with
  | failed | skipped => exact exact
  | @updated item dup old now read known mode found =>
      obtain ⟨rfl, member, identity, isLast⟩ := exact.held ids known found
      let changed := overwritten options index item now (old.memory options.userId none) old
      have kept : ∀ other ∈ before.items,
          (if other.id = old.id then changed else other).identity unicode =
            other.identity unicode :=
        identity_kept ids member (congrArg Prod.fst identity)
      intro key
      have id_eq : (old.memory options.userId none).id = old.id := rfl
      simp only [List.filter_map, id_eq]
      have filtered : (before.items.filter ((fun item : Item =>
            decide (item.identity unicode = key)) ∘ fun other =>
              if other.id = old.id then changed else other)) =
          before.items.filter fun item => item.identity unicode = key :=
        List.filter_congr fun other otherMember => by
          simp only [Function.comp_apply, kept other otherMember]
      rw [filtered, List.getLast?_map, Dict.get?_set, exact key]
      split
      · rename_i same
        rw [same, isLast]
        simp [Item.memory]
      · rename_i differ
        cases lastOther : (before.items.filter fun item =>
            item.identity unicode = key).getLast? with
        | none => rfl
        | some other =>
            obtain ⟨otherMember, otherIdentity⟩ :=
              List.mem_filter.mp (List.mem_of_getLast? lastOther)
            have apart : other.id ≠ old.id := fun same => by
              have twice := List.inj_on_of_nodup_map ids otherMember member same
              rw [twice, decide_eq_true_eq, identity] at otherIdentity
              exact differ otherIdentity.symm
            simp [apart]
  | @created item given read unknown flat unused =>
      intro key
      have identity := @identity_created unicode options index item (concrete item read)
        given
      simp only [Dict.get?_set, List.filter_append, List.filter_singleton, identity]
      by_cases same : key = dedupKey unicode item.content item.scope
      · simp [same]
      · rw [if_neg same, exact key]
        simp [Ne.symm same]

theorem Exact.run (exact : Exact unicode options.userId before)
    (ids : (before.items.map Item.id).Nodup)
    (run : Run unicode options index entries before reports after)
    (concrete : ReadsConcrete unicode options entries) :
    Exact unicode options.userId after := by
  induction run with
  | nil => exact exact
  | cons step rest induction =>
      have first := concrete _ List.mem_cons_self
      exact induction (exact.step ids step first) (step.ids ids) fun entry member =>
        concrete entry (List.mem_cons_of_mem _ member)

theorem Run.ids (run : Run unicode options index entries before reports after)
    (ids : (before.items.map Item.id).Nodup) : (after.items.map Item.id).Nodup := by
  induction run with
  | nil => exact ids
  | cons step rest induction => exact induction (step.ids ids)

/-! The space check on what is read. -/

/-- Every memory passes the space check. -/
def Passing (userId : String) (items : List Item) : Prop :=
  ∀ item ∈ items, item.system.spaceIs userId = true

theorem readable_of_passing {items : List Item} (limit : Nat)
    (passing : Passing options.userId items) :
    readable options limit items = .ok () := by
  unfold readable
  split
  · rfl
  · refine map_eq_ok.mpr ⟨_, checkSpaces_eq_ok.mpr ⟨rfl, ?_⟩, rfl⟩
    intro memory member
    obtain ⟨item, read, rfl⟩ := List.mem_map.mp member
    simpa [Memory.inSpace, Item.memory] using passing item (List.mem_of_mem_take read)

theorem passing_of_readable {items : List Item} {limit : Nat}
    (mode : options.onConflict ≠ .duplicate) (whole : items.length ≤ limit)
    (read : readable options limit items = .ok ()) :
    Passing options.userId items := by
  unfold readable at read
  rw [if_neg mode] at read
  obtain ⟨checked, passed, -⟩ := map_eq_ok.mp read
  obtain ⟨rfl, passes⟩ := checkSpaces_eq_ok.mp passed
  intro item member
  have taken : items.take (limit + 1) = items :=
    List.take_of_length_le (Nat.le_succ_of_le whole)
  rw [taken] at passes
  simpa [Memory.inSpace, Item.memory] using passes _ (List.mem_map_of_mem member)

theorem Passing.run (stamped : Stamped options)
    (passing : Passing options.userId before.items)
    (known : Known options.userId before) (ids : (before.items.map Item.id).Nodup)
    (run : Run unicode options index entries before reports after) :
    Passing options.userId after.items := by
  refine run.forall known ids ?_ ?_ passing
  · intro index entry item given _
    simpa [Memory.inSpace, Item.memory] using
      @created_inSpace unicode options stamped index item given
  · intro index entry item now old _ _
    simpa [Memory.inSpace, Item.memory] using
      @overwritten_inSpace options stamped index item now _ old

end Import

/-! The scopes policy reads. -/

theorem validateScopeValue_concrete {unicode : Unicode} {key : String}
    {value kept : Json} (accepted : validateScopeValue unicode key value = .ok kept) :
    kept ≠ .null := by
  by_cases isText : ∃ text, value = .str text
  · obtain ⟨text, rfl⟩ := isText
    obtain ⟨-, -, -, rest⟩ := validateScopeValue_str.mp accepted
    split at rest
    · obtain rfl := rest.2
      intro absurd
      cases absurd
    · obtain rfl := rest.2.2
      intro absurd
      cases absurd
  · obtain ⟨-, number, rfl⟩ :=
      (validateScopeValue_number fun text same => isText ⟨text, same⟩).mp accepted
    rintro rfl
    cases number

theorem validateScope_concrete {unicode : Unicode} {given : Json}
    {allowedKeys : List String} {scope : Option (Dict String Json)}
    (accepted : validateScope unicode given allowedKeys = .ok scope) :
    Concrete scope := by
  rintro held rfl entry member
  unfold validateScope at accepted
  split at accepted
  · cases accepted
  · split at accepted
    · cases accepted
    · obtain ⟨kept, dict, same⟩ := map_eq_ok.mp accepted
      obtain rfl := Option.some.inj same
      obtain ⟨forall₂, -⟩ := validateScopeDict_eq_ok.mp dict
      obtain ⟨original, -, -, value⟩ := List.Forall₂.exists_left forall₂ member
      exact validateScopeValue_concrete value

theorem readsConcrete_policy (unicode : Unicode) (key : Key) (mode : OnConflict)
    (entries : List (Dict String Json)) :
    Import.ReadsConcrete unicode ((localPolicy unicode).importOptions key mode)
      entries := by
  intro entry _ item read
  obtain ⟨given, valid⟩ := (readEntry_eq_ok read).scope
  exact validateScope_concrete valid

end Memcp
