import Memcp.Backends.Mem0.Adapter
import Memcp.Data.Loop
import Mathlib.Data.List.Sort
import Mathlib.Algebra.BigOperators.Ring.Finset

/-!
The entity rows count the memories of each agent and of each run: one row a
value, each memory in the rows of the values it carries.
-/

namespace List

variable {α β : Type} [DecidableEq β]

theorem sum_indicator_eq_count (values : List β) (value : β) :
    (values.map fun other => if value = other then 1 else 0).sum = values.count value := by
  induction values with
  | nil => rfl
  | cons head tail induction =>
      rw [map_cons, sum_cons, induction, count_cons, Nat.add_comm]
      simp only [beq_iff_eq, @eq_comm _ head]

/-- Items counted by a value they have, over all the values. -/
theorem sum_countP_eq {f : α → Option β} {values : List β} (nodup : values.Nodup)
    (items : List α) (covers : ∀ item ∈ items, ∀ value, f item = some value → value ∈ values) :
    (values.map fun value => items.countP fun item => f item = some value).sum =
      items.countP fun item => (f item).isSome := by
  induction items with
  | nil => simp
  | cons item items induction =>
      obtain ⟨first, rest⟩ := forall_mem_cons.mp covers
      have own : (values.map fun value => if f item = some value then 1 else 0).sum =
          if (f item).isSome then 1 else 0 := by
        cases given : f item with
        | none => simp
        | some value =>
            simp only [Option.some.injEq]
            rw [sum_indicator_eq_count, count_eq_one_of_mem nodup (first value given)]
            rfl
      simp only [countP_cons, decide_eq_true_eq]
      rw [sum_map_add, induction rest, own]

end List

namespace Memcp.Mem0

open Python

variable {unicode : Unicode} {timestamps : Timestamps}

/-! The groups a memory counts in. -/

/-- The value a memory has of a scope key, as text, unless it is empty. -/
def entityId (unicode : Unicode) (field : String) (memory : Memory) : Option String :=
  (memory.scope.get? field).bind fun value =>
    if value.truthy then some (value.text unicode) else none

theorem entityGroups_eq (unicode : Unicode) (memory : Memory) :
    entityGroups unicode memory =
      ((entityId unicode "agent_id" memory).map fun id => ("agent", id)).toList ++
        ((entityId unicode "run_id" memory).map fun id => ("run", id)).toList := by
  unfold entityGroups entityId
  rw [List.filterMap_cons, List.filterMap_cons, List.filterMap_nil]
  dsimp only
  generalize memory.scope.get? "agent_id" = agent
  generalize memory.scope.get? "run_id" = run
  have shown : ∀ (entityType : String) (value : Json),
      (if value.truthy then some (entityType, value.text unicode) else none) =
        (if value.truthy then some (value.text unicode) else none).map fun id =>
          (entityType, id) := by
    intro entityType value
    split <;> rfl
  cases agent with
  | none =>
      cases run with
      | none => rfl
      | some value =>
          simp only [Option.bind_some, shown]
          generalize (if value.truthy then some (value.text unicode) else none) = id
          cases id <;> rfl
  | some value =>
      simp only [Option.bind_some, shown]
      generalize (if value.truthy then some (value.text unicode) else none) = id
      cases run with
      | none => cases id <;> rfl
      | some value =>
          simp only [Option.bind_some]
          generalize (if value.truthy then some (value.text unicode) else none) = id'
          cases id <;> cases id' <;> rfl

/-- The scope key each type of entity is under. -/
def entityFields : List (String × String) := [("agent", "agent_id"), ("run", "run_id")]

theorem mem_entityGroups {memory : Memory} {entityType id : String} :
    (entityType, id) ∈ entityGroups unicode memory ↔
      ∃ field, (entityType, field) ∈ entityFields ∧
        entityId unicode field memory = some id := by
  rw [entityGroups_eq, List.mem_append]
  simp only [Option.mem_toList, Option.map_eq_some_iff, Prod.mk.injEq,
    entityFields, List.mem_cons, List.not_mem_nil, or_false]
  constructor
  · rintro (⟨_, given, rfl, rfl⟩ | ⟨_, given, rfl, rfl⟩)
    · exact ⟨_, .inl ⟨rfl, rfl⟩, given⟩
    · exact ⟨_, .inr ⟨rfl, rfl⟩, given⟩
  · rintro ⟨_, ⟨rfl, rfl⟩ | ⟨rfl, rfl⟩, given⟩
    · exact .inl ⟨id, given, rfl, rfl⟩
    · exact .inr ⟨id, given, rfl, rfl⟩

theorem entityGroups_nodup (memory : Memory) : (entityGroups unicode memory).Nodup := by
  rw [entityGroups_eq]
  cases entityId unicode "agent_id" memory <;> cases entityId unicode "run_id" memory <;>
    simp

/-! The grouping loop. -/

/-- The memories that count in a group. -/
def carrying (unicode : Unicode) (memories : List Memory) (key : String × String) :
    List Memory :=
  memories.filter fun memory => key ∈ entityGroups unicode memory

/-- `groups.setdefault(key, []).append(memory)`. -/
def addToGroup (memory : Memory) (groups : Dict (String × String) (List Memory))
    (key : String × String) : Dict (String × String) (List Memory) :=
  groups.set key ((groups.get? key).getD [] ++ [memory])

def grouped (unicode : Unicode) (memories : List Memory) :
    Dict (String × String) (List Memory) :=
  memories.foldl (fun groups memory =>
    (entityGroups unicode memory).foldl (addToGroup memory) groups) ∅

theorem get?_addToGroup {memory : Memory} {keys : List (String × String)}
    (nodup : keys.Nodup) (groups : Dict (String × String) (List Memory))
    (key : String × String) :
    (keys.foldl (addToGroup memory) groups).get? key =
      if key ∈ keys then some ((groups.get? key).getD [] ++ [memory])
      else groups.get? key := by
  induction keys generalizing groups with
  | nil => rfl
  | cons head tail induction =>
      obtain ⟨absent, nodup⟩ := List.nodup_cons.mp nodup
      rw [List.foldl_cons, induction nodup, addToGroup, Dict.get?_set]
      by_cases same : key = head
      · simp [same, absent]
      · simp [same]

theorem get?_grouped (memories : List Memory) (key : String × String) :
    (grouped unicode memories).get? key =
      if carrying unicode memories key = [] then none
      else some (carrying unicode memories key) := by
  induction memories using List.reverseRecOn with
  | nil => rfl
  | append_singleton memories memory induction =>
      have step : carrying unicode (memories ++ [memory]) key =
          carrying unicode memories key ++
            if key ∈ entityGroups unicode memory then [memory] else [] := by
        simp [carrying, List.filter_append, List.filter_singleton]
      have before : ((grouped unicode memories).get? key).getD [] =
          carrying unicode memories key := by
        rw [induction]
        split
        · rename_i none
          exact none.symm
        · rfl
      rw [grouped, List.foldl_append, List.foldl_cons, List.foldl_nil, ← grouped,
        get?_addToGroup (entityGroups_nodup memory), before, step]
      split
      · simp
      · rw [induction, List.append_nil]

theorem mem_grouped {memories : List Memory} {key : String × String} :
    key ∈ grouped unicode memories ↔
      ∃ memory ∈ memories, key ∈ entityGroups unicode memory := by
  rw [← Dict.get?_isSome_iff, get?_grouped]
  have filled : carrying unicode memories key ≠ [] ↔
      ∃ memory ∈ memories, key ∈ entityGroups unicode memory := by
    simp [carrying, List.filter_eq_nil_iff]
  rw [← filled]
  split
  · rename_i none
    simp [none]
  · rename_i some
    simp [some]

/-! The earliest and the latest of some timestamps. -/

/-- A valid timestamp of the values that stands before every valid one, or
none where none is valid. -/
def IsFirst (timestamps : Timestamps) (before : timestamps.Time → timestamps.Time → Prop)
    (values : List String) : Option String → Prop
  | none => ∀ value ∈ values, timestamps.parse value = none
  | some first => first ∈ values ∧ ∃ time, timestamps.parse first = some time ∧
      ∀ value ∈ values, ∀ other, timestamps.parse value = some other → before time other

/-- The timestamps of some values with their text, in the order of both. -/
def dated (timestamps : Timestamps) (values : List (Option String)) :
    List (timestamps.Time ×ₗ String) :=
  values.filterMap fun value =>
    (timestamps.parse (value.getD "")).map fun time => toLex (time, value.getD "")

theorem mem_dated {values : List String} {time : timestamps.Time} {text : String} :
    toLex (time, text) ∈ dated timestamps (values.map some) ↔
      text ∈ values ∧ timestamps.parse text = some time := by
  simp only [dated, List.mem_filterMap, List.mem_map, Option.map_eq_some_iff]
  constructor
  · rintro ⟨_, ⟨value, member, rfl⟩, other, parsed, same⟩
    obtain ⟨rfl, rfl⟩ := Prod.mk.inj (toLex.injective same)
    exact ⟨member, parsed⟩
  · rintro ⟨member, parsed⟩
    exact ⟨some text, ⟨text, member, rfl⟩, time, parsed, rfl⟩

theorem isFirst_of_dated {before : timestamps.Time → timestamps.Time → Prop}
    {values : List String} {picked : Option (timestamps.Time ×ₗ String)}
    (nothing : picked = none → dated timestamps (values.map some) = [])
    (first : ∀ pair, picked = some pair → pair ∈ dated timestamps (values.map some) ∧
      ∀ other ∈ dated timestamps (values.map some),
        before (ofLex pair).1 (ofLex other).1) :
    IsFirst timestamps before values (picked.map fun pair => (ofLex pair).2) := by
  cases picked with
  | none =>
      intro value member
      rw [Option.eq_none_iff_forall_not_mem]
      intro time parsed
      have listed := mem_dated.mpr ⟨member, parsed⟩
      rw [nothing rfl] at listed
      cases listed
  | some pair =>
      obtain ⟨member, least⟩ := first pair rfl
      obtain ⟨listed, parsed⟩ := mem_dated.mp member
      refine ⟨listed, _, parsed, fun value held other parsed => ?_⟩
      exact least _ (mem_dated.mpr ⟨held, parsed⟩)

theorem earliest_isFirst (values : List String) :
    IsFirst timestamps (· ≤ ·) values
      (earliestAndLatest timestamps (values.map some)).1 := by
  apply isFirst_of_dated
  · exact List.min?_eq_none_iff.mp
  · intro pair least
    obtain ⟨member, least⟩ := List.min?_eq_some_iff.mp least
    exact ⟨member, fun other held => Prod.Lex.monotone_fst _ _ (least other held)⟩

theorem latest_isFirst (values : List String) :
    IsFirst timestamps (· ≥ ·) values
      (earliestAndLatest timestamps (values.map some)).2 := by
  apply isFirst_of_dated
  · exact List.max?_eq_none_iff.mp
  · intro pair greatest
    obtain ⟨member, greatest⟩ := List.max?_eq_some_iff.mp greatest
    exact ⟨member, fun other held => Prod.Lex.monotone_fst _ _ (greatest other held)⟩

/-! The rows. -/

/-- The time a memory was last changed, its creation where it never was. -/
def lastChange (memory : Memory) : String :=
  match memory.updatedAt with
  | none | some "" => memory.createdAt
  | some text => text

/-- A row of a group: its size, and the first and last of its times. -/
structure CountsGroup (timestamps : Timestamps) (group : List Memory)
    (key : String × String) (row : Dict String Json) : Prop where
  type : row.get? "type" = some (.str key.1)
  id : row.get? "id" = some (.str key.2)
  total : row.get? "total_memories" = some (.int group.length)
  created : ∃ created : Option String,
    row.get? "created_at" = some (created.elim .null .str) ∧
      IsFirst timestamps (· ≤ ·) (group.map Memory.createdAt) created
  updated : ∃ updated : Option String,
    row.get? "updated_at" = some (updated.elim .null .str) ∧
      IsFirst timestamps (· ≥ ·) (group.map lastChange) updated

/-- The groups in order. -/
def sortedGroups (unicode : Unicode) (memories : List Memory) : List (String × String) :=
  (grouped unicode memories).keys.insertionSort fun left right => toLex left ≤ toLex right

theorem mem_sortedGroups {memories : List Memory} {key : String × String} :
    key ∈ sortedGroups unicode memories ↔
      ∃ memory ∈ memories, key ∈ entityGroups unicode memory := by
  rw [sortedGroups, (List.perm_insertionSort _ _).mem_iff, ← Dict.mem_iff_keys, mem_grouped]

theorem sortedGroups_nodup (memories : List Memory) :
    (sortedGroups unicode memories).Nodup :=
  (List.perm_insertionSort _ _).nodup_iff.mpr (Dict.keys_nodup _)

theorem sortedGroups_increasing (memories : List Memory) :
    (sortedGroups unicode memories).Pairwise fun left right => toLex left < toLex right := by
  have total : Std.Total fun left right : String × String => toLex left ≤ toLex right :=
    ⟨fun left right => le_total _ _⟩
  have trans : IsTrans (String × String) fun left right => toLex left ≤ toLex right :=
    ⟨fun _ _ _ => le_trans⟩
  have sorted := List.pairwise_insertionSort
    (fun left right : String × String => toLex left ≤ toLex right)
    (grouped unicode memories).keys
  exact (sorted.and (sortedGroups_nodup memories)).imp fun ⟨ordered, distinct⟩ =>
    lt_of_le_of_ne ordered fun same => distinct (toLex.injective same)

/-- The row of a group, in mem0's shape. -/
def entityRow (timestamps : Timestamps) (key : String × String) (group : List Memory) :
    Dict String Json :=
  let created := (earliestAndLatest timestamps
    ((group.map Memory.createdAt).map some)).1
  let updated := (earliestAndLatest timestamps ((group.map lastChange).map some)).2
  Dict.ofList [
    ("id", .str key.2),
    ("type", .str key.1),
    ("total_memories", .int group.length),
    ("created_at", created.elim .null .str),
    ("updated_at", updated.elim .null .str)]

theorem entityRow_counts (key : String × String) (group : List Memory) :
    CountsGroup timestamps group key (entityRow timestamps key group) where
  type := by simp [entityRow, Dict.get?_ofList]
  id := by simp [entityRow, Dict.get?_ofList]
  total := by simp [entityRow, Dict.get?_ofList]
  created := ⟨_, by simp [entityRow, Dict.get?_ofList], earliest_isFirst _⟩
  updated := ⟨_, by simp [entityRow, Dict.get?_ofList], latest_isFirst _⟩

theorem entityRows_eq (memories : List Memory) :
    entityRows unicode timestamps memories =
      (sortedGroups unicode memories).map fun key =>
        entityRow timestamps key (carrying unicode memories key) := by
  unfold entityRows
  apply List.map_congr_left
  rintro ⟨entityType, id⟩ -
  have group : ((grouped unicode memories).get? (entityType, id)).getD [] =
      carrying unicode memories (entityType, id) := by
    rw [get?_grouped]
    split
    · rename_i none
      exact none.symm
    · rfl
  have group' := group
  unfold grouped addToGroup at group'
  simp only [group', entityRow, List.map_map, Function.comp_def]
  congr 1
  simp only [List.cons.injEq, Prod.mk.injEq, true_and, and_true]
  congr 3
  apply List.map_congr_left
  intro memory _
  unfold lastChange
  generalize memory.updatedAt = updatedAt
  cases updatedAt with
  | none => rfl
  | some text =>
      by_cases empty : text = ""
      · subst empty
        rfl
      · simp

/-! Each memory in the rows of its own values. -/

/-- The number a row counts. -/
def rowTotal (row : Dict String Json) : Int :=
  match row.get? "total_memories" with
  | some (.int total) => total
  | _ => 0

theorem mem_entityGroups_of_field {memory : Memory} {entityType field id : String}
    (named : (entityType, field) ∈ entityFields) :
    (entityType, id) ∈ entityGroups unicode memory ↔
      entityId unicode field memory = some id := by
  rw [mem_entityGroups]
  constructor
  · rintro ⟨other, named', given⟩
    have same : other = field := by
      simp only [entityFields, List.mem_cons, Prod.mk.injEq, List.not_mem_nil, or_false]
        at named named'
      rcases named with ⟨rfl, rfl⟩ | ⟨rfl, rfl⟩ <;> simpa using named'
    exact same ▸ given
  · intro given
    exact ⟨field, named, given⟩

theorem sum_rowTotal {entityType field : String} (named : (entityType, field) ∈ entityFields)
    (memories : List Memory) :
    (((entityRows unicode timestamps memories).filter fun row =>
        row.get? "type" = some (.str entityType)).map rowTotal).sum =
      (memories.countP fun memory => (entityId unicode field memory).isSome : Nat) := by
  have nodup : (((sortedGroups unicode memories).filter fun key => key.1 = entityType).map
      Prod.snd).Nodup := by
    refine ((sortedGroups_nodup memories).filter _).map_on ?_
    intro left leftMember right rightMember same
    have leftType := (List.mem_filter.mp leftMember).2
    have rightType := (List.mem_filter.mp rightMember).2
    simp only [decide_eq_true_eq] at leftType rightType
    exact Prod.ext (leftType.trans rightType.symm) same
  have covers : ∀ memory ∈ memories, ∀ id, entityId unicode field memory = some id →
      id ∈ ((sortedGroups unicode memories).filter fun key => key.1 = entityType).map
        Prod.snd := by
    intro memory member id given
    refine List.mem_map.mpr ⟨(entityType, id), List.mem_filter.mpr ⟨?_, by simp⟩, rfl⟩
    exact mem_sortedGroups.mpr
      ⟨memory, member, (mem_entityGroups_of_field named).mpr given⟩
  have counts : ∀ key ∈ (sortedGroups unicode memories).filter fun key =>
      key.1 = entityType,
      rowTotal (entityRow timestamps key (carrying unicode memories key)) =
        (memories.countP fun memory => entityId unicode field memory = some key.2 : Nat) := by
    rintro ⟨other, id⟩ member
    have same := (List.mem_filter.mp member).2
    simp only [decide_eq_true_eq] at same
    subst same
    rw [rowTotal, (@entityRow_counts timestamps _ _).total, carrying,
      ← List.countP_eq_length_filter]
    simp only [mem_entityGroups_of_field named]
  rw [← List.sum_countP_eq nodup memories covers, entityRows_eq, List.filter_map,
    List.map_map, List.map_map]
  have types : ((fun row : Dict String Json => decide (row.get? "type" =
      some (.str entityType))) ∘ fun key =>
        entityRow timestamps key (carrying unicode memories key)) =
      fun key => decide (key.1 = entityType) := by
    funext key
    simp only [Function.comp_apply, (@entityRow_counts timestamps key _).type,
      Option.some.injEq, Json.str.injEq]
  rw [types]
  simp only [Function.comp_def]
  rw [List.map_congr_left counts]
  simp [Nat.cast_list_sum, Function.comp_def]

/-- One row for each agent and run the memories name, in order, and the totals
of each type count the memories that have a value of it. -/
theorem entity_rows_count_a_partition (unicode : Unicode) (timestamps : Timestamps)
    (memories : List Memory) :
    let rows := entityRows unicode timestamps memories
    ∃ keys : List (String × String),
      (∀ entityType id, (entityType, id) ∈ keys ↔ ∃ memory ∈ memories, ∃ field,
        (entityType, field) ∈ entityFields ∧
          entityId unicode field memory = some id) ∧
      keys.Pairwise (fun left right => toLex left < toLex right) ∧
      List.Forall₂ (fun key row =>
        CountsGroup timestamps (carrying unicode memories key) key row) keys rows ∧
      ∀ entityType field, (entityType, field) ∈ entityFields →
        ((rows.filter fun row =>
            row.get? "type" = some (.str entityType)).map rowTotal).sum =
          (memories.countP fun memory => (entityId unicode field memory).isSome : Nat) := by
  intro rows
  refine ⟨sortedGroups unicode memories, ?_, sortedGroups_increasing memories, ?_, ?_⟩
  · intro entityType id
    simp only [mem_sortedGroups, mem_entityGroups]
  · simp only [rows, entityRows_eq]
    rw [List.forall₂_map_right_iff, List.forall₂_same]
    exact fun key _ => entityRow_counts key _
  · exact fun entityType field named => sum_rowTotal named memories

end Memcp.Mem0
