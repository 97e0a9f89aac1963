import Memcp.Isolation
import Memcp.Policy.Alone

/-!
A request run with no other call in between.  It reads and changes the list of
its key's space, so its run on a backend is its run on that list alone.
-/

namespace Memcp

open Python Interaction

variable {unicode : Unicode} {α : Type}

/-- One space as a store. -/
abbrev Space.store (unicode : Unicode) : Store where
  State := List Item
  initial := []
  perform := Space.perform unicode

/-- Fresh ids, none of which is given twice, and clock readings. -/
structure FreshIds where
  supply : Nat → Fresh
  distinct : ∀ {n m}, (supply n).id = (supply m).id → n = m

/-- Ids told apart by their length. -/
def FreshIds.tally : FreshIds where
  supply n := { id := String.ofList (List.replicate (n + 1) 'a'), now := "" }
  distinct same := by
    simpa using congrArg String.length same

/-! From a backend to the spaces, and from the spaces to one of them. -/

/-- A state whose memories have none of the ids still to be given. -/
structure Representation.Stands {store : Store}
    (representation : Representation unicode store) (fresh : FreshIds) (asked : Nat)
    (state : store.State) : Prop where
  valid : representation.valid state
  unused : ∀ n, asked ≤ n →
    (representation.spaces state).Unused (fresh.supply n).id

section Backends

variable {store : Store} {representation : Representation unicode store}
  {fresh : FreshIds} {asked : Nat} {state : store.State}

theorem Representation.stands_initial (fresh : FreshIds) :
    representation.Stands fresh 0 store.initial where
  valid := representation.valid_initial
  unused n _ := by
    rw [representation.spaces_initial]
    exact nofun

theorem Representation.Stands.later
    (stands : representation.Stands fresh asked state) {count : Nat}
    (grows : asked ≤ count) : representation.Stands fresh count state :=
  ⟨stands.valid, fun n bound => stands.unused n (Nat.le_trans grows bound)⟩

theorem Representation.Stands.step
    (stands : representation.Stands fresh asked state) (effect : Effect) :
    (store.machine.perform (fresh.supply asked) effect state).1 =
        ((Spaces.store unicode).machine.perform (fresh.supply asked) effect
          (representation.spaces state)).1 ∧
      representation.spaces
          (store.machine.perform (fresh.supply asked) effect state).2 =
        ((Spaces.store unicode).machine.perform (fresh.supply asked) effect
          (representation.spaces state)).2 ∧
      representation.Stands fresh (asked + 1)
        (store.machine.perform (fresh.supply asked) effect state).2 := by
  cases effect with
  | audit entry =>
      exact ⟨rfl, rfl, stands.valid, fun n later =>
        stands.unused n (Nat.le_of_succ_le later)⟩
  | backend call =>
      have simulates := representation.step (fresh.supply asked) call state
        stands.valid fun _ => stands.unused asked (Nat.le_refl _)
      refine ⟨simulates.reply, simulates.spaces, simulates.valid, fun n later => ?_⟩
      rw [simulates.spaces]
      refine (stands.unused n (Nat.le_of_succ_le later)).perform (fun same => ?_) call
      have := fresh.distinct same
      omega

/-- A run on a store that represents the spaces is the run on the spaces. -/
theorem Representation.exec_spaces (program : Program effects α)
    (stands : representation.Stands fresh asked state) :
    let ran := program.exec store.machine fresh.supply asked state
    let ideal := program.exec (Spaces.store unicode).machine fresh.supply asked
      (representation.spaces state)
    ran.1 = ideal.1 ∧ ran.2.1 = ideal.2.1 ∧
      representation.Stands fresh ran.2.1 ran.2.2 ∧
      representation.spaces ran.2.2 = ideal.2.2 := by
  have step : ∀ asked effect state spaces,
      (representation.Stands fresh asked state ∧
        representation.spaces state = spaces) →
      (store.machine.perform (fresh.supply asked) effect state).1 =
          ((Spaces.store unicode).machine.perform (fresh.supply asked) effect
            spaces).1 ∧
        representation.Stands fresh (asked + 1)
            (store.machine.perform (fresh.supply asked) effect state).2 ∧
          representation.spaces
              (store.machine.perform (fresh.supply asked) effect state).2 =
            ((Spaces.store unicode).machine.perform (fresh.supply asked) effect
              spaces).2 := by
    rintro asked effect state _ ⟨stands, rfl⟩
    obtain ⟨reply, spaces, stands⟩ := stands.step effect
    exact ⟨reply, stands, spaces⟩
  exact @Program.exec_related effects Fresh _ fresh.supply store.machine
    (Spaces.store unicode).machine
    (fun asked state spaces => representation.Stands fresh asked state ∧
      representation.spaces state = spaces)
    step program asked state _ ⟨stands, rfl⟩

end Backends

/-- A run that names one space is the run on that space. -/
theorem Spaces.exec_space {program : Program effects α} {space : String}
    {past : Trace effects}
    (confined : Safe (fun _ => Effect.within space) (fun _ _ => True) program past) (supply : Nat → Fresh) (asked : Nat) (spaces : Spaces) :
    let alone := program.exec (Space.store unicode).machine supply asked
      (spaces space)
    program.exec (Spaces.store unicode).machine supply asked spaces =
      (alone.1, alone.2.1, Function.update spaces space alone.2.2) := by
  induction program generalizing asked spaces past with
  | done value =>
      exact congrArg (fun later => (value, asked, later))
        (Function.update_eq_self space spaces).symm
  | ask effect next induction =>
      obtain ⟨within, confined⟩ := confined
      cases effect with
      | audit entry => exact induction () (confined ()) (asked + 1) spaces
      | backend call =>
          have later := induction (Spaces.perform unicode (supply asked) call spaces).1
            (confined _) (asked + 1)
            (Spaces.perform unicode (supply asked) call spaces).2
          cases names : call.partition? with
          | none =>
              cases call with
              | capabilities => exact later
              | _ => cases names
          | some partition =>
              obtain rfl := within call partition rfl names
              refine later.trans ?_
              rw [Spaces.perform_named names]
              simp only [Function.update_self, Function.update_idem]
              rfl

/-- A run of a backend that names one space is the run on that space. -/
theorem Representation.exec_alone {store : Store}
    {representation : Representation unicode store} {fresh : FreshIds} {asked : Nat}
    {state : store.State} {program : Program effects α} {space : String}
    {past : Trace effects}
    (confined : Safe (fun _ => Effect.within space) (fun _ _ => True) program past)
    (stands : representation.Stands fresh asked state) :
    let ran := program.exec store.machine fresh.supply asked state
    let alone := program.exec (Space.store unicode).machine fresh.supply asked
      (representation.spaces state space)
    ran.1 = alone.1 ∧ ran.2.1 = alone.2.1 ∧
      representation.Stands fresh ran.2.1 ran.2.2 ∧
      representation.spaces ran.2.2 =
        Function.update (representation.spaces state) space alone.2.2 := by
  obtain ⟨outcome, count, stands, spaces⟩ := representation.exec_spaces program stands
  have alone := @Spaces.exec_space unicode _ _ _ _ confined fresh.supply asked
    (representation.spaces state)
  rw [alone] at outcome count spaces
  exact ⟨outcome, count, stands, spaces⟩

/-! Requests. -/

/-- A request on a store with no other call in between. -/
def Store.request (unicode : Unicode) (store : Store) (supply : Nat → Fresh)
    (key : Key) (request : Request) (asked : Nat) (state : store.State) :
    Except Exc Response × Nat × store.State :=
  Fallible.exec store.machine supply
    ((localPolicy unicode).perform (some key) request) asked state

theorem Representation.request_eq {store : Store}
    {representation : Representation unicode store} {fresh : FreshIds} {asked : Nat}
    {state : store.State} (stands : representation.Stands fresh asked state)
    (key : Key) (request : Request) :
    let ran := store.request unicode fresh.supply key request asked state
    let alone := (Space.store unicode).request unicode fresh.supply key request
      asked (representation.spaces state key.grant.space)
    ran.1 = alone.1 ∧ ran.2.1 = alone.2.1 ∧
      representation.Stands fresh ran.2.1 ran.2.2 ∧
      representation.spaces ran.2.2 =
        Function.update (representation.spaces state) key.grant.space alone.2.2 := by
  have confined : Safe (fun _ => Effect.within key.grant.space) (fun _ _ => True)
      ((localPolicy unicode).perform (some key) request) [] := by
    refine Safe.mono (perform_keeps request) ?_ fun _ _ _ => trivial
    rintro past effect allowed call partition rfl names
    exact allowed.1 partition names
  exact Representation.exec_alone confined stands

/-- A request of a backend is the request of the one space it concerns. -/
theorem Representation.request_alone {store : Store}
    {representation : Representation unicode store} {fresh : FreshIds} {asked : Nat}
    {state : store.State} (stands : representation.Stands fresh asked state) (key : Key)
    (request : Request) :
    let ran := store.request unicode fresh.supply key request asked state
    let space := key.grant.space
    (ran.1, ran.2.1, representation.spaces ran.2.2 space) =
        (Space.store unicode).request unicode fresh.supply key request asked
          (representation.spaces state space) ∧
      ∀ other, other ≠ space →
        representation.spaces ran.2.2 other = representation.spaces state other := by
  intro ran space
  obtain ⟨reply, count, -, left⟩ := Representation.request_eq stands key request
  constructor
  · have own : representation.spaces ran.2.2 space = _ :=
      (congrFun left space).trans (Function.update_self _ _ _)
    exact Prod.ext reply (Prod.ext count own)
  · intro other apart
    exact (congrFun left other).trans (Function.update_of_ne apart _ _)

namespace LocalBackend

/-- The memories after a request, in all spaces. -/
def after (backend : LocalBackend) (unicode : Unicode) (fresh : FreshIds) (key : Key)
    (request : Request) (asked : Nat) (state : (backend.store unicode).State) :
    Spaces :=
  (backend.representation unicode).spaces
    ((backend.store unicode).request unicode fresh.supply key request asked state).2.2

theorem after_eq {backend : LocalBackend} {fresh : FreshIds} {asked : Nat} {key : Key}
    {state : (backend.store unicode).State}
    (stands : (backend.representation unicode).Stands fresh asked state)
    (request : Request) :
    backend.after unicode fresh key request asked state =
      Function.update ((backend.representation unicode).spaces state) key.grant.space
        ((Space.store unicode).request unicode fresh.supply key request asked
          ((backend.representation unicode).spaces state key.grant.space)).2.2 :=
  (Representation.request_eq stands key request).2.2.2

end LocalBackend

/-- A store of one memory. -/
def InMemory.State.single (entry : InMemory.Entry) : InMemory.State where
  store := (∅ : Dict String InMemory.Entry).set "m" entry
  history := (∅ : Dict String (List HistoryEntry)).set "m" [.created "" entry.content none]

theorem InMemory.stands_single (entry : InMemory.Entry) :
    (InMemory.representation unicode).Stands FreshIds.tally 0 (.single entry) := by
  refine ⟨fun memoryId => Iff.rfl, fun n _ space item member same => ?_⟩
  obtain ⟨row, stored, -, rfl⟩ := mem_spacesOf.mp member
  rw [List.mem_singleton.mp stored] at same
  have letters : ['m'] = List.replicate (n + 1) 'a' := by
    simpa [InMemory.item, FreshIds.tally] using congrArg String.toList same
  simp [List.replicate_succ] at letters

/-! What a list of memories satisfies while requests run on it. -/

/-- No two memories share an id, and none has an id still to be given. -/
structure Space.Stands (fresh : FreshIds) (asked : Nat) (items : List Item) :
    Prop where
  ids : (items.map Item.id).Nodup
  unused : ∀ n, asked ≤ n → ∀ item ∈ items, item.id ≠ (fresh.supply n).id

theorem LocalBackend.stands {backend : LocalBackend} {fresh : FreshIds} {asked : Nat}
    {state : (backend.store unicode).State}
    (stands : (backend.representation unicode).Stands fresh asked state)
    (space : String) :
    Space.Stands fresh asked ((backend.representation unicode).spaces state space) :=
  ⟨backend.ids_nodup stands.valid space, fun n bound => stands.unused n bound space⟩

namespace Space.Stands

variable {fresh : FreshIds} {asked : Nat} {items : List Item}

theorem later (stands : Space.Stands fresh asked items) {count : Nat}
    (grows : asked ≤ count) : Space.Stands fresh count items :=
  ⟨stands.ids, fun n bound => stands.unused n (Nat.le_trans grows bound)⟩

theorem sublist (stands : Space.Stands fresh asked items) {kept : List Item}
    (fewer : kept.Sublist items) : Space.Stands fresh asked kept :=
  ⟨stands.ids.sublist (fewer.map _), fun n bound item member =>
    stands.unused n bound item (fewer.subset member)⟩

theorem add (stands : Space.Stands fresh asked items) {item : Item}
    (id : item.id = (fresh.supply asked).id) :
    Space.Stands fresh (asked + 1) (items ++ [item]) where
  ids := by
    rw [List.map_append, List.nodup_append]
    refine ⟨stands.ids, List.nodup_singleton _, ?_⟩
    rintro _ old _ new rfl
    obtain ⟨other, member, same⟩ := List.mem_map.mp old
    simp only [List.map_cons, List.map_nil, List.mem_singleton] at new
    exact stands.unused asked (Nat.le_refl _) other member
      (same.trans (new.trans id))
  unused n bound other member := by
    rcases List.mem_append.mp member with old | new
    · exact stands.unused n (Nat.le_of_succ_le bound) other old
    · rw [List.mem_singleton.mp new, id]
      intro same
      have := fresh.distinct same
      omega

theorem map (stands : Space.Stands fresh asked items) {f : Item → Item}
    (ids : ∀ item ∈ items, (f item).id = item.id) :
    Space.Stands fresh asked (items.map f) where
  ids := by
    have same : items.map (Item.id ∘ f) = items.map Item.id :=
      List.map_congr_left ids
    rw [List.map_map, same]
    exact stands.ids
  unused n bound item member := by
    obtain ⟨old, oldMember, rfl⟩ := List.mem_map.mp member
    rw [ids old oldMember]
    exact stands.unused n bound old oldMember

end Space.Stands

end Memcp
