import Memcp.Backends.Local

/-!
Isolation on the local backends.  A call sees and changes the list of the
partition it names only, and policy names the space of the key only; so what
the keys of a space observe does not depend on the other spaces.
-/

namespace Memcp

open Python Interaction

variable {unicode : Unicode}

/-- Every data call of an effect names `space`. -/
def Effect.within (space : String) (effect : Effect) : Prop :=
  ∀ call partition, effect = .backend call →
    call.partition? = some partition → partition = space

/-- States that hold the same memories in `space`. -/
def Spaces.Alike (space : String) (left right : Spaces) : Prop :=
  left space = right space

theorem Spaces.alike_equivalence (space : String) :
    Equivalence (Spaces.Alike space) where
  refl _ := rfl
  symm same := same.symm
  trans first second := first.trans second

/-- A call within a space answers and changes alike states alike. -/
theorem Spaces.observes {space : String} (fresh : Fresh) {call : BackendCall}
    {left right : Spaces} (within : (Effect.backend call).within space)
    (alike : left.Alike space right) :
    (Spaces.perform unicode fresh call left).1 =
        (Spaces.perform unicode fresh call right).1 ∧
      (Spaces.perform unicode fresh call left).2.Alike space
        (Spaces.perform unicode fresh call right).2 := by
  cases names : call.partition? with
  | none =>
      simp only [Spaces.perform, names]
      exact ⟨trivial, alike⟩
  | some partition =>
      obtain rfl := within call partition rfl names
      unfold Spaces.Alike at alike ⊢
      rw [Spaces.perform_self names, Spaces.perform_self names,
        Spaces.perform_named names, Spaces.perform_named names, alike]
      exact ⟨rfl, rfl⟩

/-- A call within another space leaves the memories of a space alone. -/
theorem Spaces.respects {space other : String} (fresh : Fresh)
    {call : BackendCall} {spaces : Spaces} (differ : other ≠ space)
    (within : (Effect.backend call).within other) :
    (Spaces.perform unicode fresh call spaces).2.Alike space spaces :=
  Spaces.perform_of_ne fun names =>
    differ (within call space rfl names).symm

theorem Spaces.unwinding (unicode : Unicode) :
    Pool.Unwinding (Spaces.store unicode).machine String Effect.within
      Spaces.Alike where
  equivalence := Spaces.alike_equivalence
  observes space fresh effect left right within alike := by
    cases effect with
    | audit entry => exact ⟨rfl, alike⟩
    | backend call => exact Spaces.observes fresh within alike
  respects space other fresh effect state differ within := by
    cases effect with
    | audit entry => exact rfl
    | backend call => exact Spaces.respects fresh differ within

namespace Operations

variable {Task : Type} [DecidableEq Task] (operations : Operations Task)

/-- The space an operation's key is granted. -/
def space (task : Task) : String := (operations.key task).grant.space

theorem start_confined (unicode : Unicode) :
    (Pool.start (fun _ => [] : Spaces) (operations.program unicode)).Confined
      operations.space Effect.within := by
  intro task
  refine Safe.mono (operations.program_safe unicode task) ?_ fun _ _ _ => trivial
  rintro past effect allowed call partition rfl names
  exact allowed.1 partition names

/-- What an operation sees and returns on the spaces is the same when only the
operations of its own space run. -/
theorem runSpaces_alone (unicode : Unicode) (fresh : FreshSupply Task)
    (schedule : List Task) (space : String) :
    Pool.SameView operations.space Spaces.Alike space
      (operations.runSpaces unicode fresh schedule)
      (operations.runSpaces unicode fresh
        (schedule.filter fun task => operations.space task = space)) :=
  Pool.noninterference space (Spaces.unwinding unicode)
    ⟨fun _ _ => rfl, fun _ _ => rfl, rfl⟩
    (operations.start_confined unicode) schedule

end Operations

theorem spaces_do_not_interfere (unicode : Unicode) (backend : LocalBackend)
    {Task : Type} [DecidableEq Task] (operations : Operations Task)
    (fresh : FreshSupply Task) (schedule : List Task) (task : Task) :
    let together := operations.run unicode backend fresh schedule
    let alone := operations.run unicode backend fresh
      (schedule.filter fun other => operations.space other = operations.space task)
    together.program task = alone.program task ∧
      together.past task = alone.past task := by
  have full := operations.run_related unicode backend fresh schedule
  have own := operations.run_related unicode backend fresh
    (schedule.filter fun other => operations.space other = operations.space task)
  have same := operations.runSpaces_alone unicode fresh schedule
    (operations.space task)
  constructor
  · calc (operations.run unicode backend fresh schedule).program task
        = (operations.runSpaces unicode fresh schedule).program task :=
          congrFun full.program task
      _ = _ := same.program task rfl
      _ = _ := (congrFun own.program task).symm
  · calc (operations.run unicode backend fresh schedule).past task
        = (operations.runSpaces unicode fresh schedule).past task :=
          full.past task
      _ = _ := same.past task rfl
      _ = _ := (own.past task).symm

end Memcp
