import Memcp.Backends.Local

/-!
Operations run one at a time on a store.  What an operation returns is read off
its code as the checks it makes and the replies the store gives it.
-/

namespace Memcp

open Python Interaction

variable {machine : Machine effects Fresh} {supply : Nat → Fresh} {asked : Nat}
  {state : machine.State} {α β : Type}

/-! The steps an operation is made of. -/

namespace Operation

def exec (machine : Machine effects Fresh) (supply : Nat → Fresh)
    (operation : Operation α) (entry : AuditEntry) (asked : Nat)
    (state : machine.State) : (Except Exc α × AuditEntry) × Nat × machine.State :=
  Program.exec machine supply (operation entry) asked state

variable {entry : AuditEntry} {rest : α → Operation β}

theorem exec_pure (value : α) :
    exec machine supply (pure value) entry asked state =
      ((.ok value, entry), asked, state) := rfl

theorem exec_bind (operation : Operation α) (rest : α → Operation β) :
    exec machine supply (operation >>= rest) entry asked state =
      match exec machine supply operation entry asked state with
      | ((.ok value, entry), asked, later) =>
          exec machine supply (rest value) entry asked later
      | ((.error error, entry), asked, later) =>
          ((.error error, entry), asked, later) := by
  refine (Program.exec_bind (operation entry) _ asked state).trans ?_
  unfold exec
  rcases Program.exec machine supply (operation entry) asked state with
    ⟨⟨outcome, entry⟩, asked, later⟩
  cases outcome with
  | ok value => rfl
  | error error => rfl

theorem exec_lift (outcome : Except Exc α) (rest : α → Operation β) :
    exec machine supply (liftM outcome >>= rest) entry asked state =
      match outcome with
      | .ok value => exec machine supply (rest value) entry asked state
      | .error error => ((.error error, entry), asked, state) := by
  cases outcome with
  | ok value => rfl
  | error error => rfl

theorem exec_action (action : Action α) :
    exec machine supply (liftM action) entry asked state =
      (((Fallible.exec machine supply action asked state).1, entry),
        (Fallible.exec machine supply action asked state).2) :=
  (Program.exec_bind action _ asked state).trans rfl

theorem exec_record (f : AuditEntry → AuditEntry) (rest : Unit → Operation β) :
    exec machine supply (record f >>= rest) entry asked state =
      exec machine supply (rest ()) (f entry) asked state := rfl

end Operation

section Stores

variable {store : Store} {state : store.machine.State}

theorem Operation.exec_backend (call : BackendCall)
    (rest : call.Result → Operation β) {entry : AuditEntry} :
    Operation.exec store.machine supply (liftM (Action.backend call) >>= rest) entry
        asked state =
      match store.perform (supply asked) call state with
      | (.ok value, later) =>
          Operation.exec store.machine supply (rest value) entry (asked + 1) later
      | (.error error, later) => ((.error error, entry), asked + 1, later) := by
  have answered : Fallible.exec store.machine supply (Action.backend call) asked
      state = ((store.perform (supply asked) call state).1, asked + 1,
        (store.perform (supply asked) call state).2) := rfl
  rw [Operation.exec_bind, Operation.exec_action, answered]
  rcases store.perform (supply asked) call state with ⟨reply, later⟩
  cases reply with
  | ok value => rfl
  | error error => rfl

theorem exec_audited (operation : String) (context : Context)
    (body : Operation α) :
    let ran := Operation.exec store.machine supply body (.start operation context)
      asked state
    Fallible.exec store.machine supply (audited operation context body) asked
      state = (ran.1.1, ran.2.1 + 1, ran.2.2) :=
  (Program.exec_bind (body (.start operation context)) _ asked state).trans rfl

/-! What the operation returns, whatever state it leaves. -/

namespace Operation

variable {entry : AuditEntry}

theorem returns_lift (outcome : Except Exc α) (rest : α → Operation β) :
    (exec store.machine supply (liftM outcome >>= rest) entry asked state).1.1 =
      outcome >>= fun value =>
        (exec store.machine supply (rest value) entry asked state).1.1 := by
  cases outcome with
  | ok value => rfl
  | error error => rfl

theorem returns_action (action : Action α) (rest : α → Operation β) :
    (exec store.machine supply (liftM action >>= rest) entry asked state).1.1 =
      (Fallible.exec store.machine supply action asked state).1 >>= fun value =>
        (exec store.machine supply (rest value) entry
          (Fallible.exec store.machine supply action asked state).2.1
          (Fallible.exec store.machine supply action asked state).2.2).1.1 := by
  rw [exec_bind, exec_action]
  rcases Fallible.exec store.machine supply action asked state with
    ⟨outcome, asked, later⟩
  cases outcome with
  | ok value => rfl
  | error error => rfl

end Operation

/-! Postconditions of operations. -/

/-- `post` holds of what `operation` returns or raises, of the calls made by then
and of the state it leaves, whatever its audit entry. -/
def Operation.Ends (machine : Machine effects Fresh) (supply : Nat → Fresh)
    (post : Except Exc α → Nat → machine.State → Prop) (operation : Operation α)
    (asked : Nat) (state : machine.State) : Prop :=
  ∀ entry, post (Operation.exec machine supply operation entry asked state).1.1
    (Operation.exec machine supply operation entry asked state).2.1
    (Operation.exec machine supply operation entry asked state).2.2

namespace Operation.Ends

variable {post : Except Exc α → Nat → store.State → Prop}

theorem pure {value : α} (holds : post (.ok value) asked state) :
    Operation.Ends store.machine supply post (Pure.pure value) asked state :=
  fun _ => holds

theorem throw {error : Exc} (holds : post (.error error) asked state) :
    Operation.Ends store.machine supply post
      (MonadExcept.throw error : Operation α) asked state :=
  fun _ => holds

theorem lift {outcome : Except Exc α} (holds : post outcome asked state) :
    Operation.Ends store.machine supply post (liftM outcome : Operation α) asked
      state :=
  fun _ => holds

theorem mono {post' : Except Exc α → Nat → store.State → Prop}
    {operation : Operation α}
    (ends : Operation.Ends store.machine supply post operation asked state)
    (implies : ∀ outcome asked state, post outcome asked state →
      post' outcome asked state) :
    Operation.Ends store.machine supply post' operation asked state :=
  fun entry => implies _ _ _ (ends entry)

theorem action {action : Action α}
    (ends : Fallible.Ends store.machine supply post action asked state) :
    Operation.Ends store.machine supply post (liftM action : Operation α) asked
      state := by
  intro entry
  rw [Operation.exec_action]
  exact ends

theorem bind {middle : Except Exc α → Nat → store.State → Prop}
    {post : Except Exc β → Nat → store.State → Prop} {operation : Operation α}
    {rest : α → Operation β}
    (first : Operation.Ends store.machine supply middle operation asked state)
    (raised : ∀ error asked state, middle (.error error) asked state →
      post (.error error) asked state)
    (returned : ∀ value asked state, middle (.ok value) asked state →
      Operation.Ends store.machine supply post (rest value) asked state) :
    Operation.Ends store.machine supply post (operation >>= rest) asked state := by
  intro entry
  have first := first entry
  rw [Operation.exec_bind]
  generalize Operation.exec store.machine supply operation entry asked state = ran
    at first ⊢
  obtain ⟨⟨outcome, entry⟩, asked, later⟩ := ran
  cases outcome with
  | ok value => exact returned value asked later first entry
  | error error => exact raised error asked later first

theorem check {post : Except Exc β → Nat → store.State → Prop}
    {outcome : Except Exc α} {rest : α → Operation β}
    (raised : ∀ error, outcome = .error error → post (.error error) asked state)
    (returned : ∀ value, outcome = .ok value →
      Operation.Ends store.machine supply post (rest value) asked state) :
    Operation.Ends store.machine supply post (liftM outcome >>= rest) asked
      state := by
  intro entry
  cases outcome with
  | ok value => exact returned value rfl entry
  | error error => exact raised error rfl

theorem recording {post : Except Exc β → Nat → store.State → Prop}
    {f : AuditEntry → AuditEntry} {rest : Unit → Operation β}
    (ends : Operation.Ends store.machine supply post (rest ()) asked state) :
    Operation.Ends store.machine supply post (Operation.record f >>= rest) asked
      state :=
  fun entry => ends (f entry)

end Operation.Ends

theorem Action.ends_audited {post : Except Exc α → Nat → store.State → Prop}
    {operation : String} {context : Context} {body : Operation α}
    (ends : Operation.Ends store.machine supply
      (fun outcome asked state => post outcome (asked + 1) state) body asked state) :
    Fallible.Ends store.machine supply post (audited operation context body) asked
      state := by
  unfold Fallible.Ends
  rw [exec_audited]
  exact ends _

/-! What the operations that select memories return. -/

variable (policy : Policy) (key : Key)

theorem search_returns (query : String) (scope : Json) (limit : Int)
    (threshold : ℚ) :
    (Fallible.exec store.machine supply
      (policy.search (some key) query scope limit threshold) asked state).1 = do
        validation (Policy.checkSearchArguments query limit threshold)
        let scope ← validateScope policy.unicode scope policy.scopeKeys
        let found ← (store.perform (supply asked)
          (.search key.grant.space query scope limit threshold) state).1
        let checked ← checkSpaces found key.grant.space
        return inScope policy.unicode checked scope := by
  unfold Policy.search
  simp only [exec_audited, require_reader, Operation.returns_lift,
    Operation.exec_record, Operation.returns_action]
  rfl

theorem listMemories_returns (scope : Json) (limit : Int) (cursor : Option String) :
    (Fallible.exec store.machine supply
      (policy.listMemories (some key) scope limit cursor) asked state).1 = do
        validation (validateLimit limit)
        let scope ← validateScope policy.unicode scope policy.scopeKeys
        let page ← (store.perform (supply asked)
          (.listMemories key.grant.space scope limit cursor) state).1.mapError
            asValidationError
        let checked ← checkSpaces page.memories key.grant.space
        return { page with memories := inScope policy.unicode checked scope } := by
  unfold Policy.listMemories
  simp only [exec_audited, require_reader, Operation.returns_lift,
    Operation.exec_record, Operation.returns_action]
  rfl

theorem deleteAll_exec (scope : Json) :
    Fallible.exec store.machine supply (policy.deleteAll (some key) scope) asked
        state =
      match (do
        let _ ← require (some key) .writer
        validateScope policy.unicode scope policy.scopeKeys) with
      | .error error => (.error error, asked + 1, state)
      | .ok cleaned =>
          match Dict.given cleaned with
          | none => (.error (.policyError .scopeRequired
              "delete_all_memories requires at least one scope key."),
              asked + 1, state)
          | some cleaned =>
              let answer := store.perform (supply asked)
                (.deleteAll key.grant.space cleaned) state
              (answer.1, asked + 2, answer.2) := by
  unfold Policy.deleteAll
  rw [exec_audited, Operation.exec_lift]
  cases granted : require (some key) .writer with
  | error error => rfl
  | ok actor =>
      obtain rfl : key = actor := Option.some.inj (require_eq_ok granted)
      simp only [Operation.exec_lift]
      cases validateScope policy.unicode scope policy.scopeKeys with
      | error error => rfl
      | ok cleaned =>
          simp only [Operation.exec_record]
          cases known : Dict.given cleaned with
          | none => simp only [bind, Except.bind, known]; rfl
          | some cleaned =>
              simp only
              rw [Operation.exec_backend]
              simp only [bind, Except.bind, known]
              rcases store.perform (supply asked)
                (.deleteAll key.grant.space cleaned) state with ⟨reply, later⟩
              cases reply with
              | error error => rfl
              | ok count => rfl

end Stores

end Memcp
