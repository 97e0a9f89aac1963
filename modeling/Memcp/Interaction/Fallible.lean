import Memcp.Interaction.Pool

/-!
Programs that may raise.  Code that raises hands nothing back, so the proof
rules speak of what holds when it returns.
-/

namespace Interaction

/-- A program over `sig` that returns a value or raises. -/
def Fallible (sig : Signature) (ε α : Type) := Program sig (Except ε α)

variable {sig : Signature} {ε α β : Type}

namespace Fallible

def bind (action : Fallible sig ε α) (rest : α → Fallible sig ε β) :
    Fallible sig ε β :=
  Program.bind action fun
    | .ok value => rest value
    | .error error => .done (.error error)

instance : Monad (Fallible sig ε) where
  pure value := .done (.ok value)
  bind := Fallible.bind

instance : MonadLift (Except ε) (Fallible sig ε) := ⟨Program.done⟩

instance : MonadExceptOf ε (Fallible sig ε) where
  throw error := .done (.error error)
  tryCatch action handler := Program.bind action fun
    | .ok value => .done (.ok value)
    | .error error => handler error

theorem bind_assoc {γ : Type} (action : Fallible sig ε α)
    (first : α → Fallible sig ε β) (second : β → Fallible sig ε γ) :
    (action >>= first) >>= second = action >>= fun value => first value >>= second := by
  refine (Program.bind_assoc action _ _).trans (congrArg (Program.bind action) ?_)
  funext outcome
  cases outcome with
  | ok value => rfl
  | error error => rfl

/-- Go on with what `action` returns or with what it raises. -/
def either (action : Fallible sig ε α) (returned : α → Fallible sig ε β)
    (raised : ε → Fallible sig ε β) : Fallible sig ε β :=
  Program.bind action fun
    | .ok value => returned value
    | .error error => raised error

theorem eval_either {State : Type}
    (answer : (call : sig.Call) → State → sig.Reply call × State)
    (action : Fallible sig ε α) (returned : α → Fallible sig ε β)
    (raised : ε → Fallible sig ε β) (state : State) :
    Program.eval answer (action.either returned raised) state =
      match Program.eval answer action state with
      | (.ok value, later) => Program.eval answer (returned value) later
      | (.error error, later) => Program.eval answer (raised error) later := by
  refine (Program.eval_bind answer action _ state).trans ?_
  rcases Program.eval answer action state with ⟨outcome, later⟩
  cases outcome with
  | ok value => rfl
  | error error => rfl

/-- Raise another exception in place of the one `action` raises. -/
def mapError (f : ε → ε) (action : Fallible sig ε α) : Fallible sig ε α :=
  Program.bind action fun outcome => .done (outcome.mapError f)

variable {guard : Trace sig → sig.Call → Prop} {past : Trace sig}

/-- `action` keeps `guard`, and `post` holds of what it returns. -/
def Keeps (guard : Trace sig → sig.Call → Prop) (post : Trace sig → α → Prop)
    (action : Fallible sig ε α) (past : Trace sig) : Prop :=
  Safe guard (fun later outcome => ∀ value, outcome = .ok value → post later value)
    action past

namespace Keeps

variable {post : Trace sig → α → Prop}

theorem pure {value : α} (holds : post past value) :
    Fallible.Keeps guard post (Pure.pure value : Fallible sig ε α) past := by
  rintro _ ⟨⟩
  exact holds

theorem throw (error : ε) :
    Fallible.Keeps guard post (throw error : Fallible sig ε α) past := by
  rintro _ ⟨⟩

theorem lift {outcome : Except ε α}
    (holds : ∀ value, outcome = .ok value → post past value) :
    Fallible.Keeps guard post (liftM outcome : Fallible sig ε α) past := holds

theorem mono {post' : Trace sig → α → Prop} {action : Fallible sig ε α}
    (safe : Fallible.Keeps guard post action past)
    (implies : ∀ later value, past <+: later → post later value →
      post' later value) :
    Fallible.Keeps guard post' action past :=
  Safe.mono (Safe.extended safe) (fun _ _ allowed => allowed)
    fun later _ holds value returned =>
      implies later value holds.1 (holds.2 value returned)

theorem bind {middle : Trace sig → α → Prop}
    {post : Trace sig → β → Prop}
    {action : Fallible sig ε α} {rest : α → Fallible sig ε β}
    (first : Fallible.Keeps guard middle action past)
    (second : ∀ later value, past <+: later → middle later value →
      Fallible.Keeps guard post (rest value) later) :
    Fallible.Keeps guard post (action >>= rest) past := by
  refine Safe.bind (Safe.extended first) ?_
  intro later outcome holds
  cases outcome with
  | ok value => exact second later value holds.1 (holds.2 value rfl)
  | error error => exact fun _ impossible => nomatch impossible

theorem check {post : Trace sig → β → Prop}
    {outcome : Except ε α} {rest : α → Fallible sig ε β}
    (second : ∀ value, outcome = .ok value →
      Fallible.Keeps guard post (rest value) past) :
    Fallible.Keeps guard post (liftM outcome >>= rest) past := by
  cases outcome with
  | ok value => exact second value rfl
  | error error => exact fun _ impossible => nomatch impossible

theorem map {post : Trace sig → β → Prop} {action : Fallible sig ε α} {f : α → β}
    (safe : Fallible.Keeps guard (fun later value => post later (f value))
      action past) :
    Fallible.Keeps guard post (f <$> action) past :=
  bind safe fun _ _ _ holds => Keeps.pure holds

theorem mapError {f : ε → ε} {action : Fallible sig ε α}
    (safe : Fallible.Keeps guard post action past) :
    Fallible.Keeps guard post (action.mapError f) past := by
  refine Safe.bind safe ?_
  intro later outcome holds value returned
  cases outcome with
  | ok result =>
      cases returned
      exact holds value rfl
  | error error => cases returned

end Keeps

/-! Safe programs, with what they raise. -/

section Outcomes

variable {post : Trace sig → Except ε β → Prop}

theorem safe_bind {middle : Trace sig → Except ε α → Prop} {action : Fallible sig ε α}
    {rest : α → Fallible sig ε β} (first : Safe guard middle action past)
    (raised : ∀ later error, middle later (.error error) → post later (.error error))
    (returned : ∀ later value, middle later (.ok value) →
      Safe guard post (rest value) later) :
    Safe guard post (action >>= rest : Fallible sig ε β) past := by
  refine Safe.bind first fun later outcome holds => ?_
  cases outcome with
  | ok value => exact returned later value holds
  | error error => exact raised later error holds

theorem safe_check {outcome : Except ε α} {rest : α → Fallible sig ε β}
    (raised : ∀ error, outcome = .error error → post past (.error error))
    (returned : ∀ value, outcome = .ok value → Safe guard post (rest value) past) :
    Safe guard post (liftM outcome >>= rest : Fallible sig ε β) past := by
  cases outcome with
  | ok value => exact returned value rfl
  | error error => exact raised error rfl

theorem safe_mapError {post : Trace sig → Except ε α → Prop} {f : ε → ε}
    {action : Fallible sig ε α}
    (safe : Safe guard (fun later outcome => post later (outcome.mapError f)) action
      past) :
    Safe guard post (action.mapError f) past :=
  Safe.bind safe fun _ _ holds => holds

theorem safeWhile_bind {assumed : Event sig → Prop}
    {middle : Trace sig → Except ε α → Prop} {action : Fallible sig ε α}
    {rest : α → Fallible sig ε β} (first : SafeWhile assumed guard middle action past)
    (raised : ∀ later error, middle later (.error error) → post later (.error error))
    (returned : ∀ later value, middle later (.ok value) →
      SafeWhile assumed guard post (rest value) later) :
    SafeWhile assumed guard post (action >>= rest : Fallible sig ε β) past := by
  refine SafeWhile.bind first fun later outcome holds => ?_
  cases outcome with
  | ok value => exact returned later value holds
  | error error => exact fun _ => raised later error holds

theorem safeWhile_check {assumed : Event sig → Prop} {outcome : Except ε α}
    {rest : α → Fallible sig ε β}
    (raised : ∀ error, outcome = .error error → post past (.error error))
    (returned : ∀ value, outcome = .ok value →
      SafeWhile assumed guard post (rest value) past) :
    SafeWhile assumed guard post (liftM outcome >>= rest : Fallible sig ε β) past :=
  safe_check (fun error same _ => raised error same) returned

end Outcomes

/-! What an action comes to, as long as the environment keeps to what is assumed. -/

/-- An outcome, by what was raised or returned. -/
def Ended (raises : ε → Prop) (post : α → Prop) : Except ε α → Prop
  | .ok value => post value
  | .error error => raises error

def Yields (assumed : Event sig → Prop) (raises : ε → Prop) (post : α → Prop)
    (action : Fallible sig ε α) : Prop :=
  ∀ past, SafeWhile assumed (fun _ _ => True) (fun _ outcome => Ended raises post outcome)
    action past

namespace Yields

variable {assumed : Event sig → Prop} {raises : ε → Prop} {post : α → Prop}

theorem pure {value : α} (holds : post value) :
    Yields assumed raises post (Pure.pure value : Fallible sig ε α) :=
  fun _ _ => holds

theorem throw {error : ε} (raised : raises error) :
    Yields assumed raises post (MonadExcept.throw error : Fallible sig ε α) :=
  fun _ _ => raised

theorem lift {outcome : Except ε α} (ended : Ended raises post outcome) :
    Yields assumed raises post (liftM outcome : Fallible sig ε α) :=
  fun _ _ => ended

theorem bind {post' : β → Prop} {action : Fallible sig ε α}
    {rest : α → Fallible sig ε β} (first : Yields assumed raises post action)
    (second : ∀ value, post value → Yields assumed raises post' (rest value)) :
    Yields assumed raises post' (action >>= rest) :=
  fun past => safeWhile_bind (first past) (fun _ _ raised => raised)
    fun later value holds => second value holds later

theorem check {post' : β → Prop} {outcome : Except ε α} {rest : α → Fallible sig ε β}
    (raised : ∀ error, outcome = .error error → raises error)
    (second : ∀ value, outcome = .ok value → Yields assumed raises post' (rest value)) :
    Yields assumed raises post' (liftM outcome >>= rest) :=
  fun past => safeWhile_check raised fun value same => second value same past

theorem mapError {raises' : ε → Prop} {f : ε → ε} {action : Fallible sig ε α}
    (yields : Yields assumed raises post action)
    (maps : ∀ error, raises error → raises' (f error)) :
    Yields assumed raises' post (action.mapError f) := by
  refine fun past => SafeWhile.bind (yields past) fun later outcome ended _ => ?_
  cases outcome with
  | ok value => exact ended
  | error error => exact maps error ended

theorem mono {raises' : ε → Prop} {post' : α → Prop} {action : Fallible sig ε α}
    (yields : Yields assumed raises post action)
    (errors : ∀ error, raises error → raises' error)
    (values : ∀ value, post value → post' value) :
    Yields assumed raises' post' action := by
  refine fun past => Safe.mono (yields past) (fun _ _ allowed => allowed) ?_
  intro later outcome ended kept
  have ended := ended kept
  cases outcome with
  | ok value => exact values value ended
  | error error => exact errors error ended

theorem map {post' : β → Prop} {action : Fallible sig ε α} {f : α → β}
    (yields : Yields assumed raises post action) (maps : ∀ value, post value → post' (f value)) :
    Yields assumed raises post' (f <$> action) :=
  bind yields fun value holds => pure (maps value holds)

end Yields

/-! An action that goes on where another one stops. -/

/-- Wherever the first action returns, the second makes the same calls and returns a
related value. -/
inductive Follows (related : β → α → Prop) :
    Fallible sig ε α → Fallible sig ε β → Prop
  | returned {value : α} {other : β} (holds : related other value) :
      Follows related (.done (.ok value)) (.done (.ok other))
  | raised {error : ε} {other : Fallible sig ε β} :
      Follows related (.done (.error error)) other
  | ask {call : sig.Call} {next : sig.Reply call → Fallible sig ε α}
      {next' : sig.Reply call → Fallible sig ε β}
      (later : ∀ reply, Follows related (next reply) (next' reply)) :
      Follows related (.ask call next) (.ask call next')

namespace Follows

variable {γ δ : Type} {related : β → α → Prop} {related' : δ → γ → Prop}

theorem refl (action : Fallible sig ε α) : Follows (fun other value => other = value)
    action action := by
  induction action with
  | done outcome =>
      cases outcome with
      | ok value => exact .returned rfl
      | error error => exact .raised
  | ask call next induction => exact .ask induction

theorem lift {outcome : Except ε α} {outcome' : Except ε β}
    (goes : ∀ value, outcome = .ok value →
      ∃ other, outcome' = .ok other ∧ related other value) :
    Follows related (liftM outcome : Fallible sig ε α) (liftM outcome') := by
  cases outcome with
  | ok value =>
      obtain ⟨other, rfl, holds⟩ := goes value rfl
      exact .returned holds
  | error error => exact .raised

theorem bind {action : Fallible sig ε α} {action' : Fallible sig ε β}
    {rest : α → Fallible sig ε γ} {rest' : β → Fallible sig ε δ}
    (first : Follows related action action')
    (second : ∀ value other, related other value →
      Follows related' (rest value) (rest' other)) :
    Follows related' (action >>= rest) (action' >>= rest') := by
  induction first with
  | returned holds => exact second _ _ holds
  | raised => exact .raised
  | ask later induction => exact .ask induction

/-- Both go on after the same action. -/
theorem after {action : Fallible sig ε α} {rest : α → Fallible sig ε γ}
    {rest' : α → Fallible sig ε δ}
    (later : ∀ value, Follows related' (rest value) (rest' value)) :
    Follows related' (action >>= rest) (action >>= rest') := by
  refine .bind (.refl action) ?_
  rintro _ value rfl
  exact later value

end Follows

/-! Runs against an environment. -/

theorem against_bind
    (environment : Trace sig → (call : sig.Call) → sig.Reply call)
    (action : Fallible sig ε α) (rest : α → Fallible sig ε β) (past : Trace sig) :
    Program.against environment (action >>= rest : Fallible sig ε β) past =
      match Program.against environment action past with
      | (later, .ok value) => Program.against environment (rest value) later
      | (later, .error error) => (later, .error error) := by
  refine (Program.against_bind environment action _ past).trans ?_
  rcases Program.against environment action past with ⟨later, outcome⟩
  cases outcome with
  | ok value => rfl
  | error error => rfl

/-! Runs alone on a machine. -/

section Exec

variable {Supply : Type} {machine : Machine sig Supply} {supply : Nat → Supply}
  {asked : Nat} {state : machine.State}

/-- What `action` returns or raises, the calls made by then, and the state it
leaves. -/
def exec (machine : Machine sig Supply) (supply : Nat → Supply)
    (action : Fallible sig ε α) (asked : Nat) (state : machine.State) :
    Except ε α × Nat × machine.State :=
  Program.exec machine supply action asked state

@[simp] theorem exec_pure (value : α) :
    exec machine supply (pure value : Fallible sig ε α) asked state =
      (.ok value, asked, state) := rfl

@[simp] theorem exec_throw (error : ε) :
    exec machine supply (throw error : Fallible sig ε α) asked state =
      (.error error, asked, state) := rfl

@[simp] theorem exec_lift (outcome : Except ε α) :
    exec machine supply (liftM outcome : Fallible sig ε α) asked state =
      (outcome, asked, state) := rfl

theorem exec_either (action : Fallible sig ε α) (returned : α → Fallible sig ε β)
    (raised : ε → Fallible sig ε β) :
    exec machine supply (action.either returned raised) asked state =
      match exec machine supply action asked state with
      | (.ok value, asked, later) => exec machine supply (returned value) asked later
      | (.error error, asked, later) =>
          exec machine supply (raised error) asked later := by
  refine (Program.exec_bind action _ asked state).trans ?_
  unfold exec
  rcases Program.exec machine supply action asked state with ⟨outcome, asked, later⟩
  cases outcome with
  | ok value => rfl
  | error error => rfl

theorem exec_bind (action : Fallible sig ε α) (rest : α → Fallible sig ε β) :
    exec machine supply (action >>= rest) asked state =
      match exec machine supply action asked state with
      | (.ok value, asked, later) => exec machine supply (rest value) asked later
      | (.error error, asked, later) => (.error error, asked, later) :=
  exec_either action rest throw

variable {asked' : Nat} {later : machine.State}

theorem exec_bind_ok {action : Fallible sig ε α} {rest : α → Fallible sig ε β}
    {value : α}
    (first : exec machine supply action asked state = (.ok value, asked', later)) :
    exec machine supply (action >>= rest) asked state =
      exec machine supply (rest value) asked' later := by
  rw [exec_bind, first]

theorem exec_bind_error {action : Fallible sig ε α} {rest : α → Fallible sig ε β}
    {error : ε}
    (first : exec machine supply action asked state =
      (.error error, asked', later)) :
    exec machine supply (action >>= rest) asked state =
      (.error error, asked', later) := by
  rw [exec_bind, first]

theorem exec_bind_eq_ok {action : Fallible sig ε α} {rest : α → Fallible sig ε β}
    {value : β}
    (returned : exec machine supply (action >>= rest) asked state =
      (.ok value, asked', later)) :
    ∃ middle count left, exec machine supply action asked state = (.ok middle, count, left) ∧
      exec machine supply (rest middle) count left = (.ok value, asked', later) := by
  rw [exec_bind] at returned
  generalize exec machine supply action asked state = ran at returned
  obtain ⟨outcome, count, left⟩ := ran
  cases outcome with
  | ok middle => exact ⟨middle, count, left, rfl, returned⟩
  | error error => cases returned

theorem Follows.exec {related : β → α → Prop} {action : Fallible sig ε α}
    {action' : Fallible sig ε β} (follows : Follows related action action') {value : α}
    (returned : Fallible.exec machine supply action asked state =
      (.ok value, asked', later)) :
    ∃ other, Fallible.exec machine supply action' asked state =
      (.ok other, asked', later) ∧ related other value := by
  induction follows generalizing asked state with
  | returned holds =>
      cases returned
      exact ⟨_, rfl, holds⟩
  | raised => cases returned
  | ask _ induction => exact induction _ returned

theorem exec_mapError (f : ε → ε) (action : Fallible sig ε α) :
    exec machine supply (action.mapError f) asked state =
      ((exec machine supply action asked state).1.mapError f,
        (exec machine supply action asked state).2) := by
  refine (Program.exec_bind action _ asked state).trans ?_
  rfl

theorem exec_map (f : α → β) (action : Fallible sig ε α) :
    exec machine supply (f <$> action) asked state =
      ((exec machine supply action asked state).1.map f,
        (exec machine supply action asked state).2) := by
  refine (exec_bind action (fun value => pure (f value))).trans ?_
  rcases exec machine supply action asked state with ⟨outcome, asked, later⟩
  cases outcome with
  | ok value => rfl
  | error error => rfl

/-! Postconditions of such runs. -/

/-- `post` holds of what `action` returns or raises, of the calls made by then
and of the state it leaves. -/
def Ends (machine : Machine sig Supply) (supply : Nat → Supply)
    (post : Except ε α → Nat → machine.State → Prop) (action : Fallible sig ε α)
    (asked : Nat) (state : machine.State) : Prop :=
  post (exec machine supply action asked state).1
    (exec machine supply action asked state).2.1
    (exec machine supply action asked state).2.2

namespace Ends

variable {post : Except ε α → Nat → machine.State → Prop}

theorem mono {post' : Except ε α → Nat → machine.State → Prop}
    {action : Fallible sig ε α} (ends : Ends machine supply post action asked state)
    (implies : ∀ outcome asked state, post outcome asked state →
      post' outcome asked state) :
    Ends machine supply post' action asked state :=
  implies _ _ _ ends

theorem pure {value : α} (holds : post (.ok value) asked state) :
    Ends machine supply post (Pure.pure value : Fallible sig ε α) asked state :=
  holds

theorem throw {error : ε} (holds : post (.error error) asked state) :
    Ends machine supply post (throw error : Fallible sig ε α) asked state :=
  holds

theorem lift {outcome : Except ε α} (holds : post outcome asked state) :
    Ends machine supply post (liftM outcome : Fallible sig ε α) asked state :=
  holds

theorem either {middle : Except ε α → Nat → machine.State → Prop}
    {post : Except ε β → Nat → machine.State → Prop} {action : Fallible sig ε α}
    {onReturn : α → Fallible sig ε β} {onRaise : ε → Fallible sig ε β}
    (first : Ends machine supply middle action asked state)
    (returned : ∀ value asked state, middle (.ok value) asked state →
      Ends machine supply post (onReturn value) asked state)
    (raised : ∀ error asked state, middle (.error error) asked state →
      Ends machine supply post (onRaise error) asked state) :
    Ends machine supply post (action.either onReturn onRaise) asked state := by
  unfold Ends at first ⊢
  rw [exec_either]
  generalize exec machine supply action asked state = ran at first ⊢
  obtain ⟨outcome, asked, later⟩ := ran
  cases outcome with
  | ok value => exact returned value asked later first
  | error error => exact raised error asked later first

theorem bind {middle : Except ε α → Nat → machine.State → Prop}
    {post : Except ε β → Nat → machine.State → Prop} {action : Fallible sig ε α}
    {rest : α → Fallible sig ε β}
    (first : Ends machine supply middle action asked state)
    (raised : ∀ error asked state, middle (.error error) asked state →
      post (.error error) asked state)
    (returned : ∀ value asked state, middle (.ok value) asked state →
      Ends machine supply post (rest value) asked state) :
    Ends machine supply post (action >>= rest) asked state :=
  either first returned raised

theorem check {post : Except ε β → Nat → machine.State → Prop}
    {outcome : Except ε α} {rest : α → Fallible sig ε β}
    (raised : ∀ error, outcome = .error error → post (.error error) asked state)
    (returned : ∀ value, outcome = .ok value →
      Ends machine supply post (rest value) asked state) :
    Ends machine supply post (liftM outcome >>= rest) asked state := by
  cases outcome with
  | ok value => exact returned value rfl
  | error error => exact raised error rfl

theorem mapError {f : ε → ε} {action : Fallible sig ε α}
    (ends : Ends machine supply
      (fun outcome asked state => post (outcome.mapError f) asked state) action
      asked state) :
    Ends machine supply post (action.mapError f) asked state := by
  unfold Ends
  rw [exec_mapError]
  exact ends

theorem map {post : Except ε β → Nat → machine.State → Prop} {f : α → β}
    {action : Fallible sig ε α}
    (ends : Ends machine supply
      (fun outcome asked state => post (outcome.map f) asked state) action
      asked state) :
    Ends machine supply post (f <$> action) asked state := by
  unfold Ends
  rw [exec_map]
  exact ends

end Ends

end Exec

end Fallible

end Interaction
