import Memcp.Data.Related
import Memcp.Interaction.Fallible

/-!
Two programs against two environments.  A link says which calls of one match which calls
of the other, and which replies to matching calls match.  Linked programs make matching
calls for as long as they are given matching replies, and end with related values.
-/

namespace Interaction

/-- What matches in the conversations of two programs. -/
structure Link (left right : Signature) where
  calls : left.Call → right.Call → Prop
  replies : (call : left.Call) → (other : right.Call) → left.Reply call →
    right.Reply other → Prop

variable {left right : Signature} {α β γ δ : Type}

inductive Linked (link : Link left right) (post : α → β → Prop) :
    Program left α → Program right β → Prop
  | done {value : α} {other : β} (holds : post value other) :
      Linked link post (.done value) (.done other)
  | ask {call : left.Call} {call' : right.Call} {next : left.Reply call → Program left α}
      {next' : right.Reply call' → Program right β} (matching : link.calls call call')
      (later : ∀ reply reply', link.replies call call' reply reply' →
        Linked link post (next reply) (next' reply')) :
      Linked link post (.ask call next) (.ask call' next')

/-- Events of matching calls with matching replies. -/
def Link.Events (link : Link left right) (event : Event left) (other : Event right) : Prop :=
  link.calls event.call other.call ∧
    link.replies event.call other.call event.reply other.reply

namespace Linked

variable {link : Link left right} {post : α → β → Prop} {program : Program left α}
  {program' : Program right β}

theorem bind {post' : γ → δ → Prop} {rest : α → Program left γ}
    {rest' : β → Program right δ} (first : Linked link post program program')
    (second : ∀ value other, post value other → Linked link post' (rest value) (rest' other)) :
    Linked link post' (program.bind rest) (program'.bind rest') := by
  induction first with
  | done holds => exact second _ _ holds
  | ask matching later induction => exact .ask matching induction

/-- The same client of two implementations of its calls. -/
theorem interpret {sig : Signature}
    {handler : (call : sig.Call) → Program left (sig.Reply call)}
    {handler' : (call : sig.Call) → Program right (sig.Reply call)}
    (handlers : ∀ call, Linked link Eq (handler call) (handler' call))
    (client : Program sig α) :
    Linked link Eq (client.interpret handler) (client.interpret handler') := by
  induction client with
  | done value => exact .done rfl
  | ask call next induction =>
      refine bind (handlers call) fun reply reply' same => ?_
      subst same
      exact induction reply

/-- Environments that answer matching calls alike after matching events. -/
def Answer (link : Link left right)
    (environment : Trace left → (call : left.Call) → left.Reply call)
    (environment' : Trace right → (call : right.Call) → right.Reply call) : Prop :=
  ∀ past past' call call', List.Forall₂ link.Events past past' → link.calls call call' →
    link.replies call call' (environment past call) (environment' past' call')

/-- What linked programs do and come to matches. -/
theorem against (linked : Linked link post program program')
    {environment : Trace left → (call : left.Call) → left.Reply call}
    {environment' : Trace right → (call : right.Call) → right.Reply call}
    (answers : Answer link environment environment') {past : Trace left}
    {past' : Trace right} (pasts : List.Forall₂ link.Events past past') :
    List.Forall₂ link.Events (program.against environment past).1
        (program'.against environment' past').1 ∧
      post (program.against environment past).2 (program'.against environment' past').2 := by
  induction linked generalizing past past' with
  | done holds => exact ⟨pasts, holds⟩
  | ask matching later induction =>
      have replied := answers past past' _ _ pasts matching
      exact induction _ _ replied (List.rel_append pasts (.cons ⟨matching, replied⟩ .nil))

end Linked

/-! Programs that may raise. -/

variable {ε ε' : Type}

/-- Both return related values, or both raise related errors. -/
inductive Outcomes (errors : ε → ε' → Prop) (post : α → β → Prop) :
    Except ε α → Except ε' β → Prop
  | ok {value : α} {other : β} (holds : post value other) :
      Outcomes errors post (.ok value) (.ok other)
  | error {error : ε} {error' : ε'} (raised : errors error error') :
      Outcomes errors post (.error error) (.error error')

namespace Fallible

variable {link : Link left right} {errors : ε → ε' → Prop} {post : α → β → Prop}
  {post' : γ → δ → Prop}

/-- Actions that are linked, and come to related outcomes. -/
abbrev Links (link : Link left right) (errors : ε → ε' → Prop) (post : α → β → Prop)
    (action : Fallible left ε α) (action' : Fallible right ε' β) : Prop :=
  Linked link (Outcomes errors post) action action'

namespace Links

theorem pure {value : α} {other : β} (holds : post value other) :
    Links link errors post (Pure.pure value) (Pure.pure other) :=
  .done (.ok holds)

theorem throw {error : ε} {error' : ε'} (raised : errors error error') :
    Links link errors post (MonadExcept.throw error : Fallible left ε α)
      (MonadExcept.throw error' : Fallible right ε' β) :=
  .done (.error raised)

theorem lift {outcome : Except ε α} {outcome' : Except ε' β}
    (outcomes : Outcomes errors post outcome outcome') :
    Links link errors post (liftM outcome : Fallible left ε α)
      (liftM outcome' : Fallible right ε' β) :=
  .done outcomes

theorem bind {action : Fallible left ε α} {action' : Fallible right ε' β}
    {rest : α → Fallible left ε γ} {rest' : β → Fallible right ε' δ}
    (first : Links link errors post action action')
    (second : ∀ value other, post value other →
      Links link errors post' (rest value) (rest' other)) :
    Links link errors post' (action >>= rest) (action' >>= rest') := by
  refine Linked.bind first fun outcome outcome' outcomes => ?_
  cases outcomes with
  | ok holds => exact second _ _ holds
  | error raised => exact .done (.error raised)

theorem mapError {action : Fallible left ε α} {action' : Fallible right ε' β}
    {f : ε → ε} {f' : ε' → ε'} (linked : Links link errors post action action')
    (maps : ∀ error error', errors error error' → errors (f error) (f' error')) :
    Links link errors post (action.mapError f) (action'.mapError f') := by
  refine Linked.bind linked fun outcome outcome' outcomes => ?_
  cases outcomes with
  | ok holds => exact .done (.ok holds)
  | error raised => exact .done (.error (maps _ _ raised))

theorem map {action : Fallible left ε α} {action' : Fallible right ε' β} {f : α → γ}
    {f' : β → δ} (linked : Links link errors post action action')
    (maps : ∀ value other, post value other → post' (f value) (f' other)) :
    Links link errors post' (f <$> action) (f' <$> action') :=
  bind linked fun value other holds => pure (maps value other holds)

end Links

end Fallible

end Interaction
