import Memcp.Attribution
import Memcp.AuditRecords
import Memcp.ConcurrentUpdates
import Memcp.Interaction.Linearization
import Memcp.Isolation

/-!
The calls an operation makes, as its program spells them out.  Each request but an import
is settled by one call: its only call, the call after a read, or the call whose memory it
then reads back.
-/

namespace Memcp

open Python Interaction

variable {unicode : Unicode}

/-! What an operation still does. -/

/-- At most an audit record is left to write. -/
def Settled (outcome : Except Exc Response)
    (program : Program effects (Except Exc Response)) : Prop :=
  program = .done outcome ∨
    ∃ entry, program = @Program.ask effects _ (.audit entry) fun _ => .done outcome

/-- At most one call is left to make, whatever the spaces answer. -/
def OneCall (unicode : Unicode) {α : Type} : Program effects α → Prop
  | .done _ => True
  | .ask effect next => ∀ given spaces, ∃ value,
      next ((Spaces.store unicode).machine.perform given effect spaces).1 = .done value

theorem OneCall.bind {α β : Type} {program : Program effects α}
    {rest : α → Program effects β} (once : OneCall unicode program)
    (stops : ∀ value, ∃ result, rest value = .done result) :
    OneCall unicode (program.bind rest) := by
  cases program with
  | done value =>
      obtain ⟨result, same⟩ := stops value
      rw [Program.done_bind, same]
      trivial
  | ask effect next =>
      intro given spaces
      obtain ⟨value, same⟩ := once given spaces
      obtain ⟨result, stopped⟩ := stops value
      exact ⟨result, (congrArg (fun first => first.bind rest) same).trans stopped⟩

theorem Settled.exec {outcome : Except Exc Response}
    {program : Program effects (Except Exc Response)} (settled : Settled outcome program)
    (supply : Nat → Fresh) (asked : Nat) (spaces : Spaces) :
    ∃ asked', program.exec (Spaces.store unicode).machine supply asked spaces =
      (outcome, asked', spaces) := by
  rcases settled with rfl | ⟨entry, rfl⟩
  · exact ⟨asked, rfl⟩
  · exact ⟨asked + 1, rfl⟩

/-- How every operation ends: it writes its audit record. -/
def closing {β : Type} (respond : β → Response) (ended : Except Exc β × AuditEntry) :
    Program effects (Except Exc Response) :=
  @Program.ask effects _ (.audit (ended.2.finish ended.1)) fun _ =>
    .done (ended.1.map respond)

theorem settled_closing {β : Type} (respond : β → Response)
    (ended : Except Exc β × AuditEntry) :
    Settled (ended.1.map respond) (closing respond ended) :=
  .inr ⟨_, rfl⟩

theorem audited_program {β : Type} (respond : β → Response) (name : String)
    (context : Context) (body : Operation β) :
    respond <$> audited name context body =
      (body (.start name context)).bind (closing respond) := by
  refine (Program.bind_assoc (body (.start name context)) _ _).trans ?_
  refine congrArg _ (funext ?_)
  rintro ⟨outcome, entry⟩
  cases outcome with
  | ok value => rfl
  | error error => rfl

/-! Operations of at most one call. -/

/-- An operation that makes no call, or whose first is its last. -/
def Operation.OneCall (unicode : Unicode) {β : Type} (operation : Operation β) : Prop :=
  ∀ entry, Memcp.OneCall unicode (operation entry)

namespace Operation.OneCall

variable {α β : Type}

theorem check {outcome : Except Exc α} {rest : α → Operation β}
    (returned : ∀ value, outcome = .ok value → Operation.OneCall unicode (rest value)) :
    Operation.OneCall unicode (liftM outcome >>= rest) := by
  intro entry
  cases outcome with
  | ok value => exact returned value rfl entry
  | error error => trivial

theorem recording {f : AuditEntry → AuditEntry} {rest : Unit → Operation β}
    (returned : Operation.OneCall unicode (rest ())) :
    Operation.OneCall unicode (Operation.record f >>= rest) :=
  fun entry => returned (f entry)

/-- Code that stops without a call. -/
def Stops (operation : Operation β) : Prop :=
  ∀ entry, ∃ ended, operation entry = .done ended

theorem Stops.pure (value : β) : Stops (Pure.pure value) := fun _ => ⟨_, rfl⟩

theorem Stops.check {outcome : Except Exc α} {rest : α → Operation β}
    (returned : ∀ value, Stops (rest value)) : Stops (liftM outcome >>= rest) := by
  intro entry
  cases outcome with
  | ok value => exact returned value entry
  | error error => exact ⟨_, rfl⟩

theorem Stops.recording {f : AuditEntry → AuditEntry} {rest : Unit → Operation β}
    (returned : Stops (rest ())) : Stops (Operation.record f >>= rest) :=
  fun entry => returned (f entry)

theorem of_stops {operation : Operation β} (stops : Stops operation) :
    Operation.OneCall unicode operation := by
  intro entry
  obtain ⟨ended, same⟩ := stops entry
  rw [same]
  trivial

theorem action {action : Action α} {rest : α → Operation β}
    (once : Memcp.OneCall unicode action) (stops : ∀ value, Stops (rest value)) :
    Operation.OneCall unicode (liftM action >>= rest) := by
  intro entry
  refine Memcp.OneCall.bind (Memcp.OneCall.bind once fun outcome => ⟨_, rfl⟩) ?_
  rintro ⟨outcome, entry⟩
  cases outcome with
  | ok value => exact stops value entry
  | error error => exact ⟨_, rfl⟩

theorem call {call : BackendCall} {f : Exc → Exc} {rest : call.Result → Operation β}
    (stops : ∀ value, Stops (rest value)) :
    Operation.OneCall unicode (liftM ((Action.backend call).mapError f) >>= rest) :=
  action (fun _ _ => ⟨_, rfl⟩) stops

end Operation.OneCall

theorem listAll_oneCall (space : String) (limit : Nat) :
    OneCall unicode (listAll space limit) := by
  have listed : ∀ given items, _ := fun given items =>
    @Import.listAll_exec unicode 0 (fun _ => given) space limit items
  unfold listAll at listed ⊢
  rw [listAllFrom_eq] at listed ⊢
  intro given spaces
  have one := listed given (spaces space)
  exact ⟨_, Program.done_of_exec one⟩

/-! Operations that read a memory first. -/

/-- What the space check makes of the reply to a `get`. -/
def readReply (space : String) (reply : Except Exc (Option Memory)) : Except Exc Memory := do
  match ← reply.mapError asNotFound with
  | none => throw (.policyError .notFound notFoundMsg)
  | some memory => checkSpace (some memory) space

/-- Go on with the memory a reply holds, or with what the read raises for it. -/
def afterRead {β : Type} (space : String) (raised : Exc → Program effects β)
    (rest : Memory → Program effects β) (reply : Except Exc (Option Memory)) :
    Program effects β :=
  match readReply space reply with
  | .ok memory => rest memory
  | .error error => raised error

def readThen {β : Type} (space memoryId : String) (raised : Exc → Program effects β)
    (rest : Memory → Program effects β) : Program effects β :=
  @Program.ask effects _ (.backend (.get space memoryId)) (afterRead space raised rest)

theorem readReply_eq_ok {space : String} {reply : Except Exc (Option Memory)}
    {memory : Memory} :
    readReply space reply = .ok memory ↔
      reply = .ok (some memory) ∧ memory.inSpace space = true := by
  rcases reply with error | (_ | found)
  · exact ⟨nofun, nofun⟩
  · exact ⟨nofun, nofun⟩
  · have checked := @checkSpace_eq_ok (some found) space memory
    rw [Except.ok.injEq]
    exact checked

theorem read_program {space memoryId named : String}
    (form : validateMemoryId memoryId = .ok named) :
    Policy.read space memoryId =
      @Program.ask effects _ (.backend (.get space memoryId)) fun reply =>
        .done (readReply space reply) := by
  unfold Policy.read
  rw [form]
  refine congrArg (@Program.ask effects _ (.backend (.get space memoryId)))
    (funext fun reply => ?_)
  cases reply with
  | error error => rfl
  | ok found =>
      cases found with
      | none => rfl
      | some memory => rfl

theorem read_bind {α β : Type} {space memoryId named : String}
    (form : validateMemoryId memoryId = .ok named) (rest : Memory → Operation α)
    (entry : AuditEntry) (close : Except Exc α × AuditEntry → Program effects β) :
    ((liftM (Policy.read space memoryId) >>= rest : Operation α) entry).bind close =
      readThen space memoryId (fun error => close (.error error, entry))
        fun memory => (rest memory entry).bind close := by
  rw [read_program form]
  refine congrArg (@Program.ask effects _ (.backend (.get space memoryId)))
    (funext fun reply => ?_)
  change Program.bind (Program.bind (Program.bind (.done _) _) _) _ = _
  unfold afterRead
  cases readReply space reply with
  | ok memory => rfl
  | error error => rfl

theorem Operation.OneCall.read {space memoryId : String} :
    Operation.OneCall unicode (liftM (Policy.read space memoryId)) := by
  intro entry
  cases form : validateMemoryId memoryId with
  | error error =>
      unfold Policy.read
      rw [form]
      trivial
  | ok named =>
      rw [read_program form]
      exact fun _ _ => ⟨_, rfl⟩

theorem read_refused {α : Type} {space memoryId : String} {error : Exc}
    (form : validateMemoryId memoryId = .error error) (rest : Memory → Operation α)
    (entry : AuditEntry) :
    (liftM (Policy.read space memoryId) >>= rest : Operation α) entry =
      .done (.error (asValidationError error), entry) := by
  unfold Policy.read
  rw [form]
  rfl

/-- Requests whose first call is their last. -/
def Request.isSingle : Request → Bool
  | .search .. | .get _ | .deleteAll _ | .listMemories .. | .entities ..
  | .exportMemories => true
  | .add .. | .update .. | .delete _ | .history _ | .importMemories .. => false

def Request.isImport : Request → Bool
  | .importMemories .. => true
  | _ => false

namespace Operations

variable {Task : Type} (operations : Operations Task)

section Points

variable (unicode) (fresh : FreshSupply Task)

/-- What an operation does at once: it runs alone.  An update lands too when the memory
has grown past the size cap since the update read it. -/
inductive Alone (task : Task) : Except Exc Response → Spaces → Spaces → Prop
  | ran {outcome : Except Exc Response} {asked : Nat} {spaces later : Spaces}
      (ran : (operations.program unicode task).exec (Spaces.store unicode).machine
        (fresh.supply task) 0 spaces = (outcome, asked, later)) :
      Alone task outcome spaces later
  | overtaken {memoryId : String} {content : Option String}
      {metadata : Option (Dict String Json)} {old : Item} {error : Exc} {spaces : Spaces}
      (request : operations.request task = .update memoryId content metadata)
      (found : Space.find memoryId (spaces (operations.space task)) = some old)
      (large : Policy.checkPatchSize (old.memory (operations.space task) none)
        ((Dict.given metadata).map asPatch) = .error error) :
      Alone task
        (.ok (.memory ((old.updatedBy (operations.key task) (fresh.supply task 1).now
          content metadata).memory (operations.space task) none)))
        spaces
        (Function.update spaces (operations.space task) (Space.changeOf memoryId
          (old.updatedBy (operations.key task) (fresh.supply task 1).now content metadata)
          (spaces (operations.space task))))

/-- The next call settles an operation with what the whole operation does at once. -/
def Decides (task : Task) (program : Program effects (Except Exc Response)) (asked : Nat)
    (spaces : Spaces) : Prop :=
  ∃ effect next outcome, program = @Program.ask effects _ effect next ∧
    let answer := (Spaces.store unicode).machine.perform (fresh.supply task asked) effect
      spaces
    Settled outcome (next answer.1) ∧ operations.Alone unicode fresh task outcome spaces
      answer.2

/-- What an add of the task's first call returns. -/
def created (task : Task) : Response :=
  .added (.many [{ id := (fresh.supply task 0).id, createdAt := (fresh.supply task 0).now }])

/-- What an add answers once it has read back what it stored. -/
def readBack (task : Task) (reply : Except Exc (Option Memory)) : Except Exc Response := do
  let stored ← reply
  let _ ← checkSpace stored (operations.space task)
  return created fresh task

/-- An add that has stored its memory and will read it back. -/
def ReadsBack (task : Task) (program : Program effects (Except Exc Response)) : Prop :=
  ∃ next, program = @Program.ask effects _
      (.backend (.get (operations.space task) (fresh.supply task 0).id)) next ∧
    ∀ reply, Settled (operations.readBack fresh task reply) (next reply)

end Points

/-- The reply to a `get` of a task's space. -/
def getReply (task : Task) (memoryId : String) (spaces : Spaces) :
    Except Exc (Option Memory) :=
  .ok ((Space.find memoryId (spaces (operations.space task))).map
    (Item.memory (operations.space task) none))

/-- What an operation does at once; an import takes effect call by call. -/
def sequential (unicode : Unicode) (fresh : FreshSupply Task) :
    Sequential Task (Except Exc Response) Spaces where
  alone := operations.Alone unicode fresh
  loose task := (operations.request task).isImport = true

/-- An add took effect, and answers an error as what it stored is gone. -/
structure Lost (fresh : FreshSupply Task) (task : Task) (spaces : Spaces)
    (value outcome : Except Exc Response) : Prop where
  add : (operations.request task).isAdd = true
  stored : value = .ok (created fresh task)
  failed : outcome = .error (.policyError .internalError internalErrorMsg)
  gone : ∀ item ∈ spaces (operations.space task), item.id ≠ (fresh.supply task 0).id

/-- What stays true of a memory that was read: the memory of that id has its creator. -/
def Agrees (space memoryId : String) (memory : Memory) (spaces : Spaces) : Prop :=
  ∀ item, Space.find memoryId (spaces space) = some item →
    item.system.spaceIs space = true ∧
      item.system.createdBy = memory.system.createdBy

/-- What the first call of an operation can be. -/
inductive Opens (unicode : Unicode) (fresh : FreshSupply Task) (task : Task)
    (spaces : Spaces) : Program effects (Except Exc Response) → Prop
  | decides {program : Program effects (Except Exc Response)}
      (decides : operations.Decides unicode fresh task program 0 spaces) :
      Opens unicode fresh task spaces program
  | reads {memoryId : String} {memory : Memory}
      {next : Except Exc (Option Memory) → Program effects (Except Exc Response)}
      (answered : (Spaces.perform unicode (fresh.supply task 0)
        (.get (operations.space task) memoryId) spaces).1 = .ok (some memory))
      (passes : memory.inSpace (operations.space task) = true)
      (decides : ∀ spaces', Agrees (operations.space task) memoryId memory spaces' →
        operations.Decides unicode fresh task (next (.ok (some memory))) 1 spaces') :
      Opens unicode fresh task spaces
        (@Program.ask effects _ (.backend (.get (operations.space task) memoryId)) next)
  | adds (adding : (operations.request task).isAdd = true) {effect : Effect} {next : effect.Reply → Program effects (Except Exc Response)}
      (alone : operations.Alone unicode fresh task (.ok (created fresh task)) spaces
        ((Spaces.store unicode).machine.perform (fresh.supply task 0) effect spaces).2)
      (readsBack : operations.ReadsBack fresh task
        (next ((Spaces.store unicode).machine.perform (fresh.supply task 0) effect
          spaces).1)) :
      Opens unicode fresh task spaces (@Program.ask effects _ effect next)

variable {operations} {fresh : FreshSupply Task} {task : Task} {spaces : Spaces}

/-- The first call decides an operation that only has its audit record to write then. -/
theorem Decides.of_settled {effect : Effect}
    {next : effect.Reply → Program effects (Except Exc Response)}
    {outcome : Except Exc Response}
    (asks : operations.program unicode task = @Program.ask effects _ effect next)
    (settled : Settled outcome (next ((Spaces.store unicode).machine.perform
      (fresh.supply task 0) effect spaces).1)) :
    operations.Decides unicode fresh task (operations.program unicode task) 0 spaces := by
  refine ⟨effect, next, outcome, asks, settled, ?_⟩
  obtain ⟨asked, ran⟩ := @Settled.exec unicode _ _ settled (fresh.supply task) 1
    ((Spaces.store unicode).machine.perform (fresh.supply task 0) effect spaces).2
  refine .ran (?_ : _ = (_, asked, _))
  rw [asks]
  exact ran

theorem Opens.of_oneCall {β : Type} {respond : β → Response} {name : String}
    {body : Operation β}
    (form : operations.program unicode task =
      respond <$> audited name (some (operations.key task)) body)
    (once : Operation.OneCall unicode body) :
    operations.Opens unicode fresh task spaces (operations.program unicode task) := by
  have once := once (.start name (some (operations.key task)))
  rw [audited_program] at form
  apply Opens.decides
  cases shape : body (.start name (some (operations.key task))) with
  | done ended =>
      rw [shape] at form
      exact .of_settled form (.inl rfl)
  | ask effect next =>
      rw [shape] at form once
      obtain ⟨ended, same⟩ := once (fresh.supply task 0) spaces
      refine .of_settled form (?_ : Settled (ended.1.map respond) _)
      rw [same]
      exact settled_closing respond ended

/-! Requests that make one call. -/

theorem opens_oneCall (single : (operations.request task).isSingle = true) :
    operations.Opens unicode fresh task spaces (operations.program unicode task) := by
  cases request : operations.request task with
  | add | update | delete | history | importMemories =>
      rw [request] at single
      cases single
  | search query scope limit threshold =>
      refine .of_oneCall (by rw [program, request]; rfl) ?_
      exact .check fun _ _ => .check fun _ _ => .check fun _ _ => .recording <|
        .action (fun _ _ => ⟨_, rfl⟩) fun _ => .check fun _ => .recording <| .pure _
  | get memoryId =>
      refine .of_oneCall (by rw [program, request]; rfl) ?_
      exact .recording <| .check fun _ _ => .read
  | deleteAll scope =>
      refine .of_oneCall (by rw [program, request]; rfl) ?_
      refine .check fun _ _ => .check fun cleaned _ => .recording ?_
      cases given : Dict.given cleaned with
      | none => exact .of_stops fun _ => ⟨_, rfl⟩
      | some cleaned =>
          exact .action (fun _ _ => ⟨_, rfl⟩) fun _ => .recording <| .pure _
  | listMemories scope limit cursor =>
      refine .of_oneCall (by rw [program, request]; rfl) ?_
      exact .check fun _ _ => .check fun _ _ => .check fun _ _ => .recording <|
        .call fun _ => .check fun _ => .recording <| .pure _
  | entities scope limit =>
      refine .of_oneCall (by rw [program, request]; rfl) ?_
      exact .check fun _ _ => .check fun _ _ => .check fun _ _ => .recording <|
        .action (fun _ _ => ⟨_, rfl⟩) fun _ => .recording <| .pure _
  | exportMemories =>
      refine .of_oneCall (by rw [program, request]; rfl) ?_
      refine .check fun _ _ => .action ?_ fun _ => .recording <| .pure _
      refine OneCall.bind (listAll_oneCall _ _) fun outcome => ?_
      cases outcome with
      | ok listed => exact ⟨_, rfl⟩
      | error error => exact ⟨_, rfl⟩

/-! Requests that read a memory first. -/

section Reading

variable {memoryId : String} {raised : Exc → Program effects (Except Exc Response)}
  {rest : Memory → Program effects (Except Exc Response)}

theorem perform_get (given : Fresh) :
    Spaces.perform unicode given (.get (operations.space task) memoryId) spaces =
      (operations.getReply task memoryId spaces, spaces) := by
  rw [Spaces.perform_named rfl]
  exact congrArg (_, ·) (Function.update_eq_self _ _)

theorem Opens.of_reading
    (form : operations.program unicode task =
      readThen (operations.space task) memoryId raised rest)
    (raises : ∀ error, Settled (.error error) (raised error))
    (goes : ∀ memory, (∃ outcome, Settled outcome (rest memory)) ∨
      ∀ spaces', Agrees (operations.space task) memoryId memory spaces' →
        operations.Decides unicode fresh task (rest memory) 1 spaces') :
    operations.Opens unicode fresh task spaces (operations.program unicode task) := by
  have answered : (Spaces.perform unicode (fresh.supply task 0)
      (.get (operations.space task) memoryId) spaces).1 =
        operations.getReply task memoryId spaces :=
    congrArg Prod.fst (perform_get _)
  have settled : ∀ outcome, Settled outcome (afterRead (operations.space task) raised rest
      (operations.getReply task memoryId spaces)) →
      operations.Opens unicode fresh task spaces (operations.program unicode task) := by
    intro outcome settled
    rw [← answered] at settled
    exact .decides (.of_settled form settled)
  cases read : readReply (operations.space task) (operations.getReply task memoryId spaces) with
  | error error =>
      refine settled (.error error) ?_
      simp only [afterRead, read]
      exact raises error
  | ok memory =>
      obtain ⟨replied, passes⟩ := readReply_eq_ok.mp read
      rcases goes memory with ⟨outcome, settles⟩ | decides
      · refine settled outcome ?_
        simp only [afterRead, read]
        exact settles
      · rw [form]
        refine .reads (answered.trans replied) passes fun spaces' agrees => ?_
        simp only [afterRead, readReply_eq_ok.mpr ⟨rfl, passes⟩]
        exact decides spaces' agrees

theorem exec_reading
    (form : operations.program unicode task =
      readThen (operations.space task) memoryId raised rest) :
    (operations.program unicode task).exec (Spaces.store unicode).machine
        (fresh.supply task) 0 spaces =
      (afterRead (operations.space task) raised rest
        (operations.getReply task memoryId spaces)).exec (Spaces.store unicode).machine
          (fresh.supply task) 1 spaces := by
  rw [form]
  exact congrArg (fun answer : Except Exc (Option Memory) × Spaces =>
    (afterRead (operations.space task) raised rest answer.1).exec
      (Spaces.store unicode).machine (fresh.supply task) 1 answer.2) (perform_get _)

/-- The call after the read decides, when another read would lead to the same call. -/
theorem Decides.of_rest
    (form : operations.program unicode task =
      readThen (operations.space task) memoryId raised rest)
    (raises : ∀ error, Settled (.error error) (raised error))
    {memory : Memory} (agrees : Agrees (operations.space task) memoryId memory spaces)
    {call : BackendCall} {next : Except Exc call.Result →
      Program effects (Except Exc Response)}
    (asks : rest memory = @Program.ask effects _ (.backend call) next)
    (settles : ∀ reply, ∃ outcome, Settled outcome (next reply))
    (again : ∀ item, Space.find memoryId (spaces (operations.space task)) = some item →
      rest (item.memory (operations.space task) none) = rest memory)
    (missing : Space.find memoryId (spaces (operations.space task)) = none →
      let answer := Spaces.perform unicode (fresh.supply task 1) call spaces
      Settled (.error (.policyError .notFound notFoundMsg)) (next answer.1) ∧
        answer.2 = spaces) :
    operations.Decides unicode fresh task (rest memory) 1 spaces := by
  have alone := @exec_reading unicode _ operations fresh task spaces _ _ _ form
  cases found : Space.find memoryId (spaces (operations.space task)) with
  | none =>
      obtain ⟨settled, same⟩ := missing found
      refine ⟨.backend call, next, _, asks, settled, ?_⟩
      simp only [getReply, found] at alone
      obtain ⟨asked, ran⟩ := @Settled.exec unicode _ _
        (raises (.policyError .notFound notFoundMsg)) (fresh.supply task) 1 spaces
      refine .ran (?_ : _ = (_, asked, _))
      exact (alone.trans ran).trans (congrArg (_, asked, ·) same.symm)
  | some item =>
      have passes : (item.memory (operations.space task) none).inSpace
          (operations.space task) = true := by
        simp [Memory.inSpace, Item.memory, (agrees item found).1]
      simp only [getReply, found, Option.map_some, afterRead,
        readReply_eq_ok.mpr ⟨rfl, passes⟩, again item found, asks] at alone
      obtain ⟨outcome, settled⟩ := settles
        (Spaces.perform unicode (fresh.supply task 1) call spaces).1
      refine ⟨.backend call, next, outcome, asks, settled, ?_⟩
      obtain ⟨asked, ran⟩ := @Settled.exec unicode _ _ settled (fresh.supply task) 2
        (Spaces.perform unicode (fresh.supply task 1) call spaces).2
      exact .ran (alone.trans ran : _ = (_, asked, _))

/-- A request that makes a second call about the memory it read, which answers as the
read does when the memory is gone. -/
theorem Opens.of_second {β : Type} {respond : β → Response} {entry : AuditEntry}
    {call : BackendCall} {result : Except Exc call.Result → Except Exc β}
    (form : operations.program unicode task =
      readThen (operations.space task) memoryId
        (fun error => closing respond (.error error, entry))
        fun _ => @Program.ask effects _ (.backend call) fun reply =>
          closing respond (result reply, entry))
    (missing : ∀ given spaces', Space.find memoryId (spaces' (operations.space task)) =
        none →
      result (Spaces.perform unicode given call spaces').1 =
          .error (.policyError .notFound notFoundMsg) ∧
        (Spaces.perform unicode given call spaces').2 = spaces') :
    operations.Opens unicode fresh task spaces (operations.program unicode task) := by
  refine .of_reading form (fun error => settled_closing respond (.error error, entry))
    fun memory => .inr fun spaces' agrees => ?_
  refine @Decides.of_rest _ _ _ _ _ _ _ _ _ form
    (fun error => settled_closing respond (.error error, entry)) memory agrees call _ rfl ?_
    ?_ ?_
  · exact fun reply => ⟨_, settled_closing respond (result reply, entry)⟩
  · exact fun _ _ => rfl
  · intro absent
    obtain ⟨refused, same⟩ := missing (fresh.supply task 1) spaces' absent
    refine ⟨?_, same⟩
    rw [refused]
    exact settled_closing respond (.error _, entry)

end Reading

/-- The program of a request that reads a memory once its checks pass. -/
theorem Opens.of_read {β : Type} {respond : β → Response} {name memoryId : String}
    {relation : Relation} {f : AuditEntry → AuditEntry} {checks : Except Exc Unit}
    {second : Key → Memory → Operation β}
    (form : operations.program unicode task =
      respond <$> audited name (some (operations.key task)) (do
        Operation.record f
        let key ← require (some (operations.key task)) relation
        checks
        let existing ← Policy.read key.grant.space memoryId
        second key existing))
    (goes : ∀ entry, checks = .ok () →
      operations.program unicode task =
        readThen (operations.space task) memoryId
          (fun error => closing respond (.error error, entry))
          (fun memory => (second (operations.key task) memory entry).bind
            (closing respond)) →
      operations.Opens unicode fresh task spaces (operations.program unicode task)) :
    operations.Opens unicode fresh task spaces (operations.program unicode task) := by
  cases granted : require (some (operations.key task)) relation with
  | error error =>
      refine .of_oneCall form (.recording ?_)
      rw [granted]
      exact fun _ => trivial
  | ok actor =>
      obtain rfl := Option.some.inj (require_eq_ok granted)
      cases passed : checks with
      | error error =>
          refine .of_oneCall form (.recording (.check fun _ _ => ?_))
          rw [passed]
          exact fun _ => trivial
      | ok =>
          cases valid : validateMemoryId memoryId with
          | error error =>
              refine .of_oneCall form
                (.recording (.check fun _ _ => .check fun _ _ entry => ?_))
              rw [read_refused valid]
              trivial
          | ok named =>
              refine goes (f (.start name (some (operations.key task)))) passed ?_
              rw [form, audited_program, granted, passed]
              exact read_bind valid _ _ _

theorem asNotFound_notFound : asNotFound notFound = .policyError .notFound notFoundMsg := by
  decide

theorem opens_delete {memoryId : String}
    (request : operations.request task = .delete memoryId) :
    operations.Opens unicode fresh task spaces (operations.program unicode task) := by
  have form : operations.program unicode task = Response.deleted <$>
      Policy.delete (some (operations.key task)) memoryId := by
    rw [program, request]
    rfl
  refine @Opens.of_read _ _ _ _ _ _ _ _ _ _ .writer _ (.ok ()) _ form fun entry _ form => ?_
  refine @Opens.of_second _ _ _ _ _ _ _ _ _ entry (.delete (operations.space task) memoryId)
    (Except.mapError asNotFound) form fun given spaces' missing => ?_
  rw [Spaces.perform_named rfl]
  simp only [Space.perform, Space.delete, missing, Function.update_eq_self, and_true]
  exact congrArg Except.error asNotFound_notFound

theorem opens_history {memoryId : String}
    (request : operations.request task = .history memoryId) :
    operations.Opens unicode fresh task spaces (operations.program unicode task) := by
  have form : operations.program unicode task = Response.history <$>
      Policy.history (some (operations.key task)) memoryId := by
    rw [program, request]
    rfl
  refine @Opens.of_read _ _ _ _ _ _ _ _ _ _ .reader _ (.ok ()) _ form fun entry _ form => ?_
  refine @Opens.of_second _ _ _ _ _ _ _ _ _ entry (.history (operations.space task) memoryId)
    (Except.mapError asNotFound) form fun given spaces' missing => ?_
  rw [Spaces.perform_named rfl]
  simp only [Space.perform, Space.history, missing, Function.update_eq_self, and_true]
  exact congrArg Except.error asNotFound_notFound

/-! Updates. -/

section Update

variable {memoryId : String} {content : Option String}
  {metadata : Option (Dict String Json)}

/-- The write of an update whose read gave the creator. -/
@[reducible] def updateCall (key : Key) (memoryId : String) (content : Option String)
    (metadata : Option (Dict String Json)) (createdBy : Option String) : BackendCall :=
  .update key.grant.space memoryId content ((Dict.given metadata).map asPatch)
    (some (systemFor key.grant.space key.name createdBy))

/-- An update once it has read its memory. -/
def updateRest (key : Key) (memoryId : String) (content : Option String)
    (metadata : Option (Dict String Json)) (existing : Memory) : Operation Memory := do
  validation (Policy.checkPatchSize existing ((Dict.given metadata).map asPatch))
  let updated ← (Action.backend (updateCall key memoryId content metadata
    existing.system.createdBy)).mapError asNotFound
  checkSpace (some updated) key.grant.space

theorem updateRest_small {key : Key} {existing : Memory} {entry : AuditEntry}
    (small : Policy.checkPatchSize existing ((Dict.given metadata).map asPatch) = .ok ()) :
    (updateRest key memoryId content metadata existing entry).bind
        (closing Response.memory) =
      @Program.ask effects _ (.backend (updateCall key memoryId content metadata
        existing.system.createdBy)) fun reply =>
          closing Response.memory (reply.mapError asNotFound >>= fun updated =>
            checkSpace (some updated) key.grant.space, entry) := by
  unfold updateRest
  rw [small]
  refine congrArg (@Program.ask effects _ _) (funext fun reply => ?_)
  cases reply with
  | ok updated => rfl
  | error error => rfl

theorem updateRest_large {key : Key} {existing : Memory} {entry : AuditEntry} {error : Exc}
    (large : Policy.checkPatchSize existing ((Dict.given metadata).map asPatch) =
      .error error) :
    (updateRest key memoryId content metadata existing entry).bind
        (closing Response.memory) =
      closing Response.memory (.error (asValidationError error), entry) := by
  unfold updateRest
  rw [large]
  rfl

theorem patch_free
    (checked : (localPolicy unicode).checkUpdateArguments content metadata = .ok ()) :
    refuseReservedMetadata unicode
      (((Dict.given metadata).map asPatch).elim [] MetadataPatch.keys) = .ok () := by
  obtain ⟨-, validMetadata⟩ := checkUpdateArguments_eq_ok (validation_eq_ok.mpr checked)
  rw [refuseReservedMetadata_eq_ok]
  cases given : Dict.given metadata with
  | none => exact nofun
  | some held =>
      intro key member
      exact not_reserved_of_valid (validMetadata held given) (keys_asPatch member)

theorem perform_updateCall {key : Key} {item : Item}
    (free : refuseReservedMetadata unicode
      (((Dict.given metadata).map asPatch).elim [] MetadataPatch.keys) = .ok ())
    (found : Space.find memoryId (spaces key.grant.space) = some item) (given : Fresh) :
    let changed := item.updatedBy key given.now content metadata
    Spaces.perform unicode given
        (updateCall key memoryId content metadata item.system.createdBy) spaces =
      (.ok (changed.memory key.grant.space none),
        Function.update spaces key.grant.space
          (Space.changeOf memoryId changed (spaces key.grant.space))) := by
  rw [Spaces.perform_named rfl]
  simp only [Space.perform, Space.update, free, found]
  rfl

theorem checkSpace_updatedBy {key : Key} {now : String} (item : Item) :
    let changed := item.updatedBy key now content metadata
    checkSpace (some (changed.memory key.grant.space none)) key.grant.space =
      .ok (changed.memory key.grant.space none) := by
  refine checkSpace_eq_ok.mpr ⟨rfl, ?_⟩
  simp [Memory.inSpace, Item.memory, Item.updatedBy, Item.changed]

theorem opens_update (request : operations.request task = .update memoryId content metadata) :
    operations.Opens unicode fresh task spaces (operations.program unicode task) := by
  have form : operations.program unicode task = Response.memory <$>
      (localPolicy unicode).update (some (operations.key task)) memoryId content
        metadata := by
    rw [program, request]
    rfl
  refine @Opens.of_read _ _ _ _ _ _ _ _ _ _ .writer _
    (validation ((localPolicy unicode).checkUpdateArguments content metadata))
    (fun key => updateRest key memoryId content metadata) form fun entry checked form => ?_
  have free := patch_free (validation_eq_ok.mp checked)
  have raises : ∀ error, Settled (.error error)
      (closing Response.memory (.error error, entry)) :=
    fun error => settled_closing Response.memory (.error error, entry)
  refine .of_reading form raises fun memory => ?_
  cases size : Policy.checkPatchSize memory ((Dict.given metadata).map asPatch) with
  | error error =>
      refine .inl ⟨.error (asValidationError error), ?_⟩
      rw [updateRest_large size]
      exact raises _
  | ok =>
      refine .inr fun spaces' agrees => ?_
      have settles : ∀ reply : Except Exc Memory, ∃ outcome, Settled outcome
          (closing Response.memory (reply.mapError asNotFound >>= fun updated =>
            checkSpace (some updated) (operations.key task).grant.space, entry)) :=
        fun reply => ⟨_, settled_closing Response.memory (_, entry)⟩
      have missing : Space.find memoryId (spaces' (operations.space task)) = none →
          let answer := Spaces.perform unicode (fresh.supply task 1)
            (updateCall (operations.key task) memoryId content metadata
              memory.system.createdBy) spaces'
          Settled (.error (.policyError .notFound notFoundMsg))
              (closing Response.memory (answer.1.mapError asNotFound >>= fun updated =>
                checkSpace (some updated) (operations.key task).grant.space, entry)) ∧
            answer.2 = spaces' := by
        intro missing
        rw [Spaces.perform_named rfl]
        have absent : Space.find memoryId (spaces' (operations.key task).grant.space) =
          none := missing
        simp only [Space.perform, Space.update, free, absent, Function.update_eq_self,
          and_true]
        exact raises _
      cases found : Space.find memoryId (spaces' (operations.space task)) with
      | none =>
          refine .of_rest form raises agrees (updateRest_small size) settles ?_ missing
          intro item there
          rw [found] at there
          cases there
      | some item =>
          obtain ⟨own, creator⟩ := agrees item found
          cases current : Policy.checkPatchSize (item.memory (operations.space task) none)
              ((Dict.given metadata).map asPatch) with
          | ok =>
              refine .of_rest form raises agrees (updateRest_small size) settles ?_ missing
              intro other there
              obtain rfl := Option.some.inj (found.symm.trans there)
              rw [updateRest_small current, updateRest_small size]
              exact congrArg (fun createdBy => @Program.ask effects _ (.backend (updateCall
                (operations.key task) memoryId content metadata createdBy)) fun reply =>
                  closing Response.memory (reply.mapError asNotFound >>= fun updated =>
                    checkSpace (some updated) (operations.key task).grant.space, entry))
                creator
          | error error =>
              have overtaken := @Alone.overtaken unicode _ operations fresh task _ content _
                _ _ _ request found current
              have landed := @perform_updateCall unicode spaces' memoryId content metadata
                (operations.key task) item free found (fresh.supply task 1)
              rw [creator] at landed
              refine ⟨.backend (updateCall (operations.key task) memoryId content metadata
                memory.system.createdBy), _, .ok (.memory ((item.updatedBy
                  (operations.key task) (fresh.supply task 1).now content metadata).memory
                    (operations.space task) none)), updateRest_small size, ?_, ?_⟩
              · change Settled _ (closing Response.memory
                  ((Spaces.perform unicode (fresh.supply task 1) (updateCall
                    (operations.key task) memoryId content metadata
                      memory.system.createdBy) spaces').1.mapError asNotFound >>=
                    fun updated => checkSpace (some updated)
                      (operations.key task).grant.space, entry))
                rw [landed]
                refine (congrArg (fun outcome => Settled _
                  (closing Response.memory (outcome, entry))) (checkSpace_updatedBy item)).mpr ?_
                exact settled_closing Response.memory (.ok _, entry)
              · change operations.Alone unicode fresh task _ spaces'
                  (Spaces.perform _ _ _ _).2
                rw [landed]
                exact overtaken

end Update

/-! Adds. -/

theorem readBack_of_found {item : Item}
    (found : Space.find (fresh.supply task 0).id (spaces (operations.space task)) = some item)
    (own : item.system.spaceIs (operations.space task) = true) :
    operations.readBack fresh task
        (operations.getReply task (fresh.supply task 0).id spaces) =
      .ok (created fresh task) := by
  have passes : checkSpace (some (item.memory (operations.space task) none))
      (operations.space task) = .ok (item.memory (operations.space task) none) :=
    checkSpace_eq_ok.mpr ⟨rfl, by simp [Memory.inSpace, Item.memory, own]⟩
  simp only [getReply, found, Option.map_some, readBack]
  change (checkSpace _ _ >>= _) = _
  rw [passes]
  rfl

theorem ReadsBack.settles {program : Program effects (Except Exc Response)}
    (readsBack : operations.ReadsBack fresh task program) {item : Item}
    (found : Space.find (fresh.supply task 0).id (spaces (operations.space task)) = some item)
    (own : item.system.spaceIs (operations.space task) = true) :
    ∃ asked, program.exec (Spaces.store unicode).machine (fresh.supply task) 1 spaces =
      (.ok (created fresh task), asked, spaces) := by
  obtain ⟨next, rfl, settles⟩ := readsBack
  have settled := settles (operations.getReply task (fresh.supply task 0).id spaces)
  rw [readBack_of_found found own] at settled
  obtain ⟨asked, ran⟩ := @Settled.exec unicode _ _ settled (fresh.supply task) 2 spaces
  refine ⟨asked, ?_⟩
  rw [← ran]
  exact congrArg (fun answer : Except Exc (Option Memory) × Spaces =>
    (next answer.1).exec (Spaces.store unicode).machine (fresh.supply task) 2 answer.2)
      (perform_get _)

/-- The write of an add. -/
@[reducible] def addCall (key : Key) (content : String)
    (scope metadata : Option (Dict String Json)) (infer : Bool) : BackendCall :=
  .add key.grant.space content scope metadata infer
    (some (systemFor key.grant.space key.name (some key.name)))

/-- An add once the backend has answered. -/
def addRest (key : Key) (result : AddReturn) : Operation AddReturn := do
  Operation.record fun entry => { entry with ids := some (result.items.map AddResult.id) }
  Policy.checkAdded key.grant.space result.items
  return result

theorem addRest_readsBack (entry : AuditEntry) :
    operations.ReadsBack fresh task
      ((addRest (operations.key task)
        (.many [{ id := (fresh.supply task 0).id, createdAt := (fresh.supply task 0).now }])
          entry).bind (closing Response.added)) := by
  refine ⟨_, rfl, fun reply => ?_⟩
  have settles : ∀ (checked : Except Exc Memory) entry, Settled
      (checked >>= fun _ => pure (created fresh task))
      ((((liftM checked >>= fun _ => Policy.checkAdded (operations.space task) []) >>=
        fun _ => pure (.many [{ id := (fresh.supply task 0).id
                                createdAt := (fresh.supply task 0).now }]) :
          Operation AddReturn) entry).bind (closing Response.added)) := by
    intro checked entry
    cases checked with
    | error error => exact settled_closing Response.added (.error error, entry)
    | ok memory => exact settled_closing Response.added (.ok _, entry)
  cases reply with
  | error error => exact settled_closing Response.added (.error error, _)
  | ok stored => exact settles (checkSpace stored (operations.space task)) _

theorem opens_add {content : String} {scope : Json}
    {metadata : Option (Dict String Json)} {infer : Bool}
    (request : operations.request task = .add content scope metadata infer)
    (unused : ∀ item ∈ spaces (operations.space task), item.id ≠ (fresh.supply task 0).id) :
    operations.Opens unicode fresh task spaces (operations.program unicode task) := by
  have form : operations.program unicode task = Response.added <$>
      (localPolicy unicode).add (some (operations.key task)) content scope metadata
        infer := by
    rw [program, request]
    rfl
  unfold Policy.add at form
  cases granted : require (some (operations.key task)) .writer with
  | error error =>
      refine .of_oneCall form ?_
      rw [granted]
      exact fun _ => trivial
  | ok actor =>
      obtain rfl := Option.some.inj (require_eq_ok granted)
      cases checked : validation ((localPolicy unicode).checkAddArguments content
          metadata) with
      | error error =>
          refine .of_oneCall form (.check fun _ _ => ?_)
          rw [checked]
          exact fun _ => trivial
      | ok =>
          cases valid : validateScope unicode scope localScopeKeys with
          | error error =>
              refine .of_oneCall form (.check fun _ _ => .check fun _ _ => ?_)
              change Operation.OneCall unicode (liftM (validateScope unicode scope
                localScopeKeys) >>= _)
              rw [valid]
              exact fun _ => trivial
          | ok cleaned =>
              let entry : AuditEntry :=
                { AuditEntry.start "add" (some (operations.key task)) with scope := cleaned }
              let next (reply : Except Exc AddReturn) :=
                ((liftM reply >>= addRest (operations.key task) : Operation AddReturn)
                  entry).bind (closing Response.added)
              have asks : operations.program unicode task =
                  @Program.ask effects _ (.backend (addCall (operations.key task) content
                    cleaned metadata infer)) next := by
                rw [form, audited_program, granted, checked]
                change Program.bind ((liftM (validateScope unicode scope localScopeKeys) >>= _ :
                  Operation AddReturn) _) _ = _
                rw [valid]
                rfl
              obtain ⟨-, accepted⟩ := checkAddArguments_eq_ok checked
              have flat : refuseNestedFilters unicode cleaned = .ok () :=
                refuseNestedFilters_validated valid
              have free : refuseReservedMetadata unicode (metadata.getD ∅).keys = .ok () :=
                Import.accepted_free accepted
              let stored := Item.addedBy unicode (operations.key task) (fresh.supply task 0)
                content cleaned metadata
              have performed : Spaces.perform unicode (fresh.supply task 0)
                  (addCall (operations.key task) content cleaned metadata infer) spaces =
                  (.ok (.many [{ id := (fresh.supply task 0).id
                                 createdAt := (fresh.supply task 0).now }]),
                    Function.update spaces (operations.space task)
                      (spaces (operations.space task) ++ [stored])) := by
                rw [Spaces.perform_named rfl]
                simp only [Space.perform, Space.add, flat, free]
                rfl
              have readsBack := @addRest_readsBack Task operations fresh task
                { AuditEntry.start "add" (some (operations.key task)) with scope := cleaned }
              have found : Space.find (fresh.supply task 0).id (Function.update spaces
                  (operations.space task) (spaces (operations.space task) ++ [stored])
                    (operations.space task)) = some stored := by
                rw [Function.update_self]
                exact @Import.find_append_self _ stored unused
              obtain ⟨asked, ran⟩ := @ReadsBack.settles unicode _ _ _ _ _ _ readsBack _ found
                (systemFor_spaceIs _ _ _)
              have alone : (operations.program unicode task).exec
                  (Spaces.store unicode).machine (fresh.supply task) 0 spaces =
                  (.ok (created fresh task), asked, (Spaces.perform unicode
                    (fresh.supply task 0) (addCall (operations.key task) content cleaned
                      metadata infer) spaces).2) := by
                rw [asks, performed, ← ran]
                exact congrArg (fun answer : Except Exc AddReturn × Spaces =>
                  (next answer.1).exec (Spaces.store unicode).machine (fresh.supply task) 1
                    answer.2) performed
              have stores : operations.ReadsBack fresh task (next (Spaces.perform unicode
                  (fresh.supply task 0) (addCall (operations.key task) content cleaned
                    metadata infer) spaces).1) := by
                rw [performed]
                exact readsBack
              rw [asks]
              have adding : (operations.request task).isAdd = true := by
                rw [request]
                rfl
              exact @Opens.adds _ operations unicode fresh task spaces adding
                (.backend (addCall (operations.key task) content cleaned metadata infer)) next
                (.ran alone) stores

end Operations

end Memcp
