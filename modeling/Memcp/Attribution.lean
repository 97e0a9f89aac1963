import Memcp.Backends.Local

/-!
Who wrote what.  The log of a run tells which task created a memory and which
task wrote it last; the system fields stored with a memory name the keys of
these two tasks, whatever else the operations were given.
-/

namespace Memcp

open Python Interaction

/-! Reading the log. -/

section Log

variable {Task : Type}

/-- A memory that a logged add stored. -/
structure Creation (Task : Type) where
  task : Task
  partition : String
  id : String
  createdAt : String
  scope : Option (Dict String Json)

def creationsOf : Task × Event effects → List (Creation Task)
  | (task, ⟨.backend (.add partition _ scope _ _ _), .ok result⟩) =>
      result.items.map fun item =>
        { task, partition, id := item.id, createdAt := item.createdAt, scope }
  | _ => []

def creations (log : List (Task × Event effects)) : List (Creation Task) :=
  log.flatMap creationsOf

/-- The task whose add stored the memory `id`. -/
def creator (log : List (Task × Event effects)) (id : String) : Option Task :=
  ((creations log).find? fun creation => creation.id = id).map Creation.task

/-- Whether an event added or changed the memory `id` of `partition`. -/
def wrote (partition id : String) : Event effects → Bool
  | ⟨.backend call, reply⟩ =>
      call.partition? = some partition && id ∈ call.written reply
  | ⟨.audit _, _⟩ => false

/-- The task whose write of the memory was the last. -/
def lastWriter (log : List (Task × Event effects)) (partition id : String) :
    Option Task :=
  ((log.filter fun entry => wrote partition id entry.2).getLast?).map Prod.fst

variable {log : List (Task × Event effects)} {task : Task}
  {event : Event effects} {partition id : String}

theorem creations_append :
    creations (log ++ [(task, event)]) =
      creations log ++ creationsOf (task, event) := by
  simp [creations]

theorem creations_grow {more : List (Task × Event effects)}
    {creation : Creation Task} (member : creation ∈ creations log) :
    creation ∈ creations (log ++ more) := by
  rw [creations, List.flatMap_append]
  exact List.mem_append_left _ member

theorem lastWriter_of_wrote (writes : wrote partition id event = true) :
    lastWriter (log ++ [(task, event)]) partition id = some task := by
  simp [lastWriter, List.filter_append, writes]

theorem lastWriter_of_not_wrote (silent : wrote partition id event = false) :
    lastWriter (log ++ [(task, event)]) partition id =
      lastWriter log partition id := by
  simp [lastWriter, List.filter_append, silent]

/-- A call that wrote nothing created nothing. -/
theorem creationsOf_of_silent {call : BackendCall} {reply : Except Exc call.Result}
    (silent : call.written reply = []) :
    creationsOf (task, ⟨.backend call, reply⟩) = [] := by
  cases call with
  | add =>
      cases reply with
      | error error => rfl
      | ok result =>
          have none : result.items = [] := List.map_eq_nil_iff.mp silent
          simp [creationsOf, none]
  | search | get | update | delete | deleteAll | listMemories | history
  | entities | capabilities => rfl

/-- A call creates at most the id it was given. -/
theorem creationsOf_perform (unicode : Unicode) (given : Fresh)
    (call : BackendCall) (items : List Item) :
    let event : Event effects :=
      ⟨.backend call, (Space.perform unicode given call items).1⟩
    (creationsOf (task, event)).length ≤ 1 ∧
      ∀ creation ∈ creationsOf (task, event),
        creation.task = task ∧ creation.id = given.id := by
  have step := Space.step unicode given call items
  generalize Space.perform unicode given call items = answer at step
  cases step with
  | added => simp [creationsOf, AddReturn.items]
  | changed found => simp [creationsOf]
  | wroteNone silent fewer => simp [creationsOf_of_silent silent]

end Log

/-! What the log says of the stored memories. -/

section Invariant

variable {Task : Type} (operations : Operations Task) (unicode : Unicode)

/-- The fields of a memory that its creation decides. -/
structure Creation.Made (creation : Creation Task) (partition : String)
    (item : Item) : Prop where
  id : creation.id = item.id
  partition : creation.partition = partition
  scope : item.scope = scopeAsText unicode (creation.scope.getD ∅)
  createdAt : item.createdAt = creation.createdAt
  createdBy : item.system.createdBy =
    some (operations.key creation.task).name

/-- A memory has the fields its creation decides, and its last writer's stamp. -/
structure Attributed (log : List (Task × Event effects)) (partition : String)
    (item : Item) : Prop where
  creation : ∃ creation ∈ creations log,
    creation.Made operations unicode partition item
  writer : ∃ writer, lastWriter log partition item.id = some writer ∧
    item.system = systemFor partition (operations.key writer).name
      item.system.createdBy

/-- What a reply shows of a memory was true of it, as far as its creation
decides; a get shows the memory it was asked for. -/
structure Faithful (log : List (Task × Event effects)) (event : Event effects) :
    Prop where
  shown : ∀ memory ∈ replyMemories event.call event.reply,
    ∃ creation ∈ creations log, creation.id = memory.id ∧
      memory.system.createdBy = some (operations.key creation.task).name
  fetched : ∀ space id memory,
    event = ⟨.backend (.get space id), .ok (some memory)⟩ → memory.id = id

variable {operations unicode} {log : List (Task × Event effects)} {task : Task}
  {event : Event effects} {spaces spaces' : Spaces} {partition : String}
  {item : Item}

/-! One more event in the log. -/

theorem Attributed.append (attributed : Attributed operations unicode log partition item)
    (silent : wrote partition item.id event = false) :
    Attributed operations unicode (log ++ [(task, event)]) partition item := by
  obtain ⟨⟨creation, member, made⟩, writer, last, system⟩ := attributed
  exact ⟨⟨creation, creations_grow member, made⟩, writer,
    (lastWriter_of_not_wrote silent).trans last, system⟩

theorem Attributed.added (given : Fresh) (content : String)
    (scope metadata : Option (Dict String Json)) (infer : Bool) :
    let system := some (systemFor partition (operations.key task).name
      (some (operations.key task).name))
    Attributed operations unicode
      (log ++ [(task, ⟨.backend (.add partition content scope metadata infer system),
        .ok (.many [{ id := given.id, createdAt := given.now }])⟩)])
      partition (Item.added unicode given content scope metadata system) where
  creation := by
    refine ⟨{ task, partition, id := given.id, createdAt := given.now, scope }, ?_, ?_⟩
    · simp [creations, creationsOf, AddReturn.items]
    · constructor <;> rfl
  writer := by
    refine ⟨task, lastWriter_of_wrote ?_, rfl⟩
    simp [wrote, BackendCall.partition?, BackendCall.written, AddReturn.items,
      Item.added]

theorem Attributed.changed
    (attributed : Attributed operations unicode log partition item) (now : String)
    (content : Option String) (patch : Option MetadataPatch) (updated : Memory) :
    let system := some (systemFor partition (operations.key task).name
      item.system.createdBy)
    Attributed operations unicode
      (log ++ [(task, ⟨.backend (.update partition item.id content patch system),
        .ok updated⟩)])
      partition (item.changed now content patch system) where
  creation := by
    obtain ⟨creation, member, made⟩ := attributed.creation
    exact ⟨creation, creations_grow member, made.id, made.partition, made.scope,
      made.createdAt, made.createdBy⟩
  writer := by
    refine ⟨task, lastWriter_of_wrote ?_, rfl⟩
    simp [wrote, BackendCall.partition?, BackendCall.written, Item.changed]

theorem Faithful.append {shown : Event effects}
    (faithful : Faithful operations log shown) :
    Faithful operations (log ++ [(task, event)]) shown where
  shown memory member := by
    obtain ⟨creation, created, same⟩ := faithful.shown memory member
    exact ⟨creation, creations_grow created, same⟩
  fetched := faithful.fetched

/-- What the reply of a call shows is what the call leaves. -/
theorem Faithful.of_items {call : BackendCall}
    (named : call.partition? = some partition) {given : Fresh}
    (items : ∀ item ∈ (Space.perform unicode given call (spaces partition)).2,
      Attributed operations unicode log partition item)
    (same : event = ⟨.backend call,
      (Space.perform unicode given call (spaces partition)).1⟩) :
    Faithful operations log event := by
  subst same
  constructor
  · intro memory member
    cases reply : (Space.perform unicode given call (spaces partition)).1 with
    | error error =>
        simp [reply, replyMemories] at member
    | ok value =>
        simp only [reply, replyMemories] at member
        obtain ⟨item, itemMember, _, _, rfl⟩ := Space.mem_of_reply reply member
        obtain ⟨creation, created, made⟩ := (items item itemMember).creation
        exact ⟨creation, created, made.id, made.createdBy⟩
  · intro space id memory same
    cases call with
    | get owner memoryId =>
        simp only [Space.perform, Event.mk.injEq, Effect.backend.injEq,
          BackendCall.get.injEq] at same
        obtain ⟨⟨rfl, rfl⟩, replied⟩ := same
        obtain ⟨item, found, rfl⟩ :=
          Option.map_eq_some_iff.mp (Except.ok.inj (eq_of_heq replied))
        exact (Space.mem_of_find found).2
    | _ => cases same

variable [DecidableEq Task]

variable (operations unicode) in
structure Recorded (fresh : FreshSupply Task) (log : List (Task × Event effects))
    (spaces : Spaces) : Prop where
  /-- No id is created twice. -/
  distinct : ((creations log).map Creation.id).Nodup
  /-- A created id was the fresh id of an earlier call of its task. -/
  issued : ∀ creation ∈ creations log,
    ∃ n < (log.filter fun entry => entry.1 = creation.task).length,
      creation.id = (fresh.supply creation.task n).id
  items : ∀ partition, ∀ item ∈ spaces partition,
    Attributed operations unicode log partition item
  replies : ∀ entry ∈ log, Faithful operations log entry.2

variable {fresh : FreshSupply Task}

namespace Recorded

theorem start (fresh : FreshSupply Task) :
    Recorded operations unicode fresh [] fun _ => [] where
  distinct := List.nodup_nil
  issued _ member := by simp [creations] at member
  items _ _ member := by simp at member
  replies _ member := by simp at member

theorem creation_unique (recorded : Recorded operations unicode fresh log spaces)
    {creation other : Creation Task} (member : creation ∈ creations log)
    (otherMember : other ∈ creations log) (same : creation.id = other.id) :
    creation = other :=
  List.inj_on_of_nodup_map recorded.distinct member otherMember same

theorem creator_eq (recorded : Recorded operations unicode fresh log spaces)
    {creation : Creation Task} (member : creation ∈ creations log) :
    creator log creation.id = some creation.task := by
  cases found : (creations log).find? fun other => other.id = creation.id with
  | none => simpa using List.find?_eq_none.mp found creation member
  | some other =>
      have same : other = creation := recorded.creation_unique
        (List.mem_of_find?_eq_some found) member (by simpa using List.find?_some found)
      simp [creator, found, same]

/-- The log tells the system fields of every stored memory. -/
theorem system_eq (recorded : Recorded operations unicode fresh log spaces)
    (member : item ∈ spaces partition) :
    ∃ made wrote, creator log item.id = some made ∧
      lastWriter log partition item.id = some wrote ∧
      item.system = systemFor partition (operations.key wrote).name
        (some (operations.key made).name) := by
  obtain ⟨⟨creation, created, made⟩, writer, last, system⟩ :=
    recorded.items partition item member
  exact ⟨creation.task, writer, made.id ▸ recorded.creator_eq created, last,
    made.createdBy ▸ system⟩

/-- What creation decides is the same in a later state. -/
theorem lasting (recorded : Recorded operations unicode fresh log spaces)
    {longer : List (Task × Event effects)} (grows : log <+: longer)
    (later : Recorded operations unicode fresh longer spaces')
    (member : item ∈ spaces partition) {partition' : String} {item' : Item}
    (member' : item' ∈ spaces' partition') (same : item'.id = item.id) :
    partition' = partition ∧ item'.scope = item.scope ∧
      item'.createdAt = item.createdAt ∧
      item'.system.createdBy = item.system.createdBy := by
  obtain ⟨creation, created, made⟩ := (recorded.items partition item member).creation
  obtain ⟨other, otherCreated, otherMade⟩ :=
    (later.items partition' item' member').creation
  obtain ⟨more, rfl⟩ := grows
  obtain rfl : creation = other := later.creation_unique (creations_grow created)
    otherCreated (made.id.trans (same.symm.trans otherMade.id.symm))
  refine ⟨otherMade.partition.symm.trans made.partition, ?_, ?_, ?_⟩
  · rw [otherMade.scope, made.scope]
  · rw [otherMade.createdAt, made.createdAt]
  · rw [otherMade.createdBy, made.createdBy]

theorem next_unused (recorded : Recorded operations unicode fresh log spaces)
    {creation : Creation Task} (member : creation ∈ creations log) :
    creation.id ≠
      (fresh.supply task (log.filter fun entry => entry.1 = task).length).id := by
  intro same
  obtain ⟨n, earlier, issued⟩ := recorded.issued creation member
  obtain ⟨rfl, rfl⟩ := fresh.distinct (issued.symm.trans same)
  exact Nat.lt_irrefl _ earlier

theorem issued_append (recorded : Recorded operations unicode fresh log spaces)
    {creation : Creation Task} (member : creation ∈ creations log) :
    ∃ n < ((log ++ [(task, event)]).filter
        fun entry => entry.1 = creation.task).length,
      creation.id = (fresh.supply creation.task n).id := by
  obtain ⟨n, earlier, issued⟩ := recorded.issued creation member
  refine ⟨n, Nat.lt_of_lt_of_le earlier ?_, issued⟩
  rw [List.filter_append, List.length_append]
  exact Nat.le_add_right _ _

/-- An event that creates at most the id its task was given. -/
theorem append (recorded : Recorded operations unicode fresh log spaces)
    (created : ∀ creation ∈ creationsOf (task, event), creation.task = task ∧
      creation.id =
        (fresh.supply task (log.filter fun entry => entry.1 = task).length).id)
    (once : (creationsOf (task, event)).length ≤ 1)
    (items : ∀ partition, ∀ item ∈ spaces' partition,
      Attributed operations unicode (log ++ [(task, event)]) partition item)
    (faithful : Faithful operations (log ++ [(task, event)]) event) :
    Recorded operations unicode fresh (log ++ [(task, event)]) spaces' where
  distinct := by
    rw [creations_append, List.map_append, List.nodup_append]
    refine ⟨recorded.distinct, ?_, ?_⟩
    · cases shape : creationsOf (task, event) with
      | nil => exact List.nodup_nil
      | cons first rest =>
          rw [shape, List.length_cons] at once
          obtain rfl : rest = [] := List.length_eq_zero_iff.mp (by omega)
          exact List.nodup_singleton _
    · intro id old other new same
      obtain ⟨creation, member, rfl⟩ := List.mem_map.mp old
      obtain ⟨added, addedMember, rfl⟩ := List.mem_map.mp new
      exact recorded.next_unused member (same.trans (created added addedMember).2)
  issued := by
    intro creation member
    rw [creations_append] at member
    rcases List.mem_append.mp member with old | new
    · exact recorded.issued_append old
    · obtain ⟨rfl, given⟩ := created creation new
      exact ⟨_, by simp, given⟩
  items := items
  replies := by
    intro entry member
    rcases List.mem_append.mp member with old | new
    · exact (recorded.replies entry old).append
    · obtain rfl := List.mem_singleton.mp new
      exact faithful

end Recorded

/-! One more call. -/

namespace Recorded

/-- The memory a read of `id` gave has the creator of the memory `id`. -/
theorem createdBy_of_vouches
    (recorded : Recorded operations unicode fresh log spaces)
    {past : Trace effects} (logged : ∀ event ∈ past, ∃ task, (task, event) ∈ log)
    {space id : String} {memory : Memory} (vouches : Vouches space id past memory)
    (member : item ∈ spaces partition) (same : item.id = id) :
    memory.system.createdBy = item.system.createdBy := by
  have shown : memory.id = id ∧ Returned past memory := by
    refine ⟨?_, vouches.shown.1⟩
    cases vouches.2 with
    | inl fetched =>
        obtain ⟨task, entry⟩ := logged _ fetched
        exact (recorded.replies _ entry).fetched space id memory rfl
    | inr held => exact held.1
  obtain ⟨shownId, event, eventMember, found⟩ := shown
  obtain ⟨task, entry⟩ := logged event eventMember
  obtain ⟨creation, created, sameId, createdBy⟩ :=
    (recorded.replies _ entry).shown memory found
  obtain ⟨own, ownCreated, made⟩ := (recorded.items partition item member).creation
  have equal : creation = own := recorded.creation_unique created ownCreated
    (by rw [sameId, shownId, made.id, same])
  rw [createdBy, equal, made.createdBy]

/-- The memories of the space a permitted call names, after the call. -/
theorem items_step (recorded : Recorded operations unicode fresh log spaces)
    {call : BackendCall} (named : call.partition? = some partition)
    (permitted : Permitted (localPolicy unicode) (operations.key task)
      ((log.filter fun entry => entry.1 = task).map Prod.snd) (.backend call)) :
    let given := fresh.supply task (log.filter fun entry => entry.1 = task).length
    let answer := Space.perform unicode given call (spaces partition)
    ∀ item ∈ answer.2, Attributed operations unicode
      (log ++ [(task, ⟨.backend call, answer.1⟩)]) partition item := by
  intro given answer item member
  have own := recorded.items partition
  obtain ⟨inSpace, -, permitted⟩ := permitted
  have step : Space.Step unicode given (spaces partition) call answer :=
    Space.step unicode given call (spaces partition)
  clear_value answer
  cases step with
  | @added _ content scope metadata infer system =>
      cases named
      obtain ⟨-, -, -, rfl⟩ := permitted
      obtain rfl := inSpace _ rfl
      rcases List.mem_append.mp member with old | new
      · obtain ⟨creation, created, made⟩ := (own item old).creation
        have differ : item.id ≠ given.id := made.id ▸ recorded.next_unused created
        refine (own item old).append ?_
        simp [wrote, BackendCall.written, AddReturn.items, differ]
      · obtain rfl := List.mem_singleton.mp new
        exact .added given content scope metadata infer
  | @changed _ memoryId content patch system old found =>
      cases named
      obtain ⟨-, memory, vouches, -, rfl⟩ := permitted
      obtain rfl := inSpace _ rfl
      obtain ⟨oldMember, rfl⟩ := Space.mem_of_find found
      have creator : memory.system.createdBy = old.system.createdBy :=
        recorded.createdBy_of_vouches
          (fun event member => ⟨task, by simpa using member⟩) vouches oldMember rfl
      rw [creator] at member ⊢
      obtain ⟨other, otherMember, rfl⟩ := List.mem_map.mp member
      split
      case isTrue same => exact (own old oldMember).changed _ _ _ _
      case isFalse differ =>
        refine (own other otherMember).append ?_
        simp [wrote, BackendCall.written, differ]
  | wroteNone silent fewer =>
      refine (own item (fewer member)).append ?_
      simp [wrote, silent]

/-- The call a task is permitted, answered with the fresh id of its turn. -/
theorem step (recorded : Recorded operations unicode fresh log spaces)
    (task : Task) (call : BackendCall)
    (permitted : Permitted (localPolicy unicode) (operations.key task)
      ((log.filter fun entry => entry.1 = task).map Prod.snd) (.backend call)) :
    let given := fresh.supply task (log.filter fun entry => entry.1 = task).length
    Recorded operations unicode fresh
      (log ++ [(task,
        ⟨.backend call, (Spaces.perform unicode given call spaces).1⟩)])
      (Spaces.perform unicode given call spaces).2 := by
  intro given
  cases named : call.partition? with
  | none =>
      cases call with
      | capabilities =>
          refine recorded.append nofun (Nat.zero_le _)
            (fun partition item member => (recorded.items partition item member).append rfl)
            ⟨nofun, nofun⟩
      | _ => cases named
  | some partition =>
      rw [Spaces.perform_named named]
      have items := recorded.items_step named permitted
      obtain ⟨once, created⟩ :=
        creationsOf_perform unicode given call (spaces partition)
      refine recorded.append created once ?_ (.of_items named items rfl)
      · intro other item member
        rcases eq_or_ne other partition with rfl | differ
        · exact items item (by simpa using member)
        · simp only [Function.update_of_ne differ] at member
          refine (recorded.items other item member).append ?_
          simp [wrote, named, differ.symm]

end Recorded

end Invariant

namespace Operations

variable {Task : Type} [DecidableEq Task] (operations : Operations Task)

/-- The log of the spaces, with what each task may still do. -/
structure Attributing (unicode : Unicode) (fresh : FreshSupply Task)
    (pool : Pool effects Task (Except Exc Response)
      (Spaces.store unicode).machine.State) : Prop where
  safe : pool.AllSafe
    (fun task => Permitted (localPolicy unicode) (operations.key task))
    (fun _ _ _ => True)
  recorded : Recorded operations unicode fresh pool.log pool.state

variable {operations} {unicode : Unicode} {fresh : FreshSupply Task}
  {pool : Pool effects Task (Except Exc Response)
    (Spaces.store unicode).machine.State}

theorem start_permitted :
    (Pool.start (fun _ => [] : Spaces) (operations.program unicode)).AllSafe
      (fun task => Permitted (localPolicy unicode) (operations.key task))
      (fun _ _ _ => True) := by
  intro task
  refine Safe.mono (operations.program_safe unicode task) ?_ fun _ _ _ => trivial
  exact fun _ _ allowed => allowed

theorem Attributing.step (attributing : operations.Attributing unicode fresh pool)
    (task : Task) :
    operations.Attributing unicode fresh
      (pool.step (Spaces.store unicode).machine fresh.supply task) where
  safe := attributing.safe.step task
  recorded := by
    have recorded := attributing.recorded
    cases asks : pool.program task with
    | done value =>
        rw [Pool.step_of_done asks]
        exact recorded
    | ask effect next =>
        have here := attributing.safe task
        rw [asks] at here
        rw [Pool.step_of_ask asks]
        cases effect with
        | audit entry =>
            exact recorded.append nofun (Nat.zero_le _)
              (fun partition item member =>
                (recorded.items partition item member).append rfl)
              ⟨nofun, nofun⟩
        | backend call =>
            have turn := recorded.step task call here.1
            rw [Pool.past, List.length_map]
            exact turn

theorem runSpaces_recorded (operations : Operations Task) (unicode : Unicode)
    (fresh : FreshSupply Task) (schedule : List Task) :
    Recorded operations unicode fresh
      (operations.runSpaces unicode fresh schedule).log
      (operations.runSpaces unicode fresh schedule).state :=
  (Pool.run_invariant (operations.Attributing unicode fresh)
    (fun _ task attributing => attributing.step task)
    ⟨start_permitted, .start fresh⟩ schedule).recorded

end Operations

theorem memories_are_attributed (unicode : Unicode) (backend : LocalBackend)
    {Task : Type} [DecidableEq Task] (operations : Operations Task)
    (fresh : FreshSupply Task) (schedule : List Task) :
    let stored := operations.stored unicode backend fresh
    let log := (operations.run unicode backend fresh schedule).log
    (∀ partition, ∀ item ∈ stored schedule partition,
      ∃ made wrote, creator log item.id = some made ∧
        lastWriter log partition item.id = some wrote ∧
        item.system = {
          space := some (.str partition)
          author := some (operations.key wrote).name
          createdBy := some (operations.key made).name }) ∧
    (∀ more partition later, ∀ item ∈ stored schedule partition,
      ∀ item' ∈ stored (schedule ++ more) later, item'.id = item.id →
        later = partition ∧ item'.scope = item.scope ∧
          item'.createdAt = item.createdAt ∧
          item'.system.createdBy = item.system.createdBy) ∧
    ∀ (others : Operations Task) (otherBackend : LocalBackend)
      (otherFresh : FreshSupply Task) (otherSchedule : List Task),
      others.key = operations.key →
      let otherLog := (others.run unicode otherBackend otherFresh otherSchedule).log
      ∀ partition, ∀ item ∈ stored schedule partition,
        ∀ item' ∈ others.stored unicode otherBackend otherFresh otherSchedule
          partition,
          creator otherLog item'.id = creator log item.id →
          lastWriter otherLog partition item'.id =
            lastWriter log partition item.id →
          item'.system = item.system := by
  intro stored log
  have recorded : ∀ (operations : Operations Task) (backend : LocalBackend)
      (fresh : FreshSupply Task) (schedule : List Task),
      Recorded operations unicode fresh
        (operations.run unicode backend fresh schedule).log
        (operations.stored unicode backend fresh schedule) := by
    intro operations backend fresh schedule
    rw [operations.run_log, operations.stored_eq]
    exact operations.runSpaces_recorded unicode fresh schedule
  have here := recorded operations backend fresh schedule
  refine ⟨?_, ?_, ?_⟩
  · intro partition item member
    exact here.system_eq member
  · intro more partition later item member item' member' same
    refine here.lasting ?_ (recorded operations backend fresh (schedule ++ more))
      member member' same
    rw [Operations.run, Operations.run, Pool.run_append]
    exact Pool.log_prefix_run more
  · intro others otherBackend otherFresh otherSchedule keys otherLog partition item
      member item' member' sameMade sameWrote
    obtain ⟨made, wrote, created, last, system⟩ := here.system_eq member
    obtain ⟨otherMade, otherWrote, otherCreated, otherLast, otherSystem⟩ :=
      (recorded others otherBackend otherFresh otherSchedule).system_eq member'
    obtain rfl : otherMade = made :=
      Option.some.inj (otherCreated.symm.trans (sameMade.trans created))
    obtain rfl : otherWrote = wrote :=
      Option.some.inj (otherLast.symm.trans (sameWrote.trans last))
    rw [otherSystem, system, keys]

end Memcp
