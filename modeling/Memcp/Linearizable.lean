import Memcp.Policy.Steps

/-!
Requests that run at the same time.  Each request but an import takes effect at one of
its calls, as if it ran alone there, so what any schedule stores is what some order of
the requests stores.
-/

namespace Memcp

open Python Interaction

namespace Operations

variable {unicode : Unicode} {Task : Type} [DecidableEq Task] {operations : Operations Task}
  {fresh : FreshSupply Task} {task : Task}

variable (operations unicode fresh) in
/-- Where an operation stands that has not taken effect, or took effect with an
outcome. -/
inductive Stage (pool : Pool effects Task (Except Exc Response)
      (Spaces.store unicode).machine.State) (task : Task) :
    Option (Except Exc Response) → Prop
  | waiting (silent : pool.past task = [])
      (same : pool.program task = operations.program unicode task) :
      Stage pool task none
  | read {memoryId : String} {memory : Memory}
      (past : pool.past task =
        [⟨.backend (.get (operations.space task) memoryId), .ok (some memory)⟩])
      (passes : memory.inSpace (operations.space task) = true)
      (decides : ∀ spaces, Agrees (operations.space task) memoryId memory spaces →
        operations.Decides unicode fresh task (pool.program task) 1 spaces) :
      Stage pool task none
  | settled {outcome : Except Exc Response}
      (settled : Settled outcome (pool.program task)) : Stage pool task (some outcome)
  | added (adding : (operations.request task).isAdd = true)
      (readsBack : operations.ReadsBack fresh task (pool.program task)) :
      Stage pool task (some (.ok (created fresh task)))
  | lost (adding : (operations.request task).isAdd = true)
      (settled : Settled (.error (.policyError .internalError internalErrorMsg))
        (pool.program task))
      (gone : Space.find (fresh.supply task 0).id (pool.state (operations.space task)) =
        none) :
      Stage pool task (some (.ok (created fresh task)))

variable {pool : Pool effects Task (Except Exc Response)
    (Spaces.store unicode).machine.State}

theorem agrees_of_read (attributing : operations.Attributing unicode fresh pool)
    {memoryId : String} {memory : Memory}
    (past : pool.past task =
      [⟨.backend (.get (operations.space task) memoryId), .ok (some memory)⟩])
    (passes : memory.inSpace (operations.space task) = true) :
    Agrees (operations.space task) memoryId memory pool.state := by
  intro item found
  obtain ⟨member, same⟩ := Space.mem_of_find found
  obtain ⟨made, wrote, -, -, system⟩ := attributing.recorded.system_eq member
  refine ⟨by rw [system]; exact systemFor_spaceIs _ _ _, ?_⟩
  have logged : ∀ event ∈ pool.past task, ∃ task, (task, event) ∈ pool.log := by
    intro event member
    obtain ⟨⟨other, event⟩, kept, rfl⟩ := List.mem_map.mp member
    exact ⟨other, List.mem_of_mem_filter kept⟩
  rw [past] at logged
  have vouches := @Vouches.get [] (operations.space task) memoryId memory passes
  exact (attributing.recorded.createdBy_of_vouches logged vouches member same).symm

theorem first_unused (attributing : operations.Attributing unicode fresh pool)
    (silent : pool.past task = []) :
    ∀ item ∈ pool.state (operations.space task), item.id ≠ (fresh.supply task 0).id := by
  intro item member
  obtain ⟨creation, created, made⟩ := (attributing.recorded.items _ item member).creation
  have unused : creation.id ≠ (fresh.supply task
      (pool.log.filter fun entry => entry.1 = task).length).id :=
    attributing.recorded.next_unused created
  rw [List.map_eq_nil_iff.mp silent, made.id] at unused
  exact unused

theorem opens (attributing : operations.Attributing unicode fresh pool)
    (silent : pool.past task = [])
    (whole : (operations.request task).isImport = false) :
    operations.Opens unicode fresh task pool.state (operations.program unicode task) := by
  cases request : operations.request task with
  | add => exact opens_add request (first_unused attributing silent)
  | update => exact opens_update request
  | delete => exact opens_delete request
  | history => exact opens_history request
  | importMemories =>
      rw [request] at whole
      cases whole
  | search | get | deleteAll | listMemories | entities | exportMemories =>
      exact opens_oneCall (by rw [request]; rfl)

theorem settled_step {outcome : Except Exc Response} {effect : Effect}
    {next : effect.Reply → Program effects (Except Exc Response)}
    (settled : Settled outcome (pool.program task))
    (asks : pool.program task = @Program.ask effects _ effect next) :
    let later := pool.step (Spaces.store unicode).machine fresh.supply task
    later.state = pool.state ∧ later.program task = .done outcome := by
  intro later
  obtain ⟨state, program, -⟩ :=
    @Pool.step_own _ _ _ _ _ (Spaces.store unicode).machine fresh.supply _ _ _ _ _ asks rfl
  rcases settled with stopped | ⟨entry, writes⟩
  · rw [stopped] at asks
    cases asks
  · rw [writes] at asks
    cases asks
    exact ⟨state, program⟩

/-- An operation's own step leaves it where it stood, or is where it takes effect. -/
theorem Stage.own (attributing : operations.Attributing unicode fresh pool)
    (whole : (operations.request task).isImport = false) {effect : Effect}
    {next : effect.Reply → Program effects (Except Exc Response)}
    (asks : pool.program task = @Program.ask effects _ effect next)
    {taken : Option (Except Exc Response)}
    (stage : operations.Stage unicode fresh pool task taken) :
    let later := pool.step (Spaces.store unicode).machine fresh.supply task
    (later.state = pool.state ∧ operations.Stage unicode fresh later task taken) ∨
      taken = none ∧ ∃ outcome,
        operations.Alone unicode fresh task outcome pool.state later.state ∧
          operations.Stage unicode fresh later task (some outcome) := by
  intro later
  cases stage with
  | waiting silent same =>
      obtain ⟨state, program, past⟩ := Pool.step_own asks silent
      have opens := opens attributing silent whole
      rw [← same, asks] at opens
      cases opens with
      | decides decides =>
          obtain ⟨_, _, outcome, same, settled, alone⟩ := decides
          cases same
          refine .inr ⟨rfl, outcome, state ▸ alone, .settled ?_⟩
          exact program ▸ settled
      | @reads memoryId memory next answered passes decides =>
          have seen : later.past task =
              [⟨.backend (.get (operations.space task) memoryId), .ok (some memory)⟩] := by
            rw [past, List.nil_append]
            exact congrArg (fun reply => [Event.mk _ reply]) answered
          refine .inl ⟨state.trans (congrArg Prod.snd (perform_get _)),
            .read seen passes fun spaces agrees => ?_⟩
          rw [program]
          exact (congrArg (fun reply => operations.Decides unicode fresh task (next reply)
            1 spaces) answered).mpr (decides spaces agrees)
      | adds adding alone readsBack =>
          exact .inr ⟨rfl, _, state ▸ alone, .added adding (program ▸ readsBack)⟩
  | read past passes decides =>
      obtain ⟨state, program, -⟩ := Pool.step_own asks past
      obtain ⟨_, _, outcome, same, settled, alone⟩ :=
        decides pool.state (agrees_of_read attributing past passes)
      rw [asks] at same
      cases same
      exact .inr ⟨rfl, outcome, state ▸ alone, .settled (program ▸ settled)⟩
  | settled settled =>
      obtain ⟨state, program⟩ := settled_step settled asks
      exact .inl ⟨state, .settled (.inl program)⟩
  | added adding readsBack =>
      obtain ⟨state, program, -⟩ := Pool.step_own asks rfl
      obtain ⟨next, same, settles⟩ := readsBack
      rw [asks] at same
      cases same
      have unchanged := state.trans (congrArg Prod.snd (perform_get _))
      have settled := settles (operations.getReply task (fresh.supply task 0).id pool.state)
      have answered : later.program task =
          next (operations.getReply task (fresh.supply task 0).id pool.state) :=
        program.trans (congrArg next (congrArg Prod.fst (perform_get _)))
      rw [← answered] at settled
      refine .inl ⟨unchanged, ?_⟩
      cases found : Space.find (fresh.supply task 0).id
          (pool.state (operations.space task)) with
      | none =>
          simp only [getReply, found] at settled
          refine .lost adding settled ?_
          rw [unchanged]
          exact found
      | some item =>
          obtain ⟨made, wrote, -, -, system⟩ :=
            attributing.recorded.system_eq (Space.mem_of_find found).1
          rw [readBack_of_found found (system ▸ systemFor_spaceIs _ _ _)] at settled
          exact .settled settled
  | lost adding settled gone =>
      obtain ⟨state, program⟩ := settled_step settled asks
      exact .inl ⟨state, .lost adding (.inl program) (state ▸ gone)⟩

/-- No other operation is given the id of an add. -/
theorem gone_step {other : Task} (distinct : other ≠ task)
    (gone : Space.find (fresh.supply other 0).id (pool.state (operations.space other)) =
      none) :
    Space.find (fresh.supply other 0).id
      ((pool.step (Spaces.store unicode).machine fresh.supply task).state
        (operations.space other)) = none := by
  cases asks : pool.program task with
  | done value => rwa [Pool.step_of_done asks]
  | ask effect next =>
      rw [Pool.step_of_ask asks]
      cases effect with
      | audit entry => exact gone
      | backend call =>
          let given := fresh.supply task (pool.past task).length
          have differ : given.id ≠ (fresh.supply other 0).id :=
            fun same => distinct (fresh.distinct same).1.symm
          have absent : ∀ partition, ∀ item ∈ pool.state partition,
              partition = operations.space other → item.id ≠ (fresh.supply other 0).id := by
            rintro _ item member rfl same
            simpa [same] using List.find?_eq_none.mp gone item member
          refine List.find?_eq_none.mpr fun item member => ?_
          have kept := Spaces.forall_perform absent (fun _ _ _ _ _ _ _ _ => differ)
            (fun _ _ _ _ _ _ _ old same own => same ▸ absent _ _ old own) _ item member rfl
          simpa using kept

/-- The steps of others leave an operation where it stood. -/
theorem Stage.others {other : Task} (distinct : other ≠ task)
    {taken : Option (Except Exc Response)}
    (stage : operations.Stage unicode fresh pool other taken) :
    operations.Stage unicode fresh
      (pool.step (Spaces.store unicode).machine fresh.supply task) other taken := by
  have program := @Pool.program_step_of_ne _ _ _ _ _ (Spaces.store unicode).machine
    fresh.supply pool _ _ distinct.symm
  have past := @Pool.past_step_of_ne _ _ _ _ _ (Spaces.store unicode).machine
    fresh.supply pool _ _ distinct.symm
  cases stage with
  | waiting silent same => exact .waiting (past.trans silent) (program.trans same)
  | read seen passes decides =>
      exact .read (past.trans seen) passes (program ▸ decides)
  | settled settled => exact .settled (program ▸ settled)
  | added adding readsBack => exact .added adding (program ▸ readsBack)
  | lost adding settled gone =>
      exact .lost adding (program ▸ settled) (gone_step distinct gone)

theorem linearizes :
    Pool.Linearizes (Spaces.store unicode).machine fresh.supply
      (operations.sequential unicode fresh) (operations.Attributing unicode fresh)
      (operations.Stage unicode fresh) where
  kept _ task attributing := attributing.step task
  own _ _ _ _ _ attributing whole asks stage :=
    stage.own attributing (Bool.eq_false_of_not_eq_true whole) asks
  others _ _ _ _ _ _ distinct stage := stage.others distinct

theorem program_asks (fresh : FreshSupply Task)
    (whole : (operations.request task).isImport = false) :
    ∃ effect next, operations.program unicode task = @Program.ask effects _ effect next := by
  have first := @opens unicode _ _ operations fresh task
    (Pool.start (fun _ => []) (operations.program unicode)) ⟨start_permitted, .start fresh⟩
    rfl whole
  generalize operations.program unicode task = program at first ⊢
  cases first with
  | decides decides =>
      obtain ⟨effect, next, _, asks, -⟩ := decides
      exact ⟨effect, next, asks⟩
  | reads => exact ⟨_, _, rfl⟩
  | adds => exact ⟨_, _, rfl⟩

/-- An operation that stopped took effect, with what it came to. -/
theorem Stage.ended {taken : Option (Except Exc Response)} {outcome : Except Exc Response}
    (stage : operations.Stage unicode fresh pool task taken)
    (whole : (operations.request task).isImport = false)
    (finished : pool.program task = .done outcome) :
    ∃ value, taken = some value ∧
      (outcome = value ∨ operations.Lost fresh task pool.state value outcome) := by
  cases stage with
  | waiting silent same =>
      obtain ⟨effect, next, asks⟩ := @program_asks unicode _ _ operations task fresh whole
      rw [same, asks] at finished
      cases finished
  | read past passes decides =>
      obtain ⟨effect, next, _, asks, -⟩ := decides (fun _ => []) nofun
      rw [asks] at finished
      cases finished
  | settled settled =>
      refine ⟨_, rfl, .inl ?_⟩
      rcases settled with stopped | ⟨entry, writes⟩
      · exact Program.done.inj (finished.symm.trans stopped)
      · rw [writes] at finished
        cases finished
  | added adding readsBack =>
      obtain ⟨next, asks, -⟩ := readsBack
      rw [asks] at finished
      cases finished
  | lost adding settled gone =>
      refine ⟨_, rfl, .inr ⟨adding, rfl, ?_, ?_⟩⟩
      · rcases settled with stopped | ⟨entry, writes⟩
        · exact Program.done.inj (finished.symm.trans stopped)
        · rw [writes] at finished
          cases finished
      · intro item member same
        simpa [same] using List.find?_eq_none.mp gone item member

end Operations

end Memcp
