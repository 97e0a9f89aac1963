import Memcp.Backends.Sqlite.Adapter
import Memcp.Interaction.Worker

/-!
Concurrent calls on the one connection.  `_run` takes the lock, runs the `op` of
a call in a worker thread and awaits it; cancelling the call releases the lock
while the thread goes on with its statements.
-/

namespace Memcp.Sqlite

open Python Interaction

variable {Task : Type}

/-- Calls awaited at the same time, each with its fresh id and clock reading. -/
structure Calls (Task : Type) where
  call : Task → BackendCall
  fresh : Task → Fresh

namespace Calls

variable (calls : Calls Task) (unicode : Unicode) (codec : JsonCodec)

@[reducible] def Result (task : Task) : Type := Except Exc (calls.call task).Result

/-- The `op` a call hands to `_run`; a call that refuses its arguments gets
there with none. -/
def body (task : Task) : Option (Program (sql codec) (calls.Result task)) :=
  match method unicode (calls.fresh task) (calls.call task) with
  | .ok op => some op
  | .error _ => none

/-- The calls of `order`, each run whole before the next. -/
def serially (order : List Task) (database : Database codec) : Database codec :=
  order.foldl (fun database task =>
    (perform unicode (calls.fresh task) (calls.call task) database).2) database

variable {calls unicode codec}

theorem eval_body {task : Task} {op : Program (sql codec) (calls.Result task)}
    (runs : calls.body unicode codec task = some op) (database : Database codec) :
    op.eval Database.execute database =
      perform unicode (calls.fresh task) (calls.call task) database := by
  unfold body at runs
  unfold perform
  split at runs
  · rename_i ready
    cases runs
    rw [ready]
    rfl
  · cases runs

theorem serially_eq (order : List Task) (database : Database codec) :
    Workers.serially Database.execute (calls.body unicode codec) order database =
      calls.serially unicode codec order database := by
  unfold Workers.serially serially
  congr 1
  funext database task
  cases runs : calls.body unicode codec task with
  | some op => exact congrArg Prod.snd (eval_body runs database)
  | none =>
      unfold body at runs
      split at runs
      · cases runs
      · rename_i refused
        simp [perform, refused]

end Calls

variable [DecidableEq Task] (calls : Calls Task) (unicode : Unicode)
  (codec : JsonCodec)

/-- While no call is cancelled with its `op` executing, at most one `op`
executes, and each call takes effect as if it ran whole, one after the other. -/
theorem ops_exclude_each_other (database : Database codec) (turns : List (Turn Task))
    (workers : Workers (sql codec) (Database codec) Task calls.Result)
    (calm : Workers.Uninterrupted Database.execute (calls.body unicode codec) turns
      (Workers.start database))
    (ran : Workers.run Database.execute (calls.body unicode codec) turns
      (Workers.start database) = some workers) :
    (∀ first second, workers.executing first = true →
      workers.executing second = true → first = second) ∧
    ∃ order : List Task, order.Nodup ∧
      ((∀ task, workers.executing task = false) →
        workers.state = calls.serially unicode codec order database) ∧
      (∀ task, workers.executing task = true →
        ∃ earlier rest, order = earlier ++ [task] ∧
          workers.thread task = some rest ∧
          rest.eval Database.execute workers.state =
            perform unicode (calls.fresh task) (calls.call task)
              (calls.serially unicode codec earlier database)) ∧
      ∀ task outcome, workers.stage task = .returned outcome →
        ∃ earlier later, order = earlier ++ task :: later ∧
          outcome = (perform unicode (calls.fresh task) (calls.call task)
            (calls.serially unicode codec earlier database)).1 := by
  obtain ⟨order, serial⟩ := (Workers.Serial.start database).run turns calm ran
  have holds : ∀ task, workers.executing task = true →
      workers.holder = some task := by
    intro task executes
    by_contra notHolder
    rw [serial.idle task notHolder] at executes
    cases executes
  refine ⟨fun first second one other => ?_, order, serial.once, ?_, ?_, ?_⟩
  · exact Option.some.inj ((holds first one).symm.trans (holds second other))
  · intro idle
    cases holder : workers.holder with
    | none => exact (serial.free holder).trans (Calls.serially_eq order database)
    | some task =>
        obtain ⟨earlier, op, rest, rfl, runs, thread, evaluates⟩ :=
          serial.held task holder
        obtain ⟨outcome, rfl⟩ := Workers.executing_of_thread thread (idle task)
        rw [← Calls.serially_eq, Workers.serially_append op runs, ← evaluates]
        rfl
  · intro task executes
    obtain ⟨earlier, op, rest, split, runs, thread, evaluates⟩ :=
      serial.held task (holds task executes)
    rw [Calls.eval_body runs, Calls.serially_eq] at evaluates
    exact ⟨earlier, rest, split, thread, evaluates⟩
  · intro task outcome returned
    obtain ⟨earlier, later, op, split, runs, same⟩ :=
      serial.ended task outcome (serial.returned task outcome returned)
    rw [Calls.eval_body runs, Calls.serially_eq] at same
    exact ⟨earlier, later, split, same⟩

/-! Two updates of one memory. -/

/-- Each sets a metadata key of its own. -/
def twoUpdates : Calls Nat where
  call task := .update "s" "a" none
    (some ⟨Dict.ofList [(if task = 0 then "first" else "second", .bool true)], [], nofun⟩)
    none
  fresh _ := ⟨"u", "t"⟩

def holdingOne : Database .identity :=
  (perform .ascii ⟨"a", "t"⟩ (.add "s" "x" none none false none)
    ({} : Database .identity)).2

def runTwoUpdates (turns : List (Turn Nat)) :
    Option (Workers (sql .identity) (Database .identity) Nat twoUpdates.Result) :=
  Workers.run Database.execute (twoUpdates.body .ascii .identity) turns
    (Workers.start holdingOne)

/-- The metadata keys of the memories a run has committed. -/
def committedKeys (turns : List (Turn Nat)) : Option (List (List String)) :=
  (runTwoUpdates turns).map fun workers =>
    workers.state.committed.memories.map fun row =>
      (JsonCodec.identity.loads row.metadata).keys

theorem ops_exclude_each_other_once :
    ∃ workers, runTwoUpdates [.acquire 0, .call 0, .cancel 1] = some workers ∧
      workers.executing 0 = true ∧
      ∀ task, workers.executing task = true → task = 0 := by
  have calm : Workers.Uninterrupted Database.execute
      (twoUpdates.body .ascii .identity) [.acquire 0, .call 0, .cancel 1]
      (Workers.start holdingOne) := by
    refine ⟨nofun, fun next stepped => ⟨nofun, fun next' stepped' => ⟨?_, ?_⟩⟩⟩
    · rintro _ ⟨⟩
      cases stepped
      cases stepped'
      rfl
    · exact fun _ _ => trivial
  obtain ⟨workers, ran⟩ : ∃ workers,
      runTwoUpdates [.acquire 0, .call 0, .cancel 1] = some workers := ⟨_, rfl⟩
  have executes : workers.executing 0 = true := by
    cases ran
    rfl
  refine ⟨workers, ran, executes, fun task executing => ?_⟩
  exact (ops_exclude_each_other twoUpdates .ascii .identity holdingOne _ workers
    calm ran).1 task 0 executing executes

/-- Cancelled while it has read and not yet written, the first update goes on in
its thread; the second takes the lock, and the patch it commits and returns is
overwritten. -/
theorem cancelled_update_overlaps :
    (runTwoUpdates [.acquire 0, .call 0, .cancel 0, .acquire 1]).map
        (fun workers => (workers.executing 0, workers.executing 1)) =
      some (true, true) ∧
    committedKeys [.acquire 0, .call 0, .cancel 0, .acquire 1,
      .call 1, .call 1, .call 1, .call 1, .call 1, .resume 1] =
      some [["second"]] ∧
    committedKeys [.acquire 0, .call 0, .cancel 0, .acquire 1,
      .call 1, .call 1, .call 1, .call 1, .call 1, .resume 1,
      .call 0, .call 0, .call 0, .call 0] =
      some [["first"]] := by
  decide +kernel

end Memcp.Sqlite
