import Memcp.Attribution
import Memcp.Policy.Patching
import Memcp.Policy.Requests

/-!
Updates of one memory that run at the same time.  Nothing an update read but the
creator reaches its write, so the writes merge in the order they land.
-/

namespace Memcp

open Python Interaction

/-! Rules for operations, with what they raise. -/

/-- `operation` keeps `guard`, and `post` holds of what it comes to, whatever its
audit entry. -/
def Operation.Safe {α : Type} (guard : Trace effects → Effect → Prop)
    (post : Trace effects → Except Exc α → Prop) (operation : Operation α)
    (past : Trace effects) : Prop :=
  ∀ entry, Interaction.Safe guard (fun later outcome => post later outcome.1)
    (operation entry) past

namespace Operation.Safe

variable {α β : Type} {guard : Trace effects → Effect → Prop}
  {past : Trace effects} {post : Trace effects → Except Exc β → Prop}

theorem check {outcome : Except Exc α} {rest : α → Operation β}
    (raised : ∀ error, outcome = .error error → post past (.error error))
    (returned : ∀ value, outcome = .ok value →
      Operation.Safe guard post (rest value) past) :
    Operation.Safe guard post (liftM outcome >>= rest) past := by
  intro entry
  cases outcome with
  | ok value => exact returned value rfl entry
  | error error => exact raised error rfl

theorem recording {f : AuditEntry → AuditEntry} {rest : Unit → Operation β}
    (safe : Operation.Safe guard post (rest ()) past) :
    Operation.Safe guard post (Operation.record f >>= rest) past :=
  fun entry => safe (f entry)

theorem lift {outcome : Except Exc β} (holds : post past outcome) :
    Operation.Safe guard post (liftM outcome) past :=
  fun _ => holds

theorem bind_action {middle : Trace effects → Except Exc α → Prop} {action : Action α}
    {rest : α → Operation β} (first : Interaction.Safe guard middle action past)
    (raised : ∀ later error, middle later (.error error) → post later (.error error))
    (returned : ∀ later value, middle later (.ok value) →
      Operation.Safe guard post (rest value) later) :
    Operation.Safe guard post (liftM action >>= rest) past := by
  intro entry
  have lifted : Interaction.Safe guard (fun later outcome => middle later outcome.1)
      ((liftM action : Operation α) entry) past :=
    Interaction.Safe.bind first fun _ _ holds => holds
  refine Interaction.Safe.bind lifted ?_
  rintro later ⟨outcome, entry⟩ holds
  cases outcome with
  | ok value => exact returned later value holds entry
  | error error => exact raised later error holds

end Operation.Safe

theorem Space.update_cases (unicode : Unicode) (given : Fresh)
    (partition memoryId : String) (content : Option String)
    (patch : Option MetadataPatch) (system : Option System) (items : List Item) :
    (∃ error, Space.perform unicode given
        (.update partition memoryId content patch system) items =
          (.error error, items)) ∨
      ∃ old, Space.find memoryId items = some old ∧
        Space.perform unicode given (.update partition memoryId content patch system)
            items =
          (.ok ((old.changed given.now content patch system).memory partition none),
            Space.changeOf memoryId (old.changed given.now content patch system)
              items) := by
  simp only [Space.perform, Space.update]
  split
  · exact .inl ⟨_, rfl⟩
  · exact .inl ⟨_, rfl⟩
  · rename_i old _ found
    exact .inr ⟨_, found, rfl⟩

/-- Updates of one memory, each by a key. -/
structure Updates (Task : Type) where
  memoryId : String
  key : Task → Key
  content : Task → Option String
  metadata : Task → Option (Dict String Json)

namespace Updates

variable {Task : Type} (updates : Updates Task)

def patch (task : Task) : Option MetadataPatch :=
  (Dict.given (updates.metadata task)).map asPatch

def program (unicode : Unicode) (task : Task) : Program effects (Except Exc Response) :=
  (localPolicy unicode).perform (some (updates.key task))
    (.update updates.memoryId (updates.content task) (updates.metadata task))

/-- The memory of a key's space was written. -/
def lands (task : Task) (event : Event effects) : Bool :=
  wrote (updates.key task).grant.space updates.memoryId event

/-- The backend's update a task asks for. -/
@[reducible] def write (partition author : String) (createdBy : Option String)
    (task : Task) : BackendCall :=
  .update partition updates.memoryId (updates.content task) (updates.patch task)
    (some (systemFor partition author createdBy))

/-! What one update asks and comes to, whatever the backend answers. -/

/-- It reads, and writes what it was given, at most once and as a memory of its
space. -/
def Asks (task : Task) (past : Trace effects) : Effect → Prop
  | .audit _ => True
  | .backend (.get ..) => True
  | .backend (.update partition memoryId content patch system) =>
      partition = (updates.key task).grant.space ∧ memoryId = updates.memoryId ∧
        content = updates.content task ∧ patch = updates.patch task ∧
        (∃ author createdBy, system = some (systemFor partition author createdBy)) ∧
        ∀ event ∈ past, updates.lands task event = false
  | .backend _ => False

/-- A write was answered with a memory outside the key's space. -/
def Misplaced (task : Task) (event : Event effects) : Prop :=
  ∀ memory ∈ replyMemories event.call event.reply,
    memory.inSpace (updates.key task).grant.space = false

/-- It returns after its write, and raises only when it wrote nothing or what it
wrote was misplaced. -/
def ComesTo {α : Type} (task : Task) (past : Trace effects) : Except Exc α → Prop
  | .ok _ => ∃ event ∈ past, updates.lands task event = true
  | .error _ => ∀ event ∈ past, updates.lands task event = true →
      updates.Misplaced task event

variable {updates} {task : Task}

theorem ComesTo.of_quiet {α : Type} {past : Trace effects} {error : Exc}
    (quiet : ∀ event ∈ past, updates.lands task event = false) :
    updates.ComesTo task past (.error error : Except Exc α) := by
  intro event member landed
  rw [quiet event member] at landed
  cases landed

theorem read_safe {past : Trace effects}
    (quiet : ∀ event ∈ past, updates.lands task event = false) :
    Interaction.Safe (updates.Asks task)
      (fun later _ => ∀ event ∈ later, updates.lands task event = false)
      (Policy.read (updates.key task).grant.space updates.memoryId) past := by
  unfold Policy.read
  refine Fallible.safe_check (fun _ _ => quiet) fun _ _ => ?_
  have asked : ∀ reply, ∀ event ∈ past ++ [⟨Effect.backend
      (.get (updates.key task).grant.space updates.memoryId), reply⟩],
      updates.lands task event = false := by
    intro reply event member
    rcases List.mem_append.mp member with old | new
    · exact quiet event old
    · rw [List.mem_singleton.mp new]
      cases reply <;> simp [lands, wrote, BackendCall.written]
  have got : Interaction.Safe (updates.Asks task)
      (fun later _ => ∀ event ∈ later, updates.lands task event = false)
      ((Action.backend (.get (updates.key task).grant.space
        updates.memoryId)).mapError asNotFound) past :=
    Fallible.safe_mapError ⟨trivial, fun reply => asked reply⟩
  refine Fallible.safe_bind got (fun _ _ quiet => quiet) fun later found quiet => ?_
  cases found with
  | none => exact quiet
  | some memory => exact quiet

theorem written_comesTo {past : Trace effects} {content : Option String}
    {patch : Option MetadataPatch} {system : Option System} {updated : Memory}
    (quiet : ∀ event ∈ past, updates.lands task event = false) :
    updates.ComesTo task (past ++ [⟨.backend (.update (updates.key task).grant.space
        updates.memoryId content patch system), .ok updated⟩])
      (checkSpace (some updated) (updates.key task).grant.space) := by
  cases checked : checkSpace (some updated) (updates.key task).grant.space with
  | ok memory =>
      refine ⟨_, List.mem_append_right _ (List.mem_singleton.mpr rfl), ?_⟩
      simp [lands, wrote, BackendCall.partition?, BackendCall.written]
  | error error =>
      intro event member landed
      rcases List.mem_append.mp member with old | new
      · rw [quiet event old] at landed
        cases landed
      · rw [List.mem_singleton.mp new]
        intro memory given
        cases List.mem_singleton.mp given
        cases passes : updated.inSpace (updates.key task).grant.space with
        | false => rfl
        | true =>
            rw [checkSpace_eq_ok.mpr ⟨rfl, passes⟩] at checked
            cases checked

theorem ComesTo.audited {α : Type} {past : Trace effects} {outcome : Except Exc α}
    (comes : updates.ComesTo task past outcome) (entry : AuditEntry) :
    updates.ComesTo task (past ++ [⟨.audit entry, ()⟩]) outcome := by
  cases outcome with
  | ok value =>
      obtain ⟨event, member, landed⟩ := comes
      exact ⟨event, List.mem_append_left _ member, landed⟩
  | error error =>
      intro event member landed
      rcases List.mem_append.mp member with old | new
      · exact comes event old landed
      · rw [List.mem_singleton.mp new] at landed
        cases landed

theorem program_safe (unicode : Unicode) (task : Task) :
    Interaction.Safe (updates.Asks task) (updates.ComesTo task)
      (updates.program unicode task) [] := by
  have body : Operation.Safe (updates.Asks task) (updates.ComesTo task) (do
      Operation.record fun entry =>
        { entry with ids := recordable updates.memoryId }
      let key ← require (some (updates.key task)) .writer
      let partition := key.grant.space
      validation ((localPolicy unicode).checkUpdateArguments (updates.content task)
        (updates.metadata task))
      let existing ← Policy.read partition updates.memoryId
      let patch := (Dict.given (updates.metadata task)).map asPatch
      validation (Policy.checkPatchSize existing patch)
      let system := systemFor partition key.name existing.system.createdBy
      let updated ← (Action.backend (.update partition updates.memoryId
        (updates.content task) patch (some system))).mapError asNotFound
      checkSpace (some updated) partition) [] := by
    have none : ∀ event ∈ ([] : Trace effects), updates.lands task event = false :=
      List.forall_mem_nil _
    refine .recording (.check ?_ fun actor granted => ?_)
    · exact fun _ _ => .of_quiet none
    obtain ⟨rfl, writer⟩ := require_writer_ok granted
    refine .check ?_ fun _ _ => ?_
    · exact fun _ _ => .of_quiet none
    refine .bind_action (read_safe none) ?_ fun past existing quiet => ?_
    · exact fun _ _ quiet => .of_quiet quiet
    refine .check ?_ fun _ _ => ?_
    · exact fun _ _ => .of_quiet quiet
    have asked : Interaction.Safe (updates.Asks task) (fun later outcome =>
        match outcome with
        | .ok updated => updates.ComesTo task later
            (checkSpace (some updated) (updates.key task).grant.space)
        | .error error => updates.ComesTo task later (.error error : Except Exc Memory))
        ((Action.backend (.update (updates.key task).grant.space updates.memoryId
          (updates.content task) (updates.patch task)
          (some (systemFor (updates.key task).grant.space (updates.key task).name
            existing.system.createdBy)))).mapError asNotFound) past := by
      refine Fallible.safe_mapError ⟨⟨rfl, rfl, rfl, rfl, ⟨_, _, rfl⟩, quiet⟩,
        fun reply => ?_⟩
      cases reply with
      | ok updated => exact written_comesTo quiet
      | error error =>
          refine @ComesTo.of_quiet Task updates task Memory _ (asNotFound error) ?_
          intro event member
          rcases List.mem_append.mp member with old | new
          · exact quiet event old
          · rw [List.mem_singleton.mp new]
            simp [lands, wrote, BackendCall.written]
    refine .bind_action asked ?_ ?_
    · exact fun _ _ comes => comes
    · exact fun _ _ comes => .lift comes
  have ran : Interaction.Safe (updates.Asks task) (updates.ComesTo task)
      ((localPolicy unicode).update (some (updates.key task)) updates.memoryId
        (updates.content task) (updates.metadata task)) [] := by
    refine Interaction.Safe.bind (body _) ?_
    rintro later ⟨outcome, entry⟩ comes
    exact ⟨trivial, fun _ => comes.audited _⟩
  refine Fallible.safe_bind ran ?_ ?_
  · exact fun _ _ comes => comes
  · exact fun _ _ comes => comes

/-! Runs. -/

variable (updates)

/-- The tasks whose writes of the memory landed, in the order they did. -/
def order (partition : String) (log : List (Task × Event effects)) : List Task :=
  (log.filter fun entry => wrote partition updates.memoryId entry.2).map Prod.fst

/-- Metadata after the patches of tasks, one after another. -/
def merged (tasks : List Task) (metadata : Dict String Json) : Dict String Json :=
  tasks.foldl (fun metadata task =>
    (updates.patch task).elim metadata fun patch => patch.apply metadata) metadata

/-- The last content tasks give. -/
def lastContent (tasks : List Task) (content : String) : String :=
  tasks.foldl (fun content task => (updates.content task).getD content) content

/-- The memory after the writes of tasks. -/
structure Holds (tasks : List Task) (before after : Item) : Prop where
  metadata : after.metadata = updates.merged tasks before.metadata
  content : after.content = updates.lastContent tasks before.content

variable {updates}

theorem Holds.changed {tasks : List Task} {before after : Item} {now : String}
    {system : Option System} (holds : updates.Holds tasks before after) (task : Task) :
    updates.Holds (tasks ++ [task]) before
      (after.changed now (updates.content task) (updates.patch task) system) := by
  constructor
  · rw [merged, List.foldl_append, List.foldl_cons, List.foldl_nil]
    exact congrArg (fun metadata => (updates.patch task).elim metadata fun patch =>
      patch.apply metadata) holds.metadata
  · rw [lastContent, List.foldl_append, List.foldl_cons, List.foldl_nil]
    exact congrArg (updates.content task).getD holds.content

theorem order_append {partition : String} {log : List (Task × Event effects)}
    {task : Task} {event : Event effects} :
    updates.order partition (log ++ [(task, event)]) =
      if wrote partition updates.memoryId event then
        updates.order partition log ++ [task]
      else updates.order partition log := by
  rw [order, List.filter_append, List.map_append]
  cases landed : wrote partition updates.memoryId event <;> simp [order, landed]

section Runs

variable (updates) [DecidableEq Task] {unicode : Unicode} {store : Store}
  (representation : Representation unicode store) (partition : String) (first : Item)

/-- The memory is the merge of the writes that landed, each of which was answered
in its place. -/
structure Merging (pool : Pool effects Task (Except Exc Response) store.machine.State) :
    Prop where
  safe : pool.AllSafe updates.Asks updates.ComesTo
  valid : representation.valid pool.state
  placed : ∀ entry ∈ pool.log, updates.lands entry.1 entry.2 = true →
    ¬ updates.Misplaced entry.1 entry.2
  once : (updates.order partition pool.log).Nodup
  item : ∃ item, Space.find updates.memoryId
      (representation.spaces pool.state partition) = some item ∧
    updates.Holds (updates.order partition pool.log) first item

variable {updates representation partition first}
  {pool : Pool effects Task (Except Exc Response) store.machine.State}
  {supply : Task → Nat → Fresh}

theorem Merging.quietly (merging : updates.Merging representation partition first pool)
    {task : Task} {event : Event effects} {state : store.machine.State}
    {program : Task → Program effects (Except Exc Response)}
    (safe : (Pool.mk state program (pool.log ++ [(task, event)])).AllSafe updates.Asks
      updates.ComesTo)
    (silent : wrote partition updates.memoryId event = false)
    (placed : updates.lands task event = true → ¬ updates.Misplaced task event)
    (valid : representation.valid state)
    (same : representation.spaces state partition =
      representation.spaces pool.state partition) :
    updates.Merging representation partition first
      (Pool.mk state program (pool.log ++ [(task, event)])) where
  safe := safe
  valid := valid
  placed entry member landed := by
    rcases List.mem_append.mp member with old | new
    · exact merging.placed entry old landed
    · obtain rfl := List.mem_singleton.mp new
      exact placed landed
  once := by
    rw [order_append, silent]
    exact merging.once
  item := by
    rw [order_append, silent, same]
    exact merging.item

theorem Merging.landed (merging : updates.Merging representation partition first pool)
    {task : Task} {event : Event effects} {state : store.machine.State}
    {program : Task → Program effects (Except Exc Response)}
    (safe : (Pool.mk state program (pool.log ++ [(task, event)])).AllSafe updates.Asks
      updates.ComesTo)
    (own : (updates.key task).grant.space = partition)
    (quiet : ∀ event ∈ pool.past task, updates.lands task event = false)
    (landed : wrote partition updates.memoryId event = true)
    (placed : ¬ updates.Misplaced task event)
    (valid : representation.valid state) {now : String} {system : Option System}
    (written : ∀ old, Space.find updates.memoryId
        (representation.spaces pool.state partition) = some old →
      Space.find updates.memoryId (representation.spaces state partition) =
        some (old.changed now (updates.content task) (updates.patch task) system)) :
    updates.Merging representation partition first
      (Pool.mk state program (pool.log ++ [(task, event)])) where
  safe := safe
  valid := valid
  placed entry member landed := by
    rcases List.mem_append.mp member with old | new
    · exact merging.placed entry old landed
    · obtain rfl := List.mem_singleton.mp new
      exact placed
  once := by
    rw [order_append, landed, if_pos rfl, List.nodup_append]
    refine ⟨merging.once, List.nodup_singleton _, ?_⟩
    rintro other member _ new rfl
    obtain rfl := List.mem_singleton.mp new
    obtain ⟨entry, logged, same⟩ := List.mem_map.mp member
    obtain ⟨inLog, wrote⟩ := List.mem_filter.mp logged
    have seen : entry.2 ∈ pool.past other :=
      List.mem_map.mpr ⟨entry, List.mem_filter.mpr ⟨inLog, by simpa using same⟩, rfl⟩
    have silent := quiet entry.2 seen
    rw [lands, own] at silent
    rw [silent] at wrote
    cases wrote
  item := by
    obtain ⟨old, found, holds⟩ := merging.item
    rw [order_append, landed, if_pos rfl]
    exact ⟨_, written old found, holds.changed task⟩

theorem Merging.step (merging : updates.Merging representation partition first pool)
    (task : Task) :
    updates.Merging representation partition first
      (pool.step store.machine supply task) := by
  have safe : (pool.step store.machine supply task).AllSafe updates.Asks
      updates.ComesTo := merging.safe.step task
  cases asks : pool.program task with
  | done value =>
      rw [Pool.step_of_done asks]
      exact merging
  | ask effect next =>
      have asked := merging.safe task
      rw [asks] at asked
      rw [Pool.step_of_ask asks] at safe ⊢
      cases effect with
      | audit entry =>
          exact merging.quietly safe rfl nofun merging.valid rfl
      | backend call =>
          have allowed := asked.1
          have simulates := @Representation.simulates unicode store representation
            pool.state merging.valid (supply task (pool.past task).length) call
          generalize supply task (pool.past task).length = given at safe simulates ⊢
          cases call with
          | get named memoryId =>
              obtain ⟨-, valid, spaces⟩ := simulates rfl
              have silent : ∀ reply, wrote partition updates.memoryId
                  ⟨.backend (.get named memoryId), reply⟩ = false ∧
                  updates.lands task ⟨.backend (.get named memoryId), reply⟩ = false := by
                intro reply
                cases reply <;> simp [lands, wrote, BackendCall.written]
              refine merging.quietly safe (silent _).1 (fun landed => ?_) valid ?_
              · rw [(silent _).2] at landed
                cases landed
              · rw [spaces, Spaces.perform_named rfl]
                exact congrFun (Function.update_eq_self _ _) partition
          | update named memoryId content patch system =>
              obtain ⟨rfl, rfl, rfl, rfl, ⟨author, createdBy, rfl⟩, quiet⟩ := allowed
              obtain ⟨reply, valid, spaces⟩ := simulates rfl
              rw [Spaces.perform_named rfl] at reply spaces
              generalize space : (updates.key task).grant.space = named at *
              rcases Space.update_cases unicode given named updates.memoryId
                (updates.content task) (updates.patch task)
                (some (systemFor named author createdBy))
                (representation.spaces pool.state named) with
                ⟨error, performed⟩ | ⟨old, found, performed⟩
              · rw [performed] at reply spaces
                simp only at reply spaces
                have silent : ∀ partition, wrote partition updates.memoryId
                    ⟨.backend (updates.write named author createdBy task),
                      (store.perform given _ pool.state).1⟩ = false := by
                  intro partition
                  rw [reply]
                  simp [wrote, BackendCall.written]
                refine merging.quietly safe (silent _) (fun landed => ?_) valid ?_
                · rw [lands] at landed
                  cases (silent _).symm.trans landed
                · rw [spaces]
                  exact congrFun (Function.update_eq_self _ _) partition
              · rw [performed] at reply spaces
                simp only at reply spaces
                have placed : ¬ updates.Misplaced task
                    ⟨.backend (updates.write named author createdBy task),
                      (store.perform given _ pool.state).1⟩ := by
                  rw [reply]
                  intro misplaced
                  have outside := misplaced _ (List.mem_singleton.mpr rfl)
                  simp [Memory.inSpace, Item.memory, Item.changed, space] at outside
                rcases eq_or_ne named partition with rfl | other
                · have landed : wrote named updates.memoryId
                      ⟨.backend (updates.write named author createdBy task),
                        (store.perform given _ pool.state).1⟩ = true := by
                    rw [reply]
                    simp [wrote, BackendCall.partition?, BackendCall.written]
                  have written : ∀ held, Space.find updates.memoryId
                      (representation.spaces pool.state named) = some held →
                      Space.find updates.memoryId (representation.spaces (store.perform
                        given (updates.write named author createdBy task)
                        pool.state).2 named) =
                          some (held.changed given.now (updates.content task)
                            (updates.patch task)
                            (some (systemFor named author createdBy))) := by
                    intro held foundHeld
                    obtain rfl := Option.some.inj (found.symm.trans foundHeld)
                    rw [spaces, Function.update_self]
                    exact Space.find_changeOf found (Space.mem_of_find found).2
                  exact merging.landed safe space quiet landed placed valid written
                · refine merging.quietly safe ?_ (fun _ => placed) valid ?_
                  · simp [wrote, BackendCall.partition?, other]
                  · rw [spaces, Function.update_of_ne other.symm]
          | add | search | delete | deleteAll | listMemories | history | entities
          | capabilities => exact allowed.elim

theorem merging_start {state : store.State} (valid : representation.valid state)
    (found : Space.find updates.memoryId (representation.spaces state partition) =
      some first) :
    updates.Merging representation partition first
      (@Pool.start effects Task _ store.machine.State state (updates.program unicode)) where
  safe := program_safe unicode
  valid := valid
  placed := List.forall_mem_nil _
  once := List.nodup_nil
  item := ⟨first, found, rfl, rfl⟩

end Runs

/-! What a merge keeps. -/

/-- The update of a task sets or removes `key`. -/
def Names (updates : Updates Task) (task : Task) (key : String) : Prop :=
  ∃ patch, updates.patch task = some patch ∧ key ∈ patch.keys

theorem get?_merged_of_not_named {tasks : List Task} {key : String}
    (others : ∀ other ∈ tasks, ¬ updates.Names other key)
    (metadata : Dict String Json) :
    (updates.merged tasks metadata).get? key = metadata.get? key := by
  induction tasks generalizing metadata with
  | nil => rfl
  | cons task tasks induction =>
      obtain ⟨here, others⟩ := List.forall_mem_cons.mp others
      refine (induction others _).trans ?_
      cases given : updates.patch task with
      | none => simp only [given, Option.elim_none]
      | some patch =>
          have absent : key ∉ patch.keys := fun named => here ⟨patch, given, named⟩
          rw [MetadataPatch.keys, List.mem_append, not_or] at absent
          have unset := Dict.get?_eq_none_iff.mpr fun set =>
            absent.1 (Dict.mem_iff_keys.mp set)
          simp only [given, Option.elim_some]
          rw [MetadataPatch.get?_apply, if_neg absent.2, unset, Option.none_or]

theorem lastContent_of_none {tasks : List Task}
    (others : ∀ other ∈ tasks, updates.content other = none) (content : String) :
    updates.lastContent tasks content = content := by
  induction tasks generalizing content with
  | nil => rfl
  | cons task tasks induction =>
      obtain ⟨here, others⟩ := List.forall_mem_cons.mp others
      refine (induction others _).trans ?_
      simp only [here, Option.getD_none]

/-- What a task wrote stays until a later write names it. -/
theorem Holds.lasting {before after : Item} {earlier later : List Task} {task : Task}
    (holds : updates.Holds (earlier ++ task :: later) before after) :
    (∀ patch, updates.patch task = some patch → ∀ key,
      (∀ other ∈ later, ¬ updates.Names other key) →
        (∀ value, patch.set.get? key = some value →
          after.metadata.get? key = some value) ∧
        (key ∈ patch.remove → after.metadata.get? key = none)) ∧
    ∀ text, updates.content task = some text →
      (∀ other ∈ later, updates.content other = none) → after.content = text := by
  constructor
  · intro patch given key others
    have last : after.metadata.get? key =
        (patch.apply (updates.merged earlier before.metadata)).get? key := by
      rw [holds.metadata, merged, List.foldl_append, List.foldl_cons, given]
      exact get?_merged_of_not_named others _
    rw [last, MetadataPatch.get?_apply]
    constructor
    · intro value set
      have kept : key ∉ patch.remove := fun removed =>
        patch.disjoint key removed (Dict.mem_of_get? set)
      rw [if_neg kept, set, Option.some_or]
    · exact fun removed => if_pos removed
  · intro text given others
    rw [holds.content, lastContent, List.foldl_append, List.foldl_cons, given]
    exact lastContent_of_none others _

end Updates

theorem no_patch_is_lost (unicode : Unicode) (backend : LocalBackend) {Task : Type}
    [DecidableEq Task] (updates : Updates Task) (supply : Task → Nat → Fresh)
    {state : (backend.store unicode).State}
    (valid : (backend.representation unicode).valid state) {partition : String}
    {item : Item}
    (found : Space.find updates.memoryId
      ((backend.representation unicode).spaces state partition) = some item)
    (schedule : List Task) :
    let pool := (@Pool.start effects Task _ (backend.store unicode).machine.State state
      (updates.program unicode)).run (backend.store unicode).machine supply schedule
    let order := updates.order partition pool.log
    ∃ later, Space.find updates.memoryId
        ((backend.representation unicode).spaces pool.state partition) = some later ∧
      later.metadata = updates.merged order item.metadata ∧
      later.content = updates.lastContent order item.content ∧
      order.Nodup ∧
      (∀ task outcome, pool.program task = .done outcome →
        (updates.key task).grant.space = partition →
          (task ∈ order ↔ ∃ response, outcome = .ok response)) ∧
      ∀ earlier task rest, order = earlier ++ task :: rest →
        (∀ patch, updates.patch task = some patch → ∀ key,
          (∀ other ∈ rest, ¬ updates.Names other key) →
            (∀ value, patch.set.get? key = some value →
              later.metadata.get? key = some value) ∧
            (key ∈ patch.remove → later.metadata.get? key = none)) ∧
        ∀ text, updates.content task = some text →
          (∀ other ∈ rest, updates.content other = none) → later.content = text := by
  intro pool order
  have merging : updates.Merging (backend.representation unicode) partition item pool :=
    Pool.run_invariant _ (fun _ task merging => merging.step task)
      (Updates.merging_start valid found) schedule
  obtain ⟨later, foundLater, holds⟩ := merging.item
  refine ⟨later, foundLater, holds.metadata, holds.content, merging.once, ?_, ?_⟩
  · intro task outcome stopped own
    have comes := merging.safe task
    rw [stopped] at comes
    have written : task ∈ order ↔
        ∃ event ∈ pool.past task, updates.lands task event = true := by
      simp only [order, Updates.order, Pool.past, Updates.lands, own, List.mem_map,
        List.mem_filter]
      constructor
      · rintro ⟨entry, ⟨logged, wrote⟩, rfl⟩
        exact ⟨entry.2, ⟨entry, ⟨logged, by simp⟩, rfl⟩, wrote⟩
      · rintro ⟨event, ⟨entry, ⟨logged, same⟩, rfl⟩, wrote⟩
        exact ⟨entry, ⟨logged, wrote⟩, by simpa using same⟩
    rw [written]
    cases outcome with
    | ok response => exact ⟨fun _ => ⟨response, rfl⟩, fun _ => comes⟩
    | error error =>
        constructor
        · rintro ⟨event, member, landed⟩
          obtain ⟨entry, logged, rfl⟩ := List.mem_map.mp member
          obtain ⟨inLog, same⟩ := List.mem_filter.mp logged
          obtain rfl : entry.1 = task := by simpa using same
          exact absurd (comes entry.2 member landed) (merging.placed entry inLog landed)
        · rintro ⟨response, ⟨⟩⟩
  · intro earlier task rest split
    have same : updates.order partition pool.log = earlier ++ task :: rest := split
    rw [same] at holds
    exact holds.lasting

/-- Two updates of one memory, the second of metadata alone. -/
def textThenKeys : Updates Bool where
  memoryId := "m"
  key _ := ⟨"ann", ⟨"s", .writer⟩⟩
  content := fun first => if first then some "y" else none
  metadata first := some (Dict.ofList [("k", if first then .int 1 else .null)])

def oneMemory : InMemory.State where
  store := (∅ : Dict String InMemory.Entry).set "m" {
    userId := "s", content := "x", scope := ∅, metadata := ∅
    system := { space := some (.str "s") }, createdAt := "", updatedAt := none }
  history := (∅ : Dict String (List HistoryEntry)).set "m" [.created "" "x" none]

theorem no_patch_is_lost_two :
    let updates := textThenKeys
    let store := LocalBackend.inMemory.store .ascii
    let pool := (@Pool.start effects Bool _ store.machine.State oneMemory
      (updates.program .ascii)).run store.machine (fun _ _ => ⟨"", ""⟩)
        [true, false, true, false, true, false]
    ∃ later, Space.find "m"
        ((LocalBackend.inMemory.representation .ascii).spaces pool.state "s") =
          some later ∧
      later.metadata = updates.merged (updates.order "s" pool.log) ∅ ∧
      later.content = updates.lastContent (updates.order "s" pool.log) "x" := by
  obtain ⟨later, found, metadata, content, -⟩ := @no_patch_is_lost .ascii .inMemory Bool _
    textThenKeys (fun _ _ => ⟨"", ""⟩) oneMemory (fun _ => Iff.rfl) "s" _ rfl
    [true, false, true, false, true, false]
  exact ⟨later, found, metadata, content⟩

end Memcp
