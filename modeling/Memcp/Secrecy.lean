import Memcp.Interaction.Relational
import Memcp.Tools.Register

/-!
What a client never learns.  The key that created a memory and the text a backend fails
with stay in the server: two backends that differ in nothing else get the same tool
answers, and leave the same audit log.
-/

namespace Memcp

open Python Interaction

/-! What is left of a value when the secrets are taken out. -/

def System.public (system : System) : System := { system with createdBy := none }

def Memory.public (memory : Memory) : Memory :=
  { memory with system := memory.system.public }

/-- A failure without the text of the response. -/
def Exc.public : Exc → Exc
  | .memoryAPIError status _ => .memoryAPIError status ""
  | error => error

def ListResult.public (page : ListResult) : ListResult :=
  { page with memories := page.memories.map Memory.public }

def BackendCall.public : BackendCall → BackendCall
  | .add partition content scope metadata infer system =>
      .add partition content scope metadata infer (system.map System.public)
  | .update partition memoryId content patch system =>
      .update partition memoryId content patch (system.map System.public)
  | call => call

def Effect.public : Effect → Effect
  | .backend call => .backend call.public
  | .audit entry => .audit entry

/-- The returned values of two calls that show the same. -/
def ResultsAlike : (call other : BackendCall) → call.Result → other.Result → Prop
  | .add .., .add .., result, result' => result = result'
  | .search .., .search .., found, found' =>
      found.map Memory.public = found'.map Memory.public
  | .get .., .get .., found, found' => found.map Memory.public = found'.map Memory.public
  | .update .., .update .., updated, updated' => updated.public = updated'.public
  | .delete .., .delete .., deleted, deleted' => deleted = deleted'
  | .deleteAll .., .deleteAll .., count, count' => count = count'
  | .listMemories .., .listMemories .., page, page' => page.public = page'.public
  | .history .., .history .., entries, entries' => entries = entries'
  | .entities .., .entities .., result, result' => result = result'
  | .capabilities, .capabilities, declared, declared' => declared = declared'
  | _, _, _, _ => False

abbrev ErrorsAlike (error error' : Exc) : Prop := error.public = error'.public

/-- The replies to two effects that show the same. -/
def RepliesAlike : (effect other : Effect) → effect.Reply → other.Reply → Prop
  | .backend call, .backend call', reply, reply' =>
      Outcomes ErrorsAlike (ResultsAlike call call') reply reply'
  | .audit _, .audit _, _, _ => True
  | _, _, _, _ => False

/-- Effects and replies that differ in secrets only. -/
def secrets : Link effects effects where
  calls effect other := effect.public = other.public
  replies := RepliesAlike

/-- What reads off a value without its secrets is the same of values that show the
same. -/
theorem of_erased {α β γ : Type} {erase : α → β} (f : α → γ) (g : β → γ)
    (erased : ∀ value, f value = g (erase value)) {value value' : α}
    (alike : erase value = erase value') : f value = f value' :=
  calc f value = g (erase value) := erased value
    _ = g (erase value') := congrArg g alike
    _ = f value' := (erased value').symm

/-! Memories that show the same. -/

section Memories

variable {memory memory' : Memory} {memories memories' : List Memory} {partition : String}

theorem inSpace_alike (alike : memory.public = memory'.public) (partition : String) :
    memory.inSpace partition = memory'.inSpace partition := by
  have erased : ∀ memory : Memory, memory.inSpace partition =
      memory.public.inSpace partition := fun _ => rfl
  exact of_erased (Memory.inSpace · partition) (Memory.inSpace · partition) erased alike

theorem checkMemory_alike (alike : memory.public = memory'.public) (partition : String) :
    Outcomes ErrorsAlike (fun memory memory' => memory.public = memory'.public)
      (checkSpace (some memory) partition) (checkSpace (some memory') partition) := by
  unfold checkSpace
  simp only [inSpace_alike alike]
  split
  · exact .ok alike
  · exact .error rfl

theorem checkSpace_alike {found found' : Option Memory}
    (alike : found.map Memory.public = found'.map Memory.public) (partition : String) :
    Outcomes ErrorsAlike (fun memory memory' => memory.public = memory'.public)
      (checkSpace found partition) (checkSpace found' partition) := by
  cases found with
  | none =>
      cases found' with
      | none => exact .error rfl
      | some memory' => cases alike
  | some memory =>
      cases found' with
      | none => cases alike
      | some memory' => exact checkMemory_alike (Option.some.inj alike) partition

theorem all_inSpace_alike
    (alike : memories.map Memory.public = memories'.map Memory.public)
    (partition : String) :
    memories.all (·.inSpace partition) = memories'.all (·.inSpace partition) := by
  have erased : ∀ memories : List Memory, memories.all (·.inSpace partition) =
      (memories.map Memory.public).all (·.inSpace partition) := by
    intro memories
    rw [List.all_map]
    rfl
  exact of_erased (List.all · (·.inSpace partition)) (List.all · (·.inSpace partition))
    erased alike

theorem checkSpaces_alike
    (alike : memories.map Memory.public = memories'.map Memory.public)
    (partition : String) :
    Outcomes ErrorsAlike
      (fun kept kept' => kept.map Memory.public = kept'.map Memory.public)
      (checkSpaces memories partition) (checkSpaces memories' partition) := by
  rw [checkSpaces_eq, checkSpaces_eq, all_inSpace_alike alike]
  split
  · exact .ok alike
  · exact .error rfl

theorem inScope_alike
    (alike : memories.map Memory.public = memories'.map Memory.public)
    (unicode : Unicode) (scope : Option (Dict String Json)) :
    (inScope unicode memories scope).map Memory.public =
      (inScope unicode memories' scope).map Memory.public := by
  cases scope with
  | none => exact alike
  | some scope =>
      have erased : ∀ memories : List Memory,
          (inScope unicode memories (some scope)).map Memory.public =
            (memories.map Memory.public).filter fun memory =>
              scopeHolds unicode memory.scope scope := by
        intro memories
        rw [List.filter_map]
        rfl
      exact of_erased (fun memories => (inScope unicode memories (some scope)).map
        Memory.public) (List.filter fun memory => scopeHolds unicode memory.scope scope)
          erased alike

theorem serialize_alike
    (alike : memories.map Memory.public = memories'.map Memory.public) :
    memories.map serializeMemory = memories'.map serializeMemory := by
  have erased : ∀ memories : List Memory, memories.map serializeMemory =
      (memories.map Memory.public).map serializeMemory := by
    intro memories
    rw [List.map_map]
    rfl
  exact of_erased (List.map serializeMemory) (List.map serializeMemory) erased alike

end Memories

/-! Actions and operations that differ in secrets only. -/

section Rules

variable {α β γ δ : Type} {post : α → β → Prop} {post' : γ → δ → Prop}

abbrev Action.Alike (post : α → β → Prop) (action : Action α) (action' : Action β) : Prop :=
  Fallible.Links secrets ErrorsAlike post action action'

/-- A check on what both were given. -/
theorem Action.Alike.check {outcome : Except Exc α} {rest : α → Action γ}
    {rest' : α → Action δ} (second : ∀ value, Action.Alike post' (rest value) (rest' value)) :
    Action.Alike post' (liftM outcome >>= rest) (liftM outcome >>= rest') := by
  cases outcome with
  | ok value => exact second value
  | error error => exact .done (.error rfl)

theorem backend_alike {call call' : BackendCall} (same : call.public = call'.public) :
    Action.Alike (ResultsAlike call call') (Action.backend call) (Action.backend call') :=
  .ask (congrArg Effect.backend same) fun _ _ replied => .done replied

theorem asNotFound_alike {error error' : Exc} (alike : ErrorsAlike error error') :
    ErrorsAlike (asNotFound error) (asNotFound error') := by
  have erased : ∀ error : Exc, (asNotFound error).public = (asNotFound error.public).public := by
    intro error
    cases error with
    | memoryAPIError status body =>
        by_cases gone : status = 404 ∨ status = 410
        · simp [asNotFound, Exc.public, gone]
        · simp [asNotFound, Exc.public, gone]
    | _ => rfl
  exact of_erased (fun error => (asNotFound error).public)
    (fun error => (asNotFound error).public) erased alike

theorem asValidationError_alike {error error' : Exc} (alike : ErrorsAlike error error') :
    ErrorsAlike (asValidationError error) (asValidationError error') := by
  have erased : ∀ error : Exc,
      (asValidationError error).public = asValidationError error.public := by
    intro error
    cases error <;> rfl
  exact of_erased (fun error => (asValidationError error).public) asValidationError erased
    alike

theorem auditOutcome_alike {error error' : Exc} (alike : ErrorsAlike error error') :
    auditOutcome error = auditOutcome error' := by
  have erased : ∀ error : Exc, auditOutcome error = auditOutcome error.public := by
    intro error
    cases error <;> rfl
  exact of_erased auditOutcome auditOutcome erased alike

/-- Operations that leave the same audit entry and come to outcomes that show the
same. -/
def Operation.Alike (post : α → β → Prop) (operation : Operation α)
    (operation' : Operation β) : Prop :=
  ∀ entry, Linked secrets (fun ended ended' =>
    Outcomes ErrorsAlike post ended.1 ended'.1 ∧ ended.2 = ended'.2)
    (operation entry) (operation' entry)

namespace Operation.Alike

theorem pure {value : α} {other : β} (holds : post value other) :
    Operation.Alike post (Pure.pure value) (Pure.pure other) :=
  fun _ => .done ⟨.ok holds, rfl⟩

theorem throw (error : Exc) :
    Operation.Alike post (MonadExcept.throw error : Operation α)
      (MonadExcept.throw error : Operation β) :=
  fun _ => .done ⟨.error rfl, rfl⟩

theorem lift {outcome : Except Exc α} {outcome' : Except Exc β}
    (outcomes : Outcomes ErrorsAlike post outcome outcome') :
    Operation.Alike post (liftM outcome : Operation α) (liftM outcome' : Operation β) :=
  fun _ => .done ⟨outcomes, rfl⟩

theorem bind {operation : Operation α} {operation' : Operation β}
    {rest : α → Operation γ} {rest' : β → Operation δ}
    (first : Operation.Alike post operation operation')
    (second : ∀ value other, post value other →
      Operation.Alike post' (rest value) (rest' other)) :
    Operation.Alike post' (operation >>= rest) (operation' >>= rest') := by
  intro entry
  refine Linked.bind (first entry) ?_
  rintro ⟨outcome, entry⟩ ⟨outcome', _⟩ ⟨outcomes, rfl⟩
  cases outcomes with
  | ok holds => exact second _ _ holds entry
  | error raised => exact .done ⟨.error raised, rfl⟩

theorem action {action : Action α} {action' : Action β}
    (alike : Action.Alike post action action') :
    Operation.Alike post (liftM action : Operation α) (liftM action' : Operation β) :=
  fun _ => Linked.bind alike fun _ _ outcomes => .done ⟨outcomes, rfl⟩

/-- A check on what both were given. -/
theorem check {outcome : Except Exc α} {rest : α → Operation γ} {rest' : α → Operation δ}
    (second : ∀ value, Operation.Alike post' (rest value) (rest' value)) :
    Operation.Alike post' (liftM outcome >>= rest) (liftM outcome >>= rest') := by
  intro entry
  cases outcome with
  | ok value => exact second value entry
  | error error => exact .done ⟨.error rfl, rfl⟩

theorem recording {f f' : AuditEntry → AuditEntry} {rest : Unit → Operation γ}
    {rest' : Unit → Operation δ} (same : f = f')
    (second : Operation.Alike post' (rest ()) (rest' ())) :
    Operation.Alike post' (Operation.record f >>= rest) (Operation.record f' >>= rest') := by
  subst same
  exact fun entry => second (f entry)

end Operation.Alike

theorem audited_alike {name : String} {context : Context} {body body' : Operation α}
    {respond : α → γ} {related : γ → γ → Prop} {post : α → α → Prop}
    (alike : Operation.Alike post body body')
    (responds : ∀ value other, post value other → related (respond value) (respond other)) :
    Action.Alike related (respond <$> audited name context body)
      (respond <$> audited name context body') := by
  refine Fallible.Links.map (Linked.bind (alike _) ?_) responds
  rintro ⟨outcome, entry⟩ ⟨outcome', _⟩ ⟨outcomes, rfl⟩
  refine .ask ?_ fun _ _ _ => .done outcomes
  cases outcomes with
  | ok holds => exact rfl
  | error raised =>
      simp only [AuditEntry.finish, auditOutcome_alike raised]
      rfl

end Rules

/-! The calls operations share. -/

abbrev MemoryAlike (memory memory' : Memory) : Prop := memory.public = memory'.public

abbrev MemoriesAlike (memories memories' : List Memory) : Prop :=
  memories.map Memory.public = memories'.map Memory.public

namespace MemoryAlike

variable {memory memory' : Memory}

/-- What doesn't read the secrets is the same. -/
theorem reads {β : Type} (alike : MemoryAlike memory memory') (f : Memory → β)
    (erased : ∀ memory, f memory = f memory.public) : f memory = f memory' :=
  of_erased f f erased alike

theorem id (alike : MemoryAlike memory memory') : memory.id = memory'.id :=
  alike.reads Memory.id fun _ => rfl

theorem content (alike : MemoryAlike memory memory') : memory.content = memory'.content :=
  alike.reads Memory.content fun _ => rfl

theorem scope (alike : MemoryAlike memory memory') : memory.scope = memory'.scope :=
  alike.reads Memory.scope fun _ => rfl

theorem metadata (alike : MemoryAlike memory memory') :
    memory.metadata = memory'.metadata :=
  alike.reads Memory.metadata fun _ => rfl

theorem system (alike : MemoryAlike memory memory') :
    memory.system.public = memory'.system.public :=
  alike.reads (fun memory => memory.system.public) fun _ => rfl

end MemoryAlike

theorem MemoriesAlike.length {memories memories' : List Memory}
    (alike : MemoriesAlike memories memories') : memories.length = memories'.length := by
  have same := congrArg List.length alike
  simpa using same

theorem MemoriesAlike.append {memories memories' more more' : List Memory}
    (alike : MemoriesAlike memories memories') (moreAlike : MemoriesAlike more more') :
    MemoriesAlike (memories ++ more) (memories' ++ more') := by
  unfold MemoriesAlike
  rw [List.map_append, List.map_append, alike, moreAlike]

theorem MemoriesAlike.take {memories memories' : List Memory}
    (alike : MemoriesAlike memories memories') (limit : Nat) :
    MemoriesAlike (memories.take limit) (memories'.take limit) := by
  unfold MemoriesAlike
  rw [List.map_take, List.map_take, alike]

theorem read_alike (partition memoryId : String) :
    Action.Alike MemoryAlike (Policy.read partition memoryId)
      (Policy.read partition memoryId) := by
  unfold Policy.read
  refine .check fun _ => ?_
  refine .bind (.mapError (backend_alike rfl) fun _ _ => asNotFound_alike)
    fun found found' alike => ?_
  have alike : found.map Memory.public = found'.map Memory.public := alike
  cases found with
  | none =>
      cases found' with
      | none => exact .throw rfl
      | some memory' => cases alike
  | some memory =>
      cases found' with
      | none => cases alike
      | some memory' => exact .lift (checkSpace_alike alike partition)

theorem checkAdded_alike (partition : String) (items : List AddResult) :
    Operation.Alike (fun _ _ => True) (Policy.checkAdded partition items)
      (Policy.checkAdded partition items) := by
  induction items with
  | nil => exact .pure trivial
  | cons head tail induction =>
      unfold Policy.checkAdded
      split
      · exact induction
      · refine .bind (.action (backend_alike rfl)) fun found found' alike => ?_
        exact .bind (.lift (checkSpace_alike alike partition)) fun _ _ _ => induction

/-- Pages that show the same. -/
theorem page_alike {page page' : ListResult} (alike : page.public = page'.public) :
    MemoriesAlike page.memories page'.memories ∧ page.nextCursor = page'.nextCursor ∧
      page.incomplete = page'.incomplete := by
  obtain ⟨memories, cursor, incomplete⟩ := page
  obtain ⟨memories', cursor', incomplete'⟩ := page'
  simpa [ListResult.public] using alike

theorem listAllFrom_alike (space : String) (limit : Nat) {memories memories' : List Memory}
    (alike : MemoriesAlike memories memories') (incomplete : Bool)
    (cursor : Option String) :
    Action.Alike (fun read read' => MemoriesAlike read.1 read'.1 ∧ read.2 = read'.2)
      (listAllFrom space limit memories incomplete cursor)
      (listAllFrom space limit memories' incomplete cursor) := by
  induction left : limit + 1 - memories.length using Nat.strong_induction_on
    generalizing memories memories' incomplete cursor with
  | _ turns induction =>
    rw [listAllFrom_eq, listAllFrom_eq, ← alike.length]
    refine .bind (backend_alike rfl) fun page page' shown => ?_
    obtain ⟨listed, cursors, missed⟩ := page_alike shown
    have all := alike.append listed
    have empty : page.memories = [] ↔ page'.memories = [] := by
      rw [← List.length_eq_zero_iff, listed.length, List.length_eq_zero_iff]
    rw [← all_inSpace_alike listed, ← cursors, ← missed, ← all.length]
    simp only [← empty]
    split
    case isFalse => exact .throw rfl
    case isTrue =>
      split
      case isTrue =>
        exact .pure ⟨all.take limit, rfl⟩
      case isFalse unfinished =>
        simp only [not_or, List.length_append] at unfinished
        have added := List.length_pos_iff.mpr unfinished.2.1
        refine induction _ ?_ all _ _ rfl
        simp only [List.length_append]
        omega

theorem exportPayload_alike (space : String) (limit : Nat) :
    Action.Alike Eq (exportPayload space limit) (exportPayload space limit) := by
  refine .bind (listAllFrom_alike space limit rfl false none) ?_
  rintro ⟨memories, truncated⟩ ⟨memories', _⟩ ⟨alike, rfl⟩
  refine .pure ?_
  dsimp only
  rw [serialize_alike alike, MemoriesAlike.length alike]

/-! Imports: what is known of the space by identity shows the same throughout. -/

/-- The memories known by identity show the same. -/
abbrev KnownAlike (known known' : Dict DedupKey Memory) : Prop :=
  ∀ identity, (known.get? identity).map Memory.public =
    (known'.get? identity).map Memory.public

structure StatesAlike (state state' : ImportState) : Prop where
  existing : KnownAlike state.existing state'.existing
  outcome : state.outcome = state'.outcome

theorem KnownAlike.set {known known' : Dict DedupKey Memory} {memory memory' : Memory}
    (alike : KnownAlike known known') (same : MemoryAlike memory memory')
    (identity : DedupKey) : KnownAlike (known.set identity memory)
      (known'.set identity memory') := by
  intro other
  rw [Dict.get?_set, Dict.get?_set]
  split
  · exact congrArg some same
  · exact alike other

theorem known_alike (unicode : Unicode) {memories memories' : List Memory}
    (alike : MemoriesAlike memories memories') :
    KnownAlike
      (Dict.ofList (memories.map fun memory =>
        (dedupKey unicode memory.content (some memory.scope), memory)))
      (Dict.ofList (memories'.map fun memory =>
        (dedupKey unicode memory.content (some memory.scope), memory))) := by
  induction memories using List.reverseRecOn generalizing memories' with
  | nil =>
      obtain rfl := List.map_eq_nil_iff.mp alike.symm
      exact fun _ => rfl
  | append_singleton memories memory induction =>
      have split : memories.map Memory.public ++ [memory.public] =
          memories'.map Memory.public := by
        rw [← alike, List.map_append, List.map_singleton]
      obtain ⟨front, back, rfl, fronts, backs⟩ := List.map_eq_append_iff.mp split.symm
      obtain ⟨memory', rest, rfl, same, rests⟩ := List.map_eq_cons_iff.mp backs
      obtain rfl := List.map_eq_nil_iff.mp rests
      have same : MemoryAlike memory memory' := same.symm
      simp only [List.map_append, List.map_cons, List.map_nil, Dict.ofList_append,
        same.content, same.scope]
      exact (induction fronts.symm).set same _

section Imports

variable {unicode : Unicode} {options : ImportOptions} {state state' : ImportState}

/-- The stamp shows what an entry's stored fields show. -/
def StampsAlike (options : ImportOptions) : Prop :=
  ∀ stamp, options.stamp = some stamp → ∀ index stored stored',
    stored.map System.public = stored'.map System.public →
      (stamp index stored).public = (stamp index stored').public

theorem attempt_alike {α β : Type} {post : α → β → Prop} {action : Action α}
    {action' : Action β} (alike : Action.Alike post action action') :
    Action.Alike (Outcomes Eq post) action.attempt action'.attempt := by
  refine Linked.bind alike fun outcome outcome' outcomes => ?_
  cases outcomes with
  | ok holds => exact .done (.ok (.ok holds))
  | @error error error' raised =>
      cases error <;> cases error' <;> cases raised
      case error.memoryAPIError.memoryAPIError.refl => exact .done (.ok (.error rfl))
      all_goals exact .done (.error rfl)

theorem StatesAlike.addError (alike : StatesAlike state state') (index : Nat)
    (error : String) : StatesAlike (state.addError index error) (state'.addError index error) :=
  ⟨alike.existing, by simp [ImportState.addError, alike.outcome]⟩

theorem StatesAlike.addSkipped (alike : StatesAlike state state') (index : Nat)
    (existingId : String) :
    StatesAlike (state.addSkipped index existingId) (state'.addSkipped index existingId) :=
  ⟨alike.existing, by simp [ImportState.addSkipped, alike.outcome]⟩

theorem StatesAlike.addImported (alike : StatesAlike state state') {memory memory' : Memory}
    (same : MemoryAlike memory memory') (identity : DedupKey) (id : String) (index : Nat)
    (action : ImportAction) :
    StatesAlike (state.addImported identity memory id index action)
      (state'.addImported identity memory' id index action) :=
  ⟨alike.existing.set same identity, by simp [ImportState.addImported, alike.outcome]⟩

theorem importReadBack_alike (alike : StatesAlike state state') (index : Nat)
    (identity : DedupKey) (items : List AddResult) :
    Action.Alike StatesAlike (importReadBack options index identity items state)
      (importReadBack options index identity items state') := by
  induction items generalizing state state' with
  | nil => exact .pure alike
  | cons head tail induction =>
      refine .bind (attempt_alike (backend_alike rfl)) fun result result' results => ?_
      cases results with
      | error raised =>
          subst raised
          exact induction (alike.addError _ _)
      | ok stored =>
          refine .bind (.lift (checkSpace_alike stored options.userId))
            fun memory memory' same => ?_
          exact induction (alike.addImported same _ _ _ _)

theorem stamped_alike (stamps : StampsAlike options) (index : Nat)
    {stored stored' : Option System}
    (same : stored.map System.public = stored'.map System.public) :
    (options.stamp.map fun stamp => stamp index stored).map System.public =
      (options.stamp.map fun stamp => stamp index stored').map System.public := by
  cases given : options.stamp with
  | none => exact rfl
  | some stamp => exact congrArg some (stamps stamp given index stored stored' same)

theorem importCreate_alike (alike : StatesAlike state state') (index : Nat)
    (item : ImportItem) (identity : DedupKey) :
    Action.Alike StatesAlike (importCreate options index item identity state)
      (importCreate options index item identity state') := by
  refine .bind (attempt_alike (backend_alike rfl)) fun result result' results => ?_
  cases results with
  | error raised =>
      subst raised
      exact .pure (alike.addError _ _)
  | @ok added added' same =>
      have same : added = added' := same
      subst same
      rcases added with item | (_ | ⟨head, tail⟩)
      · exact importReadBack_alike alike _ _ _
      · exact .pure (alike.addError _ _)
      · exact importReadBack_alike alike _ _ _

theorem importOverwrite_alike (stamps : StampsAlike options)
    (alike : StatesAlike state state') (index : Nat) (item : ImportItem)
    (identity : DedupKey) {dup dup' : Memory} (same : MemoryAlike dup dup') :
    Action.Alike StatesAlike (importOverwrite options index item identity dup state)
      (importOverwrite options index item identity dup' state') := by
  have patches : ∀ given, overwritePatch given dup = overwritePatch given dup' := by
    intro given
    simp only [overwritePatch, same.metadata]
  have systems : (some dup.system).map System.public =
      (some dup'.system).map System.public := congrArg some same.system
  unfold importOverwrite
  rw [same.id]
  refine .bind (attempt_alike (backend_alike ?_)) fun result result' results => ?_
  · simp only [BackendCall.public, stamped_alike stamps index systems, patches]
  cases results with
  | error raised =>
      subst raised
      exact .pure (alike.addError _ _)
  | ok updated =>
      refine .bind (.lift (checkMemory_alike updated options.userId))
        fun memory memory' kept => ?_
      exact .pure (alike.addImported kept _ _ _ _)

theorem importEntry_alike (stamps : StampsAlike options) (alike : StatesAlike state state')
    (index : Nat) (entry : Dict String Json) :
    Action.Alike StatesAlike (importEntry unicode options index entry state)
      (importEntry unicode options index entry state') := by
  unfold importEntry
  cases readEntry unicode options entry with
  | error error =>
      cases error with
      | valueError message => exact .pure (alike.addError _ _)
      | _ => exact .throw rfl
  | ok item =>
      have known := alike.existing (dedupKey unicode item.content item.scope)
      dsimp only
      generalize state.existing.get? (dedupKey unicode item.content item.scope) = found
        at known
      generalize state'.existing.get? (dedupKey unicode item.content item.scope) = found'
        at known
      cases found with
      | none =>
          cases found' with
          | none => exact importCreate_alike alike _ _ _
          | some dup' => cases known
      | some dup =>
          cases found' with
          | none => cases known
          | some dup' =>
              have same : MemoryAlike dup dup' := Option.some.inj known
              cases options.onConflict with
              | skip =>
                  dsimp only
                  rw [same.id]
                  exact .pure (alike.addSkipped _ _)
              | overwrite => exact importOverwrite_alike stamps alike _ _ _ same
              | duplicate => exact importCreate_alike alike _ _ _

theorem importEntries_alike (stamps : StampsAlike options)
    (alike : StatesAlike state state') (index : Nat) (entries : List (Dict String Json)) :
    Action.Alike StatesAlike (importEntries unicode options index entries state)
      (importEntries unicode options index entries state') := by
  induction entries generalizing index state state' with
  | nil => exact .pure alike
  | cons entry entries induction =>
      exact .bind (importEntry_alike stamps alike index entry)
        fun _ _ later => induction later (index + 1)

theorem buildDedupIndex_alike (space : String) (limit : Nat) :
    Action.Alike (fun index index' => KnownAlike index.1 index'.1 ∧ index.2 = index'.2)
      (buildDedupIndex unicode space limit) (buildDedupIndex unicode space limit) := by
  refine .bind (listAllFrom_alike space limit rfl false none) ?_
  rintro ⟨memories, incomplete⟩ ⟨memories', _⟩ ⟨alike, rfl⟩
  exact .pure ⟨known_alike unicode alike, rfl⟩

theorem importPayload_alike (stamps : StampsAlike options)
    (entries : List (Dict String Json)) (limit : Nat) :
    Action.Alike Eq (importPayload unicode options entries limit)
      (importPayload unicode options entries limit) := by
  have conflict : Action.Alike (fun _ _ => True) (refuseOnConflict options.onConflict)
      (refuseOnConflict options.onConflict) := by
    unfold refuseOnConflict
    split
    · refine .bind (backend_alike rfl) fun declared declared' same => ?_
      have same : declared = declared' := same
      subst same
      split
      · exact .throw rfl
      · exact .pure trivial
    · exact .pure trivial
  have goes : ∀ known known' incomplete, KnownAlike known known' → Action.Alike Eq (do
      let state ← importEntries unicode options 0 entries
        { existing := known, outcome := { dedupIncomplete := incomplete } }
      return state.outcome) (do
      let state ← importEntries unicode options 0 entries
        { existing := known', outcome := { dedupIncomplete := incomplete } }
      return state.outcome) := fun known known' incomplete alike =>
    .bind (@importEntries_alike unicode options ⟨known, _⟩ ⟨known', _⟩ stamps
      ⟨alike, rfl⟩ 0 entries) fun _ _ later => .pure later.outcome
  refine .bind conflict fun _ _ _ => ?_
  dsimp only
  split
  · exact goes _ _ _ fun _ => rfl
  · refine .bind (buildDedupIndex_alike options.userId limit) ?_
    rintro ⟨known, incomplete⟩ ⟨known', _⟩ ⟨alike, rfl⟩
    exact goes _ _ _ alike

end Imports

/-! One lemma for each operation. -/

section Operations

variable {policy : Policy} {key : Key}

/-- A request that differs in secrets only. -/
abbrev RequestAlike (policy : Policy) (key : Key) (request : Request) : Prop :=
  Action.Alike (fun response response' => response.toolResult = response'.toolResult)
    (policy.perform (some key) request) (policy.perform (some key) request)

theorem stamps_alike (mode : OnConflict) :
    StampsAlike (policy.importOptions key mode) := by
  rintro _ ⟨⟩ index stored stored' same
  rfl

theorem add_alike (content : String) (scope : Json) (metadata : Option (Dict String Json))
    (infer : Bool) : RequestAlike policy key (.add content scope metadata infer) := by
  refine audited_alike (.check fun actor => .check fun _ => .check fun cleaned => ?_)
    fun result result' same => congrArg (Response.toolResult ∘ Response.added) same
  refine .recording rfl (.bind (.action (backend_alike rfl)) fun result result' same => ?_)
  have same : result = result' := same
  subst same
  exact .recording rfl (.bind (checkAdded_alike _ _) fun _ _ _ => .pure rfl)

theorem found_alike {memories memories' : List Memory}
    (alike : MemoriesAlike memories memories') :
    (Response.found memories).toolResult = (Response.found memories').toolResult :=
  congrArg ToolResult.found (serialize_alike alike)

theorem memory_alike {memory memory' : Memory} (alike : MemoryAlike memory memory') :
    (Response.memory memory).toolResult = (Response.memory memory').toolResult :=
  congrArg ToolResult.memory (alike.reads serializeMemory fun _ => rfl)

theorem search_alike (query : String) (scope : Json) (limit : Int) (threshold : ℚ) :
    RequestAlike policy key (.search query scope limit threshold) := by
  refine audited_alike (.check fun actor => .check fun _ => .check fun cleaned => ?_)
    fun memories memories' => found_alike
  refine .recording rfl (.bind (.action (backend_alike rfl)) fun found found' alike => ?_)
  refine .bind (.lift (checkSpaces_alike alike _)) fun checked checked' kept => ?_
  have inside := inScope_alike kept policy.unicode cleaned
  exact .recording (by rw [MemoriesAlike.length inside]) (.pure inside)

theorem get_alike (memoryId : String) : RequestAlike policy key (.get memoryId) :=
  audited_alike (.recording rfl (.check fun _ => .action (read_alike _ memoryId)))
    fun _ _ => memory_alike

theorem update_alike (memoryId : String) (content : Option String)
    (metadata : Option (Dict String Json)) :
    RequestAlike policy key (.update memoryId content metadata) := by
  refine audited_alike (.recording rfl (.check fun actor => .check fun _ => ?_))
    fun _ _ => memory_alike
  refine .bind (.action (read_alike _ memoryId)) fun existing existing' alike => ?_
  have sizes : Policy.checkPatchSize existing = Policy.checkPatchSize existing' := by
    funext patch
    simp only [Policy.checkPatchSize, MemoryAlike.metadata alike]
  dsimp only
  rw [sizes]
  refine .check fun _ => .bind (.action (.mapError (backend_alike rfl)
    fun _ _ => asNotFound_alike)) fun updated updated' same => ?_
  exact .lift (checkMemory_alike same _)

theorem delete_alike (memoryId : String) : RequestAlike policy key (.delete memoryId) := by
  refine audited_alike (.recording rfl (.check fun actor => ?_))
    fun deleted deleted' same => congrArg (Response.toolResult ∘ Response.deleted) same
  exact .bind (.action (read_alike _ memoryId)) fun _ _ _ =>
    .action (.mapError (@backend_alike (.delete _ _) (.delete _ _) rfl)
      fun _ _ => asNotFound_alike)

theorem deleteAll_alike (scope : Json) : RequestAlike policy key (.deleteAll scope) := by
  refine audited_alike (.check fun actor => .check fun cleaned => .recording rfl ?_)
    fun count count' same => congrArg (Response.toolResult ∘ Response.count) same
  split
  · exact .throw _
  · refine .bind (.action (backend_alike rfl)) fun count count' same => ?_
    have same : count = count' := same
    subst same
    exact .recording rfl (.pure rfl)

theorem listMemories_alike (scope : Json) (limit : Int) (cursor : Option String) :
    RequestAlike policy key (.listMemories scope limit cursor) := by
  have shows : ∀ page page' : ListResult, page.public = page'.public →
      (Response.page page).toolResult = (Response.page page').toolResult := by
    intro page page' alike
    obtain ⟨listed, cursors, missed⟩ := page_alike alike
    simp only [Response.toolResult, serialize_alike listed, cursors, missed]
  refine audited_alike (.check fun actor => .check fun _ => .check fun cleaned => ?_) shows
  refine .recording rfl (.bind (.action (.mapError (backend_alike rfl)
    fun _ _ => asValidationError_alike)) fun page page' alike => ?_)
  obtain ⟨listed, cursors, missed⟩ := page_alike alike
  refine .bind (.lift (checkSpaces_alike listed _)) fun checked checked' kept => ?_
  have inside := inScope_alike kept policy.unicode cleaned
  refine .recording (by rw [MemoriesAlike.length inside]) (.pure ?_)
  simp only [ListResult.public, inside, cursors, missed]

theorem history_alike (memoryId : String) : RequestAlike policy key (.history memoryId) := by
  refine audited_alike (.recording rfl (.check fun actor => ?_))
    fun entries entries' same => congrArg (Response.toolResult ∘ Response.history) same
  exact .bind (.action (read_alike _ memoryId)) fun _ _ _ =>
    .action (.mapError (@backend_alike (.history _ _) (.history _ _) rfl)
      fun _ _ => asNotFound_alike)

theorem entities_alike (scope : Json) (limit : Int) :
    RequestAlike policy key (.entities scope limit) := by
  refine audited_alike (.check fun actor => .check fun _ => .check fun cleaned => ?_)
    fun result result' same => congrArg (Response.toolResult ∘ Response.entities) same
  refine .recording rfl (.bind (.action (backend_alike rfl)) fun result result' same => ?_)
  have same : result = result' := same
  subst same
  exact .recording rfl (.pure rfl)

theorem exportMemories_alike : RequestAlike policy key .exportMemories := by
  refine audited_alike (.check fun actor => ?_)
    fun payload payload' same => congrArg (Response.toolResult ∘ Response.exported) same
  refine .bind (.action (exportPayload_alike _ _)) fun payload payload' same => ?_
  subst same
  exact .recording rfl (.pure rfl)

theorem importMemories_alike (entries : List (Dict String Json)) (onConflict : String) :
    RequestAlike policy key (.importMemories entries onConflict) := by
  refine audited_alike (.check fun actor => .check fun mode => ?_)
    fun outcome outcome' same => congrArg (Response.toolResult ∘ Response.imported) same
  refine .bind (.action (importPayload_alike (stamps_alike mode) entries maxExport))
    fun outcome outcome' same => ?_
  subst same
  exact .recording rfl (.pure rfl)

theorem request_alike (request : Request) : RequestAlike policy key request := by
  cases request with
  | add => exact add_alike _ _ _ _
  | search => exact search_alike _ _ _ _
  | get => exact get_alike _
  | update => exact update_alike _ _ _
  | delete => exact delete_alike _
  | deleteAll => exact deleteAll_alike _
  | listMemories => exact listMemories_alike _ _ _
  | history => exact history_alike _
  | entities => exact entities_alike _ _
  | exportMemories => exact exportMemories_alike
  | importMemories => exact importMemories_alike _ _

theorem toolAnswer_alike {outcome outcome' : Except Exc Response}
    (outcomes : Outcomes ErrorsAlike
      (fun response response' => response.toolResult = response'.toolResult)
      outcome outcome') : toolAnswer outcome = toolAnswer outcome' := by
  cases outcomes with
  | ok same => exact congrArg (Except.ok ∘ Sum.inl) same
  | @error error error' raised => cases error <;> cases error' <;> cases raised <;> rfl

theorem serve_alike {α : Type} (policy : Policy) (clients : Program toolCalls α) :
    Linked secrets Eq (policy.serve clients) (policy.serve clients) := by
  refine .interpret (fun call => ?_) clients
  refine Linked.bind (request_alike call.2) fun _ _ outcomes => ?_
  exact .done (toolAnswer_alike outcomes)

end Operations

/-- Clients of two backends that differ in secrets only, whatever they ask, come to the
same; so do the audit log and, but for the secrets, the calls the backends see. -/
theorem secrets_stay_inside {α : Type} (policy : Policy) (clients : Program toolCalls α)
    (environment environment' : Environment)
    (alike : @Linked.Answer effects effects secrets environment environment') :
    let ran := @Program.against effects _ environment (policy.serve clients) []
    let ran' := @Program.against effects _ environment' (policy.serve clients) []
    ran.2 = ran'.2 ∧
      ran.1.map (fun event => event.call.public) =
        ran'.1.map (fun event => event.call.public) := by
  obtain ⟨events, same⟩ := (serve_alike policy clients).against alike .nil
  refine ⟨same, ?_⟩
  rw [← List.forall₂_eq_eq_eq, List.forall₂_map_left_iff, List.forall₂_map_right_iff]
  exact events.imp fun _ _ matching => matching.1

/-- A backend that holds one memory, and fails everything but a read of it with a
text. -/
def telling (creator text : String) : Environment
  | _, .audit _ => ()
  | _, .backend (.get ..) => .ok (some
      { id := "a", content := "tea", partition := "s"
        system := { createdBy := some creator } })
  | _, .backend _ => .error (.memoryAPIError 500 text)

theorem secrets_stay_inside_ann :
    let key : Key := ⟨"ann", ⟨"s", .reader⟩⟩
    let clients : Program toolCalls (Except Exc ToolAnswer × Except Exc ToolAnswer) :=
      .ask (key, .get "a") fun stored =>
        .ask (key, .search "tea" .null 5 0) fun found => .done (stored, found)
    let policy := localPolicy .ascii
    let ran := @Program.against effects _ (telling "ann" "at 10.0.0.1")
      (policy.serve clients) []
    let ran' := @Program.against effects _ (telling "bob" "out of disk")
      (policy.serve clients) []
    ran.2 = ran'.2 ∧
      ran.1.map (fun event => event.call.public) =
        ran'.1.map (fun event => event.call.public) := by
  refine secrets_stay_inside _ _ _ _ fun _ _ call call' _ matching => ?_
  rcases call with call | entry <;> rcases call' with call' | entry'
  · cases call <;> cases call' <;>
      first
      | exact .error rfl
      | exact .ok rfl
      | cases matching
  · cases matching
  · cases matching
  · exact trivial

end Memcp
