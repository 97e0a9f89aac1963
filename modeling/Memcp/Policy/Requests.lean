import Memcp.Policy.Importing
import Memcp.Policy.ScopeText

/-!
What each request does to the space of its key when no other call comes in
between.
-/

namespace Memcp

open Python Interaction

/-- The space after one of its memories is changed. -/
def Space.changeOf (memoryId : String) (changed : Item) (items : List Item) :
    List Item :=
  items.map fun other => if other.id = memoryId then changed else other

theorem Space.find_changeOf {items : List Item} {memoryId : String}
    {old changed : Item}
    (found : Space.find memoryId items = some old) (id : changed.id = memoryId) :
    Space.find memoryId (changeOf memoryId changed items) = some changed := by
  induction items with
  | nil => cases found
  | cons head tail induction =>
      simp only [Space.find, changeOf, List.map_cons, List.find?_cons] at found induction ⊢
      by_cases same : head.id = memoryId
      · simp [same, id]
      · simp only [same, if_false, decide_false] at found ⊢
        exact induction found

theorem Space.find_changeOf_of_ne {items : List Item} {memoryId id : String}
    {changed : Item} (same : changed.id = memoryId) (other : memoryId ≠ id) :
    Space.find id (changeOf memoryId changed items) = Space.find id items := by
  induction items with
  | nil => rfl
  | cons head tail induction =>
      simp only [Space.find, changeOf, List.map_cons, List.find?_cons] at induction ⊢
      rw [induction]
      by_cases written : head.id = memoryId
      · rw [if_pos written, same, written, decide_eq_false other]
      · rw [if_neg written]

/-- The memory an add of `key` stores. -/
def Item.addedBy (unicode : Unicode) (key : Key) (fresh : Fresh) (content : String)
    (scope metadata : Option (Dict String Json)) : Item :=
  .added unicode fresh content scope metadata
    (some (systemFor key.grant.space key.name (some key.name)))

/-- A memory after an update by `key`. -/
def Item.updatedBy (key : Key) (now : String) (content : Option String)
    (metadata : Option (Dict String Json)) (old : Item) : Item :=
  old.changed now content ((Dict.given metadata).map asPatch)
    (some (systemFor key.grant.space key.name old.system.createdBy))

/-- What a request can do: nothing, or the one thing it is for. -/
inductive Did (unicode : Unicode) (key : Key) (items : List Item) :
    Request → Except Exc Response → List Item → Prop
  | kept {request : Request} {outcome : Except Exc Response}
      (raised : request.isWrite = true → ∃ error, outcome = .error error) :
      Did unicode key items request outcome items
  | added {content : String} {scope : Json} {cleaned : Option (Dict String Json)}
      {metadata : Option (Dict String Json)} {infer : Bool} (fresh : Fresh)
      (valid : validateContent content = .ok ())
      (validScope : validateScope unicode scope localScopeKeys = .ok cleaned)
      (accepted : acceptedMetadata unicode metadata) :
      Did unicode key items (.add content scope metadata infer)
        (.ok (.added (.many [{ id := fresh.id, createdAt := fresh.now }])))
        (items ++ [.addedBy unicode key fresh content cleaned metadata])
  | updated {memoryId : String} {content : Option String}
      {metadata : Option (Dict String Json)} {old : Item} (now : String)
      (found : Space.find memoryId items = some old)
      (validText : ∀ text, content = some text → validateContent text = .ok ())
      (validMetadata : ∀ given, Dict.given metadata = some given →
        validateMetadata unicode given true = .ok ())
      (size : ∀ given, Dict.given metadata = some given →
        checkMetadataSize (patched old.metadata (asPatch given))
          (some old.metadata) = .ok ()) :
      Did unicode key items (.update memoryId content metadata)
        (.ok (.memory ((old.updatedBy key now content metadata).memory
          key.grant.space none)))
        (Space.changeOf memoryId (old.updatedBy key now content metadata) items)
  | deleted {memoryId : String} {old : Item}
      (found : Space.find memoryId items = some old) :
      Did unicode key items (.delete memoryId) (.ok (.deleted true))
        (items.filter fun item => item.id ≠ memoryId)
  | cleared {scope : Json} {cleaned : Dict String Json}
      (validScope : validateScope unicode scope localScopeKeys = .ok (some cleaned))
      (concrete : cleaned.isEmpty = false) :
      Did unicode key items (.deleteAll scope)
        (.ok (.count (some (Space.selected unicode (some cleaned) items).length)))
        (items.filter fun item => !storedHolds unicode item.scope cleaned)
  | imported {entries : List (Dict String Json)} {onConflict : String}
      {mode : OnConflict} {reports : List Import.Report} {after : Import.Progress}
      (checked : (localPolicy unicode).checkImportArguments entries onConflict =
        .ok mode)
      (read : Import.readable ((localPolicy unicode).importOptions key mode) maxExport
        items = .ok ())
      (run : Import.Run unicode ((localPolicy unicode).importOptions key mode) 0
        entries (Import.start unicode ((localPolicy unicode).importOptions key mode)
          maxExport items) reports after) :
      Did unicode key items (.importMemories entries onConflict)
        (.ok (.imported ((Import.unread
          ((localPolicy unicode).importOptions key mode) maxExport items).reports 0
            reports)))
        after.items

section Requests

variable {unicode : Unicode} {key : Key} {fresh : FreshIds} {asked : Nat}
  {items : List Item}

/-- What a run of a request on one space comes to. -/
def Comes (unicode : Unicode) (key : Key) (fresh : FreshIds) (asked : Nat)
    (items : List Item) (request : Request) (outcome : Except Exc Response)
    (asked' : Nat) (later : List Item) : Prop :=
  Did unicode key items request outcome later ∧ asked ≤ asked' ∧
    Space.Stands fresh asked' later

theorem Comes.audited {α : Type} {request : Request} {name : String}
    {context : Context} {respond : α → Response} {body : Operation α}
    (ends : Operation.Ends (Space.store unicode).machine fresh.supply
      (fun outcome => Comes unicode key fresh asked items request
        (outcome.map respond)) body asked items) :
    Fallible.Ends (Space.store unicode).machine fresh.supply
      (Comes unicode key fresh asked items request)
      (respond <$> audited name context body) asked items := by
  refine .map (Action.ends_audited (ends.mono fun outcome asked' later comes => ?_))
  exact ⟨comes.1, Nat.le_succ_of_le comes.2.1, comes.2.2.later (Nat.le_succ _)⟩

theorem Comes.kept {request : Request} {outcome : Except Exc Response}
    {asked' : Nat} (stands : Space.Stands fresh asked items)
    (raised : request.isWrite = true → ∃ error, outcome = .error error)
    (grows : asked ≤ asked') :
    Comes unicode key fresh asked items request outcome asked' items :=
  ⟨.kept raised, grows, stands.later grows⟩

theorem Comes.raised {α : Type} {request : Request} {respond : α → Response}
    {error : Exc} {asked' : Nat} (stands : Space.Stands fresh asked items)
    (grows : asked ≤ asked') :
    Comes unicode key fresh asked items request
      ((.error error : Except Exc α).map respond) asked' items :=
  .kept stands (fun _ => ⟨error, rfl⟩) grows

/-! A call of an operation that returns. -/

theorem Space.exec_backend {supply : Nat → Fresh} (call : BackendCall) :
    Fallible.exec (Space.store unicode).machine supply (Action.backend call) asked
        items =
      ((Space.perform unicode (supply asked) call items).1, asked + 1,
        (Space.perform unicode (supply asked) call items).2) := rfl

section Calls

variable {β : Type} {supply : Nat → Fresh} {call : BackendCall} {value : call.Result}
  {later : List Item} {rest : call.Result → Operation β}
  {post : Except Exc β → Nat → List Item → Prop}

theorem Space.ends_call
    (performed : Space.perform unicode (supply asked) call items = (.ok value, later))
    (ends : Operation.Ends (Space.store unicode).machine supply post (rest value)
      (asked + 1) later) :
    Operation.Ends (Space.store unicode).machine supply post
      (liftM (Action.backend call) >>= rest) asked items := by
  intro entry
  rw [@Operation.exec_backend supply asked β (Space.store unicode)]
  simp only [Space.store, performed]
  exact ends entry

theorem Space.ends_call_mapError (f : Exc → Exc)
    (performed : Space.perform unicode (supply asked) call items = (.ok value, later))
    (ends : Operation.Ends (Space.store unicode).machine supply post (rest value)
      (asked + 1) later) :
    Operation.Ends (Space.store unicode).machine supply post
      (liftM ((Action.backend call).mapError f) >>= rest) asked items := by
  intro entry
  rw [Operation.exec_bind, Operation.exec_action, Fallible.exec_mapError,
    Space.exec_backend, performed]
  exact ends entry

end Calls

/-- What reading one memory of a space returns or raises. -/
def Space.read (partition memoryId : String) (items : List Item) : Except Exc Memory := do
  let _ ← validation (validateMemoryId memoryId)
  match Space.find memoryId items with
  | none => throw (.policyError .notFound notFoundMsg)
  | some item => checkSpace (some (item.memory partition none)) partition

theorem Space.read_eq_ok {partition memoryId : String} {memory : Memory} :
    Space.read partition memoryId items = .ok memory ↔
      (∃ named, validateMemoryId memoryId = .ok named) ∧
        ∃ item, Space.find memoryId items = some item ∧
          memory = item.memory partition none ∧ item.system.spaceIs partition = true := by
  unfold Space.read
  constructor
  · intro read
    obtain ⟨named, form, read⟩ := bind_eq_ok.mp read
    refine ⟨⟨named, validation_eq_ok.mp form⟩, ?_⟩
    cases found : Space.find memoryId items with
    | none =>
        rw [found] at read
        cases read
    | some item =>
        rw [found] at read
        obtain ⟨same, inSpace⟩ := checkSpace_eq_ok.mp read
        obtain rfl := Option.some.inj same
        refine ⟨item, rfl, rfl, ?_⟩
        simpa [Memory.inSpace, Item.memory] using inSpace
  · rintro ⟨⟨named, form⟩, item, found, rfl, own⟩
    rw [form, found]
    refine checkSpace_eq_ok.mpr ⟨rfl, ?_⟩
    simp [Memory.inSpace, Item.memory, own]

theorem Policy.read_eq {supply : Nat → Fresh} (partition memoryId : String) :
    Fallible.Ends (Space.store unicode).machine supply
      (fun outcome asked' later => later = items ∧ asked ≤ asked' ∧
        outcome = Space.read partition memoryId items)
      (Policy.read partition memoryId) asked items := by
  unfold Policy.read Space.read
  refine .check (fun error refused => ?_) fun named form => ?_
  · rw [refused]
    exact ⟨rfl, Nat.le_refl _, rfl⟩
  rw [form]
  have got : Fallible.Ends (Space.store unicode).machine supply
      (fun outcome asked' later => later = items ∧ asked ≤ asked' ∧
        outcome = .ok ((Space.find memoryId items).map (Item.memory partition none)))
      ((Action.backend (.get partition memoryId)).mapError asNotFound) asked
      items :=
    Fallible.Ends.mapError ⟨rfl, Nat.le_succ _, rfl⟩
  refine .bind got ?_ ?_
  · rintro error asked' later ⟨-, -, same⟩
    cases same
  · rintro found asked' later ⟨rfl, grows, same⟩
    cases same
    cases Space.find memoryId later with
    | none => exact .throw ⟨rfl, grows, rfl⟩
    | some item => exact .lift ⟨rfl, grows, rfl⟩

/-- What reading one memory comes to. -/
def Reads (partition memoryId : String) (asked : Nat) (items : List Item)
    (outcome : Except Exc Memory) (asked' : Nat) (later : List Item) : Prop :=
  later = items ∧ asked ≤ asked' ∧ ∀ memory, outcome = .ok memory →
    ∃ item, Space.find memoryId items = some item ∧
      memory = item.memory partition none ∧ item.system.spaceIs partition = true

theorem Policy.read_ends {supply : Nat → Fresh} (partition memoryId : String) :
    Fallible.Ends (Space.store unicode).machine supply
      (Reads partition memoryId asked items) (Policy.read partition memoryId) asked
      items := by
  refine (Policy.read_eq partition memoryId).mono ?_
  rintro _ asked' later ⟨rfl, grows, rfl⟩
  exact ⟨rfl, grows, fun memory read => (Space.read_eq_ok.mp read).2⟩

/-! One lemma for each request. -/

theorem add_comes (stands : Space.Stands fresh asked items) (content : String)
    (scope : Json) (metadata : Option (Dict String Json)) (infer : Bool) :
    Fallible.Ends (Space.store unicode).machine fresh.supply
      (Comes unicode key fresh asked items (.add content scope metadata infer))
      ((localPolicy unicode).perform (some key) (.add content scope metadata infer))
      asked items := by
  refine Comes.audited (.check ?_ fun actor granted => ?_)
  · exact fun _ _ => .raised stands (Nat.le_refl _)
  obtain ⟨rfl, writer⟩ := require_writer_ok granted
  refine .check ?_ fun _ valid => ?_
  · exact fun _ _ => .raised stands (Nat.le_refl _)
  refine .check ?_ fun cleaned validScope => .recording ?_
  · exact fun _ _ => .raised stands (Nat.le_refl _)
  obtain ⟨validText, accepted⟩ := checkAddArguments_eq_ok valid
  have unused := stands.unused asked (Nat.le_refl _)
  let given := fresh.supply asked
  let stored := Item.addedBy unicode actor given content cleaned metadata
  have flat : refuseNestedFilters unicode cleaned = .ok () :=
    refuseNestedFilters_validated validScope
  have free : refuseReservedMetadata unicode (metadata.getD ∅).keys = .ok () :=
    Import.accepted_free accepted
  have performed : Space.perform unicode given
      (.add actor.grant.space content cleaned metadata infer
        (some (systemFor actor.grant.space actor.name (some actor.name)))) items =
      (.ok (.many [{ id := given.id, createdAt := given.now }]), items ++ [stored]) := by
    simp only [Space.perform, Space.add, flat, free]
    rfl
  have fetched : Space.perform unicode (fresh.supply (asked + 1))
      (.get actor.grant.space given.id) (items ++ [stored]) =
      (.ok (some (stored.memory actor.grant.space none)), items ++ [stored]) := by
    have found : Space.find given.id (items ++ [stored]) = some stored :=
      @Import.find_append_self items stored unused
    simp only [Space.perform, found, Option.map_some]
  have passed : checkSpace (some (stored.memory actor.grant.space none))
      actor.grant.space = .ok (stored.memory actor.grant.space none) := by
    refine checkSpace_eq_ok.mpr ⟨rfl, ?_⟩
    simp [Memory.inSpace, Item.memory, stored, Item.addedBy, Item.added]
  have comes : Comes unicode actor fresh asked items (.add content scope metadata infer)
      (.ok (.added (.many [{ id := given.id, createdAt := given.now }]))) (asked + 2)
      (items ++ [stored]) :=
    ⟨.added given validText validScope accepted, by omega,
      (stands.add rfl).later (Nat.le_succ _)⟩
  have checked : Operation.Ends (Space.store unicode).machine fresh.supply
      (fun outcome count later => outcome = .ok () ∧ count = asked + 2 ∧
        later = items ++ [stored])
      (Policy.checkAdded actor.grant.space [{ id := given.id, createdAt := given.now }])
      (asked + 1) (items ++ [stored]) := by
    simp only [Policy.checkAdded, reduceCtorEq, if_false]
    refine Space.ends_call fetched ?_
    rw [passed]
    exact fun _ => ⟨rfl, rfl, rfl⟩
  refine Space.ends_call performed (.recording (.bind checked ?_ ?_))
  · rintro error count later ⟨same, -⟩
    cases same
  · rintro _ count later ⟨-, rfl, rfl⟩
    exact .pure comes

/-- What an update reads, when its checks let it through. -/
def acceptUpdate (unicode : Unicode) (key : Key) (memoryId : String)
    (content : Option String) (metadata : Option (Dict String Json)) (items : List Item) :
    Except Exc Memory := do
  let _ ← require (some key) .writer
  validation ((localPolicy unicode).checkUpdateArguments content metadata)
  let existing ← Space.read key.grant.space memoryId items
  validation (Policy.checkPatchSize existing ((Dict.given metadata).map asPatch))
  return existing

/-- An update changes the memory its checks let through, or raises what they
raise. -/
def UpdateLeaves (unicode : Unicode) (key : Key) (memoryId : String) (content : Option String)
    (metadata : Option (Dict String Json)) (items : List Item)
    (outcome : Except Exc Response) (later : List Item) : Prop :=
  match acceptUpdate unicode key memoryId content metadata items with
  | .error error => outcome = .error error ∧ later = items
  | .ok _ => ∃ old now, Space.find memoryId items = some old ∧
      outcome = .ok (.memory ((old.updatedBy key now content metadata).memory
        key.grant.space none)) ∧
      later = Space.changeOf memoryId (old.updatedBy key now content metadata) items

section Update

variable {memoryId : String} {content : Option String}
  {metadata : Option (Dict String Json)}

theorem acceptUpdate_eq_ok {existing : Memory} :
    acceptUpdate unicode key memoryId content metadata items = .ok existing ↔
      require (some key) .writer = .ok key ∧
      (localPolicy unicode).checkUpdateArguments content metadata = .ok () ∧
      Space.read key.grant.space memoryId items = .ok existing ∧
      Policy.checkPatchSize existing ((Dict.given metadata).map asPatch) = .ok () := by
  unfold acceptUpdate
  constructor
  · intro accepted
    obtain ⟨actor, granted, accepted⟩ := bind_eq_ok.mp accepted
    obtain ⟨_, checked, accepted⟩ := bind_eq_ok.mp accepted
    obtain ⟨memory, read, accepted⟩ := bind_eq_ok.mp accepted
    obtain ⟨_, size, ⟨⟩⟩ := bind_eq_ok.mp accepted
    obtain ⟨rfl, -⟩ := require_writer_ok granted
    exact ⟨granted, validation_eq_ok.mp checked, read, validation_eq_ok.mp size⟩
  · rintro ⟨writer, checked, read, size⟩
    rw [writer, checked, read]
    change (validation _ >>= _) = _
    rw [size]
    rfl

theorem update_ends (stands : Space.Stands fresh asked items) :
    Fallible.Ends (Space.store unicode).machine fresh.supply
      (fun outcome count later =>
        UpdateLeaves unicode key memoryId content metadata items outcome later ∧
          asked ≤ count ∧ Space.Stands fresh count later)
      ((localPolicy unicode).perform (some key) (.update memoryId content metadata))
      asked items := by
  have refused : ∀ {error : Exc} {count : Nat}, asked ≤ count →
      acceptUpdate unicode key memoryId content metadata items = .error error →
        UpdateLeaves unicode key memoryId content metadata items (.error error) items ∧
          asked ≤ count + 1 ∧ Space.Stands fresh (count + 1) items := by
    intro error count grows raised
    refine ⟨?_, Nat.le_succ_of_le grows, stands.later (Nat.le_succ_of_le grows)⟩
    rw [UpdateLeaves, raised]
    exact ⟨rfl, rfl⟩
  refine .map (Action.ends_audited (.recording
    (.check (fun error denied => ?_) fun actor granted => ?_)))
  · refine refused (Nat.le_refl _) ?_
    rw [acceptUpdate, denied]
    rfl
  obtain ⟨rfl, writer⟩ := require_writer_ok granted
  refine .check (fun error invalid => ?_) fun _ valid => ?_
  · refine refused (Nat.le_refl _) ?_
    rw [acceptUpdate, granted]
    change (validation _ >>= _) = _
    rw [invalid]
    rfl
  refine .bind (.action (Policy.read_eq actor.grant.space memoryId)) ?_ ?_
  · rintro error count later ⟨rfl, grows, missing⟩
    refine refused grows ?_
    rw [acceptUpdate, granted, valid, ← missing]
    rfl
  rintro existing count later ⟨rfl, grows, read⟩
  refine .check (fun error large => ?_) fun _ small => ?_
  · refine refused grows ?_
    rw [acceptUpdate, granted, valid, ← read]
    change (validation _ >>= _) = _
    rw [large]
    rfl
  have accepted := acceptUpdate_eq_ok.mpr
    ⟨granted, validation_eq_ok.mp valid, read.symm, validation_eq_ok.mp small⟩
  obtain ⟨-, old, found, rfl, own⟩ := Space.read_eq_ok.mp read.symm
  obtain ⟨validText, validMetadata⟩ := checkUpdateArguments_eq_ok valid
  have free : refuseReservedMetadata unicode
      (((Dict.given metadata).map asPatch).elim [] MetadataPatch.keys) = .ok () := by
    rw [refuseReservedMetadata_eq_ok]
    cases given : Dict.given metadata with
    | none => exact nofun
    | some held =>
        intro key member
        exact not_reserved_of_valid (validMetadata held given)
          (keys_asPatch member)
  let changed := old.updatedBy actor (fresh.supply count).now content metadata
  have performed : Space.perform unicode (fresh.supply count)
      (.update actor.grant.space memoryId content ((Dict.given metadata).map asPatch)
        (some (systemFor actor.grant.space actor.name old.system.createdBy))) later =
      (.ok (changed.memory actor.grant.space none),
        Space.changeOf memoryId changed later) := by
    simp only [Space.perform, Space.update, free, found]
    rfl
  have passed : checkSpace (some (changed.memory actor.grant.space none))
      actor.grant.space = .ok (changed.memory actor.grant.space none) := by
    refine checkSpace_eq_ok.mpr ⟨rfl, ?_⟩
    simp [Memory.inSpace, Item.memory, changed, Item.updatedBy, Item.changed]
  have kept : Space.Stands fresh (count + 2) (Space.changeOf memoryId changed later) := by
    refine (stands.later (by omega)).map fun other _ => ?_
    split
    · rename_i same
      exact (Space.mem_of_find found).2.trans same.symm
    · rfl
  refine Space.ends_call_mapError asNotFound performed ?_
  rw [passed]
  refine .lift ⟨?_, by omega, kept⟩
  rw [UpdateLeaves, accepted]
  exact ⟨old, _, found, rfl, rfl⟩

end Update

theorem update_comes (stands : Space.Stands fresh asked items) (memoryId : String)
    (content : Option String) (metadata : Option (Dict String Json)) :
    Fallible.Ends (Space.store unicode).machine fresh.supply
      (Comes unicode key fresh asked items (.update memoryId content metadata))
      ((localPolicy unicode).perform (some key) (.update memoryId content metadata))
      asked items := by
  refine (update_ends stands).mono ?_
  rintro outcome count later ⟨updates, grows, kept⟩
  unfold UpdateLeaves at updates
  split at updates
  · obtain ⟨rfl, rfl⟩ := updates
    exact .kept stands (fun _ => ⟨_, rfl⟩) grows
  · rename_i existing accepted
    obtain ⟨old, now, found, rfl, rfl⟩ := updates
    obtain ⟨-, valid, read, small⟩ := acceptUpdate_eq_ok.mp accepted
    obtain ⟨validText, validMetadata⟩ :=
      checkUpdateArguments_eq_ok (validation_eq_ok.mpr valid)
    obtain ⟨-, other, found', rfl, -⟩ := Space.read_eq_ok.mp read
    obtain rfl := Option.some.inj (found.symm.trans found')
    refine ⟨.updated now found validText validMetadata fun given held => ?_, grows, kept⟩
    rw [held, Option.map_some] at small
    exact small

theorem delete_comes (stands : Space.Stands fresh asked items) (memoryId : String) :
    Fallible.Ends (Space.store unicode).machine fresh.supply
      (Comes unicode key fresh asked items (.delete memoryId))
      ((localPolicy unicode).perform (some key) (.delete memoryId)) asked items := by
  refine Comes.audited (.recording (.check ?_ fun actor granted => ?_))
  · exact fun _ _ => .raised stands (Nat.le_refl _)
  obtain ⟨rfl, writer⟩ := require_writer_ok granted
  refine .bind (.action (Policy.read_ends actor.grant.space memoryId)) ?_ ?_
  · rintro error asked' later ⟨rfl, grows, -⟩
    exact .raised stands grows
  rintro existing count later ⟨rfl, grows, read⟩
  obtain ⟨old, found, -⟩ := read existing rfl
  have comes : Comes unicode actor fresh asked later (.delete memoryId)
      (.ok (.deleted true)) (count + 1)
      (later.filter fun item => item.id ≠ memoryId) :=
    ⟨.deleted found, Nat.le_succ_of_le grows,
      (stands.sublist List.filter_sublist).later (Nat.le_succ_of_le grows)⟩
  have performed : Space.perform unicode (fresh.supply count)
      (.delete actor.grant.space memoryId) later =
      (.ok true, later.filter fun item => item.id ≠ memoryId) := by
    simp only [Space.perform, Space.delete, found]
  apply Operation.Ends.action
  apply Fallible.Ends.mapError
  unfold Fallible.Ends
  rw [Space.exec_backend, performed]
  exact comes

theorem deleteAll_comes (stands : Space.Stands fresh asked items) (scope : Json) :
    Fallible.Ends (Space.store unicode).machine fresh.supply
      (Comes unicode key fresh asked items (.deleteAll scope))
      ((localPolicy unicode).perform (some key) (.deleteAll scope)) asked items := by
  refine Comes.audited (.check ?_ fun actor granted => ?_)
  · exact fun _ _ => .raised stands (Nat.le_refl _)
  obtain ⟨rfl, writer⟩ := require_writer_ok granted
  refine .check ?_ fun cleaned validScope => .recording ?_
  · exact fun _ _ => .raised stands (Nat.le_refl _)
  cases held : Dict.given cleaned with
  | none => exact .throw (.raised stands (Nat.le_refl _))
  | some kept =>
      obtain ⟨rfl, concrete⟩ := Dict.given_eq_some_iff.mp held
      have flat : rejectNestedFilters unicode kept = .ok () := by
        have accepted : refuseNestedFilters unicode (some kept) = .ok () :=
          refuseNestedFilters_validated validScope
        simpa only [refuseNestedFilters, held] using accepted
      have performed : Space.perform unicode (fresh.supply asked)
          (.deleteAll actor.grant.space kept) items =
          (.ok (some (Space.selected unicode (some kept) items).length),
            items.filter fun item => !storedHolds unicode item.scope kept) := by
        simp only [Space.perform, Space.deleteAll, flat]
      have comes : Comes unicode actor fresh asked items (.deleteAll scope)
          (.ok (.count (some (Space.selected unicode (some kept) items).length)))
          (asked + 1) (items.filter fun item => !storedHolds unicode item.scope kept) := by
        refine ⟨.cleared validScope ?_, Nat.le_succ _,
          (stands.sublist List.filter_sublist).later (Nat.le_succ _)⟩
        exact Bool.eq_false_iff.mpr fun empty =>
          concrete ((Dict.isEmpty_iff kept).mp empty)
      exact Space.ends_call performed (.recording (.pure comes))

/-! Operations that only read. -/

/-- The operation leaves the memories as they are. -/
def Operation.Quiet {α : Type} (unicode : Unicode) (supply : Nat → Fresh)
    (items : List Item) (operation : Operation α) : Prop :=
  ∀ asked, Operation.Ends (Space.store unicode).machine supply
    (fun _ asked' later => asked ≤ asked' ∧ later = items) operation asked items

namespace Operation.Quiet

variable {α β : Type} {supply : Nat → Fresh}

theorem pure (value : α) :
    Operation.Quiet unicode supply items (Pure.pure value : Operation α) :=
  fun asked _ => ⟨Nat.le_refl asked, rfl⟩

theorem record (f : AuditEntry → AuditEntry) :
    Operation.Quiet unicode supply items (Operation.record f) :=
  fun asked _ => ⟨Nat.le_refl asked, rfl⟩

theorem lift (outcome : Except Exc α) :
    Operation.Quiet unicode supply items (liftM outcome : Operation α) :=
  fun asked _ => ⟨Nat.le_refl asked, rfl⟩

theorem bind {operation : Operation α} {rest : α → Operation β}
    (first : Operation.Quiet unicode supply items operation)
    (second : ∀ value, Operation.Quiet unicode supply items (rest value)) :
    Operation.Quiet unicode supply items (operation >>= rest) := by
  intro asked
  refine .bind (first asked) (fun _ _ _ ended => ended) ?_
  rintro value asked' later ⟨grows, rfl⟩
  refine (second value asked').mono ?_
  exact fun _ _ _ ended => ⟨Nat.le_trans grows ended.1, ended.2⟩

theorem action {action : Action α}
    (ends : ∀ asked, Fallible.Ends (Space.store unicode).machine supply
      (fun _ asked' later => asked ≤ asked' ∧ later = items) action asked items) :
    Operation.Quiet unicode supply items (liftM action : Operation α) :=
  fun asked => .action (ends asked)

theorem call {call : BackendCall}
    (reads : ∀ given, (Space.perform unicode given call items).2 = items) :
    Operation.Quiet unicode supply items (liftM (Action.backend call)) :=
  .action fun _ => ⟨Nat.le_succ _, reads _⟩

theorem mapError {call : BackendCall} {f : Exc → Exc}
    (reads : ∀ given, (Space.perform unicode given call items).2 = items) :
    Operation.Quiet unicode supply items (liftM ((Action.backend call).mapError f)) :=
  .action fun _ => .mapError ⟨Nat.le_succ _, reads _⟩

theorem read (partition memoryId : String) :
    Operation.Quiet unicode supply items (liftM (Policy.read partition memoryId)) :=
  .action fun _ => (Policy.read_ends partition memoryId).mono
    fun _ _ _ ended => ⟨ended.2.1, ended.1⟩

end Operation.Quiet

theorem Comes.quiet {α : Type} {request : Request} {respond : α → Response}
    {name : String} {body : Operation α} (stands : Space.Stands fresh asked items)
    (reads : request.isWrite = false)
    (quiet : Operation.Quiet unicode fresh.supply items body) :
    Fallible.Ends (Space.store unicode).machine fresh.supply
      (Comes unicode key fresh asked items request)
      (respond <$> Memcp.audited name (some key) body) asked items := by
  refine Comes.audited ((quiet asked).mono ?_)
  rintro outcome asked' later ⟨grows, rfl⟩
  exact .kept stands (fun writes => by simp [reads] at writes) grows

theorem read_comes (stands : Space.Stands fresh asked items) {request : Request}
    (reads : request.isWrite = false) :
    Fallible.Ends (Space.store unicode).machine fresh.supply
      (Comes unicode key fresh asked items request)
      ((localPolicy unicode).perform (some key) request) asked items := by
  cases request with
  | add | update | delete | deleteAll | importMemories => cases reads
  | search query scope limit threshold =>
      exact Comes.quiet stands reads <| .bind (.lift _) fun _ => .bind (.lift _)
        fun _ => .bind (.lift _) fun _ => .bind (.record _) fun _ =>
        .bind (.call fun _ => rfl) fun _ => .bind (.lift _)
        fun _ => .bind (.record _) fun _ => .pure _
  | get memoryId =>
      exact Comes.quiet stands reads <| .bind (.record _) fun _ => .bind (.lift _)
        fun _ => .read _ _
  | listMemories scope limit cursor =>
      exact Comes.quiet stands reads <| .bind (.lift _) fun _ => .bind (.lift _)
        fun _ => .bind (.lift _) fun _ => .bind (.record _) fun _ =>
        .bind (.mapError fun _ => rfl) fun _ =>
        .bind (.lift _) fun _ => .bind (.record _) fun _ => .pure _
  | history memoryId =>
      exact Comes.quiet stands reads <| .bind (.record _) fun _ => .bind (.lift _)
        fun _ => .bind (.read _ _) fun _ =>
        .mapError fun _ => rfl
  | entities scope limit =>
      exact Comes.quiet stands reads <| .bind (.lift _) fun _ => .bind (.lift _)
        fun _ => .bind (.lift _) fun _ => .bind (.record _) fun _ =>
        .bind (.call fun _ => rfl) fun _ =>
        .bind (.record _) fun _ => .pure _
  | exportMemories =>
      have exported : ∀ key : Key, Operation.Quiet unicode fresh.supply items
          (liftM (exportPayload key.grant.space maxExport)) := by
        refine fun key => .action fun count => ?_
        have listed := @Import.listAll_exec unicode count fresh.supply key.grant.space
          maxExport items
        have read : Fallible.Ends (Space.store unicode).machine fresh.supply
            (fun _ asked' later => count ≤ asked' ∧ later = items)
            (listAll key.grant.space maxExport) count items := by
          unfold Fallible.Ends
          rw [listed]
          exact ⟨Nat.le_succ _, rfl⟩
        exact .bind read (fun _ _ _ ended => ended) fun _ _ _ ended => .pure ended
      exact Comes.quiet stands reads <| .bind (.lift _) fun _ =>
        .bind (exported _) fun _ => .bind (.record _) fun _ => .pure _

/-! Imports. -/

/-- The checks on an entry raise `ValueError`s only when the scope validator
does. -/
theorem readEntry_raises {options : ImportOptions}
    {validate : Json → Except Exc (Option (Dict String Json))}
    (validator : options.scopeValidator = some validate)
    (raises : ∀ scope, Raises Exc.IsValueError (validate scope))
    (entry : Dict String Json) :
    Raises Exc.IsValueError (readEntry unicode options entry) := by
  have content : Raises Exc.IsValueError (readContent entry) := by
    unfold readContent
    split
    · refine .bind ?_ fun _ _ => .pure _
      unfold validateContent validateText
      split
      · exact .throw trivial
      · split
        · exact .throw trivial
        · exact .pure _
    · exact .throw trivial
  have metadata : Raises Exc.IsValueError (readMetadata unicode entry) := by
    unfold readMetadata
    split
    · exact .pure _
    · split
      · exact .throw trivial
      · exact .bind (validateMetadata_raises unicode _ _) fun _ _ =>
          .bind (checkMetadataSize_raises _ _) fun _ _ => .pure _
  have scope : Raises Exc.IsValueError (readScope validate entry) := by
    unfold readScope
    split
    · exact .pure _
    · exact raises _
  unfold readEntry
  rw [validator]
  exact .bind content fun _ _ => .bind scope fun _ _ => .bind metadata fun _ _ => .pure _

theorem validateEntryScope_raises (policy : Policy) (scope : Json) :
    Raises Exc.IsValueError (policy.validateEntryScope scope) := by
  unfold Policy.validateEntryScope
  have raises := validateScope_raises policy.unicode scope policy.scopeKeys
  split
  · exact .throw trivial
  · rename_i other
    intro error same
    have kind := raises error same
    cases error with
    | policyError code message => exact absurd same (other code message)
    | _ => cases kind

theorem not_halts {mode : OnConflict} {entry : Dict String Json} {error : Exc} :
    ¬ Import.Halts unicode ((localPolicy unicode).importOptions key mode) entry
      error := by
  rintro (⟨read, other⟩ | ⟨item, read, nested⟩)
  · have kind := @readEntry_raises unicode
      ((localPolicy unicode).importOptions key mode) _ rfl
      (validateEntryScope_raises (localPolicy unicode)) entry error read
    cases error with
    | valueError message => exact other message rfl
    | _ => cases kind
  · obtain ⟨given, valid⟩ := (@readEntry_eq_ok (localPolicy unicode) key mode entry item
      read).scope
    have flat : refuseNestedFilters unicode item.scope = .ok () :=
      refuseNestedFilters_validated valid
    rw [flat] at nested
    cases nested

theorem stamped (key : Key) (mode : OnConflict) :
    Import.Stamped ((localPolicy unicode).importOptions key mode) :=
  ⟨_, rfl, fun _ stored => by
    simp [Policy.stamp, Policy.importOptions]⟩

theorem checkImportArguments_eq_ok {entries : List (Dict String Json)}
    {onConflict : String} {mode : OnConflict} :
    (localPolicy unicode).checkImportArguments entries onConflict = .ok mode ↔
      entries ≠ [] ∧ entries.length ≤ maxImport ∧
        OnConflict.ofText onConflict = some mode := by
  unfold Policy.checkImportArguments
  cases entries with
  | nil => exact ⟨nofun, fun held => absurd rfl held.1⟩
  | cons entry entries =>
      simp only [List.isEmpty_cons, Bool.false_eq_true, if_false, ne_eq, reduceCtorEq,
        not_false_eq_true, true_and]
      by_cases many : maxImport < (entry :: entries).length
      · rw [if_pos many]
        exact ⟨nofun, fun held => absurd held.1 (Nat.not_le_of_lt many)⟩
      · rw [if_neg many]
        cases OnConflict.ofText onConflict with
        | none => exact ⟨nofun, fun held => nomatch held.2⟩
        | some named =>
            have able : ¬ (named = .overwrite ∧
                "update" ∉ (localPolicy unicode).capabilities) := by
              simp [localPolicy, localCapabilities]
            simp only [if_neg able]
            exact ⟨fun same => ⟨Nat.le_of_not_lt many, by cases same; rfl⟩,
              fun held => by cases held.2; rfl⟩

/-- An import request whose arguments pass is the import itself. -/
theorem Space.import_request {mode : OnConflict} {onConflict : String}
    {entries : List (Dict String Json)} (writer : key.grant.relation = .writer)
    (checked : (localPolicy unicode).checkImportArguments entries onConflict =
      .ok mode) :
    let ran := Fallible.exec (Space.store unicode).machine fresh.supply
      (importPayload unicode ((localPolicy unicode).importOptions key mode) entries
        maxExport) asked items
    (Space.store unicode).request unicode fresh.supply key
        (.importMemories entries onConflict) asked items =
      (ran.1.map .imported, ran.2.1 + 1, ran.2.2) := by
  have granted : require (some key) .writer = .ok key := by
    rw [require_writer, if_pos writer]
  unfold Store.request Policy.perform
  rw [Fallible.exec_map]
  unfold Policy.importMemories
  have tables : (localPolicy unicode).unicode = unicode := rfl
  simp only [exec_audited, granted, checked, Operation.exec_lift, tables]
  rw [Operation.exec_bind, Operation.exec_action]
  rcases Fallible.exec (Space.store unicode).machine fresh.supply
    (importPayload unicode ((localPolicy unicode).importOptions key mode) entries
      maxExport) asked items with ⟨outcome, count, later⟩
  cases outcome with
  | ok outcome => rfl
  | error error => rfl

theorem import_comes (stands : Space.Stands fresh asked items)
    (entries : List (Dict String Json)) (onConflict : String) :
    Fallible.Ends (Space.store unicode).machine fresh.supply
      (Comes unicode key fresh asked items (.importMemories entries onConflict))
      ((localPolicy unicode).perform (some key) (.importMemories entries onConflict))
      asked items := by
  refine Comes.audited (.check ?_ fun actor granted => ?_)
  · exact fun _ _ => .raised stands (Nat.le_refl _)
  obtain ⟨rfl, writer⟩ := require_writer_ok granted
  refine .check ?_ fun mode checked => ?_
  · exact fun _ _ => .raised stands (Nat.le_refl _)
  have ran : Fallible.Ends (Space.store unicode).machine fresh.supply
      (fun outcome asked' later => Comes unicode actor fresh asked items
        (.importMemories entries onConflict) (outcome.map .imported) asked' later)
      (importPayload unicode ((localPolicy unicode).importOptions actor mode) entries
        maxExport) asked items := by
    have imports := @Import.importPayload_exec unicode
      ((localPolicy unicode).importOptions actor mode) fresh asked items entries
      maxExport stands (stamped actor mode)
    unfold Fallible.Ends
    generalize Fallible.exec (Space.store unicode).machine fresh.supply
      (importPayload unicode ((localPolicy unicode).importOptions actor mode) entries
        maxExport) asked items = ended at imports
    cases imports with
    | unreadable failed grows => exact .raised stands grows
    | ran read run grows stands => exact ⟨.imported checked read run, grows, stands⟩
    | halted read member halts => exact absurd halts not_halts
  refine .bind (.action ran) (fun _ _ _ comes => comes) fun outcome asked' later comes => ?_
  exact .recording (.pure comes)

/-- A request on a space does nothing, or the one thing it is for. -/
theorem Space.request_comes (stands : Space.Stands fresh asked items)
    (request : Request) :
    let ran := (Space.store unicode).request unicode fresh.supply key request asked
      items
    Comes unicode key fresh asked items request ran.1 ran.2.1 ran.2.2 := by
  cases request with
  | add content scope metadata infer =>
      exact add_comes stands content scope metadata infer
  | update memoryId content metadata =>
      exact update_comes stands memoryId content metadata
  | delete memoryId => exact delete_comes stands memoryId
  | deleteAll scope => exact deleteAll_comes stands scope
  | importMemories entries onConflict => exact import_comes stands entries onConflict
  | search | get | listMemories | history | entities | exportMemories =>
      exact read_comes stands rfl

/-- What an import that returns did. -/
theorem Space.import_returned (stands : Space.Stands fresh asked items)
    {entries : List (Dict String Json)} {onConflict : String} {outcome : ImportOutcome}
    (returned : ((Space.store unicode).request unicode fresh.supply key
      (.importMemories entries onConflict) asked items).1 = .ok (.imported outcome)) :
    ∃ mode reports after,
      (localPolicy unicode).checkImportArguments entries onConflict = .ok mode ∧
      Import.readable ((localPolicy unicode).importOptions key mode) maxExport items =
        .ok () ∧
      Import.Run unicode ((localPolicy unicode).importOptions key mode) 0 entries
        (Import.start unicode ((localPolicy unicode).importOptions key mode) maxExport
          items) reports after ∧
      outcome = (Import.unread ((localPolicy unicode).importOptions key mode) maxExport
        items).reports 0 reports ∧
      ((Space.store unicode).request unicode fresh.supply key
        (.importMemories entries onConflict) asked items).2.2 = after.items := by
  have comes := @Space.request_comes unicode key fresh asked items stands
    (.importMemories entries onConflict)
  generalize (Space.store unicode).request unicode fresh.supply key
    (.importMemories entries onConflict) asked items = ran at returned comes
  obtain ⟨reply, count, later⟩ := ran
  obtain ⟨did, -⟩ := comes
  cases did with
  | kept raised =>
      obtain ⟨error, failed⟩ := raised rfl
      cases returned.symm.trans failed
  | imported checked read run =>
      cases returned
      exact ⟨_, _, _, checked, read, run, rfl, rfl⟩

theorem Space.writer_of_returned {request : Request} {response : Response}
    (write : request.isWrite = true)
    (returned : ((Space.store unicode).request unicode fresh.supply key request asked
      items).1 = .ok response) : key.grant.relation = .writer := by
  obtain ⟨name, space, relation⟩ := key
  cases relation with
  | writer => rfl
  | reader =>
      cases request with
      | add | update | delete | deleteAll | importMemories => cases returned
      | _ => cases write

end Requests

end Memcp
