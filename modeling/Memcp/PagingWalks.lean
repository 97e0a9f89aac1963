import Memcp.Backends.Paging
import Memcp.Policy.ScopeText
import Memcp.Threshold

/-!
Reading a space page by page while other clients write to it.  Adds go to the
end of a list and updates stay in place, so a cursor, the number of memories
read so far, stays where it was.
-/

namespace Memcp

open Python Interaction

variable {unicode : Unicode} {store : Store}

/-- The calls of adds and updates: reads of one memory, and writes that remove
none. -/
def BackendCall.removesNone : BackendCall → Bool
  | .delete .. | .deleteAll .. => false
  | _ => true

namespace Space

/-- The ids of the memories that hold a scope, in list order. -/
def idsIn (unicode : Unicode) (scope : Option (Dict String Json)) (items : List Item) :
    List String :=
  (selected unicode scope items).map Item.id

variable {items : List Item} {fresh : Fresh} {scope : Option (Dict String Json)}

theorem idsIn_sublist : (idsIn unicode scope items).Sublist (items.map Item.id) :=
  List.filter_sublist.map Item.id

theorem idsIn_map {change : Item → Item}
    (sameId : ∀ item ∈ items, (change item).id = item.id)
    (sameScope : ∀ item ∈ items, (change item).scope = item.scope) :
    idsIn unicode scope (items.map change) = idsIn unicode scope items := by
  have same : items.filter ((fun item => storedHolds unicode item.scope (scope.getD ∅)) ∘
      change) = items.filter fun item => storedHolds unicode item.scope (scope.getD ∅) :=
    List.filter_congr fun item member => by
      rw [Function.comp_apply, sameScope item member]
  rw [idsIn, idsIn, selected, selected, List.filter_map, List.map_map, same]
  apply List.map_congr_left
  intro item member
  exact sameId item (List.mem_of_mem_filter member)

/-- A call that removes nothing keeps the ids of a scope in their places. -/
theorem idsIn_prefix (ids : (items.map Item.id).Nodup) {call : BackendCall}
    (removesNone : call.removesNone = true) :
    idsIn unicode scope items <+:
      idsIn unicode scope (perform unicode fresh call items).2 := by
  cases call with
  | add partition content scope metadata infer system =>
      simp only [perform, add]
      split
      · exact List.prefix_rfl
      · exact List.prefix_rfl
      · simp only [idsIn, selected, List.filter_append, List.map_append]
        exact List.prefix_append _ _
  | update partition memoryId content patch system =>
      simp only [perform, update]
      split
      · exact List.prefix_rfl
      · exact List.prefix_rfl
      · rename_i item found
        obtain ⟨member, sameId⟩ := mem_of_find found
        rw [idsIn_map]
        · intro other _
          split
          · rename_i same
            exact sameId.trans same.symm
          · rfl
        · intro other otherMember
          split
          · rename_i same
            rw [List.inj_on_of_nodup_map ids otherMember member (same.trans sameId.symm)]
            rfl
          · rfl
  | delete | deleteAll => cases removesNone
  | search | get | listMemories | history | entities | capabilities =>
      exact List.prefix_rfl

end Space

theorem Spaces.idsIn_prefix {spaces : Spaces} {space : String} {fresh : Fresh}
    {scope : Option (Dict String Json)} (ids : ((spaces space).map Item.id).Nodup)
    {call : BackendCall} (removesNone : call.removesNone = true) :
    Space.idsIn unicode scope (spaces space) <+:
      Space.idsIn unicode scope ((Spaces.perform unicode fresh call spaces).2 space) := by
  rcases eq_or_ne call.partition? (some space) with names | other
  · rw [Spaces.perform_self names]
    exact Space.idsIn_prefix ids removesNone
  · rw [Spaces.perform_of_ne other]

/-! One page. -/

theorem limit_of_validateLimit {limit : Int} (passes : validateLimit limit = .ok ()) :
    1 ≤ limit := by
  by_contra low
  rw [validateLimit, if_pos (by omega)] at passes
  cases passes

section Pages

variable (representation : Representation unicode store)
  {state : store.machine.State} {supply : Nat → Fresh} {asked : Nat} {key : Key}

/-- What a page of the policy is: the page of the backend, read from the
memories of the space that hold the scope. -/
theorem Representation.page_read {policy : Policy} (same : policy.unicode = unicode)
    (valid : representation.valid state) {scope : Json} {limit : Int}
    {cursor : Option String} {cleaned : Option (Dict String Json)} {page : ListResult}
    (cleans : validateScope policy.unicode scope policy.scopeKeys = .ok cleaned)
    (accepted : (Fallible.exec store.machine supply
      (policy.listMemories (some key) scope limit cursor) asked state).1 = .ok page) :
    (store.perform (supply asked) (.listMemories key.grant.space cleaned limit cursor)
        state).1 = .ok page ∧
      1 ≤ limit ∧ ∃ start, cursorStart unicode cursor = .ok start ∧
        page = pageAt ((Space.selected unicode cleaned
          (representation.spaces state key.grant.space)).map
            (Item.memory key.grant.space none)) limit start := by
  subst same
  rw [listMemories_returns, cleans] at accepted
  obtain ⟨_, limits, accepted⟩ := bind_eq_ok.mp accepted
  obtain ⟨_, given, accepted⟩ := bind_eq_ok.mp accepted
  obtain rfl := Except.ok.inj given
  obtain ⟨found, replied, accepted⟩ := bind_eq_ok.mp accepted
  obtain ⟨checked, passes, accepted⟩ := bind_eq_ok.mp accepted
  obtain ⟨rfl, -⟩ := checkSpaces_eq_ok.mp passes
  have answered := validation_eq_ok.mp replied
  have read := answered
  rw [(representation.simulates valid (supply asked) rfl).reply] at read
  simp only [Spaces.perform, BackendCall.partition?, Space.perform, paginate_eq] at read
  obtain ⟨start, starts, cut⟩ := map_eq_ok.mp read
  have whole : inScope policy.unicode found.memories cleaned = found.memories := by
    apply inScope_of_selected
    intro memory member
    rw [← cut] at member
    obtain ⟨item, selected, rfl⟩ := List.mem_map.mp (mem_of_mem_slice member)
    exact ⟨item, selected, _, _, rfl⟩
  rw [whole] at accepted
  obtain rfl := Except.ok.inj accepted
  exact ⟨answered, limit_of_validateLimit (validation_eq_ok.mp limits), start, starts, cut.symm⟩

/-- Where every memory of the space is stamped with it or with none, a page is
returned for every cursor that can be read. -/
theorem Representation.page_returned {policy : Policy} (same : policy.unicode = unicode)
    (valid : representation.valid state) {scope : Json} {limit start : Int}
    {cursor : Option String} {cleaned : Option (Dict String Json)}
    (cleans : validateScope policy.unicode scope policy.scopeKeys = .ok cleaned)
    (limits : validateLimit limit = .ok ())
    (starts : cursorStart unicode cursor = .ok start)
    (stamped : ∀ item ∈ representation.spaces state key.grant.space,
      item.system.spaceIs key.grant.space = true) :
    ∃ page, (Fallible.exec store.machine supply
      (policy.listMemories (some key) scope limit cursor) asked state).1 = .ok page := by
  subst same
  have simulates := representation.simulates valid (supply asked)
    (rfl : (BackendCall.listMemories key.grant.space cleaned limit cursor).isAdd = false)
  have answered : (store.perform (supply asked)
      (.listMemories key.grant.space cleaned limit cursor) state).1 =
        .ok (pageAt ((Space.selected policy.unicode cleaned
          (representation.spaces state key.grant.space)).map
            (Item.memory key.grant.space none)) limit start) := by
    rw [simulates.reply]
    simp only [Spaces.perform, BackendCall.partition?, Space.perform, paginate_eq, starts,
      Except.map]
  rw [listMemories_returns, cleans, limits]
  simp only [validation, Except.mapError, bind, Except.bind, answered]
  rw [checkSpaces_eq_ok.mpr ⟨rfl, _⟩]
  · exact ⟨_, rfl⟩
  · intro memory member
    obtain ⟨item, selected, rfl⟩ := List.mem_map.mp (mem_of_mem_slice member)
    have passes := stamped item (List.mem_of_mem_filter selected)
    simpa [Memory.inSpace, Item.memory] using passes

theorem Representation.page_leaves {policy : Policy}
    (valid : representation.valid state) (scope : Json) (limit : Int)
    (cursor : Option String) :
    let later := (Fallible.exec store.machine supply
      (policy.listMemories (some key) scope limit cursor) asked state).2.2
    representation.valid later ∧ representation.spaces later = representation.spaces state := by
  have still : representation.valid state ∧
      representation.spaces state = representation.spaces state := ⟨valid, rfl⟩
  have listed (space : String) (cleaned : Option (Dict String Json)) :
      Operation.Ends store.machine supply
        (fun _ _ later => representation.valid later ∧
          representation.spaces later = representation.spaces state)
        (liftM ((Action.backend (.listMemories space cleaned limit cursor)).mapError
          asValidationError) : Operation ListResult) asked state := by
    have simulates := representation.simulates valid (supply asked)
      (rfl : (BackendCall.listMemories space cleaned limit cursor).isAdd = false)
    have same : representation.spaces (store.perform (supply asked)
        (.listMemories space cleaned limit cursor) state).2 =
          representation.spaces state := by
      rw [simulates.spaces, Spaces.perform_named rfl]
      exact Function.update_eq_self _ _
    have leaves := And.intro simulates.valid same
    exact .action (.mapError leaves)
  have ends : Fallible.Ends store.machine supply
      (fun _ _ later => representation.valid later ∧
        representation.spaces later = representation.spaces state)
      (policy.listMemories (some key) scope limit cursor) asked state := by
    refine Action.ends_audited (.check (fun _ _ => still) fun actor _ =>
      .check (fun _ _ => still) fun _ _ => .check (fun _ _ => still) fun cleaned _ =>
      .recording ?_)
    refine .bind (listed actor.grant.space cleaned) (fun _ _ _ ended => ended) ?_
    exact fun page asked later ended => .check (fun _ _ => ended) fun checked _ =>
      .recording (.pure ended)
  exact ends

end Pages

/-! Pages of a space, and other clients' calls between them. -/

/-- A client that reads a scope page by page. -/
structure Reader where
  key : Key
  scope : Json

/-- The pages read so far, each with its limit, where the next one starts
(`none` once a page carried no cursor), and the state of the backend.  Between
two pages the backend takes any calls that remove nothing. -/
inductive Reader.Walk (reader : Reader) (unicode : Unicode) (backend : LocalBackend)
    (first : (backend.store unicode).machine.State) :
    List (Int × ListResult) → Option (Option String) →
      (backend.store unicode).machine.State → Prop where
  | start : Walk reader unicode backend first [] (some none) first
  | page {pages : List (Int × ListResult)} {cursor : Option String}
      {state : (backend.store unicode).machine.State} {supply : Nat → Fresh}
      {asked : Nat} {limit : Int} {page : ListResult}
      (before : Walk reader unicode backend first pages (some cursor) state)
      (reads : (Fallible.exec (backend.store unicode).machine supply
        ((localPolicy unicode).listMemories (some reader.key) reader.scope limit cursor)
        asked state).1 = .ok page) :
      Walk reader unicode backend first (pages ++ [(limit, page)])
        (page.nextCursor.map some) (Fallible.exec (backend.store unicode).machine supply
          ((localPolicy unicode).listMemories (some reader.key) reader.scope limit cursor)
          asked state).2.2
  | other {pages : List (Int × ListResult)} {next : Option (Option String)}
      {state : (backend.store unicode).machine.State} {fresh : Fresh} {call : BackendCall}
      (before : Walk reader unicode backend first pages next state)
      (removesNone : call.removesNone = true)
      (unused : ((backend.representation unicode).spaces state).Unused fresh.id) :
      Walk reader unicode backend first pages next
        ((backend.store unicode).perform fresh call state).2

/-- The ids of the memories returned, page by page. -/
def returnedIds (pages : List (Int × ListResult)) : List String :=
  pages.flatMap fun page => page.2.memories.map Memory.id

theorem returnedIds_concat (pages : List (Int × ListResult)) (page : Int × ListResult) :
    returnedIds (pages ++ [page]) =
      returnedIds pages ++ page.2.memories.map Memory.id := by
  simp [returnedIds]

/-- The ids of a page, and whether it ends the list. -/
theorem pageAt_ids (items : List Item) (space : String) (limit : Int) (place : Nat)
    (positive : 1 ≤ limit) :
    let page := pageAt (items.map (Item.memory space none)) limit place
    page.memories.map Memory.id = ((items.map Item.id).drop place).take limit.toNat ∧
      (page.nextCursor = some (toString ((place : Int) + limit)) ∧
          (page.memories.length : Int) = limit ∧ place + limit < items.length ∨
        page.nextCursor = none ∧ items.length ≤ place + limit) := by
  intro page
  have cut : page.memories =
      ((items.map (Item.memory space none)).drop place).take limit.toNat := by
    change slice _ _ _ = _
    rw [slice_of_nonneg _ (by omega) (by omega), Int.toNat_natCast,
      show (place : Int) + limit - place = limit by omega]
  constructor
  · rw [cut, List.map_take, List.map_drop, List.map_map]
    rfl
  · by_cases goes : (place : Int) + limit < items.length
    · refine .inl ⟨pageAt_next (by simpa using goes), ?_, goes⟩
      rw [cut, List.length_take, List.length_drop, List.length_map]
      omega
    · refine .inr ⟨pageAt_last (by simpa using goes), by omega⟩

/-- Where a walk stands: it has returned the ids at the start of the scope's
list, every page so far is full, and its cursor is their number. -/
structure Reader.Standing (reader : Reader) (unicode : Unicode) (backend : LocalBackend)
    (cleaned : Option (Dict String Json)) (first : List String)
    (pages : List (Int × ListResult)) (next : Option (Option String))
    (state : (backend.store unicode).machine.State) : Prop where
  valid : (backend.representation unicode).valid state
  kept : first <+: Space.idsIn unicode cleaned
    ((backend.representation unicode).spaces state reader.key.grant.space)
  read : returnedIds pages <+: Space.idsIn unicode cleaned
    ((backend.representation unicode).spaces state reader.key.grant.space)
  stands : ∀ cursor, next = some cursor →
    (cursor = none ∧ returnedIds pages = [] ∨
      cursor = some (toString ((returnedIds pages).length : Int))) ∧
    ∀ page ∈ pages, (page.2.memories.length : Int) = page.1
  sized : ∀ page ∈ pages.dropLast, (page.2.memories.length : Int) = page.1
  done : next = none → first <+: returnedIds pages

section Walks

variable {reader : Reader} {backend : LocalBackend}
  {cleaned : Option (Dict String Json)} {first : List String}
  {pages : List (Int × ListResult)} {next : Option (Option String)}
  {state : (backend.store unicode).machine.State}

theorem Reader.Standing.other
    (standing : reader.Standing unicode backend cleaned first pages next state)
    {fresh : Fresh} {call : BackendCall} (removesNone : call.removesNone = true)
    (unused : ((backend.representation unicode).spaces state).Unused fresh.id) :
    reader.Standing unicode backend cleaned first pages next
      ((backend.store unicode).perform fresh call state).2 := by
  have simulates := (backend.representation unicode).step fresh call state
    standing.valid fun _ => unused
  have grows := @Spaces.idsIn_prefix unicode _ reader.key.grant.space fresh cleaned
    (backend.ids_nodup standing.valid _) call removesNone
  rw [← simulates.spaces] at grows
  exact ⟨simulates.valid, standing.kept.trans grows, standing.read.trans grows,
    standing.stands, standing.sized, standing.done⟩

theorem Reader.Standing.page (digits : unicode.ReadsDigits) {cursor : Option String}
    (standing : reader.Standing unicode backend cleaned first pages (some cursor) state)
    (cleans : validateScope unicode reader.scope localScopeKeys = .ok cleaned)
    {supply : Nat → Fresh} {asked : Nat} {limit : Int} {page : ListResult}
    (reads : (Fallible.exec (backend.store unicode).machine supply
      ((localPolicy unicode).listMemories (some reader.key) reader.scope limit cursor)
      asked state).1 = .ok page) :
    reader.Standing unicode backend cleaned first (pages ++ [(limit, page)])
      (page.nextCursor.map some) (Fallible.exec (backend.store unicode).machine supply
        ((localPolicy unicode).listMemories (some reader.key) reader.scope limit cursor)
        asked state).2.2 := by
  obtain ⟨-, positive, start, starts, same⟩ := @Representation.page_read unicode _
    (backend.representation unicode) state supply asked reader.key (localPolicy unicode)
    rfl standing.valid reader.scope limit cursor cleaned page cleans reads
  obtain ⟨leaves, still⟩ := @Representation.page_leaves unicode _
    (backend.representation unicode) state supply asked reader.key (localPolicy unicode)
    standing.valid reader.scope limit cursor
  obtain ⟨place, fullSoFar⟩ := standing.stands cursor rfl
  have count : start = (returnedIds pages).length := by
    rcases place with ⟨rfl, none⟩ | rfl
    · obtain rfl := Except.ok.inj starts
      simp [none]
    · exact eq_of_cursorStart digits starts
  subst count
  obtain ⟨read, goes⟩ := pageAt_ids (Space.selected unicode cleaned
    ((backend.representation unicode).spaces state reader.key.grant.space))
    reader.key.grant.space limit (returnedIds pages).length positive
  rw [← same] at read goes
  -- What is returned by now is the start of the list, as long as the cursor says.
  have returned : returnedIds (pages ++ [(limit, page)]) =
      (Space.idsIn unicode cleaned ((backend.representation unicode).spaces state
        reader.key.grant.space)).take ((returnedIds pages).length + limit.toNat) := by
    rw [returnedIds_concat, read, List.take_add]
    exact congrArg (· ++ _) (List.prefix_iff_eq_take.mp standing.read)
  have length : (Space.idsIn unicode cleaned ((backend.representation unicode).spaces
      state reader.key.grant.space)).length = (Space.selected unicode cleaned
        ((backend.representation unicode).spaces state reader.key.grant.space)).length :=
    List.length_map _
  refine ⟨leaves, ?_, ?_, ?_, ?_, ?_⟩
  · rw [still]
    exact standing.kept
  · rw [still, returned]
    exact List.take_prefix _ _
  · intro cursor' goesOn
    rcases goes with ⟨next, full, within⟩ | ⟨none, -⟩
    · rw [next] at goesOn
      obtain rfl := Option.some.inj goesOn
      refine ⟨.inr ?_, ?_⟩
      · rw [returned, List.length_take, length]
        congr 2
        omega
      · intro page member
        rcases List.mem_append.mp member with old | new
        · exact fullSoFar page old
        · rw [List.mem_singleton.mp new]
          exact full
    · rw [none] at goesOn
      cases goesOn
  · rw [List.dropLast_concat]
    exact fullSoFar
  · intro ends
    rcases goes with ⟨next, -⟩ | ⟨-, whole⟩
    · rw [next] at ends
      cases ends
    · rw [returned, List.take_of_length_le (by omega)]
      exact standing.kept

theorem Reader.Walk.standing (digits : unicode.ReadsDigits)
    {origin : (backend.store unicode).machine.State}
    (valid : (backend.representation unicode).valid origin)
    (cleans : validateScope unicode reader.scope localScopeKeys = .ok cleaned)
    (walk : reader.Walk unicode backend origin pages next state) :
    reader.Standing unicode backend cleaned (Space.idsIn unicode cleaned
      ((backend.representation unicode).spaces origin reader.key.grant.space)) pages next
      state := by
  induction walk with
  | start =>
      refine ⟨valid, List.prefix_rfl, List.nil_prefix, ?_, by simp, nofun⟩
      intro cursor same
      cases same
      exact ⟨.inl ⟨rfl, rfl⟩, by simp⟩
  | page before reads induction => exact induction.page digits cleans reads
  | other before removesNone unused induction => exact induction.other removesNone unused

end Walks

/-- Reading a scope page by page, whatever the limits and whatever others add
and update in between, returns each memory that was there once, in insertion
order, on pages all full but the last.  Policy hands back each page as the
backend gave it, and no read fails in a space whose memories are stamped with
it. -/
theorem paging_reaches_every_memory_once (unicode : Unicode)
    (digits : unicode.ReadsDigits) (backend : LocalBackend)
    (origin : (backend.store unicode).machine.State)
    (valid : (backend.representation unicode).valid origin) (reader : Reader)
    (cleaned : Option (Dict String Json))
    (cleans : validateScope unicode reader.scope localScopeKeys = .ok cleaned) :
    (∀ pages state, reader.Walk unicode backend origin pages none state →
      (Space.idsIn unicode cleaned ((backend.representation unicode).spaces origin
        reader.key.grant.space)) <+: returnedIds pages ∧
      (returnedIds pages).Nodup ∧
      ∀ page ∈ pages.dropLast, (page.2.memories.length : Int) = page.1) ∧
    ∀ pages cursor state, reader.Walk unicode backend origin pages (some cursor) state →
      ∀ supply asked limit,
        let read := (Fallible.exec (backend.store unicode).machine supply
          ((localPolicy unicode).listMemories (some reader.key) reader.scope limit cursor)
          asked state).1
        (∀ page, read = .ok page → ((backend.store unicode).perform (supply asked)
          (.listMemories reader.key.grant.space cleaned limit cursor) state).1 =
            .ok page) ∧
        (validateLimit limit = .ok () →
          (∀ item ∈ (backend.representation unicode).spaces state reader.key.grant.space,
            item.system.spaceIs reader.key.grant.space = true) →
          ((backend.representation unicode).spaces state
            reader.key.grant.space).length ≤ maxSize → ∃ page, read = .ok page) := by
  constructor
  · intro pages state walk
    have standing := walk.standing digits valid cleans
    refine ⟨standing.done rfl, ?_, standing.sized⟩
    have ids := backend.ids_nodup standing.valid reader.key.grant.space
    exact (ids.sublist Space.idsIn_sublist).sublist standing.read.sublist
  · intro pages cursor state walk supply asked limit read
    have standing := walk.standing digits valid cleans
    constructor
    · intro page returned
      exact (@Representation.page_read unicode _ (backend.representation unicode) state
        supply asked reader.key (localPolicy unicode) rfl standing.valid reader.scope limit
        cursor cleaned page cleans returned).1
    · intro limits stamped short
      have starts : ∃ start, cursorStart unicode cursor = .ok start := by
        rcases (standing.stands cursor rfl).1 with ⟨rfl, -⟩ | rfl
        · exact ⟨0, rfl⟩
        · have below := standing.read.length_le.trans Space.idsIn_sublist.length_le
          rw [List.length_map] at below
          exact ⟨_, cursorStart_of_le digits (by omega)⟩
      obtain ⟨start, starts⟩ := starts
      exact @Representation.page_returned unicode _ (backend.representation unicode) state
        supply asked reader.key (localPolicy unicode) rfl standing.valid reader.scope limit
        start cursor cleaned cleans limits starts stamped

/-- An `in_memory` backend that holds two memories. -/
def holdingTwo : (InMemory.store .ascii).machine.State :=
  ((InMemory.store .ascii).perform ⟨"b", "t"⟩
    (.add "s" "beta" none none false (some (systemFor "s" "ann" (some "ann"))))
    holdingAlpha).2

theorem holdingTwo_stands :
    (InMemory.representation .ascii).valid holdingTwo ∧
      ((InMemory.representation .ascii).spaces holdingTwo).Unused "c" := by
  have first := (InMemory.representation .ascii).step ⟨"a", "t"⟩
    (.add "s" "alpha" none none false (some (systemFor "s" "ann" (some "ann"))))
    (InMemory.store .ascii).initial (InMemory.representation .ascii).valid_initial
    fun _ => nofun
  have unused (id : String) (other : "a" ≠ id) :
      ((InMemory.representation .ascii).spaces holdingAlpha).Unused id := by
    refine first.spaces ▸ Spaces.Unused.perform ?_ other _
    rw [(InMemory.representation .ascii).spaces_initial]
    exact nofun
  have second := (InMemory.representation .ascii).step ⟨"b", "t"⟩
    (.add "s" "beta" none none false (some (systemFor "s" "ann" (some "ann"))))
    holdingAlpha first.valid fun _ => unused "b" (by decide)
  exact ⟨second.valid,
    second.spaces ▸ Spaces.Unused.perform (unused "c" (by decide)) (by decide) _⟩

def addGamma : BackendCall :=
  .add "s" "gamma" none none false (some (systemFor "s" "bob" (some "bob")))

def readPage (limit : Int) (cursor : Option String)
    (state : (InMemory.store .ascii).machine.State) :
    Except Exc ListResult × Nat × (InMemory.store .ascii).machine.State :=
  Fallible.exec (InMemory.store .ascii).machine (fun _ => ⟨"d", "t"⟩)
    ((localPolicy .ascii).listMemories (some ⟨"ann", ⟨"s", .reader⟩⟩) .null limit cursor) 0
    state

/-- The first page, another client's add, and the rest. -/
theorem paging_reaches_two_memories :
    ∃ first rest : ListResult,
      (readPage 1 none holdingTwo).1 = .ok first ∧
      (readPage 5 (some "1") ((InMemory.store .ascii).perform ⟨"c", "t"⟩ addGamma
        (readPage 1 none holdingTwo).2.2).2).1 = .ok rest ∧
      Space.idsIn .ascii none ((InMemory.representation .ascii).spaces holdingTwo "s") <+:
        returnedIds [(1, first), (5, rest)] := by
  obtain ⟨first, rest, read, reread, goes, ends⟩ : ∃ first rest : ListResult,
      (readPage 1 none holdingTwo).1 = .ok first ∧
      (readPage 5 (some "1") ((InMemory.store .ascii).perform ⟨"c", "t"⟩ addGamma
        (readPage 1 none holdingTwo).2.2).2).1 = .ok rest ∧
      first.nextCursor = some "1" ∧ rest.nextCursor = none :=
    ⟨_, _, rfl, rfl, by decide +kernel, by decide +kernel⟩
  refine ⟨first, rest, read, reread, ?_⟩
  let reader : Reader := ⟨⟨"ann", ⟨"s", .reader⟩⟩, .null⟩
  have begun : reader.Walk .ascii .inMemory holdingTwo [(1, first)] (some (some "1"))
      (readPage 1 none holdingTwo).2.2 := by
    have walk : reader.Walk .ascii .inMemory holdingTwo ([] ++ [(1, first)])
      (first.nextCursor.map some) (readPage 1 none holdingTwo).2.2 := .page .start read
    rw [goes] at walk
    exact walk
  obtain ⟨valid, unused⟩ := holdingTwo_stands
  have leaves : (InMemory.representation .ascii).spaces (readPage 1 none holdingTwo).2.2 =
      (InMemory.representation .ascii).spaces holdingTwo :=
    ((InMemory.representation .ascii).page_leaves valid .null 1 none).2
  have whole : reader.Walk .ascii .inMemory holdingTwo ([(1, first)] ++ [(5, rest)])
      (rest.nextCursor.map some) (readPage 5 (some "1") ((InMemory.store .ascii).perform
        ⟨"c", "t"⟩ addGamma (readPage 1 none holdingTwo).2.2).2).2.2 :=
    .page (.other begun rfl (leaves ▸ unused)) reread
  rw [ends] at whole
  exact ((paging_reaches_every_memory_once .ascii readsDigits_ascii .inMemory holdingTwo
    valid reader none rfl).1 _ _ whole).1

end Memcp
