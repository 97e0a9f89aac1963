import Memcp.Backends.Mem0.Untyped

/-!
The methods that stop at a value of another type than the declared one, next to
those that go on with it: where the first return, the second return the same.
-/

namespace Memcp.Mem0

open Python Interaction

variable {unicode : Unicode} {timestamps : Timestamps} {α β : Type}

/-! Values of the declared types, as responses hold them. -/

structure RawAddResult.Tells (raw : RawAddResult) (result : AddResult) : Prop where
  id : raw.id = .str result.id
  createdAt : raw.createdAt = .str result.createdAt
  event : raw.event = result.event

structure RawListResult.Tells (raw : RawListResult) (page : ListResult) : Prop where
  memories : List.Forall₂ RawMemory.Tells raw.memories page.memories
  nextCursor : raw.nextCursor = page.nextCursor
  incomplete : raw.incomplete = page.incomplete

structure RawHistoryEntry.Tells (raw : RawHistoryEntry) (entry : HistoryEntry) :
    Prop where
  action : raw.action = entry.action
  timestamp : raw.timestamp = .str entry.timestamp
  contentBefore : declaredOptional raw.contentBefore = .ok entry.contentBefore
  contentAfter : declaredOptional raw.contentAfter = .ok entry.contentAfter

/-- A memory, or none, of the declared type. -/
def tellsFound : Option RawMemory → Option Memory → Prop
  | none, none => True
  | some raw, some memory => raw.Tells memory
  | _, _ => False

/-- What an untyped method returns tells what a typed one does. -/
def Tells : (call : BackendCall) → RawResult call → call.Result → Prop
  | .add .., raw, result => List.Forall₂ RawAddResult.Tells raw result.items
  | .search .., raw, found => List.Forall₂ RawMemory.Tells raw found
  | .get .., raw, found => tellsFound raw found
  | .update .., raw, updated => raw.Tells updated
  | .listMemories .., raw, page => raw.Tells page
  | .history .., raw, entries => List.Forall₂ RawHistoryEntry.Tells raw entries
  | .delete .., raw, deleted => raw = deleted
  | .deleteAll .., raw, count => raw = count
  | .entities .., raw, result => raw = result
  | .capabilities, raw, capabilities => raw = capabilities

/-! The decoders. -/

theorem mapM_related {f : Json → Except Exc α} {g : Json → Except Exc β}
    {related : β → α → Prop}
    (goes : ∀ raw value, f raw = .ok value → ∃ other, g raw = .ok other ∧ related other value)
    {raws : List Json} {values : List α} (mapped : raws.mapM f = .ok values) :
    ∃ others, raws.mapM g = .ok others ∧ List.Forall₂ related others values := by
  have each := mapM_eq_ok.mp mapped
  clear mapped
  induction each with
  | nil => exact ⟨[], rfl, .nil⟩
  | cons first _ induction =>
      obtain ⟨other, read, holds⟩ := goes _ _ first
      obtain ⟨others, listed, rest⟩ := induction
      refine ⟨other :: others, ?_, .cons holds rest⟩
      rw [List.mapM_cons]
      exact bind_eq_ok.mpr ⟨other, read, bind_eq_ok.mpr ⟨others, listed, rfl⟩⟩

theorem parseMemory_tells {raw score : Json} {memory : Memory}
    (parsed : parseMemory raw score = .ok memory) :
    ∃ read, parseRaw raw score = .ok read ∧ read.Tells memory := by
  obtain ⟨read, parsed, declared⟩ := bind_eq_ok.mp parsed
  exact ⟨read, parsed, RawMemory.tells declared⟩

theorem searchResults_tells {body : Json} {found : List Memory}
    (read : searchResults body = .ok found) :
    ∃ raws, Untyped.searchResults body = .ok raws ∧
      List.Forall₂ RawMemory.Tells raws found := by
  obtain ⟨elements, through, mapped⟩ := bind_eq_ok.mp read
  obtain ⟨raws, listed, tell⟩ := mapM_related (fun raw memory read => by
    obtain ⟨fields, attributed, parsed⟩ := bind_eq_ok.mp read
    obtain ⟨held, parsed, tells⟩ := parseMemory_tells parsed
    exact ⟨held, bind_eq_ok.mpr ⟨fields, attributed, parsed⟩, tells⟩) mapped
  exact ⟨raws, bind_eq_ok.mpr ⟨elements, through, listed⟩, tell⟩

theorem addResult_tells {raw : Json} {added : Option AddResult}
    (read : addResult unicode raw = .ok added) :
    ∃ held, Untyped.addResult unicode raw = .ok held ∧
      Option.Rel RawAddResult.Tells held added := by
  obtain ⟨fields, attributed, read⟩ := bind_eq_ok.mp read
  unfold Untyped.addResult
  simp only at read
  split at read
  · rename_i quiet
    cases read
    exact ⟨none, bind_eq_ok.mpr ⟨fields, attributed, if_pos quiet⟩, .none⟩
  · rename_i changes
    cases held : fields.get? "id" with
    | none =>
        rw [held] at read
        cases read
    | some id =>
        rw [held] at read
        obtain ⟨text, declared, read⟩ := bind_eq_ok.mp read
        obtain ⟨createdAt, declared', same⟩ := bind_eq_ok.mp read
        cases same
        refine ⟨some ⟨id, _, _⟩, bind_eq_ok.mpr ⟨fields, attributed,
          (if_neg changes).trans ?_⟩, .some ⟨declaredText_eq_ok.mp declared,
            declaredText_eq_ok.mp declared', rfl⟩⟩
        rw [held]
        rfl

theorem filterMap_related {related : β → α → Prop} {others : List (Option β)}
    {values : List (Option α)}
    (each : List.Forall₂ (Option.Rel related) others values) :
    List.Forall₂ related (others.filterMap id) (values.filterMap id) := by
  induction each with
  | nil => exact .nil
  | cons first _ induction =>
      cases first with
      | none => exact induction
      | some holds => exact .cons holds induction

theorem addResults_tells {body : Json} {results : List AddResult}
    (read : addResults unicode body = .ok results) :
    ∃ raws, Untyped.addResults unicode body = .ok raws ∧
      List.Forall₂ RawAddResult.Tells raws results := by
  unfold addResults at read
  unfold Untyped.addResults
  cases object : body.dict? with
  | none =>
      rw [object] at read
      cases read
      exact ⟨[], rfl, .nil⟩
  | some fields =>
      rw [object] at read
      obtain ⟨elements, through, read⟩ := bind_eq_ok.mp read
      obtain ⟨added, mapped, same⟩ := bind_eq_ok.mp read
      cases same
      obtain ⟨raws, listed, tell⟩ :=
        mapM_related (fun _ _ read => addResult_tells read) mapped
      exact ⟨raws.filterMap id, bind_eq_ok.mpr ⟨elements, through,
        bind_eq_ok.mpr ⟨raws, listed, rfl⟩⟩, filterMap_related tell⟩

theorem ownedMemory_tells {partition : String} {body : Json} {found : Option Memory}
    (read : ownedMemory partition body = .ok found) :
    ∃ raw, Untyped.ownedMemory partition body = .ok raw ∧ tellsFound raw found := by
  unfold ownedMemory at read
  unfold Untyped.ownedMemory
  split at read
  · rename_i empty
    cases read
    exact ⟨none, if_pos empty, trivial⟩
  · rename_i present
    obtain ⟨fields, attributed, read⟩ := bind_eq_ok.mp read
    rw [if_neg present]
    split at read
    · rename_i foreign
      cases read
      exact ⟨none, bind_eq_ok.mpr ⟨fields, attributed, if_pos foreign⟩, trivial⟩
    · rename_i own
      obtain ⟨memory, parsed, same⟩ := bind_eq_ok.mp read
      cases same
      obtain ⟨raw, parsed, tells⟩ := parseMemory_tells parsed
      refine ⟨some raw, bind_eq_ok.mpr ⟨fields, attributed, ?_⟩, tells⟩
      rw [if_neg own]
      exact bind_eq_ok.mpr ⟨raw, parsed, rfl⟩

theorem listPage_tells {limit : Int} {cursor : Option String} {body : Json}
    {page : ListResult} (read : listPage unicode limit cursor body = .ok page) :
    ∃ raw, Untyped.listPage unicode limit cursor body = .ok raw ∧ raw.Tells page := by
  obtain ⟨list, listed, read⟩ := bind_eq_ok.mp read
  obtain ⟨size, sized, read⟩ := bind_eq_ok.mp read
  obtain ⟨elements, through, read⟩ := bind_eq_ok.mp read
  obtain ⟨memories, mapped, read⟩ := bind_eq_ok.mp read
  obtain ⟨shown, paged, same⟩ := bind_eq_ok.mp read
  obtain ⟨start, started, same'⟩ := bind_eq_ok.mp paged
  cases same'
  cases same
  obtain ⟨raws, mapped, tell⟩ := mapM_related (fun _ _ read => parseMemory_tells read) mapped
  refine ⟨_, bind_eq_ok.mpr ⟨list, listed, bind_eq_ok.mpr ⟨size, sized, bind_eq_ok.mpr
    ⟨elements, through, bind_eq_ok.mpr ⟨raws, mapped, bind_eq_ok.mpr
      ⟨start, started, rfl⟩⟩⟩⟩⟩, ?_⟩
  exact {
    memories := slice_related tell start (start + limit)
    nextCursor := by simp only [tell.length_eq]
    incomplete := rfl }

theorem historyEntry_tells {event : Json} {entry : HistoryEntry}
    (read : historyEntry unicode event = .ok entry) :
    ∃ raw, Untyped.historyEntry unicode event = .ok raw ∧ raw.Tells entry := by
  obtain ⟨fields, attributed, read⟩ := bind_eq_ok.mp read
  cases named : getOr fields "event" (.str "unknown") with
  | str action =>
      rw [named] at read
      obtain ⟨timestamp, readTimestamp, read⟩ := bind_eq_ok.mp read
      obtain ⟨before, readBefore, read⟩ := bind_eq_ok.mp read
      obtain ⟨after, readAfter, same⟩ := bind_eq_ok.mp read
      cases same
      refine ⟨⟨_, _, _, _⟩, bind_eq_ok.mpr ⟨fields, attributed, ?_⟩, rfl,
        declaredText_eq_ok.mp readTimestamp, readBefore, readAfter⟩
      rw [named]
      rfl
  | _ =>
      rw [named] at read
      cases read

theorem historyEntries_tells {body : Json} {entries : List HistoryEntry}
    (read : historyEntries unicode body = .ok entries) :
    ∃ raws, Untyped.historyEntries unicode body = .ok raws ∧
      List.Forall₂ RawHistoryEntry.Tells raws entries := by
  unfold historyEntries at read
  unfold Untyped.historyEntries
  cases counts : body.truthy with
  | false =>
      rw [counts] at read
      cases read
      exact ⟨[], rfl, .nil⟩
  | true =>
      rw [counts] at read
      obtain ⟨elements, through, mapped⟩ := bind_eq_ok.mp read
      obtain ⟨raws, mapped, tell⟩ :=
        mapM_related (fun _ _ read => historyEntry_tells read) mapped
      exact ⟨raws, bind_eq_ok.mpr ⟨elements, through, mapped⟩, tell⟩

/-! Entities. -/

/-- Groups with the same keys, each of memories that tell those of the other. -/
structure GroupsTell (raws : Dict (String × String) (List RawMemory))
    (groups : Dict (String × String) (List Memory)) : Prop where
  keys : raws.keys = groups.keys
  group : ∀ key, List.Forall₂ RawMemory.Tells ((raws.get? key).getD [])
    ((groups.get? key).getD [])

theorem GroupsTell.append {raws : Dict (String × String) (List RawMemory)}
    {groups : Dict (String × String) (List Memory)} (tell : GroupsTell raws groups)
    {raw : RawMemory} {memory : Memory} (tells : raw.Tells memory)
    (key : String × String) :
    GroupsTell (raws.set key ((raws.get? key).getD [] ++ [raw]))
      (groups.set key ((groups.get? key).getD [] ++ [memory])) where
  keys := by
    have agree : key ∈ raws ↔ key ∈ groups := by
      rw [Dict.mem_iff_keys, Dict.mem_iff_keys, tell.keys]
    by_cases member : key ∈ groups
    · rw [Dict.keys_set_of_mem member, Dict.keys_set_of_mem (agree.mpr member), tell.keys]
    · rw [Dict.keys_set_of_not_mem member,
        Dict.keys_set_of_not_mem (mt agree.mp member), tell.keys]
  group := by
    intro other
    rw [Dict.get?_set, Dict.get?_set]
    split
    · exact List.rel_append (tell.group key) (.cons tells .nil)
    · exact tell.group other

theorem entityGroups_tell {raw : RawMemory} {memory : Memory} (tells : raw.Tells memory) :
    Untyped.entityGroups unicode raw.scope = entityGroups unicode memory := by
  rw [tells.scope]
  rfl

theorem groups_tell {raws : List RawMemory} {memories : List Memory}
    (tell : List.Forall₂ RawMemory.Tells raws memories) :
    GroupsTell
      (raws.foldl (fun groups memory =>
        (Untyped.entityGroups unicode memory.scope).foldl (fun groups key =>
          groups.set key (((groups.get? key).getD []) ++ [memory])) groups) ∅)
      (memories.foldl (fun groups memory =>
        (entityGroups unicode memory).foldl (fun groups key =>
          groups.set key (((groups.get? key).getD []) ++ [memory])) groups) ∅) := by
  refine List.rel_foldl (P := GroupsTell) ?_ ⟨rfl, fun _ => .nil⟩ tell
  intro held groups start raw memory tells
  dsimp only
  rw [entityGroups_tell tells]
  generalize entityGroups unicode memory = keys
  induction keys generalizing held groups with
  | nil => exact start
  | cons key keys induction => exact induction (start.append tells key)

theorem isoText_str (text : String) :
    Untyped.isoText (.str text) = .ok (some text) := by
  unfold Untyped.isoText orElse
  by_cases empty : text = ""
  · rw [empty]
    rfl
  · have counts : (Json.str text).truthy = true := by simp [Json.truthy, empty]
    rw [if_pos counts]

theorem isoText_created {raw : RawMemory} {memory : Memory} (tells : raw.Tells memory) :
    Untyped.isoText raw.createdAt = .ok (some memory.createdAt) := by
  rw [tells.createdAt]
  exact isoText_str memory.createdAt

theorem isoText_updated {raw : RawMemory} {memory : Memory} (tells : raw.Tells memory) :
    Untyped.isoText (orElse raw.updatedAt raw.createdAt) =
      .ok (match memory.updatedAt with
        | none | some "" => some memory.createdAt
        | some text => some text) := by
  have declared := tells.updatedAt
  rw [tells.createdAt]
  generalize memory.updatedAt = declaredAt at declared ⊢
  cases updated : raw.updatedAt with
  | null =>
      rw [updated] at declared
      cases declared
      exact isoText_str memory.createdAt
  | str text =>
      rw [updated] at declared
      cases declared
      by_cases empty : text = ""
      · rw [empty]
        exact isoText_str memory.createdAt
      · have counts : (Json.str text).truthy = true := by simp [Json.truthy, empty]
        rw [orElse, if_pos counts, isoText_str]
        split
        · rename_i impossible
          cases impossible
        · rename_i impossible
          exact absurd (Option.some.inj impossible) empty
        · rename_i same
          exact congrArg Except.ok same
  | _ =>
      rw [updated] at declared
      cases declared

theorem entityRows_tell {raws : List RawMemory} {memories : List Memory}
    (tell : List.Forall₂ RawMemory.Tells raws memories) :
    Untyped.entityRows unicode timestamps raws =
      .ok (entityRows unicode timestamps memories) := by
  have grouped := @groups_tell unicode _ _ tell
  unfold Untyped.entityRows entityRows
  generalize raws.foldl _ _ = rawGroups at grouped ⊢
  generalize memories.foldl _ _ = groups at grouped ⊢
  dsimp only
  rw [grouped.keys]
  refine mapM_eq_ok.mpr (List.forall₂_map_right_iff.mpr (List.forall₂_same.mpr ?_))
  intro key _
  have group := grouped.group key
  have created := mapM_eq_ok.mpr (List.forall₂_map_right_iff.mpr
    (group.imp fun raw memory tells => isoText_created tells))
  have updated := mapM_eq_ok.mpr (List.forall₂_map_right_iff.mpr
    (group.imp fun raw memory tells => isoText_updated tells))
  refine bind_eq_ok.mpr ⟨_, created, bind_eq_ok.mpr ⟨_, updated, ?_⟩⟩
  rw [group.length_eq]
  rfl

/-! The methods. -/

section Methods

variable {partition memoryId : String} {scope metadata : Option (Dict String Json)}

theorem get_follows :
    Fallible.Follows tellsFound (get unicode partition memoryId)
      (Untyped.get unicode partition memoryId) :=
  .after fun _ => .after fun _ => .lift fun _ read => ownedMemory_tells read

theorem add_follows {content : String} {infer : Bool} {system : Option System} :
    Fallible.Follows (Tells (.add partition content scope metadata infer system))
      (add unicode partition content scope metadata infer system)
      (Untyped.add unicode partition content scope metadata infer system) := by
  refine .after fun _ => .after fun payload => .after fun _ => .after fun body => ?_
  cases read : addResults unicode body with
  | error error => exact .raised
  | ok results =>
      obtain ⟨raws, decoded, tell⟩ := addResults_tells read
      rw [decoded]
      exact .returned tell

theorem search_follows {query : String} {limit : Int} {threshold : ℚ} :
    Fallible.Follows (Tells (.search partition query scope limit threshold))
      (search unicode partition query scope limit threshold)
      (Untyped.search unicode partition query scope limit threshold) :=
  .after fun _ => .after fun _ => .after fun _ => .lift fun _ read =>
    searchResults_tells read

theorem listMemories_follows {limit : Int} {cursor : Option String} :
    Fallible.Follows RawListResult.Tells
      (listMemories unicode partition scope limit cursor)
      (Untyped.listMemories unicode partition scope limit cursor) :=
  .after fun _ => .after fun _ => .after fun _ => .lift fun _ read => listPage_tells read

theorem delete_follows :
    Fallible.Follows (Tells (.delete partition memoryId))
      (delete unicode partition memoryId) (Untyped.delete unicode partition memoryId) := by
  refine .after fun _ => .bind get_follows fun found raw tells => ?_
  cases found with
  | none => exact .raised
  | some memory =>
      cases raw with
      | none => exact tells.elim
      | some raw => exact .refl _

theorem history_follows :
    Fallible.Follows (Tells (.history partition memoryId))
      (history unicode partition memoryId)
      (Untyped.history unicode partition memoryId) := by
  refine .after fun _ => .bind get_follows fun found raw tells => ?_
  cases found with
  | none => exact .raised
  | some memory =>
      cases raw with
      | none => exact tells.elim
      | some raw => exact .after fun _ => .lift fun _ read => historyEntries_tells read

theorem update_follows {content : Option String} {patch : Option MetadataPatch}
    {system : Option System} :
    Fallible.Follows (Tells (.update partition memoryId content patch system))
      (update unicode partition memoryId content patch system)
      (Untyped.update unicode partition memoryId content patch system) := by
  refine .after fun _ => .after fun _ => .bind get_follows fun found raw tells => ?_
  cases found with
  | none => exact .raised
  | some memory =>
      cases raw with
      | none => exact tells.elim
      | some raw =>
          have same : Untyped.updateBody raw.metadata content patch system =
              updateBody memory content patch system := by
            rw [tells.metadata]
            rfl
          dsimp only
          rw [same]
          split
          · exact .returned tells
          · refine .after fun _ => .bind get_follows fun found raw tells => ?_
            cases found with
            | none => exact .raised
            | some updated =>
                cases raw with
                | none => exact tells.elim
                | some raw => exact .returned tells

theorem entities_follows {limit : Int} :
    Fallible.Follows (Tells (.entities partition scope limit))
      (entities unicode timestamps partition scope limit)
      (Untyped.entities unicode timestamps partition scope limit) := by
  refine .after fun _ => .bind listMemories_follows fun page raw tells => ?_
  rw [entityRows_tell tells.memories, tells.incomplete]
  exact .returned rfl

end Methods

/-- A method that goes on with any type of value makes the requests of the one that
stops, and tells what that one returns. -/
theorem method_follows (call : BackendCall) :
    Fallible.Follows (Tells call) (method unicode timestamps call)
      (Untyped.method unicode timestamps call) := by
  cases call with
  | add partition content scope metadata infer system => exact add_follows
  | search partition query scope limit threshold => exact search_follows
  | get partition memoryId => exact get_follows
  | update partition memoryId content patch system => exact update_follows
  | delete partition memoryId => exact delete_follows
  | deleteAll partition scope => exact .refl _
  | listMemories partition scope limit cursor => exact listMemories_follows
  | history partition memoryId => exact history_follows
  | entities partition scope limit => exact entities_follows
  | capabilities => exact .refl _

/-- What a method returns from a server is told by what it returns when it goes on
with values of any type, and the server is left the same. -/
theorem method_tells {Supply : Type} {server : Machine http Supply}
    {supply : Nat → Supply} {asked asked' : Nat} {state later : server.State}
    {call : BackendCall} {result : call.Result}
    (returned : Fallible.exec server supply (method unicode timestamps call) asked state =
      (.ok result, asked', later)) :
    ∃ raw, Fallible.exec server supply (Untyped.method unicode timestamps call) asked
      state = (.ok raw, asked', later) ∧ Tells call raw result :=
  (method_follows call).exec returned

end Memcp.Mem0
