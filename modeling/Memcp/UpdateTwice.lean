import Memcp.Policy.Patching
import Memcp.Policy.Sessions

/-!
An update that is accepted is accepted again, and leaves the memory as the
first one did but for its time and one entry of its history.
-/

namespace Memcp

open Python Interaction

theorem patched_patched (metadata : Dict String Json) (patch : MetadataPatch) :
    patched (patched metadata patch) patch = patched metadata patch := by
  have kept : ∀ key ∈ patch.set, decide (key ∉ patch.remove) = true := by
    intro key set
    simpa using fun removed => patch.disjoint key removed set
  unfold patched
  rw [Dict.filter_update kept, Dict.update_update]
  congr 1
  apply Dict.ext
  simp [Dict.entries_filter, List.filter_filter]

theorem MetadataPatch.apply_apply (patch : MetadataPatch) (metadata : Dict String Json) :
    patch.apply (patch.apply metadata) = patch.apply metadata := by
  rw [apply_eq_patched, apply_eq_patched, patched_patched]

section Again

variable {unicode : Unicode} {key : Key} {memoryId : String} {content : Option String}
  {metadata : Option (Dict String Json)} {fresh : FreshIds} {asked : Nat}
  {items : List Item} {old : Item}

/-- Changing a memory in one way twice is changing it once, but for the time
and the history. -/
theorem Item.updatedBy_updatedBy (old : Item) (now later : String) :
    let once := old.updatedBy key now content metadata
    ∃ entry, once.updatedBy key later content metadata =
      { once with updatedAt := some later, log := once.log ++ [entry] } := by
  unfold Item.updatedBy
  cases (Dict.given metadata).map asPatch with
  | none => cases content <;> exact ⟨_, rfl⟩
  | some patch =>
      unfold Item.changed
      simp only [Option.elim_some, patch.apply_apply]
      cases content <;> exact ⟨_, rfl⟩

/-- The second time, every check is made of what the first time left. -/
theorem acceptUpdate_again {existing : Memory}
    (accepted : acceptUpdate unicode key memoryId content metadata items = .ok existing)
    (found : Space.find memoryId items = some old) (now : String) :
    ∃ left, acceptUpdate unicode key memoryId content metadata
      (Space.changeOf memoryId (old.updatedBy key now content metadata) items) =
        .ok left := by
  obtain ⟨writer, checked, read, size⟩ := acceptUpdate_eq_ok.mp accepted
  obtain ⟨named, other, found', rfl, -⟩ := Space.read_eq_ok.mp read
  obtain rfl := Option.some.inj (found.symm.trans found')
  let changed := old.updatedBy key now content metadata
  refine ⟨changed.memory key.grant.space none, acceptUpdate_eq_ok.mpr
    ⟨writer, checked, Space.read_eq_ok.mpr ⟨named, changed, ?_, rfl, ?_⟩, ?_⟩⟩
  · exact Space.find_changeOf found (Space.mem_of_find found).2
  · exact systemFor_spaceIs _ _ _
  · cases given : (Dict.given metadata).map asPatch with
    | none => rfl
    | some patch =>
        have left : (changed.memory key.grant.space none).metadata =
            patched old.metadata patch := by
          rw [← MetadataPatch.apply_eq_patched]
          simp only [changed, Item.memory, Item.updatedBy, Item.changed, given,
            Option.elim_some]
        rw [Policy.checkPatchSize, left, patched_patched]
        exact checkMetadataSize_eq_ok.mpr (.inr ⟨_, rfl, Nat.le_refl _⟩)

/-- What a second update does to the memory the first one left. -/
theorem Space.update_again (stands : Space.Stands fresh asked items) {response : Response} :
    let call := (Space.store unicode).request unicode fresh.supply key
      (.update memoryId content metadata)
    let first := call asked items
    let second := call first.2.1 first.2.2
    first.1 = .ok response →
      ∃ once now entry, Space.find memoryId first.2.2 = some once ∧
        let twice := { once with updatedAt := some now, log := once.log ++ [entry] }
        second.1 = .ok (.memory (twice.memory key.grant.space none)) ∧
          second.2.2 = Space.changeOf memoryId twice first.2.2 := by
  intro call first second returned
  obtain ⟨updates, -, kept⟩ :=
    @update_ends unicode key fresh asked items memoryId content metadata stands
  change UpdateLeaves _ _ _ _ _ _ first.1 first.2.2 at updates
  unfold UpdateLeaves at updates
  split at updates
  · rw [updates.1] at returned
    cases returned
  · rename_i existing accepted
    obtain ⟨old, now, found, -, left⟩ := updates
    obtain ⟨updatesAgain, -, -⟩ :=
      @update_ends unicode key fresh first.2.1 first.2.2 memoryId content metadata kept
    change UpdateLeaves _ _ _ _ _ _ second.1 second.2.2 at updatesAgain
    obtain ⟨existing', accepted'⟩ := acceptUpdate_again accepted found now
    rw [← left] at accepted'
    rw [UpdateLeaves, accepted'] at updatesAgain
    obtain ⟨once, later, foundAgain, answered, leftAgain⟩ := updatesAgain
    have same : once = old.updatedBy key now content metadata := by
      have changed := @Space.find_changeOf items memoryId old
        (old.updatedBy key now content metadata) found (Space.mem_of_find found).2
      rw [← left, foundAgain] at changed
      exact Option.some.inj changed
    obtain ⟨entry, settled⟩ := @Item.updatedBy_updatedBy key content metadata old now later
    refine ⟨once, later, entry, foundAgain, ?_⟩
    rw [same] at answered leftAgain ⊢
    rw [settled] at answered leftAgain
    exact ⟨answered, leftAgain⟩

end Again

theorem update_memory_idempotent (unicode : Unicode) (backend : LocalBackend)
    (fresh : FreshIds) {asked : Nat} {state : (backend.store unicode).State}
    (stands : (backend.representation unicode).Stands fresh asked state) (key : Key)
    (memoryId : String) (content : Option String)
    (metadata : Option (Dict String Json)) {response : Response} :
    let spaces := (backend.representation unicode).spaces
    let space := key.grant.space
    let call := (backend.store unicode).request unicode fresh.supply key
      (.update memoryId content metadata)
    let first := call asked state
    let second := call first.2.1 first.2.2
    first.1 = .ok response →
      ∃ once now entry, Space.find memoryId (spaces first.2.2 space) = some once ∧
        let twice := { once with updatedAt := some now, log := once.log ++ [entry] }
        second.1 = .ok (.memory (twice.memory space none)) ∧
          spaces second.2.2 space =
            Space.changeOf memoryId twice (spaces first.2.2 space) ∧
          ∀ other, other ≠ space → spaces second.2.2 other = spaces first.2.2 other := by
  intro spaces space call first second returned
  obtain ⟨firstAlone, -⟩ := Representation.request_alone stands key
    (.update memoryId content metadata)
  obtain ⟨secondAlone, others⟩ := Representation.request_alone
    (Representation.request_eq stands key (.update memoryId content metadata)).2.2.1 key
    (.update memoryId content metadata)
  have again := @Space.update_again unicode key memoryId content metadata fresh asked
    (spaces state space) (LocalBackend.stands stands space) response
  simp only at again
  rw [← firstAlone] at again
  simp only at again
  rw [← secondAlone] at again
  obtain ⟨once, now, entry, found, answered, left⟩ := again returned
  exact ⟨once, now, entry, found, answered, left, others⟩

theorem update_memory_idempotent_removing :
    let backend := LocalBackend.inMemory
    let spaces := (backend.representation .ascii).spaces
    let key : Key := ⟨"ann", ⟨"s", .writer⟩⟩
    let metadata := Dict.ofList [("k", .null), ("x", .int 1)]
    let added := (backend.store .ascii).request .ascii FreshIds.tally.supply key
      (.add "x" .null (some (Dict.ofList [("k", .int 1)])) false) 0
      (backend.store .ascii).initial
    let call := (backend.store .ascii).request .ascii FreshIds.tally.supply key
      (.update "a" none (some metadata))
    let first := call added.2.1 added.2.2
    let second := call first.2.1 first.2.2
    ∃ once now entry, Space.find "a" (spaces first.2.2 "s") = some once ∧
      let twice := { once with updatedAt := some now, log := once.log ++ [entry] }
      second.1 = .ok (.memory (twice.memory "s" none)) ∧
        spaces second.2.2 "s" = Space.changeOf "a" twice (spaces first.2.2 "s") ∧
        ∀ other, other ≠ "s" → spaces second.2.2 other = spaces first.2.2 other :=
  @update_memory_idempotent .ascii .inMemory FreshIds.tally _ _
    (Representation.request_eq
      ((LocalBackend.inMemory.representation .ascii).stands_initial FreshIds.tally)
      ⟨"ann", ⟨"s", .writer⟩⟩
      (.add "x" .null (some (Dict.ofList [("k", .int 1)])) false)).2.2.1
    ⟨"ann", ⟨"s", .writer⟩⟩ "a" none (some (Dict.ofList [("k", .null), ("x", .int 1)]))
    (.memory {
      id := "a", content := "x", metadata := Dict.ofList [("x", .int 1)]
      updatedAt := some "", partition := "s"
      system := { space := some (.str "s"), author := some "ann", createdBy := some "ann" } })
    (by decide +kernel)

end Memcp
