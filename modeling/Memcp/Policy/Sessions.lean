import Memcp.Policy.Batches

/-!
Requests run one at a time, each by a key.  What every request establishes or
keeps of each memory holds of every memory a session leaves.
-/

namespace Memcp

open Python Interaction Import

variable {unicode : Unicode} {fresh : FreshIds} {asked : Nat} {items : List Item}
  {key : Key}

/-! Where the memories of a space come from. -/

section Sources

variable {holds : Item → Prop} {options : ImportOptions} {index : Nat}
  {entries : List (Dict String Json)} {before after : Progress}
  {entry : Dict String Json} {report : Report} {reports : List Report}

theorem Import.Step.ids (step : Step unicode options index entry before report after)
    (ids : (before.items.map Item.id).Nodup) : (after.items.map Item.id).Nodup := by
  cases step with
  | failed | skipped => exact ids
  | @updated item dup old now read known mode found =>
      rw [List.map_map]
      refine (List.map_congr_left fun other _ => ?_) ▸ ids
      simp only [Function.comp_apply]
      split
      · rename_i same
        exact same.trans (Space.mem_of_find found).2.symm
      · rfl
  | created given read unknown flat unused =>
      rw [List.map_append, List.nodup_append]
      refine ⟨ids, List.nodup_singleton _, ?_⟩
      rintro _ old _ new rfl
      obtain ⟨other, member, same⟩ := List.mem_map.mp old
      exact unused other member (same.trans (List.mem_singleton.mp new))

/-- A step writes over the memory it knows by the entry's identity. -/
theorem Import.Known.stored_eq {userId : String} {progress : Progress} {key : DedupKey}
    {dup : Memory} {old : Item} (known : Known userId progress)
    (ids : (progress.items.map Item.id).Nodup)
    (held : progress.existing.get? key = some dup)
    (found : Space.find dup.id progress.items = some old) :
    dup = old.memory userId none := by
  obtain ⟨stored, member, rfl⟩ := known.stored key dup held
  have same := find_of_mem ids member
  cases same.symm.trans found
  rfl

theorem Import.Step.forall (step : Step unicode options index entry before report after)
    (known : Known options.userId before)
    (ids : (before.items.map Item.id).Nodup)
    (created : ∀ index entry item given,
      readEntry unicode options entry = .ok item →
        holds (Import.created unicode options index item given))
    (overwritten : ∀ index entry item now old,
      readEntry unicode options entry = .ok item → holds old →
        holds (Import.overwritten options index item now (old.memory options.userId none)
          old))
    (all : ∀ item ∈ before.items, holds item) :
    ∀ item ∈ after.items, holds item := by
  cases step with
  | failed | skipped => exact all
  | updated now read held mode found =>
      obtain rfl := known.stored_eq ids held found
      intro item member
      obtain ⟨other, otherMember, rfl⟩ := List.mem_map.mp member
      split
      · exact overwritten _ _ _ _ _ read (all _ (Space.mem_of_find found).1)
      · exact all other otherMember
  | created given read =>
      intro item member
      rcases List.mem_append.mp member with old | new
      · exact all item old
      · rw [List.mem_singleton.mp new]
        exact created _ _ _ _ read

theorem Import.Run.forall
    (run : Run unicode options index entries before reports after)
    (known : Known options.userId before)
    (ids : (before.items.map Item.id).Nodup)
    (created : ∀ index entry item given,
      readEntry unicode options entry = .ok item →
        holds (Import.created unicode options index item given))
    (overwritten : ∀ index entry item now old,
      readEntry unicode options entry = .ok item → holds old →
        holds (Import.overwritten options index item now (old.memory options.userId none)
          old))
    (all : ∀ item ∈ before.items, holds item) :
    ∀ item ∈ after.items, holds item := by
  induction run with
  | nil => exact all
  | cons step rest induction =>
      exact induction (known.step step) (step.ids ids)
        (step.forall known ids created overwritten all)

/-- What requests establish of the memories they store in a space: `holds` is
true of each memory added, and kept by each change. -/
structure Kept (unicode : Unicode) (key : Key) (holds : Item → Prop) : Prop where
  added : ∀ given content scope cleaned metadata,
    validateContent content = .ok () →
    validateScope unicode scope localScopeKeys = .ok cleaned →
    acceptedMetadata unicode metadata →
      holds (.addedBy unicode key given content cleaned metadata)
  updated : ∀ now content metadata (old : Item), holds old →
    (∀ text, content = some text → validateContent text = .ok ()) →
    (∀ given, Dict.given metadata = some given →
      validateMetadata unicode given true = .ok () ∧
        checkMetadataSize (patched old.metadata (asPatch given)) (some old.metadata) =
          .ok ()) →
      holds (old.updatedBy key now content metadata)
  created : ∀ mode index item given, Accepted (localPolicy unicode) item →
    holds (Import.created unicode ((localPolicy unicode).importOptions key mode) index
      item given)
  overwritten : ∀ mode index item now old, Accepted (localPolicy unicode) item →
    holds old →
      holds (Import.overwritten ((localPolicy unicode).importOptions key mode) index item
        now (old.memory key.grant.space none) old)

theorem Did.forall {request : Request} {outcome : Except Exc Response}
    {later : List Item} (did : Did unicode key items request outcome later)
    (ids : (items.map Item.id).Nodup) (kept : Kept unicode key holds)
    (all : ∀ item ∈ items, holds item) : ∀ item ∈ later, holds item := by
  cases did with
  | kept => exact all
  | added given valid validScope accepted =>
      intro item member
      rcases List.mem_append.mp member with old | new
      · exact all item old
      · rw [List.mem_singleton.mp new]
        exact kept.added _ _ _ _ _ valid validScope accepted
  | updated now found validText validMetadata size =>
      intro item member
      obtain ⟨other, otherMember, rfl⟩ := List.mem_map.mp member
      split
      · exact kept.updated _ _ _ _ (all _ (Space.mem_of_find found).1) validText
          fun given held => ⟨validMetadata given held, size given held⟩
      · exact all other otherMember
  | deleted => exact fun item member => all item (List.mem_of_mem_filter member)
  | cleared => exact fun item member => all item (List.mem_of_mem_filter member)
  | imported checked read run =>
      exact run.forall (known_start ids maxExport) ids
        (fun _ _ _ _ read => kept.created _ _ _ _ (readEntry_eq_ok read))
        (fun _ _ _ _ _ read => kept.overwritten _ _ _ _ _ (readEntry_eq_ok read)) all

end Sources

/-! Sessions. -/

/-- The state after requests run one at a time, and the calls made by then. -/
def Store.session (unicode : Unicode) (store : Store) (supply : Nat → Fresh) :
    List (Key × Request) → Nat → store.State → Nat × store.State
  | [], asked, state => (asked, state)
  | (key, request) :: session, asked, state =>
      let ran := store.request unicode supply key request asked state
      store.session unicode supply session ran.2.1 ran.2.2

/-- What the requests of a session answer. -/
def Store.replies (unicode : Unicode) (store : Store) (supply : Nat → Fresh) :
    List (Key × Request) → Nat → store.State → List (Except Exc Response)
  | [], _, _ => []
  | (key, request) :: session, asked, state =>
      let ran := store.request unicode supply key request asked state
      ran.1 :: store.replies unicode supply session ran.2.1 ran.2.2

/-- The memories of a local backend started empty, after a session. -/
def LocalBackend.reached (backend : LocalBackend) (unicode : Unicode)
    (fresh : FreshIds) (session : List (Key × Request)) : Spaces :=
  (backend.representation unicode).spaces
    ((backend.store unicode).session unicode fresh.supply session 0
      (backend.store unicode).initial).2

/-- What every request keeps of the memories of its key's space holds of every
memory a session leaves. -/
theorem LocalBackend.session_forall {backend : LocalBackend}
    {state : (backend.store unicode).State} {holds : String → Item → Prop}
    (stands : (backend.representation unicode).Stands fresh asked state)
    (session : List (Key × Request))
    (kept : ∀ key, Kept unicode key (holds key.grant.space))
    (all : ∀ space, ∀ item ∈ (backend.representation unicode).spaces state space,
      holds space item) :
    ∀ space, ∀ item ∈ (backend.representation unicode).spaces
      ((backend.store unicode).session unicode fresh.supply session asked state).2 space,
      holds space item := by
  induction session generalizing asked state with
  | nil => exact all
  | cons first session induction =>
      obtain ⟨key, request⟩ := first
      have own := LocalBackend.stands stands key.grant.space
      obtain ⟨did, -⟩ := @Space.request_comes unicode key fresh asked _ own request
      obtain ⟨-, -, later, spaces⟩ := Representation.request_eq stands key request
      refine induction later fun space item member => ?_
      rw [spaces] at member
      rcases eq_or_ne space key.grant.space with rfl | other
      · rw [Function.update_self] at member
        exact did.forall own.ids (kept key) (all _) item member
      · rw [Function.update_of_ne other] at member
        exact all space item member

/-- The same for a backend started empty. -/
theorem LocalBackend.reached_forall (backend : LocalBackend)
    {holds : String → Item → Prop}
    (kept : ∀ key, Kept unicode key (holds key.grant.space))
    (session : List (Key × Request)) :
    ∀ space, ∀ item ∈ backend.reached unicode fresh session space,
      holds space item := by
  refine LocalBackend.session_forall
    ((backend.representation unicode).stands_initial fresh) session kept ?_
  rw [(backend.representation unicode).spaces_initial]
  exact nofun

end Memcp
