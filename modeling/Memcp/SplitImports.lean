import Memcp.Policy.Identities
import Memcp.Data.Related

/-!
An import made in two calls.  The second call finds by its own read the memories
one call would have kept in its index, so both leave the same memories and
report the same, up to the ids and times they are given.
-/

namespace Memcp

open Python Interaction Import

variable {unicode : Unicode}

/-! Memories that differ in their ids and times only. -/

def HistoryEntry.timeless (entry : HistoryEntry) : HistoryEntry :=
  { entry with timestamp := "" }

/-- The same memory under another id, written at other times. -/
structure Item.Twin (rename : String → String) (left right : Item) : Prop where
  id : right.id = rename left.id
  content : right.content = left.content
  scope : right.scope = left.scope
  metadata : right.metadata = left.metadata
  system : right.system = left.system
  updated : right.updatedAt.isSome = left.updatedAt.isSome
  log : right.log.map HistoryEntry.timeless = left.log.map HistoryEntry.timeless

namespace Item.Twin

variable {rename : String → String} {left right : Item}

theorem refl (item : Item) : item.Twin (fun id => id) item :=
  ⟨rfl, rfl, rfl, rfl, rfl, rfl, rfl⟩

theorem identity (twin : left.Twin rename right) :
    right.identity unicode = left.identity unicode :=
  Item.identity_eq_iff.mpr ⟨twin.content, fun key => by rw [twin.scope]⟩

theorem congr {rename' : String → String} (twin : left.Twin rename right)
    (same : rename' left.id = rename left.id) : left.Twin rename' right :=
  { twin with id := twin.id.trans same.symm }

/-- Writing the same over both. -/
theorem changed (twin : left.Twin rename right) (now now' : String)
    (content : Option String) (patch : Option MetadataPatch) (system : Option System) :
    (left.changed now content patch system).Twin rename
      (right.changed now' content patch system) where
  id := twin.id
  content := congrArg content.getD twin.content
  scope := twin.scope
  metadata := congrArg (fun metadata => patch.elim metadata fun patch =>
    patch.apply metadata) twin.metadata
  system := congrArg system.getD twin.system
  updated := rfl
  log := by
    simp only [Item.changed, List.map_append, twin.log, List.map_cons, List.map_nil]
    rw [twin.content, twin.system]
    rfl

end Item.Twin

/-- Two spaces with the same memories, in the same order, up to ids and times. -/
structure Space.Twins (rename : String → String) (left right : List Item) : Prop where
  items : List.Forall₂ (Item.Twin rename) left right
  distinct : ∀ item ∈ left, ∀ other ∈ left,
    rename item.id = rename other.id → item.id = other.id

namespace Space.Twins

variable {rename : String → String} {left right : List Item} {item other : Item}

theorem refl (items : List Item) : Space.Twins (fun id => id) items items where
  items := List.forall₂_same.mpr fun item _ => .refl item
  distinct := fun _ _ _ _ same => same

theorem map (twins : Space.Twins rename left right) {changed changed' : Item}
    (member : item ∈ left) (twin : item.Twin rename other)
    (became : changed.Twin rename changed') (same : changed.id = item.id) :
    Space.Twins rename (left.map fun held => if held.id = item.id then changed else held)
      (right.map fun held => if held.id = other.id then changed' else held) where
  items := by
    rw [List.forall₂_map_left_iff, List.forall₂_map_right_iff]
    apply twins.items.members.imp
    rintro held held' ⟨heldMember, heldTwin⟩
    by_cases named : held.id = item.id
    · have named' : held'.id = other.id := by rw [heldTwin.id, twin.id, named]
      rw [if_pos named, if_pos named']
      exact became
    · have named' : held'.id ≠ other.id := fun clash => by
        rw [heldTwin.id, twin.id] at clash
        exact named (twins.distinct held heldMember item member clash)
      rw [if_neg named, if_neg named']
      exact heldTwin
  distinct := by
    have ids : ∀ held : Item, (if held.id = item.id then changed else held).id = held.id := by
      intro held
      split
      · rename_i named
        exact same.trans named.symm
      · rfl
    intro first member second member' clash
    obtain ⟨held, old, rfl⟩ := List.mem_map.mp member
    obtain ⟨held', old', rfl⟩ := List.mem_map.mp member'
    rw [ids, ids] at clash ⊢
    exact twins.distinct held old held' old' clash

theorem append (twins : Space.Twins rename left right)
    (twin : item.Twin (fun _ => other.id) other)
    (unused : ∀ held ∈ left, held.id ≠ item.id)
    (unused' : ∀ held ∈ right, held.id ≠ other.id) :
    Space.Twins (Function.update rename item.id other.id) (left ++ [item])
      (right ++ [other]) where
  items := by
    apply List.rel_append
    · apply twins.items.members.imp
      rintro held held' ⟨member, heldTwin⟩
      exact heldTwin.congr (Function.update_of_ne (unused held member) _ _)
    · exact .cons (twin.congr (Function.update_self _ _ _)) .nil
  distinct := by
    -- The twin of a memory of `left` is in `right`, so its id is not the new one.
    have apart : ∀ held ∈ left, rename held.id ≠ other.id := by
      intro held member clash
      obtain ⟨held', member', heldTwin⟩ := twins.items.exists_right member
      exact unused' held' member' (heldTwin.id.trans clash)
    intro first member second member' clash
    rcases List.mem_append.mp member with old | new
    · rw [Function.update_of_ne (unused first old)] at clash
      rcases List.mem_append.mp member' with old' | new'
      · rw [Function.update_of_ne (unused second old')] at clash
        exact twins.distinct first old second old' clash
      · obtain rfl := List.mem_singleton.mp new'
        rw [Function.update_self] at clash
        exact absurd clash (apart first old)
    · obtain rfl := List.mem_singleton.mp new
      rcases List.mem_append.mp member' with old' | new'
      · rw [Function.update_self, Function.update_of_ne (unused second old')] at clash
        exact absurd clash.symm (apart second old')
      · rw [List.mem_singleton.mp new']

end Space.Twins

/-! Two imports side by side. -/

namespace Import

/-- A report with the id of its memory replaced. -/
def Report.renamed (rename : String → String) : Report → Report
  | .failed error => .failed error
  | .skipped id => .skipped (rename id)
  | .updated id => .updated (rename id)
  | .created id => .created (rename id)

/-- Two imports that have come equally far. -/
structure Abreast (unicode : Unicode) (options : ImportOptions)
    (rename : String → String) (left right : Progress) : Prop where
  twins : Space.Twins rename left.items right.items
  idsLeft : (left.items.map Item.id).Nodup
  idsRight : (right.items.map Item.id).Nodup
  exactLeft : options.onConflict ≠ .duplicate → Exact unicode options.userId left
  exactRight : options.onConflict ≠ .duplicate → Exact unicode options.userId right

/-- The system fields do not tell the places of a batch apart. -/
def Even (options : ImportOptions) : Prop :=
  ∀ index index' stored, (options.stamp.map fun stamp => stamp index stored) =
    options.stamp.map fun stamp => stamp index' stored

/-- A renaming goes on as it was for the ids in use, which stay in use. -/
def Continues (rename rename' : String → String) (before after : List Item) : Prop :=
  ∀ item ∈ before, rename' item.id = rename item.id ∧ ∃ later ∈ after, later.id = item.id

variable {options : ImportOptions} {index index' : Nat} {entry : Dict String Json}
  {rename : String → String} {left right left' right' : Progress}
  {report report' : Report}

theorem Abreast.known (abreast : Abreast unicode options rename left right)
    (mode : options.onConflict ≠ .duplicate) (key : DedupKey) :
    (left.existing.get? key = none ∧ right.existing.get? key = none) ∨
      ∃ item ∈ left.items, ∃ other ∈ right.items, item.Twin rename other ∧
        left.existing.get? key = some (item.memory options.userId none) ∧
        right.existing.get? key = some (other.memory options.userId none) := by
  have filtered : List.Forall₂ (Item.Twin rename)
      (left.items.filter fun item => item.identity unicode = key)
      (right.items.filter fun item => item.identity unicode = key) := by
    apply List.rel_filter _ abreast.twins.items
    intro item other twin
    simp only [decide_eq_true_eq, twin.identity]
  have known := abreast.exactLeft mode key
  have known' := abreast.exactRight mode key
  rcases filtered.getLast? with ⟨none, none'⟩ | ⟨item, other, last, last', twin⟩
  · rw [none] at known
    rw [none'] at known'
    exact .inl ⟨known, known'⟩
  · rw [last] at known
    rw [last'] at known'
    have member := (List.mem_filter.mp (List.mem_of_getLast? last)).1
    have member' := (List.mem_filter.mp (List.mem_of_getLast? last')).1
    exact .inr ⟨item, member, other, member', twin, known, known'⟩

theorem Abreast.known_of_some (abreast : Abreast unicode options rename left right)
    (mode : options.onConflict ≠ .duplicate) {key : DedupKey} {memory : Memory}
    (known : left.existing.get? key = some memory) :
    ∃ item ∈ left.items, ∃ other ∈ right.items, item.Twin rename other ∧
      memory = item.memory options.userId none ∧
      right.existing.get? key = some (other.memory options.userId none) := by
  rcases abreast.known mode key with ⟨none, -⟩ | ⟨item, member, other, member', twin, is, is'⟩
  · cases none.symm.trans known
  · cases is.symm.trans known
    exact ⟨item, member, other, member', twin, rfl, is'⟩

theorem Abreast.unknown (abreast : Abreast unicode options rename left right)
    (mode : options.onConflict ≠ .duplicate) {key : DedupKey}
    (unknown : left.existing.get? key = none) : right.existing.get? key = none := by
  rcases abreast.known mode key with ⟨-, none⟩ | ⟨item, -, other, -, -, is, -⟩
  · exact none
  · cases is.symm.trans unknown

/-- Writing an entry over the memory both know by its identity. -/
theorem twin_overwritten (even : Even options) {item : ImportItem} {now now' : String}
    {old old' : Item} (twin : old.Twin rename old') :
    (overwritten options index item now (old.memory options.userId none) old).Twin rename
      (overwritten options index' item now' (old'.memory options.userId none) old') := by
  have patch : (item.metadata.map fun metadata =>
        overwritePatch metadata (old'.memory options.userId none)) =
      item.metadata.map fun metadata =>
        overwritePatch metadata (old.memory options.userId none) := by
    simp only [overwritePatch, Item.memory, twin.metadata]
  have system : (old'.memory options.userId none).system =
      (old.memory options.userId none).system := twin.system
  unfold overwritten
  rw [patch, system, even index' index]
  exact twin.changed now now' _ _ _

theorem twin_created (even : Even options) {item : ImportItem} {given given' : Fresh} :
    (created unicode options index item given).Twin (fun _ => given'.id)
      (created unicode options index' item given') where
  id := rfl
  content := rfl
  scope := rfl
  metadata := rfl
  system := by
    unfold created
    rw [even index' index]
    rfl
  updated := rfl
  log := by
    unfold created
    rw [even index' index]
    rfl

/-- What a step makes of two spaces with the same memories, and what it reports
under any renaming that goes on from there. -/
def Together (rename : String → String) (before left right : List Item)
    (reports reports' : List Report) : Prop :=
  ∃ rename', Space.Twins rename' left right ∧ Continues rename rename' before left ∧
    ∀ later : String → String, (∀ item ∈ left, later item.id = rename' item.id) →
      reports' = reports.map (Report.renamed later)

theorem Continues.refl (rename : String → String) (items : List Item) :
    Continues rename rename items items :=
  fun item member => ⟨rfl, item, member, rfl⟩

theorem Continues.trans {rename'' : String → String} {rename rename' : String → String}
    {before middle after : List Item} (first : Continues rename rename' before middle)
    (second : Continues rename' rename'' middle after) :
    Continues rename rename'' before after := by
  intro item member
  obtain ⟨same, later, stays, id⟩ := first item member
  obtain ⟨again, last, stays', id'⟩ := second later stays
  rw [id] at again
  exact ⟨again.trans same, last, stays', id'.trans id⟩

theorem Continues.agrees {before after : List Item} {later rename' : String → String}
    (continues : Continues rename rename' before after)
    (agrees : ∀ item ∈ after, later item.id = rename' item.id) :
    ∀ item ∈ before, later item.id = rename item.id := by
  intro item member
  obtain ⟨same, held, stays, id⟩ := continues item member
  rw [← id, agrees held stays, id, same]

/-- An entry makes the same of two spaces with the same memories. -/
theorem Abreast.step_twins (abreast : Abreast unicode options rename left right)
    (even : Even options)
    (step : Step unicode options index entry left report left')
    (step' : Step unicode options index' entry right report' right') :
    Together rename left.items left'.items right'.items [report] [report'] := by
  cases step with
  | failed read =>
      cases step' with
      | failed read' =>
          cases read.symm.trans read'
          exact ⟨rename, abreast.twins, .refl _ _, fun _ _ => rfl⟩
      | skipped read' | updated _ read' | created _ read' => cases read.symm.trans read'
  | @skipped item dup read known mode =>
      have reads : options.onConflict ≠ .duplicate := by simp [mode]
      obtain ⟨held, member, held', -, twin, is, is'⟩ := abreast.known_of_some reads known
      cases step' with
      | failed read' => cases read.symm.trans read'
      | updated _ _ _ mode' => cases mode.symm.trans mode'
      | created _ read' unknown' =>
          cases read.symm.trans read'
          cases is'.symm.trans (unknown' reads)
      | skipped read' known' =>
          cases read.symm.trans read'
          cases is'.symm.trans known'
          cases is
          refine ⟨rename, abreast.twins, .refl _ _, fun later agrees => ?_⟩
          have named : held'.id = later held.id := by rw [twin.id, agrees held member]
          exact congrArg (fun id => [Report.skipped id]) named
  | @updated item dup old now read known mode found =>
      have reads : options.onConflict ≠ .duplicate := by simp [mode]
      obtain ⟨held, member, held', member', twin, is, is'⟩ :=
        abreast.known_of_some reads known
      cases step' with
      | failed read' => cases read.symm.trans read'
      | skipped _ _ mode' => cases mode.symm.trans mode'
      | created _ read' unknown' =>
          cases read.symm.trans read'
          cases is'.symm.trans (unknown' reads)
      | updated now' read' known' _ found' =>
          cases read.symm.trans read'
          cases is'.symm.trans known'
          cases is
          cases (find_of_mem abreast.idsLeft member).symm.trans found
          cases (find_of_mem abreast.idsRight member').symm.trans found'
          have became := @twin_overwritten options index index' rename even item now now'
            old _ twin
          refine ⟨rename, abreast.twins.map member twin became rfl, fun other stays => ?_,
            fun later agrees => ?_⟩
          · refine ⟨rfl, _, List.mem_map_of_mem stays, ?_⟩
            split
            · rename_i same
              exact same.symm
            · rfl
          · have agreed := agrees _ (List.mem_map_of_mem member)
            have itself : old.id = (old.memory options.userId none).id := rfl
            rw [if_pos itself] at agreed
            have named := twin.id.trans agreed.symm
            exact congrArg (fun id => [Report.updated id]) named
  | @created item given read unknown flat unused =>
      cases step' with
      | failed read' => cases read.symm.trans read'
      | skipped read' known' mode' =>
          have reads : options.onConflict ≠ .duplicate := by simp [mode']
          cases read.symm.trans read'
          cases (abreast.unknown reads (unknown reads)).symm.trans known'
      | updated _ read' known' mode' =>
          have reads : options.onConflict ≠ .duplicate := by simp [mode']
          cases read.symm.trans read'
          cases (abreast.unknown reads (unknown reads)).symm.trans known'
      | created given' read' _ _ unused' =>
          cases read.symm.trans read'
          have added := @Space.Twins.append rename left.items right.items
            (created unicode options index item given)
            (created unicode options index' item given') abreast.twins
            (twin_created even) unused unused'
          refine ⟨_, added, fun held member => ?_, fun later agrees => ?_⟩
          · exact ⟨Function.update_of_ne (unused held member) _ _, held,
              List.mem_append_left _ member, rfl⟩
          · have named := agrees _ (List.mem_append_right _ (List.mem_singleton_self _))
            have same : later given.id = given'.id :=
              named.trans (Function.update_self _ _ _)
            exact congrArg (fun id => [Report.created id]) same.symm

theorem Abreast.run {entries : List (Dict String Json)} {reports reports' : List Report}
    (abreast : Abreast unicode options rename left right) (even : Even options)
    (run : Run unicode options index entries left reports left')
    (run' : Run unicode options index' entries right reports' right')
    (concrete : ReadsConcrete unicode options entries) :
    Together rename left.items left'.items right'.items reports reports' := by
  induction run generalizing index' right reports' rename with
  | nil =>
      obtain ⟨rfl, rfl⟩ := run'.of_nil
      exact ⟨rename, abreast.twins, .refl _ _, fun _ _ => rfl⟩
  | cons step rest induction =>
      obtain ⟨report', middle', rest', rfl, step', run'⟩ := run'.of_cons
      have first := concrete _ List.mem_cons_self
      obtain ⟨rename', twins, continues, reported⟩ := abreast.step_twins even step step'
      have reached : Abreast unicode options rename' _ middle' := {
        twins
        idsLeft := step.ids abreast.idsLeft
        idsRight := step'.ids abreast.idsRight
        exactLeft := fun mode => (abreast.exactLeft mode).step abreast.idsLeft step first
        exactRight := fun mode =>
          (abreast.exactRight mode).step abreast.idsRight step' first }
      obtain ⟨rename'', twins, goesOn, reportedRest⟩ := induction reached run'
        fun entry member => concrete entry (List.mem_cons_of_mem _ member)
      refine ⟨rename'', twins, continues.trans goesOn, fun later agrees => ?_⟩
      rw [List.map_cons, reportedRest later agrees]
      exact congrArg (· :: _) (List.cons.inj (reported later (goesOn.agrees agrees))).1

/-- What could be read whole can be read again after a batch. -/
theorem Run.readable {entries : List (Dict String Json)} {items : List Item} {limit : Nat}
    {after : Progress} {reports : List Report} (stamped : Stamped options)
    (ids : (items.map Item.id).Nodup)
    (complete : (unread options limit items).dedupIncomplete = false)
    (read : Import.readable options limit items = .ok ())
    (run : Run unicode options 0 entries (start unicode options limit items) reports after) :
    Import.readable options limit after.items = .ok () := by
  by_cases mode : options.onConflict = .duplicate
  · exact if_pos mode
  · have passing := passing_of_readable mode (whole_of_complete mode complete) read
    apply readable_of_passing
    exact Passing.run stamped passing (known_start ids limit) ids run

theorem Run.of_append {first second : List (Dict String Json)} {reports : List Report}
    (run : Run unicode options index (first ++ second) left reports left') :
    ∃ middle reports₁ reports₂, reports = reports₁ ++ reports₂ ∧
      Run unicode options index first left reports₁ middle ∧
      Run unicode options (index + first.length) second middle reports₂ left' := by
  induction first generalizing index left reports with
  | nil => exact ⟨left, [], reports, rfl, .nil left, run⟩
  | cons entry first induction =>
      obtain ⟨report, middle, rest, rfl, step, ran⟩ := run.of_cons
      obtain ⟨last, reports₁, reports₂, rfl, run₁, run₂⟩ := induction ran
      have shifted : index + 1 + first.length = index + (first.length + 1) := by omega
      rw [shifted] at run₂
      exact ⟨last, report :: reports₁, reports₂, rfl, .cons step run₁, run₂⟩

theorem abreast_start {items : List Item} {limit : Nat}
    (ids : (items.map Item.id).Nodup)
    (complete : (unread options limit items).dedupIncomplete = false) :
    Abreast unicode options (fun id => id) (start unicode options limit items)
      (start unicode options limit items) :=
  have exact : options.onConflict ≠ .duplicate →
      Exact unicode options.userId (start unicode options limit items) := fun mode =>
    exact_start mode (whole_of_complete mode complete)
  ⟨.refl items, ids, ids, exact, exact⟩

/-- A batch run to its end, and the same batch run in two halves, the second of
which starts from what it reads. -/
theorem Run.split {first second : List (Dict String Json)} {items : List Item} {limit : Nat}
    {whole left right : Progress} {reports reports₁ reports₂ : List Report}
    (even : Even options) (concrete : ReadsConcrete unicode options (first ++ second))
    (ids : (items.map Item.id).Nodup)
    (complete : (unread options limit items).dedupIncomplete = false)
    (complete' : (unread options limit left.items).dedupIncomplete = false)
    (run : Run unicode options 0 (first ++ second) (start unicode options limit items)
      reports whole)
    (run₁ : Run unicode options 0 first (start unicode options limit items) reports₁ left)
    (run₂ : Run unicode options 0 second (start unicode options limit left.items) reports₂
      right) :
    ∃ rename, (∀ item ∈ items, rename item.id = item.id) ∧
      Space.Twins rename whole.items right.items ∧
      reports₁ ++ reports₂ = reports.map (Report.renamed rename) := by
  obtain ⟨middle, front, back, rfl, ran, ran'⟩ := run.of_append
  have concrete₁ : ReadsConcrete unicode options first := fun entry member =>
    concrete entry (List.mem_append_left _ member)
  have concrete₂ : ReadsConcrete unicode options second := fun entry member =>
    concrete entry (List.mem_append_right _ member)
  have begun : Abreast unicode options (fun id => id) (start unicode options limit items)
      (start unicode options limit items) := abreast_start ids complete
  obtain ⟨rename, twins, continues, reported⟩ := begun.run even ran run₁ concrete₁
  -- The one call goes on with its index, the other two build it again.
  have reached : Abreast unicode options rename middle
      (start unicode options limit left.items) := {
    twins
    idsLeft := ran.ids ids
    idsRight := run₁.ids ids
    exactLeft := fun mode => (begun.exactLeft mode).run ids ran concrete₁
    exactRight := fun mode => exact_start mode (whole_of_complete mode complete') }
  obtain ⟨rename', twins', goesOn, reported'⟩ := reached.run even ran' run₂ concrete₂
  have agrees := goesOn.agrees fun _ _ => rfl
  refine ⟨rename', fun item member => continues.agrees agrees item member, twins', ?_⟩
  rw [List.map_append, reported rename' agrees, reported' rename' fun _ _ => rfl]

end Import

/-! What the calls report. -/

/-- An outcome with the ids of its memories replaced. -/
def ImportOutcome.renamed (rename : String → String) (outcome : ImportOutcome) :
    ImportOutcome :=
  { outcome with
    imported := outcome.imported.map fun written => { written with id := rename written.id }
    skipped := outcome.skipped.map fun skipped =>
      { skipped with existingId := rename skipped.existingId } }

section Listed

variable {rename : String → String} {reports reports₁ reports₂ : List Report}

end Listed

/-! The calls. -/

namespace Policy

variable {key : Key} {fresh : FreshIds} {asked : Nat} {items : List Item}
  {entries : List (Dict String Json)} {onConflict : String}

end Policy

end Memcp
