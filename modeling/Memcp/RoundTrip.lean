import Memcp.MigrationFidelity
import Memcp.SplitImports

/-!
Exporting a space and importing what was exported.  What a policy stored comes
back as it was when the texts of its scopes are accepted as they are.
-/

namespace Memcp

open Python Interaction Import

variable {unicode : Unicode}

/-! Stored scopes given back as scopes. -/

/-- No text is too long, and an agent id is in its form. -/
def SendsBack (scope : Dict String String) : Prop :=
  ∀ entry ∈ scope.entries, entry.2.length ≤ maxScopeValueLength ∧
    (entry.1 = "agent_id" → AgentIdForm entry.2.toList)

theorem validateScopeDict_of_ok {given : Json} {cleaned : Dict String Json}
    (accepted : validateScope unicode given localScopeKeys = .ok (some cleaned)) :
    ∃ scope, validateScopeDict unicode scope localScopeKeys = .ok cleaned := by
  unfold validateScope at accepted
  split at accepted
  · cases accepted
  · split at accepted
    · cases accepted
    · obtain ⟨kept, dict, same⟩ := map_eq_ok.mp accepted
      cases same
      exact ⟨_, dict⟩

theorem Written.validateScope {space : String} {item : Item}
    (written : Written unicode space item) (sends : SendsBack item.scope) :
    Memcp.validateScope unicode (.ofDict (textScope item.scope)) localScopeKeys =
      .ok (some (textScope item.scope)) := by
  obtain ⟨given, cleaned, valid, same⟩ := written.scope
  rw [validateScope_ofDict_eq_ok]
  cases cleaned with
  | none =>
      rw [same]
      rfl
  | some cleaned =>
      obtain ⟨scope, dict⟩ := validateScopeDict_of_ok valid
      have stored : textScope item.scope = storedScope unicode cleaned :=
        congrArg textScope same
      rw [stored]
      apply validateScopeDict_stored dict
      intro entry member
      apply sends (entry.1, scopeText unicode entry.2)
      rw [same]
      exact List.mem_map_of_mem member

section Accepted

variable {scope : Dict String String} {kept : Dict String Json}

end Accepted

/-! What an import reads of an exported memory. -/

/-- A memory of a space as the entry it is exported as. -/
def Item.exported (space : String) (item : Item) : Dict String Json :=
  (serializeMemory (item.memory space none)).entry

section Read

variable {key : Key} {mode : OnConflict} {space : String} {item : Item}

theorem validateEntryScope_eq_ok {given : Json} {scope : Option (Dict String Json)} :
    (localPolicy unicode).validateEntryScope given = .ok scope ↔
      validateScope unicode given localScopeKeys = .ok scope := by
  unfold Policy.validateEntryScope
  split
  · rename_i refused
    exact ⟨nofun, fun accepted => nomatch refused.symm.trans accepted⟩
  · rfl

theorem Written.readEntry (written : Written unicode space item)
    (sends : SendsBack item.scope) :
    Memcp.readEntry unicode ((localPolicy unicode).importOptions key mode)
        (item.exported space) =
      .ok {
        content := item.content
        scope := some (textScope item.scope)
        metadata := some item.metadata } := by
  let memory := serializeMemory (item.memory space none)
  have readsContent : readContent memory.entry = .ok item.content :=
    SerializedMemory.readContent_entry written.content
  have readsMetadata : readMetadata unicode memory.entry = .ok (some item.metadata) :=
    SerializedMemory.readMetadata_entry written.metadata.valid
      (checkMetadataSize_eq_ok.mpr (.inl written.metadata.small))
  have readsScope : readScope (localPolicy unicode).validateEntryScope memory.entry =
      .ok (some (textScope item.scope)) :=
    (SerializedMemory.readScope_entry _).trans
      (validateEntryScope_eq_ok.mpr (written.validateScope sends))
  unfold Memcp.readEntry Item.exported
  simp only [Policy.importOptions, readsContent, readsMetadata, readsScope, memory]
  rfl

end Read

/-! A batch that stores every memory again. -/

/-- A memory with the same content, scope and metadata. -/
structure Item.Restores (source copy : Item) : Prop where
  content : copy.content = source.content
  scope : copy.scope = source.scope
  metadata : copy.metadata = source.metadata

theorem Item.Restores.identity {source copy : Item} (restores : source.Restores copy) :
    copy.identity unicode = source.identity unicode :=
  Item.identity_eq_iff.mpr ⟨restores.content, fun key => by rw [restores.scope]⟩

section Batch

variable {key : Key} {space : String} {rest : List Item} {index : Nat}
  {before after : Progress} {reports : List Report}

end Batch

theorem Run.reads {options : ImportOptions} {entries : List (Dict String Json)} {index : Nat}
    {before after : Progress} {reports : List Report}
    (run : Run unicode options index entries before reports after)
    (none : listed Report.error? index reports = []) :
    ∀ entry ∈ entries, ∃ item, readEntry unicode options entry = .ok item := by
  induction run with
  | nil => exact nofun
  | cons step rest induction =>
      obtain ⟨here, none⟩ := List.append_eq_nil_iff.mp none
      refine List.forall_mem_cons.mpr ⟨?_, induction none⟩
      cases step with
      | failed => cases here
      | skipped read | updated _ read | created _ read => exact ⟨_, read⟩

/-! Batches one after another. -/

/-- An import that refuses and skips nothing. -/
def Quiet (reply : Except Exc Response) : Prop :=
  ∃ outcome, reply = .ok (.imported outcome) ∧ outcome.errors = [] ∧ outcome.skipped = []

section Batches

variable {key : Key} {fresh : FreshIds} {asked : Nat} {items rest : List Item}
  {batches : List (List (Dict String Json))} {space : String}

end Batches

/-- The same content, scope and metadata, in any order of the keys. -/
structure Item.Alike (left right : Item) : Prop where
  content : right.content = left.content
  scope : left.scope.Same right.scope
  metadata : left.metadata.Same right.metadata

theorem Item.Restores.alike {source copy : Item} (restores : source.Restores copy) :
    source.Alike copy where
  content := restores.content
  scope := fun key => by rw [restores.scope]
  metadata := fun key => by rw [restores.metadata]

end Memcp
