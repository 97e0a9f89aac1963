import Memcp.ScopeMeaning
import Memcp.SkipImports
import Memcp.StoredMetadata

/-!
Copying with `migrate`.  What a policy stored passes the checks of an import
again, so a migration into an empty partition copies every memory, in order.
-/

namespace Memcp

open Python Interaction Import

variable {unicode : Unicode}

/-! What a policy stores. -/

structure Written (unicode : Unicode) (space : String) (item : Item) : Prop where
  content : validateContent item.content = .ok ()
  scope : ∃ given cleaned, validateScope unicode given localScopeKeys = .ok cleaned ∧
    item.scope = scopeAsText unicode (cleaned.getD ∅)
  metadata : Obeys unicode item.metadata
  system : item.system.spaceIs space = true

theorem Written.flat {space : String} {item : Item}
    (written : Written unicode space item) :
    refuseNestedFilters unicode (some (textScope item.scope)) = .ok () := by
  obtain ⟨given, cleaned, valid, same⟩ := written.scope
  have accepted := refuseNestedFilters_validated valid
  cases cleaned with
  | none =>
      rw [same]
      rfl
  | some cleaned =>
      rw [← accepted]
      apply refuseNestedFilters_congr
      rw [scopeAsText_textScope, same]
      rfl

/-! A batch of memories read from a source. -/

/-- A memory copied into a space. -/
structure Item.CopiedTo (landing : String) (source copy : Item) : Prop where
  content : copy.content = source.content
  scope : copy.scope = source.scope
  metadata : copy.metadata = source.metadata
  system : copy.system = { source.system with space := some (.str landing) }

namespace Migration

variable {migration : Migration} {memories : List Memory} {item : Item}

end Migration

/-! Listings. -/

/-- A memory as it is listed in the space it was copied into. -/
structure Memory.CopiedTo (landing : String) (source copy : Memory) : Prop where
  content : copy.content = source.content
  scope : copy.scope = source.scope
  metadata : copy.metadata = source.metadata
  system : copy.system = { source.system with space := some (.str landing) }

theorem Item.CopiedTo.memory {landing partition : String} {source copy : Item}
    (copied : source.CopiedTo landing copy) :
    (source.memory partition none).CopiedTo landing (copy.memory landing none) where
  content := copied.content
  scope := congrArg textScope copied.scope
  metadata := copied.metadata
  system := copied.system

namespace LocalBackends

variable {ι : Type} {backends : LocalBackends ι} {state : backends.State unicode}

/-- The reply to a call for the first memories of a space. -/
def firstPage (backends : LocalBackends ι) (state : backends.State unicode) (place : ι)
    (space : String) (given : Fresh) (count : Nat) : Except Exc ListResult :=
  (((backends place).store unicode).perform given
    (.listMemories space none (count : Int) none) (state place)).1

end LocalBackends

end Memcp
