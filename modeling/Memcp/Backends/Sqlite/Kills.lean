import Memcp.Backends.Sqlite.Adapter
import Memcp.Interaction.Interruption

/-!
A process that is killed between two statements.  SQLite keeps what is committed, and each
method commits once.
-/

namespace Memcp.Sqlite

open Python Interaction

variable {codec : JsonCodec} {unicode : Unicode} {fresh : Fresh} {α : Type}
  {database : Database codec}

/-- Code that commits nothing. -/
abbrev Still (code : Sql codec α) : Prop :=
  ∀ database, Fallible.Still Database.execute Database.committed code database

/-- Code that commits all it does, or nothing yet. -/
abbrev Atomic (code : Sql codec α) : Prop :=
  ∀ database, Fallible.Atomic Database.execute Database.committed code database

end Memcp.Sqlite
