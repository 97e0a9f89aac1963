import Memcp.Backends.Local
import Memcp.Backends.Sqlite.Kills

/-!
A server that is killed and started again.  Its clients see each call made whole or not at
all, and no call that was answered is lost.
-/

namespace Memcp

open Python Interaction

namespace Sqlite

variable {codec : JsonCodec} {unicode : Unicode} {database : Database codec}

end Sqlite

end Memcp
