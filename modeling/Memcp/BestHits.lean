import Memcp.Policy.ScopeText
import Memcp.Threshold

/-!
What a search returns: the first hits, by score and then by insertion, among
the memories of the caller's space that hold the requested scope.
-/

namespace Memcp

open Python Interaction

variable {unicode : Unicode} {store : Store}

end Memcp
