import Memcp.Types
import Memcp.Identity

/-! What every tool module shares: the error responses. -/

namespace Memcp

structure CanonicalError where
  code : String
  message : String
  retry : Bool := false
  deriving DecidableEq

/-- `_backend_error`, less the log line. -/
def backendError (status : Int) : CanonicalError :=
  if status = 408 then
    { code := "timeout", message := clientMessage status, retry := true }
  else
    { code := "backend_error"
      message := clientMessage status
      retry := 500 ≤ status }

/-- What a tool wrapped in `translate_errors` makes of its outcome: it returns
a policy refusal or a backend failure as an error response. -/
def translateErrors {α : Type} : Except Exc α → Except Exc (α ⊕ CanonicalError)
  | .ok value => .ok (.inl value)
  | .error (.policyError code message) => .ok (.inr { code := code.text, message })
  | .error (.memoryAPIError status _) => .ok (.inr (backendError status))
  | .error error => .error error

end Memcp
