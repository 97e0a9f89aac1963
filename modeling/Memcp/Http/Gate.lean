import Memcp.Http.Auth
import Memcp.Python.Utf8
import Memcp.Tools.Register

/-!
The gate in front of the MCP server: it serves each HTTP request as the key its bearer
token resolves to, and lets no other HTTP request through.
-/

namespace Memcp

open Python Interaction

/-- An ASGI scope, as far as it is read. -/
structure HttpScope where
  type : String
  path : String
  headers : List (Bytes × Bytes)

structure HttpResponse where
  status : Nat
  headers : List (Bytes × Bytes)
  body : CanonicalError
  deriving DecidableEq

/-- The key of every request when no keys file is configured. -/
def localKey : Key := ⟨"local", ⟨"default_user", .writer⟩⟩

def bearerPrefix : String := "Bearer "

namespace HttpScope

/-- `dict(headers).get(b"authorization", b"")`, as text. -/
def provided (scope : HttpScope) : String :=
  Utf8.decode (((Dict.ofList scope.headers).get? (Utf8.encode "authorization")).getD [])

/-- The token an HTTP request brings. -/
def bearer (scope : HttpScope) : Option String :=
  if startsWith scope.provided bearerPrefix then
    some (String.ofList (scope.provided.toList.drop 7))
  else none

/-! `_ensure_accept`. -/

/-- The white space `bytes.strip` removes. -/
def isByteSpace (b : UInt8) : Bool := b = 0x20 || (0x09 ≤ b && b ≤ 0x0D)

def stripBytes (bytes : Bytes) : Bytes :=
  ((bytes.dropWhile isByteSpace).reverse.dropWhile isByteSpace).reverse

/-- What an `accept` header lists, without the parameters. -/
def acceptParts (value : Bytes) : List Bytes :=
  (value.splitOn (Utf8.byte 0x2C)).map fun part =>
    (stripBytes part).takeWhile (· ≠ Utf8.byte 0x3B)

def isAccept (header : Bytes × Bytes) : Bool := header.1 = Utf8.encode "accept"

def requiredAccept : Bytes := Utf8.encode "text/event-stream, application/json"

/-- The headers the MCP server is given, which accept what its transport sends. -/
def ensureAccept (scope : HttpScope) : HttpScope :=
  if scope.type = "http" ∧ startsWith scope.path "/mcp" ∧
      Utf8.encode "text/event-stream" ∉
        (scope.headers.filter isAccept).flatMap fun header => acceptParts header.2 then
    { scope with
      headers := scope.headers.filter (!isAccept ·) ++
        [(Utf8.encode "accept", requiredAccept)] }
  else scope

end HttpScope

/-- `_send_401`. -/
def unauthorized : HttpResponse where
  status := 401
  headers := [(Utf8.encode "content-type", Utf8.encode "application/json"),
    (Utf8.encode "www-authenticate", Utf8.encode "Bearer")]
  body := { code := "unauthorized", message := "Invalid or missing token" }

/-- The calls of tools the MCP server can make: those of registered tools. -/
abbrev Policy.toolRequests (policy : Policy) : Signature where
  Call := { request : Request // request.tool ∈ registerTools policy.capabilities }
  Reply _ := Except Exc ToolAnswer

/-- The MCP server: what it makes of a request, by calling tools. -/
abbrev McpServer (policy : Policy) (α : Type) :=
  HttpScope → Program policy.toolRequests α

/-- What the server does while `context` is the current key. -/
def McpServer.serve {policy : Policy} {α : Type} (app : McpServer policy α)
    (context : Context) (scope : HttpScope) : Program effects α :=
  @Program.interpret policy.toolRequests effects _
    (fun call => policy.callTool context call.1) (app scope.ensureAccept)

/-- What an HTTP client is sent: a refusal of the gate, or what the server sends. -/
inductive Served (α : Type) where
  | refused (response : HttpResponse)
  | passed (sent : α)
  deriving DecidableEq

structure BearerGate where
  keys : Option KeyTable
  sha256 : String → String

namespace BearerGate

/-- The key a request is served as, or the warning that it isn't. -/
def identify (gate : BearerGate) (scope : HttpScope) : Except String Key :=
  match gate.keys with
  | none => .ok localKey
  | some table =>
      match scope.bearer with
      | none => .error ("Rejected request: missing Bearer prefix (path=" ++ scope.path ++ ")")
      | some token =>
          match table.resolve gate.sha256 token with
          | none => .error ("Rejected request: invalid token (path=" ++ scope.path ++ ")")
          | some key => .ok key

/-- `BearerGate.__call__`. -/
def call {policy : Policy} {α : Type} (gate : BearerGate) (app : McpServer policy α)
    (scope : HttpScope) : Program effects (Served α) :=
  if scope.type = "http" then
    match gate.identify scope with
    | .error _ => .done (.refused unauthorized)
    | .ok key => @Program.bind effects _ _ (app.serve (some key) scope) fun sent =>
        .done (.passed sent)
  else
    -- No key is current: what needs one raises `LookupError`.
    @Program.bind effects _ _ (app.serve none scope) fun sent => .done (.passed sent)

end BearerGate

end Memcp
