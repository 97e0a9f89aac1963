import Memcp.Http.Gate
import Memcp.Mem0Isolation
import Memcp.Policy.Migration

/-!
The start of the server: the settings it refuses, the backend it is given, and the spaces
that keys are granted.
-/

namespace Memcp

open Python

inductive BackendName where
  | mem0
  | inMemory
  | sqlite
  deriving DecidableEq

/-- The environment variables that decide whether and how the server starts. -/
structure Settings where
  memcpBackend : BackendName
  mem0ApiBase : Option String := none
  mem0ApiKey : Option String := none
  memcpSqlitePath : String := "memcp.sqlite3"
  memcpKeysFile : Option String := none
  memcpAuthTokens : Option String := none
  memcpAuthSeats : Option String := none
  host : String := "0.0.0.0"
  deriving DecidableEq

/-- `v if v else None`. -/
def emptyIsNone (text : Option String) : Option String := text.filter (· ≠ "")

/-- `ipLoopback` is `ipaddress.ip_address(host).is_loopback`, where it doesn't raise. -/
def isLoopback (ipLoopback : String → Option Bool) (host : String) : Bool :=
  if host = "" then false else (ipLoopback host).getD (host = "localhost")

namespace Settings

variable (settings : Settings)

def normalized : Settings :=
  { settings with
    memcpKeysFile := emptyIsNone settings.memcpKeysFile
    memcpAuthTokens := emptyIsNone settings.memcpAuthTokens
    memcpAuthSeats := emptyIsNone settings.memcpAuthSeats }

def validateBackendConfig : Except Exc Unit := do
  if settings.memcpBackend = .mem0 then
    if emptyIsNone settings.mem0ApiBase = none then
      throw (.valueError "MEM0_API_BASE is required when MEMCP_BACKEND=mem0")
    if emptyIsNone settings.mem0ApiKey = none then
      throw (.valueError "MEM0_API_KEY is required when MEMCP_BACKEND=mem0")

/-- One turn of the loop over the variables the keys file replaced. -/
def refuseReplacedVariable (replaced : String × Option String) : Except Exc Unit :=
  if emptyIsNone replaced.2 = none then return ()
  else throw (.valueError ("Refusing to start: " ++ replaced.1 ++
    " is set, and MEMCP_KEYS_FILE replaces it.\n" ++
    "  Write a keys file, set MEMCP_KEYS_FILE to its path and unset " ++ replaced.1 ++
    ": https://github.com/Jartan-LLC/memcp/blob/main/docs/deployment.md" ++
    "#upgrade-from-01x"))

def refuseReplacedVariables : Except Exc Unit :=
  [("MEMCP_AUTH_TOKENS", settings.memcpAuthTokens),
    ("MEMCP_AUTH_SEATS", settings.memcpAuthSeats)].forM refuseReplacedVariable

def refuseUnauthenticatedExposure (ipLoopback : String → Option Bool) : Except Exc Unit :=
  if emptyIsNone settings.memcpKeysFile = none ∧ isLoopback ipLoopback settings.host = false then
    throw (.valueError ("Refusing to start: MEMCP_HOST=" ++ settings.host ++
      " is reachable from other machines and MEMCP_KEYS_FILE is unset, so every request " ++
      "would be served unauthenticated as the key 'local'.\n" ++
      "  Set MEMCP_KEYS_FILE to a keys file to serve it authenticated, " ++
      "or MEMCP_HOST=127.0.0.1 to keep it on this machine."))
  else return ()

/-- The validators, in their order. -/
def validate (ipLoopback : String → Option Bool) : Except Exc Unit := do
  settings.validateBackendConfig
  settings.refuseReplacedVariables
  settings.refuseUnauthenticatedExposure ipLoopback

end Settings

/-- Settings that the validators let through. -/
structure Config (ipLoopback : String → Option Bool) extends Settings where
  valid : toSettings.validate ipLoopback = .ok ()

def Config.ofEnvironment (ipLoopback : String → Option Bool) (environment : Settings) :
    Except Exc (Config ipLoopback) :=
  match valid : environment.normalized.validate ipLoopback with
  | .error error => .error error
  | .ok () => .ok ⟨environment.normalized, valid⟩

inductive MemoryBackend where
  | inMemory
  | sqlite (path : String)
  | mem0 (apiBase apiKey : String)
  deriving DecidableEq

namespace MemoryBackend

/-- The local backends compare partitions exactly and refuse none. -/
def validatePartition (unicode : Unicode) (backend : MemoryBackend) (partition : String) :
    Except Exc Unit :=
  match backend with
  | .inMemory | .sqlite _ => .ok ()
  | .mem0 .. =>
      if partition = "" ∨ partition = "*" ∨ partition ≠ strip partition then
        .error (.valueError
          ("mem0 can't match the partition " ++ repr unicode partition ++ " exactly"))
      else .ok ()

def name : MemoryBackend → BackendName
  | .inMemory => .inMemory
  | .sqlite _ => .sqlite
  | .mem0 .. => .mem0

/-- `Policy(backend)`. -/
def policy (unicode : Unicode) : MemoryBackend → Policy
  | .inMemory | .sqlite _ => localPolicy unicode
  | .mem0 .. => Mem0.mem0Policy unicode

/-- `refuse_partition` of mem0 lets through what its `validate_partition` does. -/
theorem refusePartition_eq_ok {unicode : Unicode} {partition apiBase apiKey : String} :
    Mem0.refusePartition unicode partition = .ok () ↔
      (mem0 apiBase apiKey).validatePartition unicode partition = .ok () := by
  unfold Mem0.refusePartition validatePartition
  split
  · simp
  · simp

end MemoryBackend

namespace Config

variable {ipLoopback : String → Option Bool} (config : Config ipLoopback)

/-- `_create_backend`. -/
def createBackend : Except Exc MemoryBackend :=
  match config.memcpBackend with
  | .inMemory => .ok .inMemory
  | .sqlite => .ok (.sqlite config.memcpSqlitePath)
  | .mem0 =>
      match emptyIsNone config.mem0ApiBase, emptyIsNone config.mem0ApiKey with
      | some apiBase, some apiKey => .ok (.mem0 apiBase apiKey)
      | _, _ => .error (.valueError "MEM0_API_BASE and MEM0_API_KEY required for mem0 backend")

end Config

/-! The granted spaces. -/

def portableSpaceLength : Nat := 128

/-- `_not_portable`. -/
def notPortable (unicode : Unicode) (space : String) : Option String :=
  if space.toList.any fun c => isSpace c || unicode.category c = "Cc" then
    some "it holds whitespace or control characters"
  else if portableSpaceLength < space.length then
    some ("it is longer than " ++ toString portableSpaceLength ++ " characters")
  else if startsWith space "spc_" || startsWith space "__" then
    some "it starts with a prefix memcp or a store may reserve (spc_ or __)"
  else none

/-- The exception for a granted space that is refused. -/
def unusableSpace (unicode : Unicode) (space : String) : Exc → Exc
  | .valueError problem =>
      .valueError ("MEMCP_KEYS_FILE grants the space " ++ repr unicode space ++
        ", which can't be used: " ++ problem)
  | error => error

/-- One turn of the loop over the spaces, with the warnings logged so far. -/
def checkGrantedSpace (unicode : Unicode) (validatePartition : String → Except Exc Unit)
    (warnings : List String) (space : String) : Except Exc (List String) :=
  match refuseUnusablePartition unicode validatePartition space with
  | .error error => .error (unusableSpace unicode space error)
  | .ok () => .ok (warnings ++ (notPortable unicode space).toList.map fun reason =>
      "Granted space " ++ repr unicode space ++
        " may not be portable to every backend: " ++ reason)

def checkGrantedSpaces (unicode : Unicode) (validatePartition : String → Except Exc Unit)
    (spaces : List String) : Except Exc (List String) :=
  (Dict.ofList (spaces.map fun space => (space, ()))).keys.foldlM
    (checkGrantedSpace unicode validatePartition) []

/-! The app. -/

/-- What `create_app` builds, and the warnings it logs. -/
structure App where
  gate : BearerGate
  backend : MemoryBackend
  warnings : List String

/-- `load_keys` of the keys file, if there is one.  `readKeys` reads, parses and validates
the file at a path. -/
def configuredKeys (readKeys : String → Except Exc KeysFile) (keysFile : Option String) :
    Except Exc (Option KeyTable) :=
  match emptyIsNone keysFile with
  | none => .ok none
  | some path => do
      let file ← readKeys path
      return some (← loadKeys path file)

/-- `sha256` is the hex digest of a text's bytes. -/
def createApp {ipLoopback : String → Option Bool} (unicode : Unicode)
    (readKeys : String → Except Exc KeysFile) (sha256 : String → String)
    (config : Config ipLoopback) : Except Exc App := do
  let keys ← configuredKeys readKeys config.memcpKeysFile
  let backend ← config.createBackend
  let granted := keys.elim [localKey] KeyTable.keys
  let warnings ← checkGrantedSpaces unicode (backend.validatePartition unicode)
    (granted.map fun key => key.grant.space)
  return { gate := { keys, sha256 }, backend, warnings }

end Memcp
