import Memcp.Identity
import Memcp.Python.JsonText

/-!
The logs: what a record is written as, and which handlers write it.  A line of either
format is one line, whatever the record holds.
-/

namespace Memcp

open Python

/-- A log record, as far as memcp's formatters read it; `none` is an attribute that isn't
set. -/
structure LogRecord where
  timestamp : String
  levelname : String
  name : String
  message : String
  key : Option Json := none
  space : Option Json := none
  audit : Option Json := none

/-- `JsonFormatter.format` of a record without an exception. -/
def jsonFormat (record : LogRecord) : String :=
  (Json.obj ([
      ("timestamp", .str record.timestamp),
      ("level", .str record.levelname),
      ("logger", .str record.name),
      ("message", .str record.message),
      ("key", record.key.getD .null),
      ("space", record.space.getD .null)] ++
    record.audit.toList.map fun audit => ("audit", audit))).asciiDumps

/-- `PlainFormatter._ESCAPES` of one character. -/
def escapeControl (c : Char) : List Char :=
  if c = '\n' then ['\\', 'n']
  else if c = '\r' then ['\\', 'r']
  else if (c.toNat < 0x20 ∧ c.toNat ≠ 0x09) ∨ c.toNat = 0x7F then
    let digits := Nat.toDigits 16 c.toNat
    '\\' :: 'x' :: (List.replicate (2 - digits.length) '0' ++ digits)
  else [c]

/-- `PlainFormatter.formatMessage`; `timestamp` is the record's `asctime` here. -/
def plainFormat (unicode : Unicode) (record : LogRecord) : String :=
  String.ofList ((record.timestamp ++ " " ++ record.levelname ++ " " ++ record.name ++
    " key=" ++ (record.key.getD (.str "-")).text unicode ++
    " space=" ++ (record.space.getD (.str "-")).text unicode ++ " " ++
    record.message).toList.flatMap escapeControl)

inductive LogFormat where
  | json
  | plain
  deriving DecidableEq

def LogFormat.format (unicode : Unicode) : LogFormat → LogRecord → String
  | .json => jsonFormat
  | .plain => plainFormat unicode

/-- `KeyContextFilter.filter`. -/
def keyContext (context : Context) (record : LogRecord) : LogRecord :=
  match context with
  | none => record
  | some key => { record with key := some (.str key.name), space := some (.str key.grant.space) }

/-! The audit record. -/

def Relation.text : Relation → String
  | .reader => "reader"
  | .writer => "writer"

namespace AuditEntry

variable (entry : AuditEntry)

def textOrNone (text : Option String) : Json := text.elim .null .str

/-- `asdict(entry)`. -/
def asDict : Json :=
  .obj [
    ("operation", .str entry.operation),
    ("key", textOrNone entry.key),
    ("space", textOrNone entry.space),
    ("relation", textOrNone (entry.relation.map Relation.text)),
    ("outcome", .str entry.outcome),
    ("ids", entry.ids.elim .null fun ids => .list (ids.map .str)),
    ("count", entry.count.elim .null fun count => .int count),
    ("scope", entry.scope.elim .null Json.ofDict),
    ("source_space", textOrNone entry.sourceSpace)]

def message (unicode : Unicode) : String :=
  "audit operation=" ++ entry.operation ++ " outcome=" ++ entry.outcome ++
    " key=" ++ (textOrNone entry.key).text unicode ++
    " space=" ++ (textOrNone entry.space).text unicode ++
    " relation=" ++ (textOrNone (entry.relation.map Relation.text)).text unicode ++
    " ids=" ++ (entry.ids.elim Json.null fun ids => .list (ids.map .str)).text unicode ++
    " count=" ++ (entry.count.elim Json.null fun count => .int count).text unicode ++
    " scope=" ++ (entry.scope.elim Json.null Json.ofDict).text unicode ++
    " source_space=" ++ (textOrNone entry.sourceSpace).text unicode

/-- The record `logger.info` makes of an entry. -/
def record (unicode : Unicode) (timestamp : String) : LogRecord where
  timestamp := timestamp
  levelname := "INFO"
  name := "memcp.audit"
  message := entry.message unicode
  key := some (textOrNone entry.key)
  space := some (textOrNone entry.space)
  audit := some entry.asDict

end AuditEntry

/-! The loggers. -/

def infoLevel : Nat := 20

inductive HandlerKind where
  | null
  | stdout (format : LogFormat)
  | other
  deriving DecidableEq

structure Handler where
  kind : HandlerKind
  level : Nat := 0
  deriving DecidableEq

structure Logger where
  level : Nat := 0
  handlers : List Handler := []
  propagate : Bool := true
  disabled : Bool := false

/-- The logger `memcp.audit`, its ancestors up to the root, and the level up to which
`logging.disable` silences every logger. -/
structure Logging where
  audit : Logger
  ancestors : List Logger
  disable : Nat := 0

namespace Logging

def effectiveLevel : List Logger → Nat
  | [] => 0
  | logger :: parents => if logger.level = 0 then effectiveLevel parents else logger.level

/-- `logger.isEnabledFor(logging.INFO)`. -/
def isEnabledForInfo (logging : Logging) : Bool :=
  !logging.audit.disabled && decide (logging.disable < infoLevel) &&
    decide (effectiveLevel (logging.audit :: logging.ancestors) ≤ infoLevel)

/-- The handlers a record is handed to. -/
def handlers : List Logger → List Handler
  | [] => []
  | logger :: parents =>
      logger.handlers ++ if logger.propagate then handlers parents else []

/-- The loop of `can_record`. -/
def reachesHandler : List Logger → Bool
  | [] => false
  | logger :: parents =>
      logger.handlers.any (fun handler => handler.kind ≠ .null && handler.level ≤ infoLevel) ||
        logger.propagate && reachesHandler parents

def canRecord (logging : Logging) : Bool :=
  logging.isEnabledForInfo && reachesHandler (logging.audit :: logging.ancestors)

/-- The lines `logger.info` writes to stdout for an audit record. -/
def written (unicode : Unicode) (logging : Logging) (context : Context)
    (timestamp : String) (entry : AuditEntry) : List String :=
  if logging.isEnabledForInfo then
    (handlers (logging.audit :: logging.ancestors)).filterMap fun handler =>
      match handler.kind with
      | .stdout format =>
          if handler.level ≤ infoLevel then
            some (format.format unicode (keyContext context (entry.record unicode timestamp)))
          else none
      | _ => none
  else []

end Logging

end Memcp
