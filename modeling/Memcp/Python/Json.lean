import Memcp.Data.Dict
import Memcp.Python.Text

/-!
The values JSON gives a Python program: `None`, booleans, integers, floats,
strings, lists and dictionaries, with their `str` and their JSON text.
-/

namespace Python

/-- A finite float, as the shortest decimal that reads back as it: the value
is `0.digits` times ten to the power `point`. -/
structure Decimal where
  negative : Bool
  digits : Nat
  point : Int
  digits_lt : digits < 10 ^ 17
  point_le : point.natAbs ≤ 324
  deriving DecidableEq

inductive Float where
  | finite (value : Decimal)
  | infinite (negative : Bool)
  | nan
  deriving DecidableEq

namespace Decimal

def digitChars (value : Decimal) : List Char := Nat.toDigits 10 value.digits

/-- `repr` uses an exponent below 1e-4 and from 1e16 on. -/
def usesExponent (value : Decimal) : Bool :=
  value.point ≤ -4 || 16 < value.point

def exponentChars (exponent : Int) : List Char :=
  let digits := Nat.toDigits 10 exponent.natAbs
  'e' :: (if exponent < 0 then '-' else '+') ::
    List.replicate (2 - digits.length) '0' ++ digits

def unsignedChars (value : Decimal) : List Char :=
  let digits := value.digitChars
  if value.usesExponent then
    digits.take 1 ++ (if digits.length = 1 then [] else '.' :: digits.drop 1) ++
      exponentChars (value.point - 1)
  else if value.point ≤ 0 then
    '0' :: '.' :: List.replicate value.point.natAbs '0' ++ digits
  else if digits.length ≤ value.point.natAbs then
    digits ++ List.replicate (value.point.natAbs - digits.length) '0' ++ ['.', '0']
  else
    digits.take value.point.natAbs ++ '.' :: digits.drop value.point.natAbs

def reprChars (value : Decimal) : List Char :=
  if value.negative then '-' :: value.unsignedChars else value.unsignedChars

end Decimal

namespace Float

/-- `math.isfinite`. -/
def isFinite : Float → Bool
  | .finite _ => true
  | _ => false

def repr : Float → String
  | .finite value => String.ofList value.reprChars
  | .infinite negative => if negative then "-inf" else "inf"
  | .nan => "nan"

end Float

inductive Json where
  | null
  | bool (value : Bool)
  | int (value : Int)
  | float (value : Float)
  | str (value : String)
  | list (items : List Json)
  | obj (fields : List (String × Json))

namespace Json

mutual

def decEq : (left right : Json) → Decidable (left = right)
  | .null, .null => isTrue rfl
  | .bool left, .bool right =>
      decidable_of_iff (left = right) (by simp)
  | .int left, .int right => decidable_of_iff (left = right) (by simp)
  | .float left, .float right => decidable_of_iff (left = right) (by simp)
  | .str left, .str right => decidable_of_iff (left = right) (by simp)
  | .list left, .list right =>
      match decEqList left right with
      | isTrue same => isTrue (by rw [same])
      | isFalse differ => isFalse (by simpa using differ)
  | .obj left, .obj right =>
      match decEqFields left right with
      | isTrue same => isTrue (by rw [same])
      | isFalse differ => isFalse (by simpa using differ)
  | .null, .bool _ | .null, .int _ | .null, .float _ | .null, .str _
  | .null, .list _ | .null, .obj _
  | .bool _, .null | .bool _, .int _ | .bool _, .float _ | .bool _, .str _
  | .bool _, .list _ | .bool _, .obj _
  | .int _, .null | .int _, .bool _ | .int _, .float _ | .int _, .str _
  | .int _, .list _ | .int _, .obj _
  | .float _, .null | .float _, .bool _ | .float _, .int _ | .float _, .str _
  | .float _, .list _ | .float _, .obj _
  | .str _, .null | .str _, .bool _ | .str _, .int _ | .str _, .float _
  | .str _, .list _ | .str _, .obj _
  | .list _, .null | .list _, .bool _ | .list _, .int _ | .list _, .float _
  | .list _, .str _ | .list _, .obj _
  | .obj _, .null | .obj _, .bool _ | .obj _, .int _ | .obj _, .float _
  | .obj _, .str _ | .obj _, .list _ => isFalse nofun

def decEqList : (left right : List Json) → Decidable (left = right)
  | [], [] => isTrue rfl
  | [], _ :: _ => isFalse nofun
  | _ :: _, [] => isFalse nofun
  | left :: lefts, right :: rights =>
      match decEq left right, decEqList lefts rights with
      | isTrue same, isTrue sames => isTrue (by rw [same, sames])
      | isFalse differ, _ => isFalse fun same => differ (List.cons.inj same).1
      | _, isFalse differ => isFalse fun same => differ (List.cons.inj same).2

def decEqFields :
    (left right : List (String × Json)) → Decidable (left = right)
  | [], [] => isTrue rfl
  | [], _ :: _ => isFalse nofun
  | _ :: _, [] => isFalse nofun
  | (key, left) :: lefts, (other, right) :: rights =>
      match decEq left right, decEqFields lefts rights with
      | isTrue same, isTrue sames =>
          decidable_of_iff (key = other) (by rw [same, sames]; simp)
      | isFalse differ, _ =>
          isFalse fun same => differ (Prod.mk.inj (List.cons.inj same).1).2
      | _, isFalse differ => isFalse fun same => differ (List.cons.inj same).2

end

instance : DecidableEq Json := decEq

instance : Inhabited Json := ⟨.null⟩

/-- `type(value).__name__`. -/
def typeName : Json → String
  | .null => "NoneType"
  | .bool _ => "bool"
  | .int _ => "int"
  | .float _ => "float"
  | .str _ => "str"
  | .list _ => "list"
  | .obj _ => "dict"

/-! `str(value)`. -/

mutual

def reprText (unicode : Unicode) : Json → String
  | .null => "None"
  | .bool value => if value then "True" else "False"
  | .int value => toString value
  | .float value => value.repr
  | .str value => repr unicode value
  | .list items => "[" ++ ", ".intercalate (reprItems unicode items) ++ "]"
  | .obj fields => "\x7b" ++ ", ".intercalate (reprFields unicode fields) ++ "\x7d"

def reprItems (unicode : Unicode) : List Json → List String
  | [] => []
  | item :: items => item.reprText unicode :: reprItems unicode items

def reprFields (unicode : Unicode) : List (String × Json) → List String
  | [] => []
  | (key, value) :: fields =>
      (repr unicode key ++ ": " ++ value.reprText unicode) ::
        reprFields unicode fields

end

def text (unicode : Unicode) : Json → String
  | .str value => value
  | value => value.reprText unicode

/-! `json.dumps(value, ensure_ascii=False, separators=(",", ":"))`. -/

def escapeChar (c : Char) : List Char :=
  if c = '"' then ['\\', '"']
  else if c = '\\' then ['\\', '\\']
  else if c = '\n' then ['\\', 'n']
  else if c = '\r' then ['\\', 'r']
  else if c = '\t' then ['\\', 't']
  else if c.toNat = 8 then ['\\', 'b']
  else if c.toNat = 12 then ['\\', 'f']
  else if c.toNat < 32 then
    let digits := Nat.toDigits 16 c.toNat
    '\\' :: 'u' :: List.replicate (4 - digits.length) '0' ++ digits
  else [c]

def dumpsStr (text : String) : String :=
  String.ofList ('"' :: text.toList.flatMap escapeChar ++ ['"'])

def dumpsFloat : Float → String
  | .finite value => (Float.finite value).repr
  | .infinite negative => if negative then "-Infinity" else "Infinity"
  | .nan => "NaN"

mutual

def dumps : Json → String
  | .null => "null"
  | .bool value => if value then "true" else "false"
  | .int value => toString value
  | .float value => dumpsFloat value
  | .str value => dumpsStr value
  | .list items => "[" ++ ",".intercalate (dumpsItems items) ++ "]"
  | .obj fields => "\x7b" ++ ",".intercalate (dumpsFields fields) ++ "\x7d"

def dumpsItems : List Json → List String
  | [] => []
  | item :: items => item.dumps :: dumpsItems items

def dumpsFields : List (String × Json) → List String
  | [] => []
  | (key, value) :: fields =>
      (dumpsStr key ++ ":" ++ value.dumps) :: dumpsFields fields

end

/-- `bool(value)`. -/
def truthy : Json → Bool
  | .null => false
  | .bool value => value
  | .int value => value ≠ 0
  | .float (.finite value) => value.digits ≠ 0
  | .float _ => true
  | .str value => value ≠ ""
  | .list items => !items.isEmpty
  | .obj fields => !fields.isEmpty

def str? : Json → Option String
  | .str value => some value
  | _ => none

/-- The dictionary a JSON object is read as. -/
def dict? : Json → Option (Dict String Json)
  | .obj fields => some (Dict.ofList fields)
  | _ => none

/-- A dictionary as a JSON object. -/
def ofDict (dict : Dict String Json) : Json := .obj dict.entries

@[simp] theorem dict?_ofDict (dict : Dict String Json) :
    (ofDict dict).dict? = some dict := by
  simp [dict?, ofDict]

end Json

end Python
