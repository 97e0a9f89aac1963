import Memcp.Identity

/-! The keys file, as it is parsed and as it resolves tokens. -/

namespace Memcp

open Python

def secretPrefix : String := "sha256:"

/-- `str.removeprefix`. -/
def removePrefix (text lead : String) : String :=
  if lead.toList.isPrefixOf text.toList then
    String.ofList (text.toList.drop lead.toList.length)
  else text

/-- `[A-Za-z0-9_.-]`. -/
def isNameChar (c : Char) : Bool :=
  ('A' ≤ c && c ≤ 'Z') || ('a' ≤ c && c ≤ 'z') || ('0' ≤ c && c ≤ '9') ||
    c = '_' || c = '.' || c = '-'

/-- `[0-9a-f]`. -/
def isHexChar (c : Char) : Bool := ('0' ≤ c && c ≤ '9') || ('a' ≤ c && c ≤ 'f')

/-- `^[A-Za-z0-9_.-]{1,64}$`. -/
def isKeyName (text : String) : Bool :=
  1 ≤ text.length && text.length ≤ 64 && text.toList.all isNameChar

/-- `^sha256:[0-9a-f]{64}$`. -/
def isSecret (text : String) : Bool :=
  secretPrefix.toList.isPrefixOf text.toList &&
    (text.toList.drop secretPrefix.toList.length).length = 64 &&
    (text.toList.drop secretPrefix.toList.length).all isHexChar

structure GrantEntry where
  space : String
  relation : Relation

/-- One key of the file, as the schema lets it through. -/
structure KeyEntry where
  name : String
  secrets : List String
  grants : List GrantEntry
  named : isKeyName name = true
  secret : ∀ text ∈ secrets, isSecret text = true
  listed : 1 ≤ secrets.length
  granted : 1 ≤ grants.length ∧ grants.length ≤ 1

structure KeysFile where
  keys : List KeyEntry
  filled : 1 ≤ keys.length

/-- The configured keys, found by the SHA-256 of a token. -/
structure KeyTable where
  byDigest : Dict String Key
  deriving DecidableEq

namespace KeyTable

/-- The key a token belongs to.  `sha256` is the hex digest of a text's bytes. -/
def resolve (sha256 : String → String) (token : String) (table : KeyTable) :
    Option Key :=
  table.byDigest.get? (sha256 token)

/-- `list(dict.fromkeys(self._by_digest.values()))`. -/
def keys (table : KeyTable) : List Key :=
  (Dict.ofList (table.byDigest.values.map fun key => (key, ()))).keys

end KeyTable

/-- The three maps `load_keys` fills. -/
structure KeyMaps where
  byDigest : Dict String Key := ∅
  owner : Dict String Nat := ∅
  names : Dict String Nat := ∅

namespace KeyEntry

/-- `entry.grants[0]`. -/
def grant (entry : KeyEntry) : Grant :=
  let first := entry.grants.get ⟨0, entry.granted.1⟩
  ⟨first.space, first.relation⟩

def key (entry : KeyEntry) : Key := ⟨entry.name, entry.grant⟩

end KeyEntry

def digestOf (secret : String) : String := removePrefix secret secretPrefix

def keysFileError (path problem : String) : Exc :=
  .valueError ("MEMCP_KEYS_FILE " ++ path ++ ": " ++ problem)

/-- One turn of the loop over the secrets of the `n`th key. -/
def loadSecret (path : String) (n : Nat) (key : Key) (maps : KeyMaps)
    (secret : String) : Except Exc KeyMaps :=
  let digest := digestOf secret
  if maps.owner.get? digest = some n then
    throw (keysFileError path ("key " ++ toString n ++ " lists the same secret twice"))
  else match maps.owner.get? digest with
  | some other =>
      throw (keysFileError path
        ("keys " ++ toString other ++ " and " ++ toString n ++ " list the same secret"))
  | none =>
      return { maps with
        owner := maps.owner.set digest n
        byDigest := maps.byDigest.set digest key }

/-- One turn of the loop over the keys. -/
def loadKey (path : String) (maps : KeyMaps) (numbered : KeyEntry × Nat) :
    Except Exc KeyMaps := do
  let (entry, n) := numbered
  match maps.names.get? entry.name with
  | some other =>
      -- A name in form is its own `repr`, in quotes.
      throw (keysFileError path
        ("keys " ++ toString other ++ " and " ++ toString n ++ " are both named '" ++
          entry.name ++ "'"))
  | none =>
      entry.secrets.foldlM (loadSecret path n entry.key)
        { maps with names := maps.names.set entry.name n }

/-- What `load_keys` does with the parsed file. -/
def loadKeys (path : String) (file : KeysFile) : Except Exc KeyTable := do
  let maps ← (file.keys.zipIdx 1).foldlM (loadKey path) {}
  return ⟨maps.byDigest⟩

end Memcp
