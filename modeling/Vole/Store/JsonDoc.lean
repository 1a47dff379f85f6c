import Vole.Go.Runtime

/-!
# JSON documents

`jsonstore.go`: documents as trees, addressed by paths such as `$.tags[0].name`. The
source walks to the parent of the addressed value and writes into it; here `update` walks
the same way and rebuilds the tree around the new parent.
-/

namespace Vole

open Go

/-- The errors of the store. `Err.text` is the message of each; `panic` is no error value
but a run-time panic of the operation. -/
inductive Err where
  | wrongType
  | notInteger
  | notFloat
  | noSuchKey
  | hashArity
  | hashNotInteger
  | listArity
  | setArity
  | zsetArity
  | streamArity
  | streamId
  | noStream
  | groupExists
  | noGroup
  | memberNotFound
  | indexRange
  | offsetRange
  | bitOffset
  | bitValue
  | bitOpNot
  | bitOpUnsupported (op : Bytes)
  | keyNotFound
  | sourceNotFound
  | jsonRoot
  | jsonSyntax (message : Bytes)
  | jsonNoMember (part : Bytes)
  | jsonBadIndex (part : Bytes)
  | jsonIndexAt (idx : Int)
  | jsonNavigate (goType : Bytes)
  | jsonAtoi (part : Bytes)
  | jsonIndexRange
  | jsonSetType
  | jsonParent
  | jsonDelType
  | jsonDelParent
  | jsonNotNumber
  | jsonNotArray
  | jsonNotObject
  | outOfMemory
  | panic
  deriving DecidableEq

/-- The text of the error of `strconv.Atoi` or `strconv.ParseInt` on an argument it
rejects. -/
def numErrorText (R : Runtime) (func s : Bytes) : Bytes :=
  let digits := match s with
    | 43 :: rest => rest
    | 45 :: rest => rest
    | _ => s
  let valid := digits ≠ [] ∧ ∀ c ∈ digits, 48 ≤ c ∧ c ≤ 57
  bytes "strconv." ++ func ++ bytes ": parsing " ++ R.quote s
    ++ (if valid then bytes ": value out of range" else bytes ": invalid syntax")

def atoiText (R : Runtime) (s : Bytes) : Bytes := numErrorText R (bytes "Atoi") s

def Err.text (R : Runtime) : Err → Bytes
  | wrongType => bytes "wrong type"
  | notInteger => bytes "value is not an integer"
  | notFloat => bytes "value is not a valid float"
  | noSuchKey => bytes "no such key"
  | hashArity => bytes "wrong number of hash field arguments"
  | hashNotInteger => bytes "hash value is not an integer"
  | listArity => bytes "wrong number of list values"
  | setArity => bytes "wrong number of set members"
  | zsetArity => bytes "wrong number of sorted set members"
  | streamArity => bytes "wrong number of stream field arguments"
  | streamId => bytes "stream ID must be greater than previous ID"
  | noStream => bytes "stream does not exist"
  | groupExists => bytes "consumer group already exists"
  | noGroup => bytes "consumer group does not exist"
  | memberNotFound => bytes "member not found"
  | indexRange => bytes "index out of range"
  | offsetRange => bytes "offset is out of range"
  | bitOffset => bytes "bit offset is not an integer or out of range"
  | bitValue => bytes "bit is not an integer or out of range"
  | bitOpNot => bytes "BITOP NOT requires one and only one key"
  | bitOpUnsupported op => bytes "unsupported BITOP operation " ++ R.quote op
  | keyNotFound => bytes "key not found"
  | sourceNotFound => bytes "source key not found"
  | jsonRoot => bytes "new doc must use root path $"
  | jsonSyntax message => message
  | jsonNoMember part => bytes "key " ++ R.quote part ++ bytes " not found"
  | jsonBadIndex part => bytes "invalid array index " ++ R.quote part
  | jsonIndexAt idx => bytes "index " ++ formatInt idx ++ bytes " out of range"
  | jsonNavigate goType => bytes "cannot navigate into " ++ goType
  | jsonAtoi part => atoiText R part
  | jsonIndexRange => bytes "index out of range"
  | jsonSetType => bytes "cannot set on this type"
  | jsonParent => bytes "parent is not an object or array"
  | jsonDelType => bytes "cannot delete from this type"
  | jsonDelParent => bytes "parent is not an object"
  | jsonNotNumber => bytes "not a number"
  | jsonNotArray => bytes "not an array"
  | jsonNotObject => bytes "not an object"
  | outOfMemory => bytes "OOM command not allowed when used memory > 'maxmemory'"
  | panic => bytes "runtime error: index out of range"

namespace JsonDoc

/-! ## Objects -/

def member (name : Bytes) : List (Bytes × JVal) → Option JVal
  | [] => none
  | (n, v) :: rest => if n = name then some v else member name rest

/-- Writing a member; the members stay sorted by name. -/
def setMember (name : Bytes) (value : JVal) : List (Bytes × JVal) → List (Bytes × JVal)
  | [] => [(name, value)]
  | (n, v) :: rest =>
    if n = name then (name, value) :: rest
    else if name < n then (name, value) :: (n, v) :: rest
    else (n, v) :: setMember name value rest

def delMember (name : Bytes) (members : List (Bytes × JVal)) : List (Bytes × JVal) :=
  members.filter (fun m => m.1 ≠ name)

/-! ## Paths -/

/-- `string(b)` for a byte: the UTF-8 text of the code point. -/
def runeOfByte (c : UInt8) : Bytes :=
  if c < 128 then [c] else [(0xC0 : UInt8) ||| (c >>> 6), (0x80 : UInt8) ||| (c &&& 0x3F)]

/-- The loop of `parsePath`; `current` is the part being read. -/
def parsePathFrom (current : Bytes) : Bytes → List Bytes
  | [] => if current = [] then [] else [current]
  | c :: rest =>
    if c = 46 ∨ c = 91 ∨ c = 93 then
      if current = [] then parsePathFrom [] rest else current :: parsePathFrom [] rest
    else parsePathFrom (current ++ runeOfByte c) rest

/-- `parsePath` -/
def parsePath (path : Bytes) : List Bytes := parsePathFrom [] path

/-- `strings.TrimPrefix` -/
def trimPrefix (s start : Bytes) : Bytes :=
  if start.isPrefixOf s then s.drop start.length else s

def isRoot (path : Bytes) : Bool := path = bytes "$" || path = bytes "." || path = []

/-- The parts of a path that is not the root. -/
def partsOf (path : Bytes) : List Bytes :=
  parsePath (trimPrefix (trimPrefix path (bytes "$.")) (bytes "$"))

/-- The verb `%T` on a value `navigate` cannot enter. -/
def goType : JVal → Bytes
  | .null => bytes "<nil>"
  | .bool _ => bytes "bool"
  | .num _ => bytes "float64"
  | .str _ => bytes "string"
  | .arr _ => bytes "[]interface \x7b\x7d"
  | .obj _ => bytes "map[string]interface \x7b\x7d"

/-- The index a path part names in an array; negative ones count from the end. -/
def arrayIndex (part : Bytes) (length : Nat) : Except Err Nat :=
  match parseInt part with
  | none => .error (.jsonBadIndex part)
  | some idx =>
    let idx := if idx < 0 then length + idx else idx
    if idx < 0 ∨ (length : Int) ≤ idx then .error (.jsonIndexAt idx) else .ok idx.toNat

/-- `navigate` -/
def navigate : JVal → List Bytes → Except Err JVal
  | v, [] => .ok v
  | .obj members, part :: rest =>
    match member part members with
    | none => .error (.jsonNoMember part)
    | some child => navigate child rest
  | .arr items, part :: rest =>
    match arrayIndex part items.length with
    | .error e => .error e
    | .ok idx => navigate (items.getD idx .null) rest
  | v, _ :: _ => .error (.jsonNavigate (goType v))

/-- Walking to a value and replacing it in the tree. -/
def update (f : JVal → Except Err JVal) : JVal → List Bytes → Except Err JVal
  | v, [] => f v
  | .obj members, part :: rest =>
    match member part members with
    | none => .error (.jsonNoMember part)
    | some child =>
      match update f child rest with
      | .error e => .error e
      | .ok child => .ok (.obj (setMember part child members))
  | .arr items, part :: rest =>
    match arrayIndex part items.length with
    | .error e => .error e
    | .ok idx =>
      match update f (items.getD idx .null) rest with
      | .error e => .error e
      | .ok child => .ok (.arr (items.set idx child))
  | v, _ :: _ => .error (.jsonNavigate (goType v))

/-- Writing a child of an object or array; `other` is the error on anything else. Unlike
`navigate`, an index counted from the end is refused. -/
def setChild (last : Bytes) (value : JVal) (other : Err) : JVal → Except Err JVal
  | .obj members => .ok (.obj (setMember last value members))
  | .arr items =>
    match parseInt last with
    | none => .error (.jsonAtoi last)
    | some idx =>
      if idx < 0 ∨ (items.length : Int) ≤ idx then .error .jsonIndexRange
      else .ok (.arr (items.set idx.toNat value))
  | _ => .error other

/-- `setPath` -/
def setPath (doc : JVal) (parts : List Bytes) (value : JVal) : Except Err JVal :=
  match parts with
  | [] => .ok value
  | [part] => setChild part value .jsonSetType doc
  | part :: next :: rest =>
    update (setChild ((next :: rest).getLastD next) value .jsonParent) doc
      (part :: next :: rest).dropLast

/-- Deleting a child of an object. -/
def delChild (last : Bytes) (other : Err) : JVal → Except Err JVal
  | .obj members => .ok (.obj (delMember last members))
  | _ => .error other

/-- `delPath` -/
def delPath (doc : JVal) (parts : List Bytes) : Except Err JVal :=
  match parts with
  | [] => .ok .null
  | [part] => delChild part .jsonDelType doc
  | part :: next :: rest =>
    update (delChild ((next :: rest).getLastD next) .jsonDelParent) doc
      (part :: next :: rest).dropLast

/-! ## The methods of a document -/

variable (doc : JVal) (path : Bytes)

/-- `Get` -/
def get : Except Err JVal :=
  if isRoot path then .ok doc else navigate doc (partsOf path)

/-- `Set` -/
def set (value : JVal) : Except Err JVal :=
  if isRoot path then .ok value else setPath doc (partsOf path) value

/-- `Del` -/
def del : Except Err JVal :=
  if isRoot path then .ok .null else delPath doc (partsOf path)

/-- `Type` -/
def typeAt : Bytes :=
  match get doc path with
  | .ok (.obj _) => bytes "object"
  | .ok (.arr _) => bytes "array"
  | .ok (.str _) => bytes "string"
  | .ok (.num _) => bytes "number"
  | .ok (.bool _) => bytes "boolean"
  | _ => bytes "null"

/-- `Keys` -/
def keys : Except Err (List Bytes) :=
  match get doc path with
  | .error e => .error e
  | .ok (.obj members) => .ok (members.map (·.1))
  | .ok _ => .error .jsonNotObject

/-- `NumIncrBy`: the new number and the new document. -/
def numIncrBy (R : Runtime) (doc : JVal) (path : Bytes) (delta : F64) : Except Err (F64 × JVal) :=
  match get doc path with
  | .error e => .error e
  | .ok (.num x) =>
    let result := R.addFloat x delta
    (set doc path (.num result)).map (fun doc => (result, doc))
  | .ok _ => .error .jsonNotNumber

/-- `ArrAppend`: the new length and the new document. -/
def arrAppend (values : List JVal) : Except Err (Nat × JVal) :=
  match get doc path with
  | .error e => .error e
  | .ok (.arr items) =>
    (set doc path (.arr (items ++ values))).map (fun doc => (items.length + values.length, doc))
  | .ok _ => .error .jsonNotArray

/-- `ArrLen` -/
def arrLen : Except Err Nat :=
  match get doc path with
  | .error e => .error e
  | .ok (.arr items) => .ok items.length
  | .ok _ => .error .jsonNotArray

end JsonDoc

end Vole
