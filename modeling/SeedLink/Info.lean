import SeedLink.Base

/-!
# INFO documents

The JSON and XML readers of the standard library are parameters; what the client makes of their
results is here: the message of a JSON error packet and the dictionary of an XML document.
-/

namespace SeedLink

/-- A value read from JSON; a number by its text and whether it is zero. -/
inductive Json
  | null
  | bool (b : Bool)
  | number (text : Text) (isZero : Bool)
  | str (s : Text)
  | arr (items : List Json)
  | obj (entries : List (Text × Json))

namespace Json

/-- `bool(value)`. -/
def truthy : Json → Bool
  | null => false
  | bool b => b
  | number _ isZero => !isZero
  | str s => !s.isEmpty
  | arr items => !items.isEmpty
  | obj entries => !entries.isEmpty

end Json

/-- Why a text is not read: `JSONDecodeError`, the `ValueError` for an integer of too many digits, or
nesting too deep for the stack. -/
inductive JsonFailure
  | decode (message : String)
  | digits (message : String)
  | recursion

class JsonReader where
  /-- `json.loads`. -/
  loads : Text → Except JsonFailure Json
  /-- `str(value)`. -/
  str : Json → Text

section json
variable [JsonReader]

/-- The value under `key`, if it counts as true. -/
def truthyEntry (key : String) (entries : List (Text × Json)) : Option Json :=
  (entries.lookup key.toList).filter Json.truthy

def jsonErrorMessage (payload : Bytes) : Except Exn Text :=
  let text := Bytes.decodeUtf8 payload
  match JsonReader.loads text with
  | .error (.decode _) => .ok text
  | .error (.digits message) => .error (.valueError message)
  | .error .recursion => .error .recursionError
  | .ok (.obj entries) =>
    match (truthyEntry "message" entries).or (truthyEntry "error" entries) with
    | some value => .ok (JsonReader.str value)
    | none => .ok text
  | .ok _ => .ok text

/-- `json.loads`, as an exception of the caller. -/
def loadsJson (text : Text) : Except Exn Json :=
  match JsonReader.loads text with
  | .ok value => .ok value
  | .error (.decode message) | .error (.digits message) => .error (.valueError message)
  | .error .recursion => .error .recursionError

end json

/-! ### XML -/

inductive Element
  | mk (tag : Text) (attrib : List (Text × Text)) (children : List Element)

/-- A value in the dictionary of an XML document. -/
inductive XmlValue
  | text (t : Text)
  | dict (entries : List (Text × XmlValue))
  | list (items : List XmlValue)

class XmlReader where
  /-- `ET.fromstring`, or the text of its `ParseError`. -/
  fromstring : Text → Except String Element
  /-- How many calls of `walk` fit on the stack. -/
  stackDepth : Nat

namespace Element

def tag : Element → Text
  | mk tag _ _ => tag

/-- `result.setdefault(tag, []).append(value)` for the value `walk` gives; the method is looked up
before the call. -/
def appendUnder (tag : Text) (value : Except Exn XmlValue) :
    List (Text × XmlValue) → Except Exn (List (Text × XmlValue))
  | [] => do return [(tag, .list [← value])]
  | (key, entry) :: rest =>
    if key = tag then
      match entry with
      | .list items => do return (key, .list (items ++ [← value])) :: rest
      | _ => .error .attributeError
    else do return (key, entry) :: (← appendUnder tag value rest)

/-- `walk`, with the number of calls that still fit on the stack. -/
def walk : Nat → Element → Except Exn XmlValue
  | 0, _ => .error .recursionError
  | depth + 1, mk _ attrib children => do
    let entries ← children.foldlM (fun entries child => appendUnder child.tag (walk depth child) entries)
      (attrib.map fun a => (a.1, XmlValue.text a.2))
    return .dict entries

end Element

/-- The result of `info_dict`. -/
inductive InfoDict
  | json (value : Json)
  | xml (entries : List (Text × XmlValue))

def parseInfoXml [XmlReader] (text : Text) : Except Exn InfoDict :=
  match XmlReader.fromstring text with
  | .error message => .error (seedLinkError s!"Malformed INFO XML from server: {message}")
  | .ok root => do
    let value ← root.walk XmlReader.stackDepth
    return .xml [(root.tag, value)]

/-- Everything the client takes from code it does not contain. -/
class Externals extends Pymseed, Unicode, Iso8601, JsonReader, XmlReader

/-- No records, no letters or digits beyond ASCII, and no document that can be read. -/
abbrev Externals.bare : Externals where
  toPymseed := Pymseed.bare
  isAlnum c := c.isAlphanum
  digit? c := if c.isDigit then some (c.toNat - 48) else none
  isAlnum_ascii _ _ := rfl
  digit?_ascii _ _ := rfl
  fromisoformat _ := none
  loads _ := .error (.decode "Expecting value")
  str _ := []
  fromstring _ := .error "syntax error"
  stackDepth := 900

end SeedLink
