/-
  Values as XML.

  Every value becomes an element: a member of an object is named by its key, the items of an array
  all by the key of the array.  Keys that are no XML names make the value unwritable.
-/
import SourceWeb.Json.Basic
import SourceWeb.Text.Split

namespace SourceWeb.Xml

def isNameStart (c : Char) : Bool :=
  let n := c.toNat
  c == ':' || c == '_' || c.isAlpha ||
  [(0xC0, 0xD6), (0xD8, 0xF6), (0xF8, 0x2FF), (0x370, 0x37D), (0x37F, 0x1FFF), (0x200C, 0x200D),
    (0x2070, 0x218F), (0x2C00, 0x2FEF), (0x3001, 0xD7FF), (0xF900, 0xFDCF), (0xFDF0, 0xFFFD),
    (0x10000, 0xEFFFF)].any fun r => r.1 ≤ n && n ≤ r.2

def isNameChar (c : Char) : Bool :=
  let n := c.toNat
  isNameStart c || c == '-' || c == '.' || c.isDigit || n == 0xB7 || (0x300 ≤ n && n ≤ 0x36F) ||
    (0x203F ≤ n && n ≤ 0x2040)

inductive Defect
  /-- A key is no name: a character of it may not stand where it does. -/
  | badKey (key : String) (c : Char) (atStart : Bool)
  /-- A key asks for an attribute, which the value cannot be. -/
  | noAttribute (typeName : String)
  /-- A key asks for bare text, which the value cannot be. -/
  | noText (typeName : String)
  /-- A key asks for content without an element of its own, which the value cannot be. -/
  | noContent (typeName : String)
  deriving DecidableEq, Repr

def Defect.message : Defect → String
  | badKey key c atStart =>
    "unsupported value: character \x60" ++ c.toString ++ "\x60 is not allowed " ++
      (if atStart then "at the start of" else "in") ++ " an XML name \x60" ++ key ++ "\x60"
  | noAttribute typeName =>
    "unsupported value: cannot serialize struct \x60" ++ typeName ++
      "\x60 as an attribute or text content value"
  | noText typeName =>
    "unsupported value: cannot serialize struct \x60" ++ typeName ++ "\x60 as text content value"
  | noContent typeName =>
    "unsupported value: serialization of struct \x60" ++ typeName ++
      "\x60 is not supported in \x60$value\x60 field"

def checkName (key : String) : Except Defect Unit :=
  match key.toList with
  | [] => .ok ()
  | c :: cs =>
    if !isNameStart c then .error (.badKey key c true)
    else match cs.find? fun d => !isNameChar d with
      | some d => .error (.badKey key d false)
      | none => .ok ()

/-- Refuses a key that names no element.  One that starts with an at-sign asks for an attribute,
    `$text` for bare text and `$value` for bare content, and a value of the type can be none of
    these. -/
def checkKey (typeName key : String) : Except Defect Unit :=
  match Text.afterStart "@" key with
  | some name => (checkName name).bind fun _ => .error (.noAttribute typeName)
  | none =>
    if key = "$text" then .error (.noText typeName)
    else if key = "$value" then .error (.noContent typeName)
    else checkName key

/-- A character of a text; the three that mark up are written as entities. -/
def escapeChar (c : Char) : List Char :=
  if c = '<' then "&lt;".toList
  else if c = '>' then "&gt;".toList
  else if c = '&' then "&amp;".toList
  else [c]

def element (key : String) (content : List Char) : List Char :=
  if content.isEmpty then '<' :: key.toList ++ "/>".toList
  else '<' :: key.toList ++ '>' :: content ++ "</".toList ++ key.toList ++ ['>']

mutual

/-- The value as an element of a name, or as several if it is an array. -/
def elements (typeName name : String) : Json → Except Defect (List Char)
  | .arr items => itemElements typeName name items
  | .obj members => (memberElements typeName members).map (element name)
  | .null => .ok (element name [])
  | .bool b => .ok (element name (if b then "true" else "false").toList)
  | .num n => .ok (element name n.toList)
  | .str s => .ok (element name (s.toList.flatMap escapeChar))

def itemElements (typeName name : String) : List Json → Except Defect (List Char)
  | [] => .ok []
  | v :: vs => do return (← elements typeName name v) ++ (← itemElements typeName name vs)

def memberElements (typeName : String) : List (String × Json) → Except Defect (List Char)
  | [] => .ok []
  | (k, v) :: ms => do
    checkKey typeName k
    return (← elements typeName k v) ++ (← memberElements typeName ms)

end

/-- Names for what has no key: the outermost element, and the type of the values that stand under
    keys of any kind. -/
structure Names where
  root : String
  nested : String := ""
  deriving DecidableEq, Repr

def render (names : Names) (v : Json) : Except Defect String := do
  checkName names.root
  return String.ofList (← elements names.nested names.root v)

end SourceWeb.Xml
