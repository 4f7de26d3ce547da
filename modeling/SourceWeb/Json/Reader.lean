/-
  Reading JSON texts.

  The reader is strict: nothing but one value and white space may stand in the text, and values nest
  up to a limit.  The members of an object are kept in the order of their keys; of several members
  with one key the last counts.
-/
import SourceWeb.Json.Basic
import SourceWeb.Number.Double
import SourceWeb.Number.Numeral
import SourceWeb.Text.Order
import SourceWeb.Text.Split

namespace SourceWeb.Json

open SourceWeb.Text

/-! ### Numbers

A number is taken up in 64 bits; digits that do not fit are dropped, those before the point for a
factor of ten each.  It has to be in the range of a double when it is multiplied with its power of
ten. -/

/-- Takes up digits as long as the number stays below `2^64`; gives the digits that are left. -/
def takeUp (n : Nat) : List Char → Nat × List Char
  | [] => (n, [])
  | d :: ds =>
    if withDigit 10 n d < Nat.pow 2 64 then takeUp (withDigit 10 n d) ds else (n, d :: ds)

def inRange (n : Numeral) : Bool :=
  let (whole, dropped) := takeUp 0 n.whole
  let (value, unused) := takeUp whole n.decimals
  Double.productInRange value (n.scale + dropped.length + unused.length)

def number (cs : List Char) : Option (String × List Char) := do
  let unsigned := match cs with
    | '-' :: cs => cs
    | cs => cs
  let (n, rest) ← Numeral.read Numeral.plainRun unsigned
  if inRange n then some (String.ofList (upTo cs rest), rest) else none

/-! ### Tokens -/

def isSpace (c : Char) : Bool :=
  c == ' ' || c == '\n' || c == '\t' || c == '\r'

def skipSpace (cs : List Char) : List Char :=
  cs.dropWhile isSpace

/-- Reads the code of a character behind a backslash and a `u`.  A code of the first half of a pair
    has to be followed by one of the second half. -/
def unicodeEscape (cs : List Char) : Option (Char × List Char) := do
  let (n, cs) ← fixedNumber 16 4 cs
  if 0xDC00 ≤ n ∧ n ≤ 0xDFFF then none
  else if 0xD800 ≤ n ∧ n ≤ 0xDBFF then
    match cs with
    | '\\' :: 'u' :: cs =>
      let (m, cs) ← fixedNumber 16 4 cs
      if 0xDC00 ≤ m ∧ m ≤ 0xDFFF then
        some (Char.ofNat (0x10000 + (n - 0xD800) * 1024 + (m - 0xDC00)), cs)
      else none
    | _ => none
  else some (Char.ofNat n, cs)

def escape : List Char → Option (Char × List Char)
  | '"' :: cs => some ('"', cs)
  | '\\' :: cs => some ('\\', cs)
  | '/' :: cs => some ('/', cs)
  | 'b' :: cs => some ('\x08', cs)
  | 'f' :: cs => some ('\x0C', cs)
  | 'n' :: cs => some ('\n', cs)
  | 'r' :: cs => some ('\r', cs)
  | 't' :: cs => some ('\t', cs)
  | 'u' :: cs => unicodeEscape cs
  | _ => none

/-- Reads the rest of a string, behind its opening quote or a part of it. -/
def stringTail : Nat → List Char → List Char → Option (String × List Char)
  | 0, _, _ => none
  | fuel + 1, read, cs =>
    match cs with
    | '"' :: cs => some (String.ofList read.reverse, cs)
    | '\\' :: cs =>
      match escape cs with
      | some (c, cs) => stringTail fuel (c :: read) cs
      | none => none
    | c :: cs => if c.toNat < 32 then none else stringTail fuel (c :: read) cs
    | [] => none

def string (cs : List Char) : Option (String × List Char) :=
  stringTail (cs.length + 1) [] cs

/-! ### Values -/

def putMember (key : String) (v : Json) : List (String × Json) → List (String × Json)
  | [] => [(key, v)]
  | (k, old) :: ms =>
    if key = k then (key, v) :: ms
    else if precedes key k then (key, v) :: (k, old) :: ms
    else (k, old) :: putMember key v ms

mutual

/-- Reads a value; `depth` more arrays and objects may nest in it. -/
def value : Nat → Nat → List Char → Option (Json × List Char)
  | 0, _, _ => none
  | fuel + 1, depth, cs =>
    match skipSpace cs with
    | '"' :: cs => (string cs).map fun (s, cs) => (str s, cs)
    | '[' :: cs =>
      match depth with
      | 0 => none
      | depth + 1 =>
        match skipSpace cs with
        | ']' :: cs => some (arr [], cs)
        | cs => items fuel depth [] cs
    | '\x7b' :: cs =>
      match depth with
      | 0 => none
      | depth + 1 =>
        match skipSpace cs with
        | '\x7d' :: cs => some (obj [], cs)
        | cs => members fuel depth [] cs
    | 't' :: 'r' :: 'u' :: 'e' :: cs => some (bool true, cs)
    | 'f' :: 'a' :: 'l' :: 's' :: 'e' :: cs => some (bool false, cs)
    | 'n' :: 'u' :: 'l' :: 'l' :: cs => some (null, cs)
    | cs => (number cs).map fun (n, cs) => (num n, cs)

def items : Nat → Nat → List Json → List Char → Option (Json × List Char)
  | 0, _, _, _ => none
  | fuel + 1, depth, read, cs =>
    match value fuel depth cs with
    | some (v, cs) =>
      match skipSpace cs with
      | ',' :: cs => items fuel depth (v :: read) cs
      | ']' :: cs => some (arr (v :: read).reverse, cs)
      | _ => none
    | none => none

def members : Nat → Nat → List (String × Json) → List Char → Option (Json × List Char)
  | 0, _, _, _ => none
  | fuel + 1, depth, read, cs =>
    match skipSpace cs with
    | '"' :: cs =>
      match string cs with
      | some (key, cs) =>
        match skipSpace cs with
        | ':' :: cs =>
          match value fuel depth cs with
          | some (v, cs) =>
            match skipSpace cs with
            | ',' :: cs => members fuel depth (putMember key v read) cs
            | '\x7d' :: cs => some (obj (putMember key v read), cs)
            | _ => none
          | none => none
        | _ => none
      | none => none
    | _ => none

end

def depthLimit : Nat := 127

def ofChars? (cs : List Char) : Option Json :=
  match value (2 * cs.length + 2) depthLimit cs with
  | some (v, rest) => if (skipSpace rest).isEmpty then some v else none
  | none => none

def ofText? (text : String) : Option Json :=
  ofChars? text.toList

end SourceWeb.Json
