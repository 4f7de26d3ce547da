/-
  Reading what a backslash introduces in a pattern.
-/
import SourceWeb.Character.Named
import SourceWeb.Pattern.Place
import SourceWeb.Pattern.Reader.Source
import SourceWeb.Text.Digits

namespace SourceWeb.Pattern

open SourceWeb.Text
open SourceWeb.Character (Ranges)

inductive Escape
  | char (c : Char)
  | set (rs : Ranges)
  | place (p : Place)

/-! ### Named classes -/

def asciiClass? : String → Option Ranges
  | "alnum" => some [(0x30, 0x39), (0x41, 0x5A), (0x61, 0x7A)]
  | "alpha" => some [(0x41, 0x5A), (0x61, 0x7A)]
  | "ascii" => some [(0, 0x7F)]
  | "blank" => some [(9, 9), (0x20, 0x20)]
  | "cntrl" => some [(0, 0x1F), (0x7F, 0x7F)]
  | "digit" => some [(0x30, 0x39)]
  | "graph" => some [(0x21, 0x7E)]
  | "lower" => some [(0x61, 0x7A)]
  | "print" => some [(0x20, 0x7E)]
  | "punct" => some [(0x21, 0x2F), (0x3A, 0x40), (0x5B, 0x60), (0x7B, 0x7E)]
  | "space" => some [(9, 0xD), (0x20, 0x20)]
  | "upper" => some [(0x41, 0x5A)]
  | "word" => some [(0x30, 0x39), (0x41, 0x5A), (0x5F, 0x5F), (0x61, 0x7A)]
  | "xdigit" => some [(0x30, 0x39), (0x41, 0x46), (0x61, 0x66)]
  | _ => none

def letterClass? (f : Flags) (c : Char) : Option Ranges :=
  match c with
  | 'd' => if f.asciiOnly then asciiClass? "digit" else some decimalRanges
  | 's' => if f.asciiOnly then asciiClass? "space" else some blankRanges
  | 'w' => if f.asciiOnly then asciiClass? "word" else some wordRanges
  | _ => none

/-- Reads the name of a class of the whole alphabet, behind the opening brace, and looks it up; it
    may be the name of a property and a value that the property has or, behind an exclamation mark,
    has not.  Says too whether the class is inverted. -/
def bracedClass : Read (Bool × Ranges) := do
  Read.skipSpace
  let name ← Read.takeSpaced (· != '\x7d')
  if !(← Read.skipText "\x7d") then Read.refuse .badEscape
  let found := match splitAtText "!=".toList name, name.span (· != ':'), name.span (· != '=') with
    | property :: rest@(_ :: _), _, _ =>
      (Character.valueRanges? property ("!=".toList.intercalate rest)).map ((true, ·))
    | _, (property, _ :: value), _ => (Character.valueRanges? property value).map ((false, ·))
    | _, _, (property, _ :: value) => (Character.valueRanges? property value).map ((false, ·))
    | _, _, _ => (Character.namedRanges? name).map ((false, ·))
  match found with
  | some class_ => return class_
  | none => Read.refuse .unknownClass

/-- Reads a class of the whole alphabet: one letter, or a name in braces. -/
def alphabetClass (negated : Bool) : Read Ranges := do
  let f ← Read.flags
  if f.asciiOnly then Read.refuse .beyondAscii
  Read.skipSpace
  if ← Read.skipText "\x7b" then
    let (inverted, rs) ← bracedClass
    f.close (negated != inverted) rs
  else
    match ← Read.peek? with
    | some c =>
      Read.skip
      match if c == '\\' then none else Character.namedRanges? [c] with
      | some rs => f.close negated rs
      | none => Read.refuse .unknownClass
    | none => Read.refuse .badEscape

/-! ### Characters by number -/

/-- The character with the given code point; surrogates and what lies beyond are refused. -/
def charOf (n : Nat) : Read Char :=
  if n.isValidChar then return Char.ofNat n else Read.refuse .badEscape

def hexChar (digits : List Char) : Read Char :=
  if !digits.isEmpty && digits.all (isDigitOf 16) then charOf (digitsValue 16 digits)
  else Read.refuse .badEscape

/-- Reads exactly `n` characters, white space apart where the flags say that it does not count. -/
def takeExactly : Nat → Read (List Char)
  | 0 => return []
  | n + 1 => do
    let some c ← Read.peek? | Read.refuse .badEscape
    Read.skip
    Read.skipSpace
    return c :: (← takeExactly n)

/-- Reads the digits of a character code: exactly `width` of them, or any number in braces.  Two
    digits without braces stand for a byte, which is no character beyond ASCII where only ASCII is
    allowed. -/
def hexEscape (width : Nat) : Read Char := do
  Read.skipSpace
  if ← Read.skipText "\x7b" then
    Read.skipSpace
    let digits ← Read.takeSpaced (· != '\x7d')
    if !(← Read.skipText "\x7d") then Read.refuse .badEscape
    Read.skipSpace
    hexChar digits
  else
    let c ← hexChar (← takeExactly width)
    if width = 2 && (← Read.flags).asciiOnly && c.toNat > 0x7F then Read.refuse .beyondAscii
    return c

/-! ### Places -/

def Flags.wordPlace (f : Flags) (e : WordEdge) : Place :=
  if f.asciiOnly then .asciiWord e else .word e

def namedEdge? : String → Option WordEdge
  | "start" => some .start
  | "end" => some .stop
  | "start-half" => some .startHalf
  | "end-half" => some .stopHalf
  | _ => none

/-- Reads what follows `\b`: a particular edge of a word in braces, or nothing. -/
def edge : Read WordEdge := do
  let isNameChar (c : Char) : Bool := c.isAlpha || c == '-'
  let s ← get
  match s.rest with
  | '\x7b' :: rest =>
    match Read.afterSpace s.flags rest with
    | [] => Read.refuse .badEscape
    | c :: cs =>
      if !isNameChar c then return .edge
      Read.moveTo (c :: cs)
      let name ← Read.takeSpaced isNameChar
      if !(← Read.skipText "\x7d") then Read.refuse .badEscape
      match namedEdge? (String.ofList name) with
      | some e => return e
      | none => Read.refuse .badEscape
  | _ => return .edge

/-! ### Escapes -/

def escape : Read Escape := do
  let some c ← Read.peek? | Read.refuse .badEscape
  Read.skip
  let f ← Read.flags
  match letterClass? f c, letterClass? f c.toLower with
  | some rs, _ => return .set rs
  -- a class in upper case is the complement, which holds characters beyond ASCII
  | none, some rs =>
    if f.asciiOnly then Read.refuse .beyondAscii
    return .set rs.compl
  | none, none =>
    match c with
    | 'p' => return .set (← alphabetClass false)
    | 'P' => return .set (← alphabetClass true)
    | 'x' => return .char (← hexEscape 2)
    | 'u' => return .char (← hexEscape 4)
    | 'U' => return .char (← hexEscape 8)
    | 'a' => return .char '\x07'
    | 'f' => return .char '\x0C'
    | 't' => return .char '\t'
    | 'n' => return .char '\n'
    | 'r' => return .char '\r'
    | 'v' => return .char '\x0B'
    | 'A' => return .place .textStart
    | 'z' => return .place .textEnd
    | 'b' => return .place (f.wordPlace (← edge))
    | 'B' => return .place (f.wordPlace .notEdge)
    | '<' => return .place (f.wordPlace .start)
    | '>' => return .place (f.wordPlace .stop)
    | _ => if c.toNat < 128 && !c.isAlphanum then return .char c else Read.refuse .badEscape

end SourceWeb.Pattern
