/-
  Values as YAML in block style.

  A string is written plain where that reads back as the same string, over several lines if it has
  line feeds, else in single quotes, and in double quotes where nothing else will do.  The pen keeps
  track of the column and of what was written last, for these decide about spaces and new lines.
-/
import SourceWeb.Json.Basic
import SourceWeb.Text.Alphabet

namespace SourceWeb.Yaml

open SourceWeb.Text

/-! ### Kinds of characters -/

def isBreak (c : Char) : Bool :=
  c == '\n' || c == '\r' || c.toNat == 0x85 || c.toNat == 0x2028 || c.toNat == 0x2029

def endsWord : Option Char → Bool
  | none => true
  | some c => c == ' ' || c == '\t' || c == '\x00' || isBreak c

def isPrintable (c : Char) : Bool :=
  let n := c.toNat
  n == 10 || (0x20 ≤ n && n ≤ 0x7E) || (0xA0 ≤ n && n ≤ 0xD7FF) ||
    (0xE000 ≤ n && n ≤ 0xFFFD && n != 0xFEFF) || 0x10000 ≤ n

/-! ### What a string allows -/

structure Traits where
  /-- Has characters in places where they would mean something else. -/
  indicators : Bool := false
  breaks : Bool := false
  unprintable : Bool := false
  leadingSpace : Bool := false
  leadingBreak : Bool := false
  trailingSpace : Bool := false
  trailingBreak : Bool := false
  breakThenSpace : Bool := false
  spaceThenBreak : Bool := false
  deriving DecidableEq, Repr

def startIndicators : List Char :=
  ['#', ',', '[', ']', '\x7b', '\x7d', '&', '*', '!', '|', '>', '\'', '"', '%', '@', '\x60']

/-- Does the first character of a string mean something, given the one after it? -/
def startIndicates (c : Char) (next : Option Char) : Bool :=
  startIndicators.contains c || ((c == '?' || c == ':' || c == '-') && endsWord next)

/-- Does a later character mean something, between the ones before and after it? -/
def innerIndicates (last c : Char) (next : Option Char) : Bool :=
  (c == ':' && endsWord next) || (c == '#' && endsWord (some last))

/-- Collects the properties of the rest of a string, behind the character `last`. -/
def traitsFrom (last : Option Char) (t : Traits) : List Char → Traits
  | [] => t
  | c :: cs =>
    let next := cs.head?
    let indicates := match last with
      | none => startIndicates c next
      | some l => innerIndicates l c next
    let space := c == ' '
    let brk := isBreak c
    traitsFrom (some c)
      { indicators := t.indicators || indicates
        breaks := t.breaks || brk
        unprintable := t.unprintable || !isPrintable c
        leadingSpace := t.leadingSpace || (space && last.isNone)
        leadingBreak := t.leadingBreak || (brk && last.isNone)
        trailingSpace := t.trailingSpace || (space && next.isNone)
        trailingBreak := t.trailingBreak || (brk && next.isNone)
        breakThenSpace := t.breakThenSpace || (space && last.any isBreak)
        spaceThenBreak := t.spaceThenBreak || (brk && last == some ' ') } cs

def looksLikeMark (cs : List Char) : Bool :=
  "---".toList.isPrefixOf cs || "...".toList.isPrefixOf cs

def traitsOf (cs : List Char) : Traits :=
  traitsFrom none { indicators := looksLikeMark cs } cs

def Traits.plain (t : Traits) : Bool :=
  !(t.indicators || t.breaks || t.unprintable || t.leadingSpace || t.leadingBreak ||
    t.trailingSpace || t.trailingBreak || t.breakThenSpace || t.spaceThenBreak)

def Traits.singleQuoted (t : Traits) : Bool :=
  !(t.breakThenSpace || t.spaceThenBreak || t.unprintable)

def Traits.literal (t : Traits) : Bool :=
  !(t.trailingSpace || t.spaceThenBreak || t.unprintable)

/-! ### Styles -/

inductive Style
  | plain
  | single
  | double
  | literal
  deriving DecidableEq, Repr

/-- Words that some readers take for a truth value, for nothing or for no number, in small
    letters. -/
def reservedWords : List String :=
  ["true", "false", "y", "yes", "n", "no", "on", "off", "null", "nil", "nan", "~", ""]

/-- Could a reader take the string for something else than a string?  The reserved words count in
    capital letters too, and so does all that starts as a number might. -/
def isAmbiguous (s : String) : Bool :=
  reservedWords.contains (lowerAscii s) ||
  s.toList.head?.any fun c => c.isDigit || c == '-' || c == '.' || c == '+'

/-- The style of a string; `key` says that it is the key of a member on one line. -/
def styleOf (key : Bool) (s : String) : Style :=
  let t := traitsOf s.toList
  let quoted := if t.singleQuoted || s = "" then .single else .double
  if s.toList.contains '\n' then
    if t.literal && !key then .literal else .double
  else if key && t.breaks then .double
  else if isAmbiguous s then quoted
  else if t.plain then .plain
  else quoted

/-! ### The pen -/

/-- What is written so far, the last character first; the column; whether the last thing written
    was white space, and whether nothing but indentation stands on the line. -/
structure Pen where
  out : List Char
  column : Nat
  space : Bool
  indented : Bool

namespace Pen

def start : Pen := ⟨[], 0, true, true⟩

def put (p : Pen) (c : Char) : Pen :=
  { p with out := c :: p.out, column := p.column + 1 }

def putAll (p : Pen) (cs : List Char) : Pen :=
  cs.foldl put p

def newline (p : Pen) : Pen :=
  { p with out := '\n' :: p.out, column := 0 }

def putBreak (p : Pen) (c : Char) : Pen :=
  { p with out := c :: p.out, column := 0 }

def indent (p : Pen) (indent : Nat) : Pen :=
  let p := if !p.indented || p.column > indent || (p.column == indent && !p.space) then p.newline
    else p
  let p := p.putAll (List.replicate (indent - p.column) ' ')
  { p with space := true, indented := true }

def gap (p : Pen) : Pen :=
  if p.space then p else p.put ' '

def openMark (p : Pen) (c : Char) : Pen :=
  { p.gap.put c with space := false }

def mark (p : Pen) (c : Char) : Pen :=
  { p.put c with space := false, indented := false }

end Pen

/-! ### Strings -/

/-- Writes the inside of single quotes; `breaks` says that a break was written last. -/
def writeSingle (indent : Nat) : Pen → Bool → List Char → Pen
  | p, breaks, [] => if breaks then p.indent indent else p
  | p, breaks, c :: cs =>
    if c = ' ' then writeSingle indent (p.put c) breaks cs
    else if isBreak c then
      let p := if !breaks && c == '\n' then p.newline else p
      writeSingle indent { p.putBreak c with indented := true } true cs
    else
      let p := if breaks then p.indent indent else p
      let p := if c = '\'' then p.put c else p
      writeSingle indent { p.put c with indented := false } false cs

def hex : Nat → Nat → List Char
  | 0, _ => []
  | width + 1, n =>
    let d := n % 16
    hex width (n / 16) ++ [if d < 10 then Char.ofNat (48 + d) else Char.ofNat (55 + d)]

def escape (c : Char) : List Char :=
  match c.toNat with
  | 0x00 => ['\\', '0']
  | 0x07 => ['\\', 'a']
  | 0x08 => ['\\', 'b']
  | 0x09 => ['\\', 't']
  | 0x0A => ['\\', 'n']
  | 0x0B => ['\\', 'v']
  | 0x0C => ['\\', 'f']
  | 0x0D => ['\\', 'r']
  | 0x1B => ['\\', 'e']
  | 0x22 => ['\\', '"']
  | 0x5C => ['\\', '\\']
  | 0x85 => ['\\', 'N']
  | 0xA0 => ['\\', '_']
  | 0x2028 => ['\\', 'L']
  | 0x2029 => ['\\', 'P']
  | n =>
    if n ≤ 0xFF then '\\' :: 'x' :: hex 2 n
    else if n ≤ 0xFFFF then '\\' :: 'u' :: hex 4 n
    else '\\' :: 'U' :: hex 8 n

def doubleChar (c : Char) : List Char :=
  if !isPrintable c || isBreak c || c == '"' || c == '\\' then escape c else [c]

/-- The marks behind the sign of a literal: the indentation where the text starts with a blank, and
    what happens to the line feeds at its end. -/
def literalHints (cs : List Char) : List Char :=
  let start := if cs.head?.any (fun c => c == ' ' || isBreak c) then ['2'] else []
  let ending := match cs.reverse with
    | [] => ['-']
    | [c] => if isBreak c then ['+'] else ['-']
    | c :: d :: _ => if !isBreak c then ['-'] else if isBreak d then ['+'] else []
  start ++ ending

def writeLiteral (indent : Nat) : Pen → Bool → List Char → Pen
  | p, _, [] => p
  | p, breaks, c :: cs =>
    if isBreak c then writeLiteral indent { p.putBreak c with indented := true } true cs
    else
      let p := if breaks then p.indent indent else p
      writeLiteral indent { p.put c with indented := false } false cs

def writeString (p : Pen) (indent : Nat) (key : Bool) (s : String) : Pen :=
  let cs := s.toList
  match styleOf key s with
  | .plain => { (if cs.isEmpty then p else p.gap).putAll cs with space := false, indented := false }
  | .single =>
    let p := p.openMark '\''
    let p := writeSingle (indent + 2) { p with indented := false } false cs
    p.mark '\''
  | .double =>
    let p := p.openMark '"'
    (p.putAll (cs.flatMap doubleChar)).mark '"'
  | .literal =>
    let p := (p.openMark '|').putAll (literalHints cs)
    writeLiteral (indent + 2) { p.newline with space := true, indented := true } true cs

def writeWord (p : Pen) (word : String) : Pen :=
  { p.gap.putAll word.toList with space := false, indented := false }

/-! ### Values -/

def isSimpleKey (key : String) : Bool :=
  !key.toList.any isBreak && key.utf8ByteSize ≤ 128

def writeKey (p : Pen) (indent : Nat) (key : String) : Pen :=
  if isSimpleKey key then (writeString p indent true key).mark ':'
  else
    let p := writeString (p.openMark '?') indent false key
    (p.indent indent).openMark ':'

mutual

/-- Writes a value within something that is indented so far; `inMember` says that it stands behind
    the key of a member. -/
def writeValue (p : Pen) (indent : Nat) (inMember : Bool) : Json → Pen
  | .null => writeWord p "null"
  | .bool b => writeWord p (if b then "true" else "false")
  | .num n => writeWord p n
  | .str s => writeString p indent false s
  | .arr [] => writeWord p "[]"
  | .arr items =>
    let inner := if inMember && !p.indented then indent else indent + 2
    writeItems p inner items
  | .obj [] => writeWord p "\x7b\x7d"
  | .obj members => writeMembers p (indent + 2) members

def writeItems (p : Pen) (indent : Nat) : List Json → Pen
  | [] => p
  | v :: vs =>
    writeItems (writeValue ((p.indent indent).openMark '-') indent false v) indent vs

def writeMembers (p : Pen) (indent : Nat) : List (String × Json) → Pen
  | [] => p
  | (k, v) :: ms =>
    writeMembers (writeValue (writeKey (p.indent indent) indent k) indent true v) indent ms

end

def writeRoot (p : Pen) : Json → Pen
  | .arr (v :: vs) => writeItems p 0 (v :: vs)
  | .obj (m :: ms) => writeMembers p 0 (m :: ms)
  | v => writeValue p 0 false v

def render (v : Json) : String :=
  String.ofList ((writeRoot Pen.start v).indent 0).out.reverse

end SourceWeb.Yaml
