/-
  JSON as people write it into configuration files: with comments, and with commas after the last
  item.
-/
import SourceWeb.Text.Alphabet

namespace SourceWeb.Alias

open SourceWeb.Text

/-! ### Comments -/

/-- Where in a text the reader stands. -/
inductive Place
  | code
  | string
  | escaped
  | lineComment
  | blockComment (last : Char)
  deriving DecidableEq, Repr

/-- Copies a text without its comments.  Within a string nothing is a comment; a backslash there
    takes the next character along.  The line feed that ends a comment is kept. -/
def stripFrom : Place → List Char → List Char
  | _, [] => []
  | .string, '\\' :: cs => '\\' :: stripFrom .escaped cs
  | .string, '"' :: cs => '"' :: stripFrom .code cs
  | .string, c :: cs => c :: stripFrom .string cs
  | .escaped, c :: cs => c :: stripFrom .string cs
  | .lineComment, '\n' :: cs => '\n' :: stripFrom .code cs
  | .lineComment, _ :: cs => stripFrom .lineComment cs
  | .blockComment last, c :: cs =>
    if last = '*' ∧ c = '/' then stripFrom .code cs else stripFrom (.blockComment c) cs
  | .code, '"' :: cs => '"' :: stripFrom .string cs
  | .code, '/' :: '/' :: cs => stripFrom .lineComment cs
  | .code, '/' :: '*' :: cs => stripFrom (.blockComment '\x00') cs
  | .code, c :: cs => c :: stripFrom .code cs

@[simp] theorem stripFrom_nil (p : Place) : stripFrom p [] = [] := by
  simp [stripFrom]

def stripComments (text : String) : String :=
  String.ofList (stripFrom .code text.toList)

/-! ### Commas -/

/-- Is the next character but for white space a closing bracket or brace? -/
def closesNext (cs : List Char) : Bool :=
  match cs.dropWhile isBlank with
  | c :: _ => c == '\x7d' || c == ']'
  | [] => false

/-- Drops every comma before a closing bracket or brace, wherever it stands. -/
def dropLastCommas : List Char → List Char
  | [] => []
  | c :: cs => if c == ',' && closesNext cs then dropLastCommas cs else c :: dropLastCommas cs

/-! ### Braces -/

/-- Goes on to the brace that closes the object in which `depth` braces are open, and gives the
    number of characters in front of it.  Within a string, which the first flag tells, no brace
    counts; the second flag tells that the next character is escaped there. -/
def closingFrom : Nat → Bool → Bool → List Char → Option Nat
  | _, _, _, [] => none
  | depth, true, true, _ :: cs => (closingFrom depth true false cs).map (· + 1)
  | depth, true, false, c :: cs =>
    if c = '\\' then (closingFrom depth true true cs).map (· + 1)
    else if c = '"' then (closingFrom depth false false cs).map (· + 1)
    else (closingFrom depth true false cs).map (· + 1)
  | depth, false, _, c :: cs =>
    if c = '"' then (closingFrom depth true false cs).map (· + 1)
    else if c = '\x7b' then (closingFrom (depth + 1) false false cs).map (· + 1)
    else if c = '\x7d' then
      if depth ≤ 1 then some 0 else (closingFrom (depth - 1) false false cs).map (· + 1)
    else (closingFrom depth false false cs).map (· + 1)

/-- The place of the brace that closes the object that starts at the place `start`. -/
def closingBrace? (text : List Char) (start : Nat) : Option Nat :=
  (closingFrom 0 false false (text.drop start)).map (start + ·)

end SourceWeb.Alias
