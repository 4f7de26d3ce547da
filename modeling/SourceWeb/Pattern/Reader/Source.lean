/-
  The text of a pattern while it is read: what is left of it, and the flags in force.
-/
import SourceWeb.Character.Caseless
import SourceWeb.Text.Split

namespace SourceWeb.Pattern

open SourceWeb.Text
open SourceWeb.Character (Ranges)

inductive Defect
  | unclosedGroup
  | unopenedGroup
  | unclosedClass
  | nothingToRepeat
  | badCount
  | badEscape
  | badRange
  | badFlags
  | badGroupName
  | lookaround
  | unknownClass
  /-- With flags that allow ASCII only, something asks for characters beyond it. -/
  | beyondAscii
  | tooDeep
  | tooLarge
  deriving DecidableEq, Repr

structure Flags where
  caseless : Bool
  manyLines : Bool := false
  dotAll : Bool := false
  swapGreed : Bool := false
  spaced : Bool := false
  asciiOnly : Bool := false
  returns : Bool := false
  deriving DecidableEq, Repr

/-- What is left to read, the flags in force, the groups counted and the names given so far. -/
structure Source where
  rest : List Char
  flags : Flags
  groups : Nat
  names : List (List Char)

abbrev Read (α : Type) := StateT Source (Except Defect) α

namespace Read

def refuse {α : Type} (d : Defect) : Read α :=
  fun _ => .error d

def moveTo (rest : List Char) : Read Unit :=
  modify fun s => { s with rest := rest }

def flags : Read Flags := do
  return (← get).flags

def peek? : Read (Option Char) := do
  return (← get).rest.head?

def skip : Read Unit :=
  modify fun s => { s with rest := s.rest.drop 1 }

def skipText (text : String) : Read Bool := do
  let s ← get
  match afterStart? text.toList s.rest with
  | some rest => Read.moveTo rest; return true
  | none => return false

def takeWhile (p : Char → Bool) : Read (List Char) := do
  let s ← get
  Read.moveTo (s.rest.dropWhile p)
  return s.rest.takeWhile p

def dropSpaced : Nat → List Char → List Char
  | 0, cs => cs
  | fuel + 1, cs =>
    match cs.dropWhile isBlank with
    | '#' :: cs => dropSpaced fuel (cs.dropWhile (· != '\n'))
    | cs => cs

/-- What is left behind white space and comments, where the flags say that they do not count. -/
def afterSpace (f : Flags) (cs : List Char) : List Char :=
  if f.spaced then dropSpaced (cs.length + 1) cs else cs

/-- Skips white space and comments, where the flags say that they do not count. -/
def skipSpace : Read Unit :=
  modify fun s => { s with rest := afterSpace s.flags s.rest }

/-- Takes characters that satisfy `p`, with white space and comments behind each of them where the
    flags say that these do not count. -/
def takeSpaced (p : Char → Bool) : Read (List Char) := do
  let s ← get
  let (taken, rest) := go s.flags s.rest.length s.rest
  Read.moveTo rest
  return taken
where
  /-- Takes at most `fuel` characters. -/
  go (f : Flags) : Nat → List Char → List Char × List Char
    | 0, cs => ([], cs)
    | _, [] => ([], [])
    | fuel + 1, c :: cs =>
      if p c then
        let (taken, rest) := go f fuel (afterSpace f cs)
        (c :: taken, rest)
      else ([], c :: cs)

end Read

/-! ### Sets under flags -/

/-- The set in all cases, if the flags say so; then its complement if `negated`.  A complement holds
    characters beyond ASCII. -/
def Flags.close (f : Flags) (negated : Bool) (rs : Ranges) : Read Ranges :=
  let rs := if !f.caseless then rs else if f.asciiOnly then rs.asciiCaseless else rs.caseless
  if !negated then return rs
  else if f.asciiOnly then Read.refuse .beyondAscii
  else return rs.compl

end SourceWeb.Pattern
