/-
  Reading TOML, as far as settings use it.

  Arrays of tables under headers are refused, because no setting takes one.  A table may be given
  under a header, by dotted keys or in braces, but only in one of these ways, and no key twice.
  Arrays and braces nest up to a limit, which holds for the parts of a key too.
-/
import SourceWeb.Toml.Basic
import SourceWeb.Toml.Moment
import SourceWeb.Toml.Number
import SourceWeb.Text.Split

namespace SourceWeb.Toml

open SourceWeb.Text

/-- How deep arrays and braces may nest, and how many parts a key may have. -/
def depthLimit : Nat := 79

/-! ### Characters -/

def isGap (c : Char) : Bool :=
  c == ' ' || c == '\t'

def skipGap (cs : List Char) : List Char :=
  cs.dropWhile isGap

def afterLineEnd? : List Char → Option (List Char)
  | '\n' :: cs => some cs
  | '\r' :: '\n' :: cs => some cs
  | _ => none

def isCommentChar (c : Char) : Bool :=
  c == '\t' || (32 ≤ c.toNat && c.toNat != 127)

def skipComment : List Char → List Char
  | '#' :: cs => cs.dropWhile isCommentChar
  | cs => cs

def skipLines : Nat → List Char → List Char
  | 0, cs => cs
  | fuel + 1, cs =>
    let cs := skipComment (skipGap cs)
    match afterLineEnd? cs with
    | some cs => skipLines fuel cs
    | none => cs

def isBasicChar (c : Char) : Bool :=
  c == '\t' || (32 ≤ c.toNat && c.toNat != 127 && c != '"' && c != '\\')

def isLiteralChar (c : Char) : Bool :=
  c == '\t' || (32 ≤ c.toNat && c.toNat != 127 && c != '\'')

/-! ### Strings -/

def codeOf (width : Nat) (cs : List Char) : Option (Char × List Char) := do
  let (n, cs) ← fixedNumber 16 width cs
  if n.isValidChar then some (Char.ofNat n, cs) else none

def escape : List Char → Option (Char × List Char)
  | 'b' :: cs => some ('\x08', cs)
  | 't' :: cs => some ('\t', cs)
  | 'n' :: cs => some ('\n', cs)
  | 'f' :: cs => some ('\x0C', cs)
  | 'r' :: cs => some ('\r', cs)
  | '"' :: cs => some ('"', cs)
  | '\\' :: cs => some ('\\', cs)
  | 'u' :: cs => codeOf 4 cs
  | 'U' :: cs => codeOf 8 cs
  | _ => none

def basicTail : Nat → List Char → List Char → Option (String × List Char)
  | 0, _, _ => none
  | fuel + 1, read, cs =>
    match cs with
    | '"' :: cs => some (String.ofList read.reverse, cs)
    | '\\' :: cs => do
      let (c, cs) ← escape cs
      basicTail fuel (c :: read) cs
    | c :: cs => if isBasicChar c then basicTail fuel (c :: read) cs else none
    | [] => none

def literalTail (cs : List Char) : Option (String × List Char) :=
  match cs.dropWhile isLiteralChar with
  | '\'' :: rest => some (String.ofList (cs.takeWhile isLiteralChar), rest)
  | _ => none

/-- The rest behind the white space that a backslash at the end of a line swallows. -/
def afterContinuation? (cs : List Char) : Option (List Char) :=
  (afterLineEnd? (skipGap cs)).map fun cs =>
    let rec go : Nat → List Char → List Char
      | 0, cs => cs
      | fuel + 1, cs =>
        let cs := skipGap cs
        match afterLineEnd? cs with
        | some cs => go fuel cs
        | none => cs
    go (cs.length + 1) cs

/-- Reads up to three quotes that end a string over several lines; up to two more before them
    belong to the string.  Gives the number of these. -/
def closing? (q : Char) (cs : List Char) : Option (Nat × List Char) :=
  let run := (cs.takeWhile (· == q)).length
  if run < 3 then none else some (min (run - 3) 2, cs.drop (min run 5))

def basicLinesTail : Nat → List Char → List Char → Option (String × List Char)
  | 0, _, _ => none
  | fuel + 1, read, cs =>
    match closing? '"' cs with
    | some (extra, rest) => some (String.ofList (read.reverse ++ List.replicate extra '"'), rest)
    | none =>
      match cs with
      | '"' :: cs => basicLinesTail fuel ('"' :: read) cs
      | '\\' :: cs =>
        match afterContinuation? cs with
        | some cs => basicLinesTail fuel read cs
        | none =>
          match escape cs with
          | some (c, cs) => basicLinesTail fuel (c :: read) cs
          | none => none
      | cs =>
        match afterLineEnd? cs with
        | some cs => basicLinesTail fuel ('\n' :: read) cs
        | none =>
          match cs with
          | c :: cs => if isBasicChar c then basicLinesTail fuel (c :: read) cs else none
          | [] => none

def literalLinesTail : Nat → List Char → List Char → Option (String × List Char)
  | 0, _, _ => none
  | fuel + 1, read, cs =>
    match closing? '\'' cs with
    | some (extra, rest) => some (String.ofList (read.reverse ++ List.replicate extra '\''), rest)
    | none =>
      match afterLineEnd? cs with
      | some cs => literalLinesTail fuel ('\n' :: read) cs
      | none =>
        match cs with
        | c :: cs =>
          if c == '\'' || isLiteralChar c then literalLinesTail fuel (c :: read) cs else none
        | [] => none

def dropFirstLineEnd (cs : List Char) : List Char :=
  (afterLineEnd? cs).getD cs

def string : List Char → Option (String × List Char)
  | '"' :: '"' :: '"' :: cs => basicLinesTail (cs.length + 1) [] (dropFirstLineEnd cs)
  | '\'' :: '\'' :: '\'' :: cs => literalLinesTail (cs.length + 1) [] (dropFirstLineEnd cs)
  | '"' :: cs => basicTail (cs.length + 1) [] cs
  | '\'' :: cs => literalTail cs
  | _ => none

/-! ### Keys -/

def isKeyChar (c : Char) : Bool :=
  c.isAlphanum || c == '_' || c == '-'

def keyPart : List Char → Option (String × List Char)
  | '"' :: cs => basicTail (cs.length + 1) [] cs
  | '\'' :: cs => literalTail cs
  | cs =>
    let name := cs.takeWhile isKeyChar
    if name.isEmpty then none else some (String.ofList name, cs.dropWhile isKeyChar)

/-- Reads the parts of a key, with dots between them and blanks around these; there may be at most
    so many. -/
def keyParts : Nat → List Char → Option (List String × List Char)
  | 0, _ => none
  | limit + 1, cs => do
    let (part, cs) ← keyPart (skipGap cs)
    match skipGap cs with
    | '.' :: cs =>
      let (parts, cs) ← keyParts limit cs
      return (part :: parts, cs)
    | cs => return ([part], cs)

def key (cs : List Char) : Option (List String × List Char) :=
  keyParts depthLimit cs

/-! ### Tables while they are read -/

/-- How a table came about, which decides what may still be added to it. -/
inductive Origin
  /-- It stands under a header of its own. -/
  | header
  /-- It only lies on the way to a table under a header. -/
  | implied
  /-- It was made by dotted keys. -/
  | dotted
  deriving DecidableEq, Repr

inductive Draft
  | done (v : Toml)
  | open_ (origin : Origin) (members : List (String × Draft))
  deriving Inhabited

/-- The members with `key` standing for `d`, in its old place or at the end. -/
def putDraft (key : String) (d : Draft) : List (String × Draft) → List (String × Draft)
  | [] => [(key, d)]
  | (k, old) :: ms => if k = key then (k, d) :: ms else (k, old) :: putDraft key d ms

def addValue : List String → Toml → List (String × Draft) → Option (List (String × Draft))
  | [], _, _ => none
  | [k], v, ms => if (ms.lookup k).isSome then none else some (putDraft k (.done v) ms)
  | k :: ks, v, ms =>
    match ms.lookup k with
    | none => (addValue ks v []).map fun inner => putDraft k (.open_ .dotted inner) ms
    | some (.open_ .dotted inner) =>
      (addValue ks v inner).map fun inner => putDraft k (.open_ .dotted inner) ms
    | some _ => none

def openTable : List String → List (String × Draft) → Option (List (String × Draft))
  | [], _ => none
  | [k], ms =>
    match ms.lookup k with
    | none => some (putDraft k (.open_ .header []) ms)
    -- a table that headers below it implied may still get a header of its own
    | some (.open_ .implied inner) => some (putDraft k (.open_ .header inner) ms)
    | some _ => none
  | k :: ks, ms =>
    match ms.lookup k with
    | none => (openTable ks []).map fun inner => putDraft k (.open_ .implied inner) ms
    | some (.open_ .dotted _) => none
    | some (.open_ origin inner) =>
      (openTable ks inner).map fun inner => putDraft k (.open_ origin inner) ms
    | some (.done _) => none

def addBelow : List String → List String → Toml → List (String × Draft) →
    Option (List (String × Draft))
  | [], ks, v, ms => addValue ks v ms
  | h :: hs, ks, v, ms =>
    match ms.lookup h with
    | some (.open_ origin inner) =>
      (addBelow hs ks v inner).map fun inner => putDraft h (.open_ origin inner) ms
    | _ => none

mutual

def Draft.toToml : Draft → Toml
  | .done v => v
  | .open_ _ members => .table (draftMembers members)

def draftMembers : List (String × Draft) → List (String × Toml)
  | [] => []
  | (k, d) :: ms => (k, d.toToml) :: draftMembers ms

end

/-! ### Values -/

/-- Reads a value that is no array or table: a string, else a moment, else a number. -/
def scalar (cs : List Char) : Option (Toml × List Char) :=
  let spelled := fun rest => String.ofList (upTo cs rest)
  match string cs with
  | some (s, rest) => some (.str s, rest)
  | none =>
    match readMoment cs with
    | some rest => some (.moment (spelled rest), rest)
    | none => (readNumber cs).map fun rest => (.number (spelled rest), rest)

mutual

def value : Nat → Nat → List Char → Option (Toml × List Char)
  | 0, _, _ => none
  | fuel + 1, depth, cs =>
    match cs with
    | 't' :: 'r' :: 'u' :: 'e' :: cs => some (.bool true, cs)
    | 'f' :: 'a' :: 'l' :: 's' :: 'e' :: cs => some (.bool false, cs)
    | '[' :: cs =>
      match depth with
      | 0 => none
      | depth + 1 => items fuel depth [] cs
    | '\x7b' :: cs =>
      match depth with
      | 0 => none
      | depth + 1 =>
        match skipGap cs with
        | '\x7d' :: cs => some (.table [], cs)
        | cs => inlineMembers fuel depth [] cs
    | cs => scalar cs

/-- Reads the items of an array, behind its bracket or a comma; those read so far stand last
    first. -/
def items : Nat → Nat → List Toml → List Char → Option (Toml × List Char)
  | 0, _, _, _ => none
  | fuel + 1, depth, read, cs =>
    match skipLines (cs.length + 1) cs with
    | ']' :: cs => some (.arr read.reverse, cs)
    | cs =>
      match value fuel depth cs with
      | some (v, cs) =>
        match skipLines (cs.length + 1) cs with
        | ',' :: cs => items fuel depth (v :: read) cs
        | ']' :: cs => some (.arr (v :: read).reverse, cs)
        | _ => none
      | none => none

def inlineMembers : Nat → Nat → List (String × Draft) → List Char → Option (Toml × List Char)
  | 0, _, _, _ => none
  | fuel + 1, depth, ms, cs =>
    match key cs with
    | some (ks, '=' :: cs) =>
      match value fuel depth (skipGap cs) with
      | some (v, cs) =>
        match addValue ks v ms with
        | some ms =>
          match skipGap cs with
          | ',' :: cs => inlineMembers fuel depth ms cs
          | '\x7d' :: cs => some (Draft.toToml (.open_ .header ms), cs)
          | _ => none
        | none => none
      | none => none
    | _ => none

end

/-! ### Documents -/

def endLine (cs : List Char) : Option (List Char) :=
  match skipComment (skipGap cs) with
  | [] => some []
  | cs => afterLineEnd? cs

def document : Nat → List String → List (String × Draft) → List Char →
    Option (List (String × Draft))
  | 0, _, _, _ => none
  | fuel + 1, at_, ms, cs =>
    match skipLines (cs.length + 1) cs with
    | [] => some ms
    | '[' :: cs =>
      match key cs with
      | some (ks, ']' :: cs) =>
        match openTable ks ms, endLine cs with
        | some ms, some cs => document fuel ks ms cs
        | _, _ => none
      | _ => none
    | cs =>
      match key cs with
      | some (ks, '=' :: cs) =>
        match value (cs.length + 1) depthLimit (skipGap cs) with
        | some (v, cs) =>
          match addBelow at_ ks v ms, endLine cs with
          | some ms, some cs => document fuel at_ ms cs
          | _, _ => none
        | none => none
      | _ => none

def ofText? (text : String) : Option Toml :=
  let cs := match text.toList with
    | c :: cs => if c = '\uFEFF' then cs else c :: cs
    | [] => []
  (document (cs.length + 1) [] [] cs).map fun ms => Draft.toToml (.open_ .header ms)

end SourceWeb.Toml
