/-
  Writing TOML.

  A string stands in double quotes if nothing in it needs an escape, else in single quotes if it has
  none, else over several lines in three quotes of either kind, and only then with escapes.
-/
import SourceWeb.Toml.Basic

namespace SourceWeb.Toml

/-! ### Strings -/

inductive Quotes
  | basic
  | literal
  | basicLines
  | literalLines
  deriving DecidableEq, Repr

def isControl (c : Char) : Bool :=
  (c.toNat < 32 && c != '\t' && c != '\n') || c.toNat == 127

/-- The length of the longest run of `q`, where the run before the text has the length `run`. -/
def longestRun (q : Char) : Nat → List Char → Nat
  | run, [] => run
  | run, c :: cs => if c = q then longestRun q (run + 1) cs else max run (longestRun q 0 cs)

def quotesFor (cs : List Char) : Quotes :=
  let control := cs.any isControl
  let backslash := cs.contains '\\'
  let lines := cs.contains '\n'
  let single := longestRun '\'' 0 cs
  let double := longestRun '"' 0 cs
  if !control && !backslash && double == 0 && !lines then .basic
  else if !control && single == 0 && !lines then .literal
  -- three quotes in a row would end a string over several lines
  else if !control && !backslash && double ≤ 2 then .basicLines
  else if !control && single ≤ 2 then .literalLines
  else if lines then .basicLines
  else .basic

def hexDigit (n : Nat) : Char :=
  if n < 10 then Char.ofNat (48 + n) else Char.ofNat (55 + n)

/-- A character of a text in double quotes, other than a quote; over several lines a line feed
    stands for itself. -/
def escapeChar (lines : Bool) (c : Char) : List Char :=
  match c.toNat with
  | 0x08 => ['\\', 'b']
  | 0x09 => ['\\', 't']
  | 0x0A => if lines then ['\n'] else ['\\', 'n']
  | 0x0C => ['\\', 'f']
  | 0x0D => ['\\', 'r']
  | 0x5C => ['\\', '\\']
  | n =>
    if isControl c then ['\\', 'u', '0', '0', hexDigit (n / 16), hexDigit (n % 16)] else [c]

/-- A text in double quotes; `free` quotes in a row need no escape, and `run` of them were written
    without one since the last other character. -/
def escapeText (lines : Bool) (free : Nat) : Nat → List Char → List Char
  | _, [] => []
  | run, c :: cs =>
    if c = '"' then
      if run < free then '"' :: escapeText lines free (run + 1) cs
      else '\\' :: '"' :: escapeText lines free 0 cs
    else escapeChar lines c ++ escapeText lines free 0 cs

/-- The line feed that stands behind the opening quotes of a text over several lines. -/
def opening (cs : List Char) : List Char :=
  if cs.contains '\n' then ['\n'] else []

def quote (s : String) : List Char :=
  let cs := s.toList
  match quotesFor cs with
  | .basic => '"' :: escapeText false 0 0 cs ++ ['"']
  | .literal => '\'' :: cs ++ ['\'']
  | .basicLines => "\"\"\"".toList ++ opening cs ++ escapeText true 2 0 cs ++ "\"\"\"".toList
  | .literalLines => "'''".toList ++ opening cs ++ cs ++ "'''".toList

/-! ### Values and tables -/

/-- The strings of an array: none or one on the same line, several on lines of their own. -/
def arrayOf (items : List String) : List Char :=
  match items with
  | [] => "[]".toList
  | [s] => '[' :: quote s ++ [']']
  | _ => "[\n".toList ++ (items.flatMap fun s => "    ".toList ++ quote s ++ ",\n".toList) ++ [']']

inductive Setting
  | str (s : String)
  | bool (b : Bool)
  | strs (items : List String)

def settingChars : Setting → List Char
  | .str s => quote s
  | .bool b => (if b then "true" else "false").toList
  | .strs items => arrayOf items

def line (key : String) (v : Setting) : List Char :=
  key.toList ++ " = ".toList ++ settingChars v ++ ['\n']

def tableChars (name : String) (settings : List (String × Setting)) : List Char :=
  '[' :: name.toList ++ "]\n".toList ++ settings.flatMap fun s => line s.1 s.2

def write (tables : List (String × List (String × Setting))) : String :=
  String.ofList (['\n'].intercalate (tables.map fun t => tableChars t.1 t.2))

end SourceWeb.Toml
