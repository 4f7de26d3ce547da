/-
  Dates and times in TOML texts.

  A date is a day of the calendar; a time of day may follow it, and may stand alone.  Only a time
  behind a date may be followed by its distance from universal time.
-/
import SourceWeb.Text.Digits

namespace SourceWeb.Toml

open SourceWeb.Text

def readField (width low high : Nat) (cs : List Char) : Option (Nat × List Char) := do
  let (n, cs) ← fixedNumber 10 width cs
  if low ≤ n ∧ n ≤ high then some (n, cs) else none

def readMark (mark : Char) : List Char → Option (List Char)
  | c :: cs => if c = mark then some cs else none
  | [] => none

def isLeapYear (year : Nat) : Bool :=
  year % 4 == 0 && (year % 100 != 0 || year % 400 == 0)

def daysIn (year month : Nat) : Nat :=
  if month = 2 then (if isLeapYear year then 29 else 28)
  else if [4, 6, 9, 11].contains month then 30
  else 31

def readDate (cs : List Char) : Option (List Char) := do
  let (year, cs) ← readField 4 0 9999 cs
  let (month, cs) ← readField 2 1 12 (← readMark '-' cs)
  let (_, cs) ← readField 2 1 (daysIn year month) (← readMark '-' cs)
  return cs

def skipFraction (cs : List Char) : List Char :=
  match cs with
  | '.' :: c :: rest => if c.isDigit then rest.dropWhile Char.isDigit else cs
  | cs => cs

def readMinutes (cs : List Char) : Option (List Char) := do
  let (_, cs) ← readField 2 0 23 cs
  let (_, cs) ← readField 2 0 59 (← readMark ':' cs)
  return cs

def readTime (cs : List Char) : Option (List Char) := do
  let (_, cs) ← readField 2 0 60 (← readMark ':' (← readMinutes cs))
  return skipFraction cs

def readOffset : List Char → Option (List Char)
  | 'Z' :: cs => some cs
  | 'z' :: cs => some cs
  | '+' :: cs => readMinutes cs
  | '-' :: cs => readMinutes cs
  | cs => some cs

/-- Reads the time that may stand behind a date.  A blank before something else ends the date. -/
def readTimeBehind (cs : List Char) : Option (List Char) :=
  match cs with
  | c :: rest =>
    if c = 'T' || c = 't' || c = ' ' then
      match readTime rest with
      | some rest => readOffset rest
      | none => some cs
    else some cs
  | [] => some []

def readMoment (cs : List Char) : Option (List Char) :=
  match readDate cs with
  | some rest => readTimeBehind rest
  | none => readTime cs

end SourceWeb.Toml
