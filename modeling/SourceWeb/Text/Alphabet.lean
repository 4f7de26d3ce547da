/-
  The classes of characters that scanning and matching ask for.

  Each class decides ASCII by itself and leaves the rest to the tables, which hold the same
  answers for ASCII.
-/
import SourceWeb.Text.Ranges

namespace SourceWeb.Text

def isBlank (c : Char) : Bool :=
  blankRanges.has c.toNat

def isDecimal (c : Char) : Bool :=
  if c.toNat < 128 then c.isDigit else decimalRanges.has c.toNat

def isLetter (c : Char) : Bool :=
  if c.toNat < 128 then c.isAlpha else letterRanges.has c.toNat

def isAlnum (c : Char) : Bool :=
  if c.toNat < 128 then c.isAlphanum else alnumRanges.has c.toNat

def isAsciiWordChar (c : Char) : Bool :=
  c.isAlphanum || c == '_'

/-- A character that words are made of: letters, marks, digits, connectors and joiners. -/
def isWordChar (c : Char) : Bool :=
  if c.toNat < 128 then isAsciiWordChar c else wordRanges.has c.toNat

def isGap (c : Char) : Bool :=
  c == ' ' || c == '\t'

def lowerAscii (s : String) : String :=
  String.ofList (s.toList.map Char.toLower)

end SourceWeb.Text
