/-
  The sets of characters that scanning, matching and lower-casing ask for.

  Matching goes by version 16 of the character standard, which the property tables hold.  Names and
  letter case go by version 17; what that version added to a set is listed here.
-/
import SourceWeb.Character.Property

namespace SourceWeb.Text

open SourceWeb.Character

def blankRanges : Ranges :=
  [(9, 13), (32, 32), (133, 133), (160, 160), (5760, 5760), (8192, 8202), (8232, 8233), (8239, 8239),
   (8287, 8287), (12288, 12288)]

def decimalRanges : Ranges :=
  Category.ranges .decimalNumber

/-- What words are made of: letters, marks, digits, connectors and joiners. -/
def wordRanges : Ranges :=
  Ranges.unionAll [Derived.alphabetic.ranges, Listed.joinControl.ranges,
    Category.rangesOf (.decimalNumber :: .connectorPunctuation :: Category.marks)]

/-- Letters that version 17 added. -/
def addedLetters : Ranges :=
  Ranges.ofText
    "88F C5C CDC A7CE-A7CF A7D2 A7D4 A7F1 10940-10959 10EC5-10EC7 10EFA-10EFB 11B60-11B67
     11DB0-11DDB 16EA0-16EB8 16EBB-16ED3 16FF2-16FF6 187F8-187FF 18D09-18D1E 18D80-18DF2
     1E6C0-1E6DE 1E6E0-1E6F5 1E6FE-1E6FF 2B73A-2B73F 2CEA2-2CEAD 323B0-33479"

def addedDigits : Ranges :=
  Ranges.ofText "11DE0-11DE9"

def letterRanges : Ranges :=
  Derived.alphabetic.ranges.union addedLetters

def alnumRanges : Ranges :=
  Ranges.unionAll [letterRanges, Category.rangesOf Category.numbers, addedDigits]

/-- Letters that come in upper and lower case.  Version 17 took one of them for a letter without
    case. -/
def casedRanges : Ranges :=
  (Derived.cased.ranges.union
    (Ranges.ofText "A7CE-A7CF A7D2 A7D4 A7F1 16EA0-16EB8 16EBB-16ED3")).diff [(0x295, 0x295)]

/-- Characters that stand within words without counting for letter case. -/
def ignorableRanges : Ranges :=
  Derived.caseIgnorable.ranges.union
    (Ranges.ofText
      "1ACF-1ADD 1AE0-1AEB A7F1 10EC5 10EFA-10EFB 11B60 11B62-11B64 11B66 11DD9 16FF2-16FF3
       1E6E3 1E6E6 1E6EE-1E6EF 1E6F5 1E6FF")

end SourceWeb.Text
