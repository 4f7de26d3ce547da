/-
  How many columns a text takes up where all letters are equally wide.

  Ideographs and emoji take up two columns, marks that combine with the character before them none,
  nearly everything else one.  Some characters make one sign together with those around them.  So
  the text is gone through from its end, and each character adds its columns in view of what stands
  behind it.
-/
import SourceWeb.Text.Columns

namespace SourceWeb.Text

open SourceWeb.Character

/-- What stands behind a place, as far as it matters to the characters before it. -/
inductive Behind
  | other
  | lineFeed
  /-- A tone of skin, which colours the emoji before it. -/
  | skinTone
  /-- Letters that make a flag in pairs: one of them, or more. -/
  | flagLetter
  | flagLetters
  | emoji
  /-- An emoji that is joined to what comes before it; likewise behind a key's frame, and behind
      letters of flags, one of them, an even or an odd number. -/
  | joinedEmoji
  | joinedKey
  | joinedFlagLetter
  | joinedFlagsEven
  | joinedFlagsOdd
  /-- The end of the name of a region, and up to three digits or six letters of the name. -/
  | regionEnd
  | regionDigits (n : Nat)
  | regionLetters (n : Nat)
  /-- Vowels that are written in several parts. -/
  | vowelE
  | vowelAi
  /-- Letters that join with letters before them. -/
  | alef
  | lamed (joined : Bool)
  | ya (joined : Bool)
  | yaWithVowel
  | joining (joined : Bool)
  | joiner
  | toneEnd
  | turkicI (joined : Bool)
  | subscript
  deriving DecidableEq, Repr

/-- What stands behind a place, with the selectors before it: for emoji style, for text style and
    for the wide style of quotation marks. -/
structure Following where
  kind : Behind := .other
  emojiStyle : Bool := false
  textStyle : Bool := false
  quoteStyle : Bool := false
  deriving DecidableEq, Repr

namespace Behind

def isLetter : Behind → Bool
  | alef | lamed _ | ya _ | yaWithVowel | joining _ | joiner | toneEnd | turkicI _ | subscript => true
  | _ => false

def isJoinedEmoji : Behind → Bool
  | joinedEmoji | joinedKey => true
  | _ => false

/-- May the joiner and selectors stand between it and the letter it joins with? -/
def isSeenThrough (b : Behind) : Bool :=
  b.isLetter && b != alef

def withJoiner : Behind → Behind
  | lamed _ => lamed true
  | ya _ => ya true
  | joining _ => joining true
  | turkicI _ => turkicI true
  | b => b

end Behind

/-! ### Classes of characters -/

def isFlagLetter (c : Char) : Bool :=
  0x1F1E6 ≤ c.toNat && c.toNat ≤ 0x1F1FF

def isSkinTone (c : Char) : Bool :=
  0x1F3FB ≤ c.toNat && c.toNat ≤ 0x1F3FF

def isRegionLetter (c : Char) : Bool :=
  0xE0061 ≤ c.toNat && c.toNat ≤ 0xE007A

def isRegionDigit (c : Char) : Bool :=
  0xE0030 ≤ c.toNat && c.toNat ≤ 0xE0039

def isSelector (c : Char) : Bool :=
  Ranges.has [(0x34F, 0x34F), (0x17B4, 0x17B5), (0x180B, 0x180D), (0x180F, 0x180F), (0xFE00, 0xFE0F),
    (0xE0100, 0xE01EF)] c.toNat

def isTextBase (c : Char) : Bool :=
  emojiRanges.has c.toNat && emojiBaseRanges.has c.toNat &&
    !(0x1F200 ≤ c.toNat && c.toNat ≤ 0x1F2FF)

def isQuoteBase (c : Char) : Bool :=
  ['‘', '’', '“', '”'].contains c

/-! ### One character -/

/-- The columns of a character by itself, and what it is to the characters before it. -/
def alone (c : Char) : Int × Behind :=
  let n := c.toNat
  if alefRanges.has n then (1, .alef)
  else if subscriptRanges.has n then (1, .subscript)
  else if joiningRanges.has n then (1, .joining false)
  else if isFlagLetter c then (1, .flagLetter)
  else if isSkinTone c then (2, .skinTone)
  else if emojiRanges.has n then (2, .emoji)
  else match n with
  | 0x5DC => (1, .lamed false)
  | 0x17D8 => (3, .other)
  | 0x1A10 => (1, .ya false)
  | 0xA4FC | 0xA4FD => (1, .toneEnd)
  | 0x10C03 => (1, .turkicI false)
  | 0x16D67 => (1, .vowelE)
  | 0x16D68 => (1, .vowelAi)
  | _ =>
    if flatRanges.has n then (0, .other)
    else if wideRanges.has n then (2, .other)
    else (1, .other)

/-- Is the character one of no column that does not part the letters on its sides? -/
def isTransparent (c : Char) : Bool :=
  isSelector c || ((alone c).1 = 0 && !partingRanges.has c.toNat)

/-- The columns that a character adds to what stands behind it, and what the two are to the
    characters before them, if they make one sign. -/
def together? (c : Char) : Behind → Option (Int × Behind)
  | .lamed true => if c.toNat = 0x5D0 then some (0, .other) else none
  | .ya true => if c.toNat = 0x1A17 then some (0, .yaWithVowel) else none
  | .yaWithVowel => if c.toNat = 0x1A15 then some (0, .other) else none
  | .subscript => if c.toNat = 0x17D2 then some (-1, .other) else none
  | .alef =>
    if Ranges.has [(0x644, 0x644), (0x6B5, 0x6B8), (0x76A, 0x76A), (0x8A6, 0x8A6), (0x8C7, 0x8C7)]
      c.toNat then some (0, .other)
    else if isTransparent c then some (0, .alef)
    else none
  | .joining joined =>
    if c.toNat = 0x2D7F then some (1, .joiner)
    else if joined && joiningRanges.has c.toNat then some (0, .other)
    else none
  | .joiner => if joiningRanges.has c.toNat then some (-1, .other) else none
  | .toneEnd => if 0xA4F8 ≤ c.toNat ∧ c.toNat ≤ 0xA4FB then some (0, .other) else none
  | .turkicI true => if c.toNat = 0x10C32 then some (0, .other) else none
  | .skinTone =>
    if Listed.emojiModifierBase.ranges.has c.toNat then some (0, .emoji)
    else if c == '\u200D' then some (0, .joinedEmoji)
    else none
  | .flagLetter => if isFlagLetter c then some (1, .flagLetters) else none
  | .flagLetters =>
    if isFlagLetter c then some (1, .flagLetters)
    else if c == '\u200D' then some (0, .joinedEmoji)
    else none
  | .emoji => if c == '\u200D' then some (0, .joinedEmoji) else none
  | .joinedEmoji =>
    if c.toNat = 0x20E3 then some (0, .joinedKey)
    else if isFlagLetter c then some (1, .joinedFlagLetter)
    else if isSkinTone c then some (0, .skinTone)
    else if c.toNat = 0xE007F then some (0, .regionEnd)
    else if (alone c).2 = .emoji then some (0, .emoji)
    else none
  | .joinedFlagLetter => if isFlagLetter c then some (-1, .joinedFlagsEven) else none
  | .joinedFlagsEven =>
    if isFlagLetter c then some (3, .joinedFlagsOdd)
    else if c == '\u200D' then some (0, .joinedEmoji)
    else none
  | .joinedFlagsOdd =>
    if isFlagLetter c then some (-1, .joinedFlagsEven)
    else if c == '\u200D' then some (0, .joinedEmoji)
    else none
  | .regionEnd =>
    if isRegionLetter c then some (0, .regionLetters 1)
    else if isRegionDigit c then some (0, .regionDigits 1)
    else none
  | .regionLetters n =>
    if isRegionLetter c ∧ n < 6 then some (0, .regionLetters (n + 1))
    else if isRegionDigit c ∧ n ≤ 4 then some (0, .regionDigits 1)
    else if c.toNat = 0x1F3F4 ∧ 3 ≤ n then some (0, .emoji)
    else none
  | .regionDigits n =>
    if isRegionDigit c ∧ n < 3 then some (0, .regionDigits (n + 1))
    else if c.toNat = 0x1F3F4 ∧ n = 3 then some (0, .emoji)
    else none
  | .vowelE =>
    match c.toNat with
    | 0x16D63 | 0x16D69 => some (0, .other)
    | 0x16D67 => some (0, .vowelAi)
    | 0x16D68 => some (1, .vowelE)
    | _ => none
  | .vowelAi => if c.toNat = 0x16D63 then some (0, .other) else none
  | _ => none

/-! ### Texts -/

/-- The columns of a character that has no selector behind it, and what then stands behind the
    characters before it. -/
def addJoined (c : Char) (f : Following) : Int × Following :=
  if f.kind.isSeenThrough && c == '\u200D' then (0, { f with kind := f.kind.withJoiner })
  else if f.kind.isSeenThrough && isSelector c then (0, f)
  else
    let (columns, kind) := (if f.quoteStyle then none else together? c f.kind).getD (alone c)
    (columns, { kind := kind })

/-- The columns of a character beyond the controls, and what then stands behind the characters
    before it.  A selector counts for the character before it; what stands behind the selector is
    remembered if it can join with characters before it. -/
def addPlain (c : Char) (f : Following) : Int × Following :=
  let kept : Following := if f.kind.isLetter then f else {}
  match c with
  | '\uFE01' => (0, { kept with quoteStyle := true })
  | '\uFE0E' => (0, { kept with textStyle := true })
  | '\uFE0F' =>
    (0, { (if f.kind.isJoinedEmoji then f else kept) with emojiStyle := true })
  | _ =>
    if f.textStyle then
      if isTextBase c then (1, {}) else addJoined c { f with textStyle := false }
    else if f.quoteStyle then
      if isQuoteBase c then (2, {}) else addJoined c { f with quoteStyle := false }
    else addJoined c f

/-- The columns of a character, and what then stands behind the characters before it. -/
def addColumns (c : Char) (f : Following) : Int × Following :=
  if f.emojiStyle && emojiBaseRanges.has c.toNat then
    (if f.kind.isJoinedEmoji then 0 else 2, { kind := .emoji })
  else
    let f : Following :=
      if !f.emojiStyle then f else if f.kind.isLetter then { f with emojiStyle := false } else {}
    if c.toNat ≤ 0xA0 then
      if c == '\n' then (1, { kind := .lineFeed })
      else if c == '\r' && f == { kind := .lineFeed } then (0, {})
      else (1, {})
    else addPlain c f

def width (s : String) : Nat :=
  let (columns, _) := s.toList.foldr (fun c (columns, f) =>
    let (more, f) := addColumns c f
    (columns + more, f)) ((0 : Int), ({} : Following))
  columns.toNat

end SourceWeb.Text
