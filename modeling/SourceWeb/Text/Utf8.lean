/-
  Reading bytes as UTF-8 text.

  `decode?` accepts well-formed bytes only.  `decodeLossy` accepts all bytes: it writes U+FFFD for
  every maximal run of bytes that begins a character without completing it.
-/
import SourceWeb.Text.Alphabet

namespace SourceWeb.Text

def decode? (bytes : ByteArray) : Option String :=
  String.fromUTF8? bytes

/-- What the first bytes of a sequence amount to: a character and how many bytes encode it, or the
    number of bytes that begin a character without completing one. -/
inductive Lead
  | char (c : Char) (width : Nat)
  | broken (width : Nat)

def isTail (b : UInt8) : Bool :=
  0x80 ≤ b && b ≤ 0xBF

def tailBits (b : UInt8) : Nat :=
  b.toNat % 64

def leadFour (b0 b1 : UInt8) : List UInt8 → Lead
  | b2 :: b3 :: _ =>
    if !isTail b2 then .broken 2
    else if !isTail b3 then .broken 3
    else .char (Char.ofNat (((b0.toNat % 8 * 64 + tailBits b1) * 64 + tailBits b2) * 64 +
      tailBits b3)) 4
  | [b2] => if isTail b2 then .broken 3 else .broken 2
  | [] => .broken 2

def leadOf (b0 : UInt8) (rest : List UInt8) : Lead :=
  if b0 < 0x80 then .char (Char.ofNat b0.toNat) 1
  else if 0xC2 ≤ b0 && b0 ≤ 0xDF then
    match rest with
    | b1 :: _ =>
      if isTail b1 then .char (Char.ofNat (b0.toNat % 32 * 64 + tailBits b1)) 2 else .broken 1
    | [] => .broken 1
  else if 0xE0 ≤ b0 && b0 ≤ 0xEF then
    match rest with
    | b1 :: rest =>
      let low : UInt8 := if b0 = 0xE0 then 0xA0 else 0x80
      let high : UInt8 := if b0 = 0xED then 0x9F else 0xBF
      if !(low ≤ b1 && b1 ≤ high) then .broken 1
      else match rest with
        | b2 :: _ =>
          if isTail b2 then
            .char (Char.ofNat ((b0.toNat % 16 * 64 + tailBits b1) * 64 + tailBits b2)) 3
          else .broken 2
        | [] => .broken 2
    | [] => .broken 1
  else if 0xF0 ≤ b0 && b0 ≤ 0xF4 then
    match rest with
    | b1 :: rest =>
      let low : UInt8 := if b0 = 0xF0 then 0x90 else 0x80
      let high : UInt8 := if b0 = 0xF4 then 0x8F else 0xBF
      if !(low ≤ b1 && b1 ≤ high) then .broken 1 else leadFour b0 b1 rest
    | [] => .broken 1
  else .broken 1

/-- Decodes bytes, passing over the first `skip` of them, which are already accounted for. -/
def decodeFrom : Nat → List UInt8 → List Char
  | _, [] => []
  | skip + 1, _ :: bytes => decodeFrom skip bytes
  | 0, b :: bytes =>
    match leadOf b bytes with
    | .char c width => c :: decodeFrom (width - 1) bytes
    | .broken width => '\uFFFD' :: decodeFrom (width - 1) bytes

/-- The text that the bytes encode, with U+FFFD where they are not well formed. -/
def decodeLossy (bytes : ByteArray) : String :=
  match decode? bytes with
  | some text => text
  | none => String.ofList (decodeFrom 0 bytes.toList)

end SourceWeb.Text
