/-!
# Byte text

Stylesheets are read as bytes: a file need not be valid UTF-8, and every offset
and column of this library counts bytes.  `Text` is a list of bytes, `utf8`
gives the bytes of a string, and the classes of ASCII bytes stand in the
namespace `Byte`.

`Text.runes` decodes the bytes one character at a time.  A byte that starts no
well-formed sequence stands for the replacement character, so decoding is total.
-/

namespace PixelRem

/-- The content of a file, or a piece of it. -/
abbrev Text := List UInt8

/-- The bytes of a string. -/
def utf8 (s : String) : Text :=
  s.toUTF8.data.toList

/-- The byte of an ASCII character. -/
abbrev ascii (c : Char) : UInt8 :=
  c.toUInt8

/-! ## Classes of bytes -/

namespace Byte

/-- White space between tokens: blank, tab, line feed, carriage return, form feed. -/
def isSpace (b : UInt8) : Bool :=
  b == 0x20 || b == 0x09 || b == 0x0A || b == 0x0D || b == 0x0C

/-- The bytes that end a line. -/
def isNewline (b : UInt8) : Bool :=
  b == 0x0A || b == 0x0D || b == 0x0C

/-- The decimal digits. -/
def isDigit (b : UInt8) : Bool :=
  0x30 ≤ b && b ≤ 0x39

/-- The letters `A` to `Z` and `a` to `z`. -/
def isLetter (b : UInt8) : Bool :=
  (0x41 ≤ b && b ≤ 0x5A) || (0x61 ≤ b && b ≤ 0x7A)

/-- The hexadecimal digits of either case. -/
def isHexDigit (b : UInt8) : Bool :=
  isDigit b || (0x41 ≤ b && b ≤ 0x46) || (0x61 ≤ b && b ≤ 0x66)

/-- A byte of a word: a letter, a digit or the underscore. -/
def isWord (b : UInt8) : Bool :=
  isLetter b || isDigit b || b == 0x5F

/-- The lower-case form of an ASCII letter; every other byte is its own. -/
def toLower (b : UInt8) : UInt8 :=
  if 0x41 ≤ b && b ≤ 0x5A then b + 0x20 else b

/-- The value of a decimal digit. -/
def digitValue (b : UInt8) : Nat :=
  b.toNat - 0x30

end Byte

namespace Text

/-! ## Pieces of a text -/

/-- The text without `pre` at its start, if it starts so. -/
def dropPrefix? (pre t : Text) : Option Text :=
  if pre.isPrefixOf t then some (t.drop pre.length) else none

/-- The text without `suf` at its end, if it ends so. -/
def dropSuffix? (suf t : Text) : Option Text :=
  if suf.isSuffixOf t then some (t.take (t.length - suf.length)) else none

/-- Splits at every byte `sep`; a text without it is its own only part. -/
def splitOn (sep : UInt8) : Text → List Text
  | [] => [[]]
  | b :: t =>
    if b = sep then [] :: splitOn sep t
    else match splitOn sep t with
      | [] => [[b]]
      | part :: parts => (b :: part) :: parts

/-- The string whose bytes these are, if they are well-formed UTF-8. -/
def toString? (t : Text) : Option String :=
  String.fromUTF8? ⟨t.toArray⟩

/-- A text of single-byte characters as a string. -/
def asciiString (t : Text) : String :=
  String.ofList (t.map fun b => Char.ofNat b.toNat)

/-- The decimal digits of a natural number. -/
def ofNat (n : Nat) : Text :=
  (Nat.toDigits 10 n).map ascii

/-- The decimal digits of an integer, after a minus sign if it is negative. -/
def ofInt : Int → Text
  | .ofNat n => ofNat n
  | .negSucc n => 0x2D :: ofNat (n + 1)

/-! ## Characters -/

/-- The continuation bytes of a multi-byte sequence. -/
def isContinuation (b : UInt8) : Bool :=
  0x80 ≤ b && b ≤ 0xBF

/-- The code point that `lead` and the continuation bytes `rest` spell, where
the lead byte contributes `lead % modulus`. -/
def codePoint (lead : UInt8) (modulus : Nat) (rest : List UInt8) : Nat :=
  rest.foldl (fun acc b => acc * 64 + b.toNat % 64) (lead.toNat % modulus)

/-- The character at the head of `lead :: rest` and the number of bytes it takes
after the first, or `none` where no well-formed sequence starts. -/
def decodeHead (lead : UInt8) (rest : Text) : Option (Char × Nat) :=
  if lead < 0x80 then some (Char.ofNat lead.toNat, 0)
  else if 0xC2 ≤ lead && lead ≤ 0xDF then
    match rest with
    | b :: _ =>
      if isContinuation b then some (Char.ofNat (codePoint lead 32 [b]), 1) else none
    | _ => none
  else if 0xE0 ≤ lead && lead ≤ 0xEF then
    match rest with
    | b :: c :: _ =>
      let low : UInt8 := if lead = 0xE0 then 0xA0 else 0x80
      let high : UInt8 := if lead = 0xED then 0x9F else 0xBF
      if low ≤ b && b ≤ high && isContinuation c then
        some (Char.ofNat (codePoint lead 16 [b, c]), 2)
      else none
    | _ => none
  else if 0xF0 ≤ lead && lead ≤ 0xF4 then
    match rest with
    | b :: c :: d :: _ =>
      let low : UInt8 := if lead = 0xF0 then 0x90 else 0x80
      let high : UInt8 := if lead = 0xF4 then 0x8F else 0xBF
      if low ≤ b && b ≤ high && isContinuation c && isContinuation d then
        some (Char.ofNat (codePoint lead 8 [b, c, d]), 3)
      else none
    | _ => none
  else none

/-- The character that stands for a byte outside every well-formed sequence. -/
def replacement : Char :=
  Char.ofNat 0xFFFD

/-- Decodes after passing over `skip` bytes that belong to the last character. -/
def runesFrom : (skip : Nat) → Text → List (Option Char)
  | _, [] => []
  | skip + 1, _ :: t => runesFrom skip t
  | 0, b :: t =>
    match decodeHead b t with
    | some (c, k) => some c :: runesFrom k t
    | none => none :: runesFrom 0 t

/-- The characters of a text, with `none` for each byte of no well-formed sequence. -/
def runes (t : Text) : List (Option Char) :=
  runesFrom 0 t

/-- The bytes of a list of characters. -/
def ofChars (cs : List Char) : Text :=
  cs.flatMap String.utf8EncodeChar

end Text

end PixelRem
