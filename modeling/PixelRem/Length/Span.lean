import PixelRem.Number.Decimal

/-!
# Pixel lengths in a value

A pixel length is a run of digits, optionally with a point and a second run, and
the unit `px`, that is no part of a longer word.  `pixelSpans` finds them from
left to right; a length that could start at several digits starts at the first.
-/

namespace PixelRem

/-- A pixel length and where it stands, from byte `start` up to byte `stop`. -/
structure PixelSpan where
  start : Nat
  stop : Nat
  magnitude : Decimal
  deriving DecidableEq, Repr

/-- Whether the unit stands at the head of a text, with no word byte behind it. -/
def pixelUnit : Text → Bool
  | a :: b :: t => a == ascii 'p' && b == ascii 'x' && !(t.head?.any Byte.isWord)
  | _ => false

/-- The length in bytes and the magnitude of a pixel length at the head of a text.

Fractions of more than `2 ^ 31` digits are not covered.  Their exponent is below all 32-bit
numbers; a reader of decimals that holds exponents in 32 bits refuses them, and the length is
passed over.  Here every length has its magnitude. -/
def pixelHead? (t : Text) : Option (Nat × Decimal) :=
  let whole := t.takeWhile Byte.isDigit
  if whole.isEmpty then none
  else
    let behind := t.dropWhile Byte.isDigit
    if pixelUnit behind then some (whole.length + 2, Decimal.ofDigits whole [])
    else match behind with
      | [] => none
      | point :: rest =>
        let fraction := rest.takeWhile Byte.isDigit
        if point = ascii '.' && !fraction.isEmpty && pixelUnit (rest.dropWhile Byte.isDigit) then
          some (whole.length + 1 + fraction.length + 2, Decimal.ofDigits whole fraction)
        else none

/-- The pixel lengths of a text whose first byte has number `offset`.  `word` says that
the byte before it is part of a word, and `skip` bytes belong to the last length. -/
def pixelSpansFrom : (offset : Nat) → (word : Bool) → (skip : Nat) → Text → List PixelSpan
  | _, _, _, [] => []
  | offset, _, skip + 1, b :: t => pixelSpansFrom (offset + 1) (Byte.isWord b) skip t
  | offset, word, 0, b :: t =>
    match if word then none else pixelHead? (b :: t) with
    | some (n, magnitude) =>
      ⟨offset, offset + n, magnitude⟩ :: pixelSpansFrom (offset + 1) (Byte.isWord b) (n - 1) t
    | none => pixelSpansFrom (offset + 1) (Byte.isWord b) 0 t

/-- The pixel lengths of a value, from left to right. -/
def pixelSpans (value : Text) : List PixelSpan :=
  pixelSpansFrom 0 false 0 value

/-- Whether a pixel length starts in a text.  `word` says that the byte before it is part
of a word. -/
def hasPixelsFrom : (word : Bool) → Text → Bool
  | _, [] => false
  | word, b :: t =>
    (!word && (pixelHead? (b :: t)).isSome) || hasPixelsFrom (Byte.isWord b) t

/-- Whether a value has a pixel length.  The search ends at the first one. -/
def hasPixels (value : Text) : Bool :=
  hasPixelsFrom false value

end PixelRem
