import PixelRem.Text

/-!
# White space around a text

The characters with the Unicode property `White_Space`, by their UTF-8 bytes,
and trimming them from both ends of a text.  A byte that belongs to no
well-formed character is never white space.

Trimming works on bytes alone: a white-space character at either end of a text
is one of `blanks` as a prefix or a suffix, because every entry starts with a
byte that can only start a character.
-/

namespace PixelRem.Text

/-- The code points of the white-space characters. -/
def blankPoints : List Nat :=
  [0x09, 0x0A, 0x0B, 0x0C, 0x0D, 0x20, 0x85, 0xA0, 0x1680,
    0x2000, 0x2001, 0x2002, 0x2003, 0x2004, 0x2005, 0x2006, 0x2007, 0x2008, 0x2009, 0x200A,
    0x2028, 0x2029, 0x202F, 0x205F, 0x3000]

/-- The white-space characters as bytes. -/
def blanks : List Text :=
  blankPoints.map fun n => String.utf8EncodeChar (Char.ofNat n)

/-- The number of bytes that a white-space character takes at the head of `t`,
or `0`.  The characters are spelled by `table`. -/
def blankHead (table : List Text) (t : Text) : Nat :=
  match table.find? (·.isPrefixOf t) with
  | some blank => blank.length
  | none => 0

/-- Removes characters of `table` from the head, after `skip` bytes of the last one. -/
def trimHeadFrom (table : List Text) : (skip : Nat) → Text → Text
  | _, [] => []
  | skip + 1, _ :: t => trimHeadFrom table skip t
  | 0, b :: t =>
    match blankHead table (b :: t) with
    | 0 => b :: t
    | k + 1 => trimHeadFrom table k t

/-- The text without white space at its start. -/
def trimStart (t : Text) : Text :=
  trimHeadFrom blanks 0 t

/-- The text without white space at its end. -/
def trimEnd (t : Text) : Text :=
  (trimHeadFrom (blanks.map List.reverse) 0 t.reverse).reverse

/-- The text without white space at either end. -/
def trim (t : Text) : Text :=
  trimEnd (trimStart t)

end PixelRem.Text
