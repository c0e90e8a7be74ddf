import PixelRem.Text

/-!
# Bytes in letters

Three bytes are written as four letters of six bits each.  A text that ends
within three bytes is filled up with equals signs; line ends are passed over.
-/

namespace PixelRem.Base64

/-- The six bits that a letter stands for. -/
def bits? (b : UInt8) : Option Nat :=
  if 65 ≤ b && b ≤ 90 then some (b.toNat - 65)
  else if 97 ≤ b && b ≤ 122 then some (b.toNat - 71)
  else if 48 ≤ b && b ≤ 57 then some (b.toNat + 4)
  else if b == 43 then some 62
  else if b == 47 then some 63
  else none

/-- The first bytes of a group of four letters. -/
def group? (count : Nat) (a b c d : UInt8) : Option Text := do
  let n := (← bits? a) * 262144 + (← bits? b) * 4096 + (← bits? c) * 64 + (← bits? d)
  return [UInt8.ofNat (n / 65536), UInt8.ofNat (n / 256 % 256), UInt8.ofNat (n % 256)].take count

/-- The bytes of groups of letters. -/
def groups? : Text → Option Text
  | [] => some []
  | [a, b, 61, 61] => group? 1 a b 65 65
  | [a, b, c, 61] => group? 2 a b c 65
  | a :: b :: c :: d :: t => do return (← group? 3 a b c d) ++ (← groups? t)
  | _ => none

/-- The bytes that a text stands for. -/
def decode? (t : Text) : Option Text :=
  groups? (t.filter fun b => b != 10 && b != 13)

end PixelRem.Base64
