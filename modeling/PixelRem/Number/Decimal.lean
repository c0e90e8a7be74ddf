import PixelRem.Number.Power
import PixelRem.Text

/-!
# Exact decimals

A decimal is a whole number times a power of ten.  Products are exact; quotients
and roundings go to a given number of fraction digits, and a half goes away from
zero.  The number of fraction digits may be negative, which rounds to tens,
hundreds and so on.

The text of a decimal is in plain positional form, without superfluous zeros and
never with an exponent.
-/

namespace PixelRem

/-- The number `coefficient * 10 ^ exponent`. -/
structure Decimal where
  coefficient : Int
  exponent : Int
  deriving DecidableEq, Repr

/-- The whole number nearest to `num / den`; a half goes away from zero. -/
def roundDiv (num den : Int) : Int :=
  let q := (2 * num.natAbs + den.natAbs) / (2 * den.natAbs)
  if (num < 0) = (den < 0) then q else -q

namespace Decimal

/-- The decimal of a natural number. -/
def ofNat (n : Nat) : Decimal :=
  ⟨n, 0⟩

/-- Whether the number is zero. -/
def isZero (d : Decimal) : Bool :=
  d.coefficient == 0

/-- The exact product. -/
def mul (a b : Decimal) : Decimal :=
  ⟨a.coefficient * b.coefficient, a.exponent + b.exponent⟩

/-- The quotient `a / b` rounded to `places` fraction digits. -/
def divRound (a b : Decimal) (places : Int) : Decimal :=
  let shift := a.exponent - b.exponent + places
  ⟨roundDiv (a.coefficient * pow10 shift.toNat) (b.coefficient * pow10 (-shift).toNat), -places⟩

/-- The number rounded to `places` fraction digits. -/
def round (d : Decimal) (places : Int) : Decimal :=
  if -places ≤ d.exponent then d
  else ⟨roundDiv d.coefficient (pow10 (-places - d.exponent).toNat), -places⟩

/-! ## Text -/

/-- Drops the zeros at the end of a list of digits. -/
def dropEndZeros (digits : Text) : Text :=
  (digits.reverse.dropWhile (· == ascii '0')).reverse

/-- The digits of `n` with a point before the last `places` of them.  Zeros at the end
of the fraction are dropped, and the point with them when none is left. -/
def placePoint (n places : Nat) : Text :=
  let digits := Text.ofNat n
  let digits := List.replicate (places + 1 - digits.length) (ascii '0') ++ digits
  let whole := digits.take (digits.length - places)
  match dropEndZeros (digits.drop (digits.length - places)) with
  | [] => whole
  | fraction => whole ++ ascii '.' :: fraction

/-- The plain text of a number. -/
def toText (d : Decimal) : Text :=
  (if d.coefficient < 0 then [ascii '-'] else [])
    ++ placePoint (d.coefficient.natAbs * pow10 d.exponent.toNat) (-d.exponent).toNat

/-- The value of a list of digits. -/
def digitsValue (digits : Text) : Nat :=
  digits.foldl (fun n b => n * 10 + Byte.digitValue b) 0

/-- The number that a whole part and a fraction in digits spell. -/
def ofDigits (whole fraction : Text) : Decimal :=
  ⟨digitsValue (whole ++ fraction), -fraction.length⟩

end Decimal

end PixelRem
