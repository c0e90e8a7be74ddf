import PixelRem.Number.Decimal

/-!
# Double precision numbers

Settings are numbers of the IEEE 754 format binary64.  Nothing is ever computed
in that format: a setting is read, checked, shown and turned into a decimal.  So
a number is kept as its sign, mantissa and exponent, and every operation is exact
arithmetic on natural numbers.

`ofFraction` rounds a fraction to the nearest number of the format, a half to the
even mantissa.  `shortest` goes back: of all decimals that round to the number it
takes those with the fewest digits, and of these the nearest.
-/

namespace PixelRem

/-- The least exponent of the format. -/
def Binary64.minExponent : Int := -1074

/-- The greatest exponent of the format. -/
def Binary64.maxExponent : Int := 971

/-- Whether the format has a mantissa and an exponent: 53 bits, and an exponent in range. -/
def Binary64.InFormat (mantissa : Nat) (exponent : Int) : Prop :=
  mantissa < pow2 53 ∧ minExponent ≤ exponent ∧ exponent ≤ maxExponent

instance (mantissa : Nat) (exponent : Int) : Decidable (Binary64.InFormat mantissa exponent) :=
  inferInstanceAs (Decidable (_ ∧ _ ∧ _))

/-- A number of the format: `mantissa * 2 ^ exponent` with a sign, or a special value. -/
inductive Binary64 where
  | nan
  | infinite (negative : Bool)
  | finite (negative : Bool) (mantissa : Nat) (exponent : Int)
      (inFormat : Binary64.InFormat mantissa exponent)
  deriving DecidableEq, Repr

namespace Binary64

/-- Zero with a sign. -/
def zero (negative : Bool) : Binary64 :=
  .finite negative 0 minExponent (by decide)

instance : Inhabited Binary64 :=
  ⟨zero false⟩

/-! ## Rounding to the format -/

/-- The whole number nearest to `num / den`; a half goes to the even one. -/
def roundHalfEven (num den : Nat) : Nat :=
  let q := num / den
  let r := num % den
  if den < 2 * r || (2 * r == den && q % 2 == 1) then q + 1 else q

/-- The fraction `num / den` divided by `2 ^ exponent`. -/
def unscale (num den : Nat) (exponent : Int) : Nat × Nat :=
  (num * pow2 (-exponent).toNat, den * pow2 exponent.toNat)

/-- The exponent at which `num / den` has a mantissa of 53 bits, if the format has it. -/
def exponentFor (num den : Nat) : Int :=
  let guess : Int := (num.log2 : Int) - den.log2 - 52
  let (n, d) := unscale num den guess
  max minExponent (if n < pow2 52 * d then guess - 1 else guess)

/-- The mantissa and the exponent nearest to `num / den`.  A mantissa that is rounded up to 54
bits is a power of two. -/
def nearest (num den : Nat) : Nat × Int :=
  let exponent := exponentFor num den
  let scaled := unscale num den exponent
  let mantissa := roundHalfEven scaled.1 scaled.2
  if mantissa = pow2 53 then (pow2 52, exponent + 1) else (mantissa, exponent)

/-- A fraction that is below a bound stays below it at every greater exponent. -/
theorem unscale_lt_of_le {num den bound : Nat} {e e' : Int} (hle : e ≤ e')
    (hlt : (unscale num den e).1 < bound * (unscale num den e).2) :
    (unscale num den e').1 < bound * (unscale num den e').2 := by
  simp only [unscale] at hlt ⊢
  have hpowers : pow2 e.toNat * pow2 (-e').toNat ≤ pow2 e'.toNat * pow2 (-e).toNat := by
    rw [← pow2_add, ← pow2_add]
    exact pow2_le_pow2 (by omega)
  apply Nat.lt_of_mul_lt_mul_right (a := pow2 (-e).toNat)
  calc num * pow2 (-e').toNat * pow2 (-e).toNat
      = num * pow2 (-e).toNat * pow2 (-e').toNat := Nat.mul_right_comm ..
    _ < bound * (den * pow2 e.toNat) * pow2 (-e').toNat :=
      Nat.mul_lt_mul_of_pos_right hlt (pow2_pos _)
    _ = bound * den * (pow2 e.toNat * pow2 (-e').toNat) := by ac_rfl
    _ ≤ bound * den * (pow2 e'.toNat * pow2 (-e).toNat) := Nat.mul_le_mul_left _ hpowers
    _ = bound * (den * pow2 e'.toNat) * pow2 (-e).toNat := by ac_rfl

/-- The fraction has at most 53 bits before the point at the exponent of its logarithms. -/
theorem unscale_log2_lt {num den : Nat} (hden : den ≠ 0) {e : Int}
    (he : e = (num.log2 : Int) - den.log2 - 52) :
    (unscale num den e).1 < pow2 53 * (unscale num den e).2 := by
  have hnum : num < pow2 (num.log2 + 1) := Nat.lt_log2_self
  have hlog : pow2 den.log2 ≤ den := Nat.log2_self_le hden
  calc num * pow2 (-e).toNat
      < pow2 (num.log2 + 1) * pow2 (-e).toNat := Nat.mul_lt_mul_of_pos_right hnum (pow2_pos _)
    _ = pow2 53 * (pow2 den.log2 * pow2 e.toNat) := by
      rw [← pow2_add, ← pow2_add, ← pow2_add]
      congr 1
      omega
    _ ≤ pow2 53 * (den * pow2 e.toNat) := Nat.mul_le_mul_left _ (Nat.mul_le_mul_right _ hlog)

/-- One exponent less doubles the fraction. -/
theorem unscale_pred_lt {num den : Nat} {e : Int}
    (hlt : (unscale num den e).1 < pow2 52 * (unscale num den e).2) :
    (unscale num den (e - 1)).1 < pow2 53 * (unscale num den (e - 1)).2 := by
  simp only [unscale] at hlt ⊢
  have hpowers : pow2 (-(e - 1)).toNat * pow2 e.toNat =
      2 * (pow2 (-e).toNat * pow2 (e - 1).toNat) := by
    rw [← pow2_add, ← pow2_add, Nat.mul_comm, ← pow2_succ]
    congr 1
    omega
  apply Nat.lt_of_mul_lt_mul_right (a := pow2 e.toNat)
  calc num * pow2 (-(e - 1)).toNat * pow2 e.toNat
      = num * (pow2 (-(e - 1)).toNat * pow2 e.toNat) := Nat.mul_assoc ..
    _ = num * pow2 (-e).toNat * (2 * pow2 (e - 1).toNat) := by
      rw [hpowers]
      ac_rfl
    _ < pow2 52 * (den * pow2 e.toNat) * (2 * pow2 (e - 1).toNat) :=
      Nat.mul_lt_mul_of_pos_right hlt (Nat.mul_pos (by decide) (pow2_pos _))
    _ = pow2 52 * 2 * (den * pow2 (e - 1).toNat) * pow2 e.toNat := by ac_rfl

theorem unscale_exponentFor_lt {num den : Nat} (hden : den ≠ 0) :
    (unscale num den (exponentFor num den)).1 <
      pow2 53 * (unscale num den (exponentFor num den)).2 := by
  unfold exponentFor
  dsimp only
  refine unscale_lt_of_le (Int.le_max_right _ _) ?_
  split
  · exact unscale_pred_lt (by assumption)
  · exact unscale_log2_lt hden rfl

theorem roundHalfEven_le {num den bound : Nat} (hlt : num < bound * den) :
    roundHalfEven num den ≤ bound := by
  have hquotient : num / den < bound := Nat.div_lt_of_lt_mul (Nat.mul_comm bound den ▸ hlt)
  unfold roundHalfEven
  dsimp only
  split <;> omega

theorem nearest_spec (num den : Nat) :
    (nearest num den).1 < pow2 53 ∧ minExponent ≤ (nearest num den).2 := by
  have hmantissa : roundHalfEven (unscale num den (exponentFor num den)).1
      (unscale num den (exponentFor num den)).2 ≤ pow2 53 := by
    by_cases hden : den = 0
    · subst hden
      simp only [unscale, Nat.zero_mul, roundHalfEven, Nat.div_zero]
      split <;> decide
    · exact roundHalfEven_le (unscale_exponentFor_lt hden)
  have hexponent : minExponent ≤ exponentFor num den := Int.le_max_left _ _
  unfold nearest
  dsimp only
  split
  · exact ⟨show pow2 52 < pow2 53 by decide, show minExponent ≤ exponentFor num den + 1 by omega⟩
  · exact ⟨Nat.lt_of_le_of_ne hmantissa (by assumption), hexponent⟩

/-- The number of the format nearest to `num / den`. -/
def ofFraction (negative : Bool) (num den : Nat) : Binary64 :=
  if num = 0 then zero negative
  else if hmax : maxExponent < (nearest num den).2 then .infinite negative
  else
    .finite negative (nearest num den).1 (nearest num den).2
      ⟨(nearest_spec num den).1, (nearest_spec num den).2, Int.not_lt.mp hmax⟩

/-- The number of the format nearest to `coefficient * 10 ^ exponent`.  Exponents far
outside the format give infinity or zero at once. -/
def ofDecimal (negative : Bool) (coefficient : Nat) (exponent : Int) : Binary64 :=
  let magnitude : Int := (Nat.toDigits 10 coefficient).length + exponent
  if coefficient = 0 || magnitude < -330 then zero negative
  else if 310 < magnitude then .infinite negative
  else ofFraction negative (coefficient * pow10 exponent.toNat) (pow10 (-exponent).toNat)

/-- The number of the format nearest to `coefficient * 2 ^ exponent`. -/
def ofBinary (negative : Bool) (coefficient : Nat) (exponent : Int) : Binary64 :=
  let magnitude : Int := coefficient.log2 + exponent
  if coefficient = 0 || magnitude < -1100 then zero negative
  else if 1030 < magnitude then .infinite negative
  else ofFraction negative (coefficient * pow2 exponent.toNat) (pow2 (-exponent).toNat)

/-- The number of the format nearest to a natural number. -/
def ofNat (n : Nat) : Binary64 :=
  ofFraction false n 1

/-! ## Shortest decimals -/

/-- The greatest `k` with `10 ^ k ≤ num / den`, for a positive fraction. -/
def log10 (num den : Nat) : Int :=
  if den ≤ num then (Nat.toDigits 10 (num / den)).length - 1
  else
    let k := (Nat.toDigits 10 (den / num)).length - 1
    if num * pow10 k = den then -k else -(k + 1)

/-- The multiple of `10 ^ k` that stands for `mantissa * 2 ^ exponent` among its two
neighbours on that grid, if one of them rounds to it.  Everything is counted in
quarters of the last bit; the interval of what rounds to the number is closed if
the mantissa is even, and its lower half is half as long at a power of two. -/
def onGrid? (mantissa : Nat) (exponent k : Int) : Option Nat :=
  let quarter := exponent - 2
  let unit := pow2 quarter.toNat * pow10 (-k).toNat
  let grid := pow2 (-quarter).toNat * pow10 k.toNat
  let value := 4 * mantissa
  let low := if mantissa = pow2 52 ∧ minExponent < exponent then value - 1 else value - 2
  let high := value + 2
  let rounds (d : Nat) : Bool :=
    if mantissa % 2 = 0 then low * unit ≤ d * grid && d * grid ≤ high * unit
    else low * unit < d * grid && d * grid < high * unit
  let below := value * unit / grid
  let above := below + 1
  match rounds below, rounds above with
  | true, true =>
    let twice := 2 * value * unit
    let middle := (below + above) * grid
    if twice < middle || (twice == middle && below % 2 == 0) then some below else some above
  | true, false => some below
  | false, true => some above
  | false, false => none

/-- Moves zeros at the end of a coefficient into the exponent. -/
def stripZeros : (fuel : Nat) → Nat → Int → Nat × Int
  | 0, c, e => (c, e)
  | fuel + 1, c, e => if c % 10 = 0 && c != 0 then stripZeros fuel (c / 10) (e + 1) else (c, e)

/-- The shortest decimal that rounds to `mantissa * 2 ^ exponent`, as a coefficient that
does not end in zero and a power of ten.  Seventeen digits always suffice. -/
def shortest (mantissa : Nat) (exponent : Int) : Nat × Int :=
  if mantissa = 0 then (0, 0)
  else
    let top := log10 (mantissa * pow2 exponent.toNat) (pow2 (-exponent).toNat)
    let found := (List.range 17).findSome? fun (n : Nat) =>
      (onGrid? mantissa exponent (top - n)).map fun d => stripZeros 17 d (top - n)
    found.getD (0, 0)

/-- The decimal of a finite number. -/
def toDecimal? : Binary64 → Option Decimal
  | .finite negative mantissa exponent _ =>
    let (coefficient, power) := shortest mantissa exponent
    some ⟨if negative then -coefficient else coefficient, power⟩
  | _ => none

/-- Whether the number is zero, of either sign. -/
def isZero : Binary64 → Bool
  | .finite _ mantissa _ _ => mantissa == 0
  | _ => false

/-- The decimal of a number that is positive and finite. -/
def positive? : Binary64 → Option Decimal
  | .finite false mantissa exponent _ =>
    if mantissa = 0 then none
    else
      let (coefficient, power) := shortest mantissa exponent
      some ⟨coefficient, power⟩
  | _ => none

/-- A whole number in the order of the format, which has no place for one that is not a
number: it comes first. -/
def rank : Binary64 → Int
  | .nan => -pow2 3001
  | .infinite negative => if negative then -pow2 3000 else pow2 3000
  | .finite negative mantissa exponent _ =>
    let n : Int := mantissa * pow2 (exponent - minExponent).toNat
    if negative then -n else n

/-- The whole part of a finite number. -/
def truncate? : Binary64 → Option Int
  | .finite negative mantissa exponent _ =>
    let whole : Int := (mantissa * pow2 exponent.toNat / pow2 (-exponent).toNat : Nat)
    some (if negative then -whole else whole)
  | _ => none

/-! ## Text -/

/-- The texts of the special values. -/
def specialText : Binary64 → Text
  | .nan => utf8 "NaN"
  | .infinite false => utf8 "+Inf"
  | _ => utf8 "-Inf"

/-- The number in plain positional form with its shortest digits. -/
def toPlain : Binary64 → Text
  | .finite negative mantissa exponent _ =>
    let (coefficient, power) := shortest mantissa exponent
    (if negative then [ascii '-'] else []) ++ Decimal.toText ⟨coefficient, power⟩
  | special => specialText special

/-- A decimal exponent: its sign and at least two digits. -/
def exponentText (e : Int) : Text :=
  let digits := Text.ofNat e.natAbs
  (if e < 0 then ascii '-' else ascii '+')
    :: (List.replicate (2 - digits.length) (ascii '0') ++ digits)

/-- The number with its shortest digits, in plain form from `0.0001` up to six digits
before the point and with an exponent outside that. -/
def toGeneral : Binary64 → Text
  | .finite negative mantissa exponent _ =>
    let (coefficient, power) := shortest mantissa exponent
    let digits := Text.ofNat coefficient
    let top := power + (digits.length - 1 : Nat)
    (if negative then [ascii '-'] else []) ++
      if -4 ≤ top ∧ top ≤ 5 then Decimal.toText ⟨coefficient, power⟩
      else
        Decimal.toText ⟨coefficient, -(digits.length - 1 : Nat)⟩ ++ utf8 "e" ++ exponentText top
  | special => specialText special

end Binary64

end PixelRem
