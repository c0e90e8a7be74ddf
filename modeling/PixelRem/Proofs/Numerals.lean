import Mathlib
import PixelRem.Proofs.Pixels
import PixelRem.Proofs.Shortest

/-!
# Decimals and their texts as numbers

`Decimal.toRat` is the number that a decimal stands for, and `IsNumeral` says which texts spell
a number and which one: digits, or digits with a point and a fraction.  A text spells one number
at most (`IsNumeral.unique`).

The two sides meet in both directions.  What stands before the unit of a pixel length spells its
magnitude (`isLength_iff`), and the plain text of a decimal that is not negative spells the
decimal without a superfluous zero at either end (`isPlain_toText`).
-/

namespace PixelRem

/-! ## Digits -/

/-- The number that digits spell, the highest digit first. -/
def numeral (digits : Text) : ℕ :=
  Nat.ofDigits 10 (digits.reverse.map Byte.digitValue)

@[simp] theorem numeral_nil : numeral [] = 0 := rfl

theorem numeral_append (x y : Text) : numeral (x ++ y) = numeral x * 10 ^ y.length + numeral y := by
  rw [numeral, List.reverse_append, List.map_append, Nat.ofDigits_append, List.length_map,
    List.length_reverse, ← numeral, ← numeral]
  ring

theorem numeral_singleton (b : UInt8) : numeral [b] = Byte.digitValue b := by
  simp [numeral, Nat.ofDigits_singleton]

theorem digitsValue_eq_numeral (digits : Text) : Decimal.digitsValue digits = numeral digits := by
  induction digits using List.reverseRecOn with
  | nil => rfl
  | append_singleton digits b ih =>
    rw [numeral_append, numeral_singleton, ← ih, Decimal.digitsValue, List.foldl_append]
    rfl

theorem digitValue_digitChar : ∀ d < 10, Byte.digitValue (ascii (Nat.digitChar d)) = d := by
  decide

/-- The digits of a number spell it. -/
theorem numeral_ofNat (n : ℕ) : numeral (Text.ofNat n) = n := by
  induction n using Nat.strong_induction_on with
  | _ n ih =>
    rw [Text.ofNat, Nat.toDigits_eq_if (by decide)]
    split_ifs with hn
    · rw [List.map_singleton, numeral_singleton, digitValue_digitChar n hn]
    · have hless : n / 10 < n := Nat.div_lt_self (by omega) (by decide)
      have hlast := digitValue_digitChar (n % 10) (Nat.mod_lt n (by decide))
      rw [List.map_append, List.map_singleton, numeral_append, numeral_singleton, hlast,
        ← Text.ofNat, ih _ hless]
      simp only [List.length_singleton, pow_one]
      omega

theorem numeral_zeros (k : ℕ) : numeral (List.replicate k (ascii '0')) = 0 := by
  induction k with
  | zero => rfl
  | succ k ih =>
    rw [List.replicate_succ', numeral_append, ih, numeral_singleton]
    rfl

/-- Only zeros are dropped at the end of digits. -/
theorem dropEndZeros_append (digits : Text) :
    ∃ k, digits = Decimal.dropEndZeros digits ++ List.replicate k (ascii '0') := by
  have hzeros : ∀ b ∈ (digits.reverse.takeWhile (· == ascii '0')).reverse, b = ascii '0' := by
    intro b hb
    have hzero := List.mem_takeWhile_imp (List.mem_reverse.mp hb)
    simpa using hzero
  refine ⟨(digits.reverse.takeWhile (· == ascii '0')).reverse.length, ?_⟩
  rw [Decimal.dropEndZeros, ← List.eq_replicate_of_mem hzeros, ← List.reverse_append,
    List.takeWhile_append_dropWhile, List.reverse_reverse]

/-- Zeros at the end of a fraction do not count. -/
theorem numeral_dropEndZeros (fraction : Text) :
    (numeral fraction : ℚ) / 10 ^ fraction.length =
      numeral (Decimal.dropEndZeros fraction) / 10 ^ (Decimal.dropEndZeros fraction).length := by
  obtain ⟨k, hzeros⟩ := dropEndZeros_append fraction
  generalize Decimal.dropEndZeros fraction = digits at hzeros ⊢
  rw [hzeros, numeral_append, numeral_zeros, List.length_append, List.length_replicate, pow_add]
  push_cast
  field_simp
  ring

/-! ## Texts of numbers -/

/-- A text that spells a number: digits, with or without a point and more digits. -/
inductive IsNumeral : Text → ℚ → Prop where
  | whole {digits : Text} (hdigits : IsDigits digits) : IsNumeral digits (numeral digits)
  | fraction {whole fraction : Text} (hwhole : IsDigits whole) (hfraction : IsDigits fraction) :
      IsNumeral (whole ++ ascii '.' :: fraction)
        (numeral whole + numeral fraction / 10 ^ fraction.length)

theorem point_not_mem {digits : Text} (hdigits : IsDigits digits) : ascii '.' ∉ digits := by
  intro hmem
  exact absurd (hdigits.2 _ hmem) (by decide)

/-- A text spells one number at most. -/
theorem IsNumeral.unique {t : Text} {m n : ℚ} (hm : IsNumeral t m) (hn : IsNumeral t n) :
    m = n := by
  cases hm with
  | whole hdigits =>
    generalize ht : t = u at hn
    cases hn with
    | whole => rfl
    | fraction =>
      rw [ht] at hdigits
      exact absurd (List.mem_append_right _ List.mem_cons_self) (point_not_mem hdigits)
  | @fraction whole fraction hwhole hfraction =>
    generalize ht : whole ++ ascii '.' :: fraction = u at hn
    cases hn with
    | whole hdigits =>
      rw [← ht] at hdigits
      exact absurd (List.mem_append_right _ List.mem_cons_self) (point_not_mem hdigits)
    | @fraction whole' fraction' hwhole' hfraction' =>
      obtain ⟨htake, hdrop⟩ := hwhole.takeWhile (b := ascii '.') rfl fraction
      obtain ⟨htake', hdrop'⟩ := hwhole'.takeWhile (b := ascii '.') rfl fraction'
      rw [ht] at htake hdrop
      have hparts : whole = whole' := htake.symm.trans htake'
      have hrest := hdrop.symm.trans hdrop'
      rw [hparts, (List.cons.inj hrest).2]

/-! ## Decimals -/

/-- The number that a decimal stands for. -/
def Decimal.toRat (d : Decimal) : ℚ :=
  d.coefficient * 10 ^ d.exponent

theorem toRat_mul (a b : Decimal) : (a.mul b).toRat = a.toRat * b.toRat := by
  simp only [Decimal.toRat, Decimal.mul, zpow_add₀ (show (10 : ℚ) ≠ 0 by norm_num)]
  push_cast
  ring

theorem toRat_nonneg {d : Decimal} (hd : 0 ≤ d.coefficient) : 0 ≤ d.toRat := by
  have hcast : (0 : ℚ) ≤ d.coefficient := by exact_mod_cast hd
  rw [Decimal.toRat]
  positivity

theorem toRat_pos {d : Decimal} (hd : 0 < d.coefficient) : 0 < d.toRat := by
  have hcast : (0 : ℚ) < d.coefficient := by exact_mod_cast hd
  rw [Decimal.toRat]
  positivity

theorem toRat_eq_zero_iff (d : Decimal) : d.toRat = 0 ↔ d.isZero = true := by
  have hpower : (10 : ℚ) ^ d.exponent ≠ 0 := zpow_ne_zero _ (by norm_num)
  rw [Decimal.toRat, mul_eq_zero, Decimal.isZero, beq_iff_eq]
  simp [hpower]

/-- The decimal of a whole part and a fraction. -/
theorem toRat_ofDigits (whole fraction : Text) :
    (Decimal.ofDigits whole fraction).toRat =
      numeral whole + numeral fraction / 10 ^ fraction.length := by
  rw [Decimal.ofDigits, Decimal.toRat, digitsValue_eq_numeral, numeral_append, zpow_neg,
    zpow_natCast]
  push_cast
  field_simp

/-- A pixel length is a number before the unit, with the number as its magnitude. -/
theorem isLength_iff {x : Text} {q : ℚ} :
    (∃ magnitude, IsLength x magnitude ∧ magnitude.toRat = q) ↔
      ∃ number, x = number ++ unitText ∧ IsNumeral number q := by
  constructor
  · rintro ⟨magnitude, hx, rfl⟩
    cases hx with
    | @whole digits hdigits =>
      refine ⟨digits, rfl, ?_⟩
      rw [toRat_ofDigits, numeral_nil]
      simpa using IsNumeral.whole hdigits
    | @fraction whole fraction hwhole hfraction =>
      refine ⟨whole ++ ascii '.' :: fraction, by simp, ?_⟩
      rw [toRat_ofDigits]
      exact .fraction hwhole hfraction
  · rintro ⟨number, rfl, hnumber⟩
    cases hnumber with
    | whole hdigits =>
      refine ⟨_, .whole hdigits, ?_⟩
      rw [toRat_ofDigits, numeral_nil]
      simp
    | fraction hwhole hfraction =>
      refine ⟨_, ?_, toRat_ofDigits _ _⟩
      rw [List.append_assoc, List.cons_append]
      exact .fraction hwhole hfraction

/-! ## Plain texts -/

/-- A number with zeros before its digits, so that there are more than `places` of them. -/
theorem exists_padded (n places : ℕ) :
    ∃ digits, digits =
        List.replicate (places + 1 - (Text.ofNat n).length) (ascii '0') ++ Text.ofNat n ∧
      (∀ b ∈ digits, Byte.isDigit b = true) ∧ places < digits.length ∧ numeral digits = n := by
  refine ⟨_, rfl, ?_, ?_, ?_⟩
  · intro b hb
    rcases List.mem_append.mp hb with hzero | hdigit
    · rw [List.eq_of_mem_replicate hzero]
      rfl
    · exact isDigit_ofNat n b hdigit
  · rw [List.length_append, List.length_replicate]
    omega
  · rw [numeral_append, numeral_zeros, numeral_ofNat]
    omega

/-- Digits without a superfluous zero before them: only zero itself starts with one. -/
def IsWhole (t : Text) : Prop :=
  IsDigits t ∧ (t.head? = some (ascii '0') → t = [ascii '0'])

/-- A text that spells a number without superfluous zeros and with at most `places` fraction
digits. -/
inductive IsPlain (places : ℕ) : Text → ℚ → Prop where
  | whole {digits : Text} (hdigits : IsWhole digits) : IsPlain places digits (numeral digits)
  | fraction {whole fraction : Text} (hwhole : IsWhole whole) (hfraction : IsDigits fraction)
      (hlast : fraction.getLast? ≠ some (ascii '0')) (hplaces : fraction.length ≤ places) :
      IsPlain places (whole ++ ascii '.' :: fraction)
        (numeral whole + numeral fraction / 10 ^ fraction.length)

theorem IsPlain.isNumeral {places : ℕ} {t : Text} {n : ℚ} (hplain : IsPlain places t n) :
    IsNumeral t n := by
  cases hplain with
  | whole hdigits => exact .whole hdigits.1
  | fraction hwhole hfraction => exact .fraction hwhole.1 hfraction

theorem head?_ofNat {n : ℕ} (hn : n ≠ 0) : (Text.ofNat n).head? ≠ some (ascii '0') := by
  induction n using Nat.strong_induction_on with
  | _ n ih =>
    rw [Text.ofNat, Nat.toDigits_eq_if (by decide)]
    split_ifs with hless
    · have hdigits : ∀ d < 10, d ≠ 0 → ascii (Nat.digitChar d) ≠ ascii '0' := by decide
      simpa using hdigits n hless hn
    · have hfirst := ih (n / 10) (Nat.div_lt_self (by omega) (by decide)) (by omega)
      rw [List.map_append, ← Text.ofNat, List.head?_append_of_ne_nil]
      · exact hfirst
      · simp [Text.ofNat, Nat.toDigits_ne_nil]

/-- What stands before the point has no superfluous zero. -/
theorem isWhole_padded (n places : ℕ) {digits : Text}
    (hdigits : digits =
      List.replicate (places + 1 - (Text.ofNat n).length) (ascii '0') ++ Text.ofNat n) :
    IsWhole (digits.take (digits.length - places)) := by
  rcases Nat.lt_or_ge places (Text.ofNat n).length with hlong | hshort
  · -- no zero is put before the digits, and the first of them stays
    have hsame : digits = Text.ofNat n := by
      rw [hdigits, Nat.sub_eq_zero_of_le hlong]
      rfl
    rw [hsame]
    have hne : (Text.ofNat n).take ((Text.ofNat n).length - places) ≠ [] := by
      rw [← List.length_pos_iff, List.length_take]
      omega
    refine ⟨⟨hne, fun b hb => isDigit_ofNat n b (List.mem_of_mem_take hb)⟩, fun hzero => ?_⟩
    rw [List.head?_take, if_neg (by omega)] at hzero
    obtain rfl : n = 0 := by
      by_contra hn
      exact head?_ofNat hn hzero
    have hone : (Text.ofNat 0).length = 1 := by decide
    rw [hone, show 1 - places = 1 by omega]
    decide
  · have hlength : digits.length - places = 1 := by
      rw [hdigits, List.length_append, List.length_replicate]
      omega
    have hfirst : digits.take 1 = [ascii '0'] := by
      rw [hdigits, show places + 1 - (Text.ofNat n).length =
        places - (Text.ofNat n).length + 1 by omega, List.replicate_succ]
      rfl
    rw [hlength, hfirst]
    refine ⟨⟨by simp, fun b hb => ?_⟩, fun _ => rfl⟩
    rw [List.mem_singleton.mp hb]
    rfl

theorem getLast?_dropEndZeros (digits : Text) :
    (Decimal.dropEndZeros digits).getLast? ≠ some (ascii '0') := by
  rw [Decimal.dropEndZeros, List.getLast?_reverse]
  intro hzero
  have hfirst := List.head?_dropWhile_not (· == ascii '0') digits.reverse
  rw [hzero] at hfirst
  simp at hfirst

/-- Digits with a point put into them spell the quotient by a power of ten. -/
theorem isPlain_placePoint (n places : ℕ) :
    IsPlain places (Decimal.placePoint n places) (n / 10 ^ places) := by
  obtain ⟨digits, hdigits, hall, hlength, hvalue⟩ := exists_padded n places
  have hwhole := isWhole_padded n places hdigits
  have hplaces : (digits.drop (digits.length - places)).length = places := by
    rw [List.length_drop]
    omega
  have hquotient : (n : ℚ) / 10 ^ places = numeral (digits.take (digits.length - places)) +
      numeral (digits.drop (digits.length - places)) /
        10 ^ (digits.drop (digits.length - places)).length := by
    have hcut := numeral_append (digits.take (digits.length - places))
      (digits.drop (digits.length - places))
    rw [List.take_append_drop, hvalue, hplaces] at hcut
    rw [hcut, hplaces]
    push_cast
    field_simp
  rw [numeral_dropEndZeros] at hquotient
  rw [hquotient, Decimal.placePoint, ← hdigits]
  split
  · rename_i hnone
    rw [hnone]
    simpa using IsPlain.whole hwhole
  · rename_i hsome
    refine .fraction hwhole ⟨hsome, fun b hb => ?_⟩ (getLast?_dropEndZeros _) ?_
    · exact hall b (List.mem_of_mem_drop (mem_dropEndZeros hb))
    · obtain ⟨k, hzeros⟩ := dropEndZeros_append (digits.drop (digits.length - places))
      have hcount := congrArg List.length hzeros
      rw [List.length_append, hplaces] at hcount
      omega

theorem isNumeral_placePoint (n places : ℕ) :
    IsNumeral (Decimal.placePoint n places) (n / 10 ^ places) :=
  (isPlain_placePoint n places).isNumeral

/-- The plain text of a decimal that is not negative spells it. -/
theorem isPlain_toText {d : Decimal} (hd : 0 ≤ d.coefficient) :
    IsPlain (-d.exponent).toNat d.toText d.toRat := by
  have hvalue : d.toRat = (d.coefficient.natAbs * pow10 d.exponent.toNat : ℕ) /
      10 ^ (-d.exponent).toNat := by
    have hcast : (d.coefficient.natAbs : ℚ) = d.coefficient := by
      rw [Nat.cast_natAbs, abs_of_nonneg hd]
    rw [Nat.cast_mul, hcast, cast_pow10, pow_toNat (by norm_num) d.exponent, Decimal.toRat]
    field_simp
  rw [hvalue, Decimal.toText, if_neg (Int.not_lt.mpr hd), List.nil_append]
  exact isPlain_placePoint _ _

end PixelRem
