import Mathlib
import PixelRem.Proofs.Acceptance
import PixelRem.Proofs.Numerals

/-!
# Rounding

`roundTo` is the rounding that is meant, half away from zero, on rationals.  The two operations
on decimals that round are that rounding (`toRat_divRound`, `toRat_round`).

Rounding to guard digits first moves a number by half a guard digit at most, so it can matter
only right below a tie, and there it does: the number is carried onto the tie and the second
rounding takes it up (`round_round_mul`, `BelowTie`).  Apart from that rounding twice is rounding
once (`roundTo_guarded`).
-/

namespace PixelRem

/-! ## Rounding to digits -/

/-- The whole number nearest to a rational; a half goes away from zero. -/
def roundAway (q : ℚ) : ℤ :=
  if q < 0 then -round (-q) else round q

/-- A rational rounded to a number of fraction digits; a half goes away from zero. -/
def roundTo (places : ℤ) (q : ℚ) : ℚ :=
  roundAway (q * 10 ^ places) / 10 ^ places

/-- A rational has no more than `places` fraction digits. -/
def HasPlaces (places : ℤ) (q : ℚ) : Prop :=
  ∃ k : ℤ, q = k / 10 ^ places

section Digits

variable {places : ℤ} {q : ℚ}

theorem ten_zpow_pos (places : ℤ) : (0 : ℚ) < 10 ^ places :=
  zpow_pos (by norm_num) places

theorem roundAway_of_nonneg (hq : 0 ≤ q) : roundAway q = round q :=
  if_neg (not_lt.mpr hq)

theorem roundAway_neg (q : ℚ) : roundAway (-q) = -roundAway q := by
  unfold roundAway
  rcases lt_trichotomy q 0 with hq | rfl | hq
  · rw [if_neg (by linarith), if_pos hq, neg_neg]
  · simp
  · rw [if_pos (by linarith), if_neg (by linarith), neg_neg]

theorem roundAway_intCast (k : ℤ) : roundAway k = k := by
  unfold roundAway
  split_ifs
  · rw [← Int.cast_neg, round_intCast, neg_neg]
  · exact round_intCast k

theorem roundTo_of_nonneg (hq : 0 ≤ q) (places : ℤ) :
    roundTo places q = round (q * 10 ^ places) / 10 ^ places := by
  have hscaled : 0 ≤ q * 10 ^ places := mul_nonneg hq (ten_zpow_pos places).le
  rw [roundTo, roundAway_of_nonneg hscaled]

/-- A number that has the digits is not changed. -/
theorem roundTo_of_hasPlaces (hplaces : HasPlaces places q) : roundTo places q = q := by
  obtain ⟨k, rfl⟩ := hplaces
  rw [roundTo, div_mul_cancel₀ _ (ten_zpow_pos places).ne', roundAway_intCast]

theorem HasPlaces.mono (hplaces : HasPlaces places q) (more : ℕ) :
    HasPlaces (places + more) q := by
  obtain ⟨k, rfl⟩ := hplaces
  refine ⟨k * 10 ^ more, ?_⟩
  have hpos := ten_zpow_pos places
  rw [zpow_add₀ (by norm_num), zpow_natCast]
  push_cast
  field_simp

theorem roundTo_nonneg (hq : 0 ≤ q) (places : ℤ) : 0 ≤ roundTo places q := by
  have hscaled : 0 ≤ q * 10 ^ places := mul_nonneg hq (ten_zpow_pos places).le
  have hround : 0 ≤ round (q * 10 ^ places) := by
    rw [round_eq]
    exact Int.floor_nonneg.mpr (by linarith)
  have hcast : (0 : ℚ) ≤ round (q * 10 ^ places) := by exact_mod_cast hround
  rw [roundTo_of_nonneg hq]
  exact div_nonneg hcast (ten_zpow_pos places).le

theorem roundTo_le_roundTo {q' : ℚ} (hq : 0 ≤ q) (hle : q ≤ q') (places : ℤ) :
    roundTo places q ≤ roundTo places q' := by
  have hpos := ten_zpow_pos places
  have hscaled : q * 10 ^ places ≤ q' * 10 ^ places := mul_le_mul_of_nonneg_right hle hpos.le
  have hround : round (q * 10 ^ places) ≤ round (q' * 10 ^ places) := by
    rw [round_eq, round_eq]
    exact Int.floor_le_floor (by linarith)
  rw [roundTo_of_nonneg hq, roundTo_of_nonneg (hq.trans hle)]
  exact div_le_div_of_nonneg_right (by exact_mod_cast hround) hpos.le

theorem abs_roundTo_sub_le (hq : 0 ≤ q) (places : ℤ) :
    |roundTo places q - q| ≤ 1 / 10 ^ places / 2 := by
  have hpos := ten_zpow_pos places
  have hround := abs_sub_round (q * 10 ^ places)
  have hdiff : roundTo places q - q =
      -(q * 10 ^ places - round (q * 10 ^ places)) / 10 ^ places := by
    rw [roundTo_of_nonneg hq]
    field_simp
    ring
  rw [hdiff, abs_div, abs_neg, abs_of_pos hpos, div_le_iff₀ hpos]
  calc |q * 10 ^ places - round (q * 10 ^ places)| ≤ 1 / 2 := hround
    _ = 1 / 10 ^ places / 2 * 10 ^ places := by field_simp

end Digits

/-! ## Rounding twice -/

/-- A number lies below the middle between two neighbours with `places` digits, by at most half
of the last guard digit. -/
def BelowTie (places : ℤ) (q : ℚ) : Prop :=
  ∃ k : ℤ, (k + 1 / 2) / 10 ^ places - 1 / 10 ^ (places + guardDigits) / 2 ≤ q ∧
    q < (k + 1 / 2) / 10 ^ places

/-- Rounding to a finer grid first changes the result where the finer rounding reaches the middle
above a number, and nowhere else. -/
theorem round_round_mul (x : ℚ) {n : ℕ} (hn : 0 < n) :
    (x < round x + 1 / 2 - 1 / (4 * n) →
      round ((round (x * (2 * n)) : ℚ) / (2 * n)) = round x) ∧
    (round x + 1 / 2 - 1 / (4 * n) ≤ x →
      round ((round (x * (2 * n)) : ℚ) / (2 * n)) = round x + 1) := by
  have hpos : (0 : ℚ) < n := by exact_mod_cast hn
  obtain ⟨hxlow, hxhigh⟩ := round_eq_iff.mp (rfl : round x = round x)
  obtain ⟨hylow, hyhigh⟩ := round_eq_iff.mp (rfl : round (x * (2 * n)) = round (x * (2 * n)))
  generalize round x = r at hxlow hxhigh ⊢
  generalize round (x * (2 * n)) = y at hylow hyhigh ⊢
  have hfine : (4 * n : ℚ) * (1 / (4 * n)) = 1 := by field_simp
  -- the finer grid has the middles of the coarser one, so no rounding passes them
  have hlow : 2 * n * r - n ≤ y := by
    have hcast : ((2 * n * r - n : ℤ) : ℚ) < y + 1 := by
      push_cast
      nlinarith
    have hint : (2 * n * r - n : ℤ) < y + 1 := by exact_mod_cast hcast
    omega
  have hlowcast : (2 * n * r - n : ℚ) ≤ y := by exact_mod_cast hlow
  constructor
  · intro hbelow
    have hhigh : y < 2 * n * r + n := by
      have hcast : (y : ℚ) < (2 * n * r + n : ℤ) := by
        push_cast
        nlinarith
      exact_mod_cast hcast
    have hhighcast : (y : ℚ) < 2 * n * r + n := by exact_mod_cast hhigh
    rw [round_eq_iff]
    constructor
    · rw [le_div_iff₀ (by positivity)]
      linarith
    · rw [div_lt_iff₀ (by positivity)]
      linarith
  · intro habove
    have hmiddle : y = 2 * n * r + n := by
      have hcast : ((2 * n * r + n : ℤ) : ℚ) < y + 1 := by
        push_cast
        nlinarith
      have hcast' : (y : ℚ) < (2 * n * r + n : ℤ) + 1 := by
        push_cast
        nlinarith
      have hint : (2 * n * r + n : ℤ) < y + 1 := by exact_mod_cast hcast
      have hint' : y < (2 * n * r + n : ℤ) + 1 := by exact_mod_cast hcast'
      omega
    have hquotient : (y : ℚ) / (2 * n) = r + 1 / 2 := by
      rw [hmiddle]
      push_cast
      field_simp
    rw [hquotient, round_eq_iff]
    push_cast
    constructor
    · linarith
    · linarith

section Twice

variable {places : ℤ} {q : ℚ}

theorem ten_zpow_guarded (places : ℤ) :
    (10 : ℚ) ^ (places + guardDigits) = 10 ^ places * (2 * (5 * 10 ^ 15 : ℕ)) := by
  rw [zpow_add₀ (by norm_num), show guardDigits = (16 : ℕ) from rfl, zpow_natCast]
  norm_num

theorem belowTie_iff :
    BelowTie places q ↔
      round (q * 10 ^ places) + 1 / 2 - 1 / (4 * (5 * 10 ^ 15 : ℕ)) ≤ q * 10 ^ places := by
  have hpos := ten_zpow_pos places
  have hscale (k : ℤ) :
      (k + 1 / 2) / 10 ^ places - 1 / 10 ^ (places + guardDigits) / 2 ≤ q ↔
        k + 1 / 2 - 1 / (4 * (5 * 10 ^ 15 : ℕ)) ≤ q * 10 ^ places := by
    rw [ten_zpow_guarded, ← div_le_iff₀ hpos]
    have hsame : ((k : ℚ) + 1 / 2) / 10 ^ places -
        1 / (10 ^ places * (2 * (5 * 10 ^ 15 : ℕ))) / 2 =
        (k + 1 / 2 - 1 / (4 * (5 * 10 ^ 15 : ℕ))) / 10 ^ places := by
      field_simp
      ring
    rw [hsame]
  constructor
  · rintro ⟨k, hlow, hhigh⟩
    rw [hscale] at hlow
    rw [lt_div_iff₀ hpos] at hhigh
    have hround : round (q * 10 ^ places) = k := by
      rw [round_eq_iff]
      constructor
      · norm_num at hlow ⊢
        linarith
      · exact hhigh
    rwa [hround]
  · intro hlow
    refine ⟨round (q * 10 ^ places), (hscale _).mpr hlow, ?_⟩
    rw [lt_div_iff₀ hpos]
    exact (round_eq_iff.mp rfl).2

/-- Rounding to the guard digits first takes a number up that lies right below a tie. -/
theorem roundTo_guarded (hq : 0 ≤ q) (places : ℤ) :
    (¬ BelowTie places q →
      roundTo places (roundTo (places + guardDigits) q) = roundTo places q) ∧
    (BelowTie places q →
      roundTo places (roundTo (places + guardDigits) q) =
        roundTo places q + 1 / 10 ^ places) := by
  have hpos := ten_zpow_pos places
  have htwice := round_round_mul (q * 10 ^ places) (show 0 < 5 * 10 ^ 15 by norm_num)
  rw [← belowTie_iff, ← not_le, ← belowTie_iff] at htwice
  have hguarded : roundTo (places + guardDigits) q * 10 ^ places =
      (round (q * 10 ^ places * (2 * (5 * 10 ^ 15 : ℕ))) : ℚ) / (2 * (5 * 10 ^ 15 : ℕ)) := by
    rw [roundTo_of_nonneg hq, ten_zpow_guarded, ← mul_assoc]
    field_simp
  rw [roundTo_of_nonneg (roundTo_nonneg hq (places + guardDigits)) places, hguarded,
    roundTo_of_nonneg hq places]
  refine ⟨fun hclear => ?_, fun hbelow => ?_⟩
  · rw [htwice.1 hclear]
  · rw [htwice.2 hbelow]
    push_cast
    ring

theorem roundTo_roundTo_of_hasPlaces (hplaces : HasPlaces places q) :
    roundTo places (roundTo (places + guardDigits) q) = q := by
  have hguarded : HasPlaces (places + guardDigits) q := hplaces.mono 16
  rw [roundTo_of_hasPlaces hguarded, roundTo_of_hasPlaces hplaces]

/-- The errors of the two roundings add up. -/
theorem abs_roundTo_roundTo_sub_le (hq : 0 ≤ q) (places : ℤ) :
    |roundTo places (roundTo (places + guardDigits) q) - q| ≤
      (1 / 10 ^ places + 1 / 10 ^ (places + guardDigits)) / 2 := by
  have hfirst := abs_roundTo_sub_le hq (places + guardDigits)
  have hsecond := abs_roundTo_sub_le (roundTo_nonneg hq (places + guardDigits)) places
  calc |roundTo places (roundTo (places + guardDigits) q) - q|
      ≤ |roundTo places (roundTo (places + guardDigits) q) - roundTo (places + guardDigits) q| +
          |roundTo (places + guardDigits) q - q| := abs_sub_le _ _ _
    _ ≤ 1 / 10 ^ places / 2 + 1 / 10 ^ (places + guardDigits) / 2 := add_le_add hsecond hfirst
    _ = (1 / 10 ^ places + 1 / 10 ^ (places + guardDigits)) / 2 := by ring

end Twice

/-! ## Decimals -/

section Decimals

theorem roundDiv_natAbs (num : ℕ) {den : ℕ} (hden : 0 < den) :
    (((2 * num + den) / (2 * den) : ℕ) : ℤ) = roundAway ((num : ℚ) / den) := by
  have hpos : (0 : ℚ) < den := by exact_mod_cast hden
  have hhalf : (num : ℚ) / den + 1 / 2 = ((2 * num + den : ℕ) : ℚ) / (2 * den : ℕ) := by
    push_cast
    field_simp
  rw [roundAway_of_nonneg (by positivity), round_eq, hhalf, Rat.floor_natCast_div_natCast]
  rfl

theorem roundDiv_eq (num : ℤ) {den : ℤ} (hden : den ≠ 0) :
    roundDiv num den = roundAway (num / den) := by
  have hnat := roundDiv_natAbs num.natAbs (Int.natAbs_pos.mpr hden)
  unfold roundDiv
  dsimp only
  rw [hnat, Nat.cast_natAbs, Nat.cast_natAbs]
  rcases lt_or_ge num 0 with hnum | hnum <;> rcases lt_or_ge den 0 with hsign | hsign
  · rw [if_pos (by simp [hnum, hsign]), abs_of_neg hnum, abs_of_neg hsign]
    push_cast
    rw [neg_div_neg_eq]
  · rw [if_neg (by simp [hnum, hsign]), abs_of_neg hnum, abs_of_nonneg hsign, ← roundAway_neg]
    push_cast
    rw [neg_div, neg_neg]
  · rw [if_neg (by simp [hnum, hsign]), abs_of_nonneg hnum, abs_of_neg hsign, ← roundAway_neg]
    push_cast
    rw [div_neg, neg_neg]
  · rw [if_pos (by simp [not_lt.mpr hnum, not_lt.mpr hsign]), abs_of_nonneg hnum,
      abs_of_nonneg hsign]

/-- The quotient of decimals is rounded once, half away from zero. -/
theorem toRat_divRound (a : Decimal) {b : Decimal} (hb : b.coefficient ≠ 0) (places : ℤ) :
    (a.divRound b places).toRat = roundTo places (a.toRat / b.toRat) := by
  have hcast : (b.coefficient : ℚ) ≠ 0 := by exact_mod_cast hb
  generalize hshift : a.exponent - b.exponent + places = shift
  have hden : b.coefficient * pow10 (-shift).toNat ≠ 0 :=
    mul_ne_zero hb (by exact_mod_cast (pow10_pos _).ne')
  have hquotient : ((a.coefficient * pow10 shift.toNat : ℤ) : ℚ) /
      (b.coefficient * pow10 (-shift).toNat : ℤ) = a.toRat / b.toRat * 10 ^ places := by
    have hpower : (10 : ℚ) ^ shift = 10 ^ a.exponent / 10 ^ b.exponent * 10 ^ places := by
      rw [← hshift, zpow_add₀ (by norm_num), zpow_sub₀ (by norm_num)]
    push_cast
    rw [cast_pow10, cast_pow10, pow_toNat (by norm_num) shift, hpower, Decimal.toRat, Decimal.toRat]
    field_simp
  unfold Decimal.divRound
  dsimp only
  rw [hshift, Decimal.toRat, roundDiv_eq _ hden, hquotient, roundTo, zpow_neg]
  exact (div_eq_mul_inv _ _).symm

/-- A decimal is rounded once, half away from zero. -/
theorem toRat_round (d : Decimal) (places : ℤ) :
    (d.round places).toRat = roundTo places d.toRat := by
  unfold Decimal.round
  split_ifs with hle
  · -- it has no more digits than that
    obtain ⟨n, hn⟩ := Int.eq_ofNat_of_zero_le (show 0 ≤ d.exponent + places by omega)
    refine (roundTo_of_hasPlaces ⟨d.coefficient * 10 ^ n, ?_⟩).symm
    rw [Decimal.toRat, eq_div_iff (ten_zpow_pos places).ne', mul_assoc,
      ← zpow_add₀ (by norm_num), hn]
    push_cast
    rfl
  · obtain ⟨n, hn⟩ := Int.eq_ofNat_of_zero_le (show 0 ≤ -places - d.exponent by omega)
    have hden : ((pow10 n : ℕ) : ℤ) ≠ 0 := by exact_mod_cast (pow10_pos n).ne'
    have hquotient : (d.coefficient : ℚ) / ((pow10 n : ℕ) : ℤ) = d.toRat * 10 ^ places := by
      have hexponent : d.exponent + places = -(n : ℤ) := by omega
      rw [Decimal.toRat, mul_assoc, ← zpow_add₀ (by norm_num), hexponent, zpow_neg,
        zpow_natCast, Int.cast_natCast, cast_pow10, div_eq_mul_inv]
    rw [hn, Int.toNat_natCast, Decimal.toRat, roundDiv_eq _ hden, hquotient, roundTo, zpow_neg]
    exact (div_eq_mul_inv _ _).symm

theorem coefficient_nonneg {d : Decimal} (hd : 0 ≤ d.toRat) : 0 ≤ d.coefficient := by
  have hcast : (0 : ℚ) ≤ d.coefficient :=
    nonneg_of_mul_nonneg_left hd (ten_zpow_pos d.exponent)
  exact_mod_cast hcast

end Decimals

end PixelRem
