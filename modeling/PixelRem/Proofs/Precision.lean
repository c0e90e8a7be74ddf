import Mathlib
import PixelRem.Proofs.Canonical

/-!
# The precision that is used

Settings take any precision that is not negative, and the arithmetic holds it in 32 bits, with the
guard digits added to it there.  `formatLength_precision` says when this does not matter: the
precision with its guard digits has to be below `2 ^ 31`.  From there on another number of digits is
used, and for every such precision there is a length that is shown wrongly although its quotient
needs no rounding at all (`exists_lost_length`).

Below that bound the arithmetic itself can still run out of exponents: the quotient is taken at the
difference of two exponents and the guarded precision, and this too has to fit in 32 bits
(`computes_iff`).
-/

namespace PixelRem

/-! ## When the arithmetic does not leave its words -/

/-- The arithmetic of a length with at most `2 ^ 30` fraction digits stays in its words if the
guarded precision and the exponent of the quotient do. -/
theorem computes_iff {c : Converter} {target : Target} (htarget : target.IsRated) {px : Decimal}
    (hlow : -2 ^ 30 ≤ px.exponent) (hhigh : px.exponent ≤ 0) :
    c.Computes target px ↔ c.settings.remPrecision + guardDigits < 2 ^ 31 ∧
      (target.dividend px).exponent - (c.divisor target).exponent +
        (c.settings.remPrecision + guardDigits) < 2 ^ 31 := by
  have hdivisor := divisor_bounds c target
  have hdividend := dividend_bounds htarget px
  have hnonneg := c.precision_nonneg
  have hguard : guardDigits = 16 := rfl
  rw [computes_iff_inWord, inWord_iff, inWord_iff]
  omega

/-! ## Lengths that are shown wrongly -/

section Lost

variable {c : Converter}

theorem roundTo_eq_zero {places : ℤ} {q : ℚ} (hq : 0 ≤ q) (hsmall : q * 10 ^ places < 1 / 2) :
    roundTo places q = 0 := by
  have hscaled : 0 ≤ q * 10 ^ places := mul_nonneg hq (ten_zpow_pos places).le
  have hround : round (q * 10 ^ places) = 0 := by
    rw [round_eq_iff]
    push_cast
    constructor <;> linarith
  rw [roundTo_of_nonneg hq, hround, Int.cast_zero, zero_div]

theorem ten_zpow_lt_half {n : ℤ} (hn : n < 0) : (10 : ℚ) ^ n < 1 / 2 := by
  calc (10 : ℚ) ^ n ≤ 10 ^ (-1 : ℤ) := zpow_le_zpow_right₀ (by norm_num) (by omega)
    _ < 1 / 2 := by norm_num

/-- Every decimal that is not negative is the magnitude of some pixel length. -/
theorem exists_length {d : Decimal} (hd : 0 ≤ d.coefficient) :
    ∃ value px, pixelSpans value = [⟨0, value.length, px⟩] ∧ px.toRat = d.toRat := by
  obtain ⟨px, hlength, hvalue⟩ := isLength_iff.mpr ⟨_, rfl, (isPlain_toText hd).isNumeral⟩
  exact ⟨_, px, pixelSpans_isLength hlength, hvalue⟩

theorem hasPlaces_one_div (k : ℕ) : HasPlaces k (1 / 10 ^ k) :=
  ⟨1, by rw [Int.cast_one, zpow_natCast]⟩

/-- If one of the two roundings is to tens at least, one is rounded to zero. -/
theorem roundTo_roundTo_one {places guarded : ℤ} (htens : places < 0 ∨ guarded < 0) :
    roundTo places (roundTo guarded 1) = 0 := by
  rcases lt_or_ge guarded 0 with hguarded | hguarded
  · rw [roundTo_eq_zero (q := 1) (by norm_num) (by rw [one_mul]; exact ten_zpow_lt_half hguarded)]
    exact roundTo_eq_zero le_rfl (by norm_num)
  · obtain ⟨more, rfl⟩ := Int.eq_ofNat_of_zero_le hguarded
    have hwhole : HasPlaces more 1 := by
      have hplaces := (hasPlaces_one_div 0).mono more
      rw [Nat.cast_zero, zero_add] at hplaces
      simpa using hplaces
    rw [roundTo_of_hasPlaces hwhole]
    refine roundTo_eq_zero (by norm_num) ?_
    rw [one_mul]
    exact ten_zpow_lt_half (htens.resolve_right (by omega))

/-- The quotient `1 / 10 ^ k` is lost for some `k`, although the precision has `k` digits. -/
theorem exists_lost_quotient (hlost : 2 ^ 31 ≤ c.settings.remPrecision + guardDigits) :
    ∃ k : ℕ, k ≤ c.settings.remPrecision ∧
      roundTo c.places (roundTo (wrap32 (c.places + guardDigits)) (1 / 10 ^ k)) = 0 := by
  have hnonneg := c.precision_nonneg
  have hguard : guardDigits = 16 := rfl
  have hplaces : wrap32 c.settings.remPrecision = c.places := rfl
  obtain ⟨hlow, hhigh, hrounds⟩ := wrap32_spec c.settings.remPrecision
  obtain ⟨hlow', hhigh', hrounds'⟩ := wrap32_spec (c.places + guardDigits)
  rw [hplaces] at hlow hhigh hrounds
  by_cases htens : c.places < 0 ∨ wrap32 (c.places + guardDigits) < 0
  · refine ⟨0, hnonneg, ?_⟩
    rw [pow_zero, div_one]
    exact roundTo_roundTo_one htens
  · -- the guard digits are added without loss, so the precision itself was cut off
    obtain ⟨k, hk⟩ := Int.eq_ofNat_of_zero_le (show 0 ≤ c.places + 1 by omega)
    have hguarded : wrap32 (c.places + guardDigits) = k + (15 : ℕ) := by omega
    refine ⟨k, by omega, ?_⟩
    rw [hguarded, roundTo_of_hasPlaces ((hasPlaces_one_div k).mono 15)]
    refine roundTo_eq_zero (by positivity) ?_
    have htenth : (1 : ℚ) / 10 ^ k * 10 ^ c.places = 10 ^ (-1 : ℤ) := by
      rw [← zpow_natCast, ← hk, one_div, ← zpow_neg, ← zpow_add₀ (by norm_num)]
      congr 1
      omega
    rw [htenth]
    exact ten_zpow_lt_half (by decide)

/-- If the guarded precision does not fit, some length is not shown as its quotient, although the
quotient has no more digits than the precision.

The precision `2 ^ 31 - 16` is worse than that.  Its guarded precision is held as `-2 ^ 31`, the one
word whose negative is no word.  `Decimal.divRound` takes the negative as a whole number and shows
zero; arithmetic that takes it in 32 bits gets `-2 ^ 31` back, and the division panics. -/
theorem exists_lost_length
    (hlost : 2 ^ 31 ≤ c.settings.remPrecision + guardDigits) :
    ∃ value px, pixelSpans value = [⟨0, value.length, px⟩] ∧
      HasPlaces c.settings.remPrecision (c.exact px .rem) ∧
      ¬ c.Renders .rem px (c.exact px .rem) := by
  obtain ⟨k, hk, hzero⟩ := exists_lost_quotient hlost
  have hpos : 0 < c.remUnit.coefficient := (divisor_bounds c .rem).1
  have hratpos : 0 < c.remUnit.toRat := toRat_pos hpos
  obtain ⟨value, px, hspans, hvalue⟩ :=
    exists_length (d := ⟨c.remUnit.coefficient, c.remUnit.exponent - k⟩) hpos.le
  have hexact : c.exact px .rem = 1 / 10 ^ k := by
    have hscaled : px.toRat = c.remUnit.toRat / 10 ^ k := by
      rw [hvalue, Decimal.toRat, Decimal.toRat, zpow_sub₀ (by norm_num), zpow_natCast]
      ring
    rw [Converter.exact, hscaled]
    field_simp
  have hpx : 0 ≤ px.coefficient := by
    apply coefficient_nonneg
    rw [hvalue]
    exact toRat_nonneg hpos.le
  refine ⟨value, px, hspans, ?_, ?_⟩
  · obtain ⟨more, hmore⟩ := Int.eq_ofNat_of_zero_le (show 0 ≤ c.settings.remPrecision - k by omega)
    rw [hexact, show c.settings.remPrecision = k + more by omega]
    exact (hasPlaces_one_div k).mono more
  · have hrated : Target.rem.IsRated := trivial
    rw [renders_iff_eq_toRat (toRat_convertMagnitude_nonneg hrated hpx),
      toRat_convertMagnitude_wrapped, hexact, hzero]
    positivity

end Lost

/-- The configured precision is the one that is used, if it fits in 32 bits with its guard digits,
and only then.  The words do not wrap exactly if it does.  A length whose arithmetic stays in its
words is then rounded to the precision; that is so for every length with at most `2 ^ 30` fraction
digits if the exponent of the quotient fits too.  For every greater precision some length is shown
wrongly whose quotient has no more digits than the precision. -/
theorem formatLength_precision (c : Converter) :
    (InWord c.settings.remPrecision ∧ InWord (c.settings.remPrecision + guardDigits) ↔
      c.settings.remPrecision + guardDigits < 2 ^ 31) ∧
    (∀ (target : Target) (px : Decimal), target.IsRated → -2 ^ 30 ≤ px.exponent →
      px.exponent ≤ 0 →
      (c.Computes target px ↔ c.settings.remPrecision + guardDigits < 2 ^ 31 ∧
        (target.dividend px).exponent - (c.divisor target).exponent +
          (c.settings.remPrecision + guardDigits) < 2 ^ 31)) ∧
    (∀ (target : Target) (px : Decimal), target.IsRated → 0 ≤ px.coefficient →
      c.Computes target px → ∀ n, c.Renders target px n ↔
        n = roundTo c.settings.remPrecision
          (roundTo (c.settings.remPrecision + guardDigits) (c.exact px target))) ∧
    (2 ^ 31 ≤ c.settings.remPrecision + guardDigits →
      ∃ value px, pixelSpans value = [⟨0, value.length, px⟩] ∧
        HasPlaces c.settings.remPrecision (c.exact px .rem) ∧
        ¬ c.Renders .rem px (c.exact px .rem)) := by
  refine ⟨inWord_precision_iff c, ?_, ?_, exists_lost_length⟩
  · intro target px htarget hlow hhigh
    exact computes_iff htarget hlow hhigh
  · intro target px htarget hpx hcomputes
    exact renders_iff (computes_iff_inWord.mp hcomputes).1 htarget hpx

/-- The greatest precision that fits and the least that does not. -/
theorem formatLength_precision_bounds :
    ∃ c c' : Converter, c.settings.remPrecision = 2 ^ 31 - 17 ∧
      c'.settings.remPrecision = 2 ^ 31 - 16 ∧
      InWord (c.settings.remPrecision + guardDigits) ∧ c.Computes .rem ⟨1, 0⟩ ∧
      (∀ n, c.Renders .rem ⟨1, 0⟩ n ↔
        n = roundTo (2 ^ 31 - 17) (roundTo (2 ^ 31 - 17 + guardDigits) (c.exact ⟨1, 0⟩ .rem))) ∧
      ¬ (InWord c'.settings.remPrecision ∧ InWord (c'.settings.remPrecision + guardDigits)) ∧
      ∃ value px, pixelSpans value = [⟨0, value.length, px⟩] ∧
        ¬ c'.Renders .rem px (c'.exact px .rem) := by
  obtain ⟨c, hprecision, hremUnit⟩ : ∃ c : Converter,
      c.settings.remPrecision = 2 ^ 31 - 17 ∧ c.remUnit = ⟨75, 0⟩ :=
    ⟨⟨{ Settings.default with remPrecision := 2 ^ 31 - 17 }, ⟨2, 0⟩, ⟨75, 0⟩, rfl, rfl, by decide,
      by decide, by decide, by decide⟩, rfl, rfl⟩
  obtain ⟨c', hprecision'⟩ : ∃ c : Converter, c.settings.remPrecision = 2 ^ 31 - 16 :=
    ⟨⟨{ Settings.default with remPrecision := 2 ^ 31 - 16 }, ⟨2, 0⟩, ⟨75, 0⟩, rfl, rfl, by decide,
      by decide, by decide, by decide⟩, rfl⟩
  have hguard : guardDigits = 16 := rfl
  obtain ⟨hword, hcomputes, hrenders, -⟩ := formatLength_precision c
  obtain ⟨hword', -, -, hlost⟩ := formatLength_precision c'
  have hfits : c.settings.remPrecision + guardDigits < 2 ^ 31 := by omega
  have hexponent : (Target.rem.dividend ⟨1, 0⟩).exponent - (c.divisor .rem).exponent = 0 := by
    rw [Converter.divisor, hremUnit]
    rfl
  have hone := (hcomputes .rem ⟨1, 0⟩ trivial (by decide) (by decide)).mpr ⟨hfits, by omega⟩
  have hshown := hrenders .rem ⟨1, 0⟩ trivial (by decide) hone
  rw [hprecision] at hshown
  obtain ⟨value, px, hspans, -, hnot⟩ := hlost (by omega)
  exact ⟨c, c', hprecision, hprecision', (hword.mpr hfits).2, hone, hshown,
    fun h => absurd (hword'.mp h) (by omega), value, px, hspans, hnot⟩

/-- Of the precision `2 ^ 32` nothing is left: a quotient with one fraction digit is rounded to a
whole number. -/
theorem precision_cut_off :
    ∃ c, Settings.toConverter { Settings.default with remPrecision := 2 ^ 32 } = .ok c ∧
      c.settings.remPrecision = 2 ^ 32 ∧ ¬ InWord c.settings.remPrecision ∧
      pixelSpans (utf8 "1px") = [⟨0, 3, ⟨1, 0⟩⟩] ∧
      c.exact ⟨1, 0⟩ (.pixels ⟨3, 0⟩) = 3 / 2 ∧ roundTo (2 ^ 32) (3 / 2) = 3 / 2 ∧
      c.convertValue (.pixels ⟨3, 0⟩) (utf8 "1px") = utf8 "2px" := by
  obtain ⟨c, hc, hprecision, hbase, hvalue⟩ : ∃ c,
      Settings.toConverter { Settings.default with remPrecision := 2 ^ 32 } = .ok c ∧
        c.settings.remPrecision = 2 ^ 32 ∧ c.baseDpr = ⟨2, 0⟩ ∧
        c.convertValue (.pixels ⟨3, 0⟩) (utf8 "1px") = utf8 "2px" :=
    ⟨_, rfl, rfl, rfl, rfl⟩
  have hexact : c.exact ⟨1, 0⟩ (.pixels ⟨3, 0⟩) = 3 / 2 := by
    rw [Converter.exact, hbase]
    norm_num [Decimal.toRat]
  have hplaces : HasPlaces (1 + (2 ^ 32 - 1 : ℕ)) (3 / 2) :=
    HasPlaces.mono ⟨15, by norm_num⟩ (2 ^ 32 - 1)
  refine ⟨c, hc, hprecision, ?_, by decide +kernel, hexact, ?_, hvalue⟩
  · rw [hprecision, inWord_iff]
    omega
  · exact roundTo_of_hasPlaces hplaces

end PixelRem
