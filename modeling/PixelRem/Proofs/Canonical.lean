import Mathlib
import PixelRem.Proofs.Accuracy

/-!
# Canonical texts of lengths

A converted length is written in one way only.  `IsPlain` says which texts are numbers without
superfluous zeros, and a number has one such text at most (`IsPlain.text_unique`): digits of one
length are determined by the number they spell, and without superfluous zeros the number also
determines how many digits stand before and behind the point.

What is written is read back.  Behind a pass to another ratio the text of a length is again a pixel
length, alone in its value and with the number that was written as its magnitude
(`formatLength_canonical`).
-/

namespace PixelRem

/-! ## Digits and their number -/

section Digits

variable {x y : Text} {b c : UInt8}

theorem isDigit_iff : Byte.isDigit b = true ↔ 48 ≤ b.toNat ∧ b.toNat ≤ 57 := by
  simp [Byte.isDigit, UInt8.le_iff_toNat_le]

theorem digitValue_lt (hb : Byte.isDigit b = true) : Byte.digitValue b < 10 := by
  obtain ⟨-, hhigh⟩ := isDigit_iff.mp hb
  unfold Byte.digitValue
  omega

theorem digitValue_inj (hb : Byte.isDigit b = true) (hc : Byte.isDigit c = true)
    (hvalue : Byte.digitValue b = Byte.digitValue c) : b = c := by
  obtain ⟨hlow, -⟩ := isDigit_iff.mp hb
  obtain ⟨hlow', -⟩ := isDigit_iff.mp hc
  unfold Byte.digitValue at hvalue
  exact UInt8.toNat_inj.mp (by omega)

theorem numeral_concat (x : Text) (b : UInt8) :
    numeral (x ++ [b]) = numeral x * 10 + Byte.digitValue b := by
  rw [numeral_append, numeral_singleton, List.length_singleton, pow_one]

theorem numeral_lt (hx : ∀ b ∈ x, Byte.isDigit b = true) : numeral x < 10 ^ x.length := by
  induction x using List.reverseRecOn with
  | nil => simp
  | append_singleton x b ih =>
    have hfirst := ih fun a ha => hx a (List.mem_append_left [b] ha)
    have hlast := digitValue_lt (hx b (by simp))
    rw [numeral_concat, List.length_append, List.length_singleton, pow_succ]
    omega

/-- Digits that do not start with zero spell a number of their length. -/
theorem le_numeral (hb : Byte.isDigit b = true) (hne : b ≠ ascii '0') (x : Text) :
    10 ^ x.length ≤ numeral (b :: x) := by
  have hpos : 0 < Byte.digitValue b := by
    refine Nat.pos_of_ne_zero fun hzero => hne (digitValue_inj hb rfl ?_)
    rw [hzero]
    rfl
  rw [← List.singleton_append, numeral_append, numeral_singleton]
  calc 10 ^ x.length = 1 * 10 ^ x.length := (Nat.one_mul _).symm
    _ ≤ Byte.digitValue b * 10 ^ x.length := Nat.mul_le_mul_right _ hpos
    _ ≤ Byte.digitValue b * 10 ^ x.length + numeral x := Nat.le_add_right _ _

/-- Digits of one length are determined by their number. -/
theorem eq_of_numeral_eq (hx : ∀ b ∈ x, Byte.isDigit b = true)
    (hy : ∀ b ∈ y, Byte.isDigit b = true) (hlength : x.length = y.length)
    (hvalue : numeral x = numeral y) : x = y := by
  induction x using List.reverseRecOn generalizing y with
  | nil => exact (List.length_eq_zero_iff.mp hlength.symm).symm
  | append_singleton x b ih =>
    rcases List.eq_nil_or_concat y with rfl | ⟨y, c, rfl⟩
    · simp at hlength
    have hb := hx b (by simp)
    have hc := hy c (by simp)
    have hless := digitValue_lt hb
    have hless' := digitValue_lt hc
    rw [numeral_concat, List.concat_eq_append, numeral_concat] at hvalue
    have hfirst : x = y := by
      apply ih
      · exact fun a ha => hx a (List.mem_append_left _ ha)
      · exact fun a ha => hy a (by simp [ha])
      · simpa using hlength
      · omega
    rw [hfirst, digitValue_inj hb hc (by omega), List.concat_eq_append]

theorem IsWhole.eq_of_numeral_eq (hx : IsWhole x) (hy : IsWhole y)
    (hvalue : numeral x = numeral y) : x = y := by
  -- a shorter text spells a smaller number, as the longer one does not start with zero
  have hshort {x y : Text} (hx : IsWhole x) (hy : IsWhole y) (hless : x.length < y.length) :
      numeral x ≠ numeral y := by
    obtain ⟨b, t, rfl⟩ := List.exists_cons_of_ne_nil hy.1.1
    have hpos : 0 < x.length := List.length_pos_iff.mpr hx.1.1
    rw [List.length_cons] at hless
    have hne : b ≠ ascii '0' := by
      rintro rfl
      have hzero := congrArg List.length (hy.2 rfl)
      rw [List.length_cons, List.length_singleton] at hzero
      omega
    have hlow := le_numeral (hy.1.2 b List.mem_cons_self) hne t
    have hhigh := numeral_lt hx.1.2
    have hpow : 10 ^ x.length ≤ 10 ^ t.length := Nat.pow_le_pow_right (by decide) (by omega)
    omega
  rcases Nat.lt_trichotomy x.length y.length with hless | hlength | hless
  · exact absurd hvalue (hshort hx hy hless)
  · exact PixelRem.eq_of_numeral_eq hx.1.2 hy.1.2 hlength hvalue
  · exact absurd hvalue.symm (hshort hy hx hless)

end Digits

/-! ## One text for each number -/

/-- Digits behind a point, of which the last is not zero. -/
structure IsFraction (t : Text) : Prop where
  digits : ∀ b ∈ t, Byte.isDigit b = true
  last : t.getLast? ≠ some (ascii '0')

section Fractions

variable {x y : Text}

theorem IsFraction.nil : IsFraction [] :=
  ⟨by simp, by simp⟩

theorem IsFraction.lt_one (hx : IsFraction x) : (numeral x : ℚ) / 10 ^ x.length < 1 := by
  rw [div_lt_one (by positivity)]
  exact_mod_cast numeral_lt hx.digits

/-- A fraction with more digits spells another number, because the last digit counts. -/
theorem IsFraction.ne_of_length_lt (hy : IsFraction y) (hless : x.length < y.length) :
    (numeral x : ℚ) / 10 ^ x.length ≠ numeral y / 10 ^ y.length := by
  intro hvalue
  obtain ⟨k, hk⟩ := Nat.exists_eq_add_of_lt hless
  have hcross : numeral x * 10 ^ k * 10 = numeral y := by
    have hpow : (10 : ℚ) ^ y.length = 10 ^ x.length * (10 ^ k * 10) := by
      rw [hk, pow_succ, pow_add, mul_assoc]
    rw [hpow, div_eq_div_iff (by positivity) (by positivity)] at hvalue
    have hcancel : (numeral x : ℚ) * 10 ^ k * 10 = numeral y := by
      have hpos : (0 : ℚ) < 10 ^ x.length := by positivity
      apply mul_right_cancel₀ hpos.ne'
      linarith
    exact_mod_cast hcancel
  rcases List.eq_nil_or_concat y with rfl | ⟨y, c, rfl⟩
  · simp at hless
  have hdigit := hy.digits c (by simp)
  rw [List.concat_eq_append, numeral_concat] at hcross
  have hzero : Byte.digitValue c = Byte.digitValue (ascii '0') := by
    have hrange := digitValue_lt hdigit
    show Byte.digitValue c = 0
    omega
  exact hy.last (by simp [digitValue_inj hdigit rfl hzero])

theorem IsFraction.eq_of_value_eq (hx : IsFraction x) (hy : IsFraction y)
    (hvalue : (numeral x : ℚ) / 10 ^ x.length = numeral y / 10 ^ y.length) : x = y := by
  rcases Nat.lt_trichotomy x.length y.length with hless | hlength | hless
  · exact absurd hvalue (hy.ne_of_length_lt hless)
  · rw [hlength, div_left_inj' (by positivity)] at hvalue
    exact eq_of_numeral_eq hx.digits hy.digits hlength (by exact_mod_cast hvalue)
  · exact absurd hvalue.symm (hx.ne_of_length_lt hless)

/-- The parts of a plain text; the point is left out with an empty fraction. -/
theorem IsPlain.parts {places : ℕ} {t : Text} {n : ℚ} (hplain : IsPlain places t n) :
    ∃ whole fraction, IsWhole whole ∧ IsFraction fraction ∧
      t = (if fraction = [] then whole else whole ++ ascii '.' :: fraction) ∧
      n = numeral whole + numeral fraction / 10 ^ fraction.length := by
  cases hplain with
  | whole hdigits => exact ⟨t, [], hdigits, .nil, rfl, by simp⟩
  | @fraction whole fraction hwhole hfraction hlast =>
    exact ⟨whole, fraction, hwhole, ⟨hfraction.2, hlast⟩, (if_neg hfraction.1).symm, rfl⟩

/-- A number has one plain text at most. -/
theorem IsPlain.text_unique {places places' : ℕ} {t u : Text} {n : ℚ} (ht : IsPlain places t n)
    (hu : IsPlain places' u n) : t = u := by
  obtain ⟨whole, fraction, hwhole, hfraction, rfl, hvalue⟩ := ht.parts
  obtain ⟨whole', fraction', hwhole', hfraction', rfl, hvalue'⟩ := hu.parts
  have hlow : (0 : ℚ) ≤ numeral fraction / 10 ^ fraction.length := by positivity
  have hlow' : (0 : ℚ) ≤ numeral fraction' / 10 ^ fraction'.length := by positivity
  have hhigh := hfraction.lt_one
  have hhigh' := hfraction'.lt_one
  have hsame : numeral whole = numeral whole' := by
    have hless : (numeral whole : ℚ) < numeral whole' + 1 := by linarith
    have hless' : (numeral whole' : ℚ) < numeral whole + 1 := by linarith
    have hnat : numeral whole < numeral whole' + 1 := by exact_mod_cast hless
    have hnat' : numeral whole' < numeral whole + 1 := by exact_mod_cast hless'
    omega
  have hsame' : fraction = fraction' := by
    apply hfraction.eq_of_value_eq hfraction'
    rw [hsame] at hvalue
    linarith
  rw [hwhole.eq_of_numeral_eq hwhole' hsame, hsame']

end Fractions

/-! ## Lengths that are written and read -/

section Lengths

variable {c : Converter} {target : Target} {px : Decimal}

/-- A converted length has as many digits behind the point as the precision says. -/
theorem exponent_convertMagnitude (hprecision : c.settings.remPrecision ≤ 2 ^ 30)
    (target : Target) (px : Decimal) :
    (c.convertMagnitude target px).exponent = -c.settings.remPrecision := by
  have hguard : guardDigits = 16 := rfl
  rw [convertMagnitude_eq px (guarded_lt hprecision), Decimal.round, if_neg]
  show ¬ -c.settings.remPrecision ≤ -(c.settings.remPrecision + guardDigits)
  omega

/-- The text of a length is zero, or its plain number with the unit. -/
theorem formatLength_eq (hzero : (c.convertMagnitude target px).toRat ≠ 0) :
    c.formatLength target px = (c.convertMagnitude target px).toText ++ target.unit := by
  rw [Ne, toRat_eq_zero_iff] at hzero
  exact if_neg hzero

end Lengths

/-- The text of a converted length is canonical and can be read back.  It is `0` if the rounded
number is zero.  Otherwise it is the only plain text of the number, with no more fraction digits
than the precision, and the unit; and if the unit is the pixel, the one pixel length in it is all of
it and has the number as its magnitude. -/
theorem formatLength_canonical (c : Converter) (hprecision : c.settings.remPrecision ≤ 2 ^ 30)
    (target : Target) (htarget : target.IsRated) (px : Decimal) (hpx : 0 ≤ px.coefficient) :
    ∃ n : ℚ, n = (c.convertMagnitude target px).toRat ∧
      n = roundTo c.settings.remPrecision
        (roundTo (c.settings.remPrecision + guardDigits) (c.exact px target)) ∧
      (c.formatLength target px = utf8 "0" ↔ n = 0) ∧
      (n ≠ 0 → ∃ number, c.formatLength target px = number ++ target.unit ∧
        IsPlain c.settings.remPrecision.toNat number n ∧
        ∀ places other, IsPlain places other n → other = number) ∧
      (n ≠ 0 → ∀ ratio, target = .pixels ratio →
        ∃ magnitude, magnitude.toRat = n ∧ pixelSpans (c.formatLength target px) =
          [⟨0, (c.formatLength target px).length, magnitude⟩]) := by
  have hnonneg : 0 ≤ (c.convertMagnitude target px).toRat :=
    toRat_convertMagnitude_nonneg htarget hpx
  have hplain := isPlain_toText (coefficient_nonneg hnonneg)
  rw [exponent_convertMagnitude hprecision, neg_neg] at hplain
  refine ⟨_, rfl, toRat_convertMagnitude (guarded_lt hprecision) target px, ?_, ?_, ?_⟩
  · constructor
    · intro htext
      have hzero : c.Renders target px 0 := by
        rw [Converter.Renders, htext]
        exact .zero
      exact ((renders_iff_eq_toRat hnonneg 0).mp hzero).symm
    · intro hzero
      exact if_pos ((toRat_eq_zero_iff _).mp hzero)
  · intro hzero
    exact ⟨_, formatLength_eq hzero, hplain, fun places other hother => hother.text_unique hplain⟩
  · rintro hzero ratio rfl
    obtain ⟨magnitude, hlength, hvalue⟩ := isLength_iff.mpr ⟨_, rfl, hplain.isNumeral⟩
    refine ⟨magnitude, hvalue, ?_⟩
    rw [formatLength_eq hzero]
    exact pixelSpans_isLength hlength

/-- A length with a fraction at a higher ratio, and a length that is too small for any digit. -/
theorem formatLength_canonical_fraction :
    ∃ c, Settings.default.toConverter = .ok c ∧ c.settings.remPrecision ≤ 2 ^ 30 ∧
      c.formatLength (.pixels ⟨3, 0⟩) ⟨375, -1⟩ = utf8 "56.25px" ∧
      (∃ number, utf8 "56.25px" = number ++ utf8 "px" ∧ IsPlain 6 number (225 / 4)) ∧
      (∃ magnitude, magnitude.toRat = 225 / 4 ∧
        pixelSpans (utf8 "56.25px") = [⟨0, 7, magnitude⟩]) ∧
      c.formatLength .rem ⟨1, -5⟩ = utf8 "0" := by
  obtain ⟨c, hc, hprecision, hnumber, hsmall, htext⟩ :
      ∃ c, Settings.default.toConverter = .ok c ∧ c.settings.remPrecision = 6 ∧
        c.convertMagnitude (.pixels ⟨3, 0⟩) ⟨375, -1⟩ = ⟨56250000, -6⟩ ∧
        c.convertMagnitude .rem ⟨1, -5⟩ = ⟨0, -6⟩ ∧
        c.formatLength (.pixels ⟨3, 0⟩) ⟨375, -1⟩ = utf8 "56.25px" :=
    ⟨_, rfl, rfl, rfl, rfl, by decide +kernel⟩
  have hvalue : (c.convertMagnitude (.pixels ⟨3, 0⟩) ⟨375, -1⟩).toRat = 225 / 4 := by
    rw [hnumber]
    norm_num [Decimal.toRat]
  have hzero : (c.convertMagnitude .rem ⟨1, -5⟩).toRat = 0 := by
    rw [hsmall]
    norm_num [Decimal.toRat]
  have hrated : (Target.pixels ⟨3, 0⟩).IsRated := ⟨.ofNat 3, by decide +kernel⟩
  obtain ⟨n, rfl, -, -, hplain, hspans⟩ :=
    formatLength_canonical c (by omega) _ hrated ⟨375, -1⟩ (by decide)
  obtain ⟨-, rfl, -, hiff, -⟩ :=
    formatLength_canonical c (by omega) .rem trivial ⟨1, -5⟩ (by decide)
  rw [hvalue, hprecision, htext] at hplain
  rw [hvalue, htext] at hspans
  obtain ⟨number, hnumber, hshape, -⟩ := hplain (by norm_num)
  exact ⟨c, hc, by omega, htext, ⟨number, hnumber, hshape⟩,
    hspans (by norm_num) _ rfl, hiff.mpr hzero⟩

end PixelRem
