import Mathlib
import PixelRem.Proofs.Rounding

/-!
# How exact converted lengths are

The text of a converted length is read as a number (`Converter.Renders`) and compared with the
quotient without rounding, `Converter.exact`.

A length is rounded twice, first to the guard digits and then to the precision
(`toRat_convertMagnitude`).  Right below a tie this is not the rounding of the quotient
(`formatLength_rounding`, `taken_up_below_tie`).  What the guard digits do give is an error of
half of the last digit and half of the last guard digit at most, the order of the quotients, and
the quotient itself where it has no more digits than the precision (`formatLength_accuracy`).
-/

namespace PixelRem

/-! ## Numbers of lengths -/

/-- Two targets with the same unit, the first with the lower ratio. -/
def Target.Le : Target → Target → Prop
  | .rem, .rem => True
  | .pixels ratio, .pixels ratio' => ratio.toRat ≤ ratio'.toRat
  | _, _ => False

/-- A text that shows a number: with the unit, or zero without it. -/
inductive Shows (unit : Text) : Text → ℚ → Prop where
  | zero : Shows unit (utf8 "0") 0
  | number {t : Text} {n : ℚ} (ht : IsNumeral t n) (hn : n ≠ 0) : Shows unit (t ++ unit) n

namespace Converter

/-- A converted length before it is rounded. -/
def exact (c : Converter) (px : Decimal) : Target → ℚ
  | .rem => px.toRat / c.remUnit.toRat
  | .pixels ratio => px.toRat * ratio.toRat / c.baseDpr.toRat

/-- The text of a converted length shows a number. -/
def Renders (c : Converter) (target : Target) (px : Decimal) (n : ℚ) : Prop :=
  Shows target.unit (c.formatLength target px) n

end Converter

section Lengths

variable {c : Converter} {target : Target} {px : Decimal}

theorem Shows.unique {unit t : Text} {m n : ℚ} (hunit : 1 < unit.length) (hm : Shows unit t m)
    (hn : Shows unit t n) : m = n := by
  have hlong (x : Text) : utf8 "0" ≠ x ++ unit := by
    intro hzero
    have hlength := congrArg List.length hzero
    rw [List.length_append] at hlength
    have hone : (utf8 "0").length = 1 := by decide
    omega
  generalize ht : t = u at hn
  cases hm with
  | zero =>
    cases hn with
    | zero => rfl
    | number => exact absurd ht (hlong _)
  | number hx =>
    cases hn with
    | zero => exact absurd ht.symm (hlong _)
    | number hy =>
      rw [List.append_cancel_right ht] at hx
      exact hx.unique hy

theorem length_unit (target : Target) : 1 < target.unit.length := by
  cases target with
  | rem => show 1 < (utf8 "rem").length; decide
  | pixels ratio => show 1 < (utf8 "px").length; decide

theorem ratio_nonneg {dpr : Binary64} {ratio : Decimal} (hdpr : dpr.isRatio = true)
    (hratio : dpr.toDecimal? = some ratio) : 0 ≤ ratio.coefficient := by
  cases dpr with
  | nan => cases hratio
  | infinite negative => cases hratio
  | finite negative mantissa exponent hformat =>
    cases negative with
    | false =>
      cases hratio
      exact Int.natCast_nonneg _
    | true =>
      obtain rfl : mantissa = 0 := by simpa [Binary64.isRatio] using hdpr
      cases hratio
      exact Int.le_refl 0

theorem of_positive? {dpr : Binary64} {ratio : Decimal} (hratio : dpr.positive? = some ratio) :
    dpr.isRatio = true ∧ dpr.toDecimal? = some ratio := by
  unfold Binary64.positive? at hratio
  split at hratio
  · split_ifs at hratio
    exact ⟨rfl, hratio⟩
  · cases hratio

theorem exact_eq (c : Converter) (target : Target) (px : Decimal) :
    c.exact px target = (target.dividend px).toRat / (c.divisor target).toRat := by
  cases target with
  | rem => rfl
  | pixels ratio =>
    rw [Target.dividend, toRat_mul]
    rfl

theorem exact_nonneg (htarget : target.IsRated) (hpx : 0 ≤ px.coefficient) :
    0 ≤ c.exact px target := by
  have hdivisor : 0 < (c.divisor target).toRat := toRat_pos (divisor_bounds c target).1
  cases target with
  | rem => exact div_nonneg (toRat_nonneg hpx) hdivisor.le
  | pixels ratio =>
    obtain ⟨dpr, hdpr, hratio⟩ := htarget
    have hfactor := toRat_nonneg (ratio_nonneg hdpr hratio)
    exact div_nonneg (mul_nonneg (toRat_nonneg hpx) hfactor) hdivisor.le

/-- The quotients have the order of the lengths and of the ratios. -/
theorem exact_le_exact {target' : Target} {px' : Decimal} (htarget : target.IsRated)
    (hpx : 0 ≤ px.coefficient) (hle : target.Le target') (hless : px.toRat ≤ px'.toRat) :
    c.exact px target ≤ c.exact px' target' := by
  have hdivisor : 0 < (c.divisor target).toRat := toRat_pos (divisor_bounds c target).1
  cases target with
  | rem =>
    cases target' with
    | rem => exact div_le_div_of_nonneg_right hless hdivisor.le
    | pixels ratio' => exact hle.elim
  | pixels ratio =>
    cases target' with
    | rem => exact hle.elim
    | pixels ratio' =>
      obtain ⟨dpr, hdpr, hratio⟩ := htarget
      have hfactor := toRat_nonneg (ratio_nonneg hdpr hratio)
      have hproduct : px.toRat * ratio.toRat ≤ px'.toRat * ratio'.toRat :=
        mul_le_mul hless hle hfactor ((toRat_nonneg hpx).trans hless)
      exact div_le_div_of_nonneg_right hproduct hdivisor.le

/-- The number of a length is rounded twice, to what is left of the precision and its guard
digits in 32 bits. -/
theorem toRat_convertMagnitude_wrapped (c : Converter) (target : Target) (px : Decimal) :
    (c.convertMagnitude target px).toRat =
      roundTo c.places (roundTo (wrap32 (c.places + guardDigits)) (c.exact px target)) := by
  have hdivisor := (divisor_bounds c target).1.ne'
  have hquotient : c.convertMagnitude target px =
      ((target.dividend px).divRound (c.divisor target)
        (wrap32 (c.places + guardDigits))).round c.places := by
    cases target <;> rfl
  rw [hquotient, toRat_round, toRat_divRound _ hdivisor, exact_eq]

/-- The number of a length is rounded twice. -/
theorem toRat_convertMagnitude (hprecision : c.settings.remPrecision + guardDigits < 2 ^ 31)
    (target : Target) (px : Decimal) :
    (c.convertMagnitude target px).toRat =
      roundTo c.settings.remPrecision
        (roundTo (c.settings.remPrecision + guardDigits) (c.exact px target)) := by
  have hdivisor := (divisor_bounds c target).1.ne'
  rw [convertMagnitude_eq px hprecision, toRat_round, toRat_divRound _ hdivisor, exact_eq]

/-- The text of a length shows its number, and no other. -/
theorem renders_iff_eq_toRat (hnonneg : 0 ≤ (c.convertMagnitude target px).toRat) (n : ℚ) :
    c.Renders target px n ↔ n = (c.convertMagnitude target px).toRat := by
  have hshows : c.Renders target px (c.convertMagnitude target px).toRat := by
    unfold Converter.Renders Converter.formatLength
    dsimp only
    split_ifs with hzero
    · rw [(toRat_eq_zero_iff _).mpr hzero]
      exact .zero
    · exact .number (isPlain_toText (coefficient_nonneg hnonneg)).isNumeral
        fun h => hzero ((toRat_eq_zero_iff _).mp h)
  constructor
  · intro hn
    exact Shows.unique (length_unit target) hn hshows
  · rintro rfl
    exact hshows

/-- The number of a length is not negative, whatever its precision. -/
theorem toRat_convertMagnitude_nonneg (htarget : target.IsRated) (hpx : 0 ≤ px.coefficient) :
    0 ≤ (c.convertMagnitude target px).toRat := by
  rw [toRat_convertMagnitude_wrapped]
  exact roundTo_nonneg (roundTo_nonneg (exact_nonneg htarget hpx) _) _

/-- The text of a length shows the number that is rounded twice, and no other. -/
theorem renders_iff (hprecision : c.settings.remPrecision + guardDigits < 2 ^ 31)
    (htarget : target.IsRated) (hpx : 0 ≤ px.coefficient) (n : ℚ) :
    c.Renders target px n ↔
      n = roundTo c.settings.remPrecision
        (roundTo (c.settings.remPrecision + guardDigits) (c.exact px target)) := by
  rw [renders_iff_eq_toRat (toRat_convertMagnitude_nonneg htarget hpx),
    toRat_convertMagnitude hprecision]

end Lengths

/-! ## Ties -/

/-- A converted length shows one number.  It is the quotient rounded half away from zero, unless
the quotient lies below a tie by at most half of the last guard digit; then it is the next
number above that. -/
theorem formatLength_rounding (c : Converter) (hprecision : c.settings.remPrecision ≤ 2 ^ 30)
    (target : Target) (htarget : target.IsRated) (px : Decimal) (hpx : 0 ≤ px.coefficient) :
    ∃ n, (∀ m, c.Renders target px m ↔ m = n) ∧
      (¬ BelowTie c.settings.remPrecision (c.exact px target) →
        n = roundTo c.settings.remPrecision (c.exact px target)) ∧
      (BelowTie c.settings.remPrecision (c.exact px target) →
        n = roundTo c.settings.remPrecision (c.exact px target) +
          1 / 10 ^ c.settings.remPrecision) := by
  have hexact : 0 ≤ c.exact px target := exact_nonneg htarget hpx
  exact ⟨_, renders_iff (guarded_lt hprecision) htarget hpx,
    roundTo_guarded hexact c.settings.remPrecision⟩

/-- A length whose quotient is a tie goes up. -/
theorem formatLength_rounding_tie :
    ∃ c, Settings.default.toConverter = .ok c ∧ c.settings.remPrecision = 6 ∧
      c.exact ⟨375, -7⟩ .rem = 1 / 2000000 ∧
      ∀ m, c.Renders .rem ⟨375, -7⟩ m ↔ m = 1 / 1000000 := by
  obtain ⟨c, hc, hunit, hprecision⟩ : ∃ c, Settings.default.toConverter = .ok c ∧
      c.remUnit = ⟨75, 0⟩ ∧ c.settings.remPrecision = 6 := ⟨_, rfl, rfl, rfl⟩
  have hexact : c.exact ⟨375, -7⟩ .rem = 1 / 2000000 := by
    rw [Converter.exact, hunit]
    norm_num [Decimal.toRat]
  refine ⟨c, hc, hprecision, hexact, ?_⟩
  obtain ⟨n, hrenders, hround, -⟩ :=
    formatLength_rounding c (by omega) .rem trivial ⟨375, -7⟩ (by decide)
  rw [hprecision, hexact] at hround
  have hscaled : (1 / 2000000 : ℚ) * 10 ^ (6 : ℤ) = 1 / 2 := by norm_num
  have hhalf : round (1 / 2 : ℚ) = 1 := by norm_num [round_eq]
  have hclear : ¬ BelowTie 6 (1 / 2000000) := by
    rw [belowTie_iff, hscaled, hhalf]
    norm_num
  rw [hround hclear, roundTo_of_nonneg (by norm_num), hscaled, hhalf] at hrenders
  norm_num at hrenders ⊢
  exact hrenders

/-- A length whose quotient lies right below a tie goes up too. -/
theorem taken_up_below_tie :
    ∃ c, Settings.default.toConverter = .ok c ∧ c.settings.remPrecision = 6 ∧
      pixelSpans (utf8 "0.000037499999999999999px") = [⟨0, 25, ⟨37499999999999999, -21⟩⟩] ∧
      c.convertValue .rem (utf8 "0.000037499999999999999px") = utf8 "0.000001rem" ∧
      c.exact ⟨37499999999999999, -21⟩ .rem < 1 / 2000000 ∧
      roundTo 6 (c.exact ⟨37499999999999999, -21⟩ .rem) = 0 := by
  obtain ⟨c, hc, hunit, hprecision, hvalue⟩ : ∃ c, Settings.default.toConverter = .ok c ∧
      c.remUnit = ⟨75, 0⟩ ∧ c.settings.remPrecision = 6 ∧
      c.convertValue .rem (utf8 "0.000037499999999999999px") = utf8 "0.000001rem" :=
    ⟨_, rfl, rfl, rfl, rfl⟩
  have hexact : c.exact ⟨37499999999999999, -21⟩ .rem =
      37499999999999999 / 75000000000000000000000 := by
    rw [Converter.exact, hunit]
    norm_num [Decimal.toRat]
  refine ⟨c, hc, hprecision, by decide +kernel, hvalue, ?_⟩
  rw [hexact, roundTo_of_nonneg (by norm_num)]
  norm_num [round_eq]

/-! ## Accuracy and order -/

/-- A converted length shows one number.  It differs from the quotient by at most half of the
last digit and half of the last guard digit, and is the quotient if that has no more digits than
the precision.  Longer lengths and greater ratios do not show a smaller number.  At the ratio
that lengths are written for, a length with no more digits than the precision keeps its
number. -/
theorem formatLength_accuracy (c : Converter) (hprecision : c.settings.remPrecision ≤ 2 ^ 30) :
    (∀ target px, target.IsRated → 0 ≤ px.coefficient →
      ∃ n, (∀ m, c.Renders target px m ↔ m = n) ∧
        |n - c.exact px target| ≤
          (1 / 10 ^ c.settings.remPrecision + 1 / 10 ^ (c.settings.remPrecision + 16)) / 2 ∧
        (HasPlaces c.settings.remPrecision (c.exact px target) → n = c.exact px target)) ∧
    (∀ target target' px px', target.IsRated → target'.IsRated → target.Le target' →
      0 ≤ px.coefficient → px.toRat ≤ px'.toRat →
      ∀ n n', c.Renders target px n → c.Renders target' px' n' → n ≤ n') ∧
    (∀ ratio px, c.settings.baseDpr.toDecimal? = some ratio → 0 ≤ px.coefficient →
      HasPlaces c.settings.remPrecision px.toRat → c.Renders (.pixels ratio) px px.toRat) := by
  have hguarded := guarded_lt hprecision
  refine ⟨?_, ?_, ?_⟩
  · intro target px htarget hpx
    have hexact : 0 ≤ c.exact px target := exact_nonneg htarget hpx
    refine ⟨_, renders_iff hguarded htarget hpx, ?_, ?_⟩
    · exact abs_roundTo_roundTo_sub_le hexact _
    · exact roundTo_roundTo_of_hasPlaces
  · intro target target' px px' htarget htarget' hle hpx hless n n' hn hn'
    have hpx' : 0 ≤ px'.coefficient := coefficient_nonneg ((toRat_nonneg hpx).trans hless)
    have hexact : 0 ≤ c.exact px target := exact_nonneg htarget hpx
    rw [renders_iff hguarded htarget hpx] at hn
    rw [renders_iff hguarded htarget' hpx'] at hn'
    rw [hn, hn']
    apply roundTo_le_roundTo (roundTo_nonneg hexact _)
    apply roundTo_le_roundTo hexact
    exact exact_le_exact htarget hpx hle hless
  · intro ratio px hratio hpx hplaces
    obtain ⟨hdpr, hdecimal⟩ := of_positive? c.baseDpr_eq
    obtain rfl : c.baseDpr = ratio := Option.some.inj (hdecimal.symm.trans hratio)
    have htarget : (Target.pixels c.baseDpr).IsRated := ⟨_, hdpr, hratio⟩
    have hpos : 0 < c.baseDpr.toRat := toRat_pos (divisor_bounds c (.pixels c.baseDpr)).1
    have hexact : c.exact px (.pixels c.baseDpr) = px.toRat :=
      mul_div_cancel_right₀ _ hpos.ne'
    rw [renders_iff hguarded htarget hpx, hexact]
    exact (roundTo_roundTo_of_hasPlaces hplaces).symm

/-- A length that has no finite quotient, two ratios, and a length with all digits of the
precision. -/
theorem formatLength_accuracy_default :
    ∃ c, Settings.default.toConverter = .ok c ∧ c.settings.remPrecision ≤ 2 ^ 30 ∧
      (∃ n, c.Renders .rem ⟨1, 0⟩ n ∧ |n - 1 / 75| ≤ (1 / 10 ^ 6 + 1 / 10 ^ 22) / 2) ∧
      (∀ n n', c.Renders (.pixels ⟨1, 0⟩) ⟨15, -1⟩ n → c.Renders (.pixels ⟨3, 0⟩) ⟨2, 0⟩ n' →
        n ≤ n') ∧
      c.Renders (.pixels ⟨2, 0⟩) ⟨1234567, -6⟩ (1234567 / 10 ^ 6) := by
  obtain ⟨c, hc, hremUnit, hprecision, hratio⟩ :
      ∃ c, Settings.default.toConverter = .ok c ∧ c.remUnit = ⟨75, 0⟩ ∧
        c.settings.remPrecision = 6 ∧ c.settings.baseDpr.toDecimal? = some ⟨2, 0⟩ :=
    ⟨_, rfl, rfl, rfl, by decide +kernel⟩
  have hrated : (Target.pixels ⟨1, 0⟩).IsRated ∧ (Target.pixels ⟨3, 0⟩).IsRated :=
    ⟨⟨.ofNat 1, by decide +kernel⟩, ⟨.ofNat 3, by decide +kernel⟩⟩
  obtain ⟨hclose, hmono, hkept⟩ := formatLength_accuracy c (by omega)
  rw [hprecision] at hclose hkept
  have hexact : c.exact ⟨1, 0⟩ .rem = 1 / 75 := by
    rw [Converter.exact, hremUnit]
    norm_num [Decimal.toRat]
  have hnumber : Decimal.toRat ⟨1234567, -6⟩ = 1234567 / 10 ^ 6 := by norm_num [Decimal.toRat]
  refine ⟨c, hc, by omega, ?_, ?_, ?_⟩
  · obtain ⟨n, hn, hbound, -⟩ := hclose .rem ⟨1, 0⟩ trivial (by decide)
    rw [hexact] at hbound
    exact ⟨n, (hn n).mpr rfl, hbound⟩
  · refine hmono _ _ _ _ hrated.1 hrated.2 ?_ (by decide) ?_
    · norm_num [Target.Le, Decimal.toRat]
    · norm_num [Decimal.toRat]
  · rw [← hnumber]
    exact hkept _ _ hratio (by decide) ⟨1234567, hnumber⟩

end PixelRem
