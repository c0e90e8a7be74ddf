import Mathlib
import PixelRem.Proofs.Accounts
import PixelRem.Proofs.Pixels
import PixelRem.Proofs.Shortest

/-!
# Which stylesheets are accepted

A stylesheet that can be read has all its sheets, and one that cannot has none of them, for the
reason that the reader gives.  Behind the reader only the words of the arithmetic can fail:

* the ratios that are asked for are positive and finite (`exists_ratio_of_isRatio`), the fixed
  ones among them (`generateAll_pixel`);
* the decimals that lengths are divided by are not zero (`divisor_bounds`);
* the exponents of the arithmetic are held in 32 bits, and only a length with nearly `2 ^ 31`
  fraction digits can leave them (`computes_of_le_exponent`, `long_fraction_overflows`).
-/

namespace PixelRem

open Css

/-! ## Ratios -/

/-- Whether a number is finite and at least zero, where zero may have either sign. -/
def Binary64.isRatio : Binary64 → Bool
  | .finite negative mantissa _ _ => !negative || mantissa == 0
  | _ => false

theorem exists_ratio_of_isRatio {dpr : Binary64} (hdpr : dpr.isRatio = true) :
    ∃ ratio, (effectiveRatio dpr).positive? = some ratio := by
  apply exists_ratio
  cases dpr with
  | nan => exact absurd hdpr (by decide)
  | infinite negative => exact absurd hdpr (by simp [Binary64.isRatio])
  | finite negative mantissa exponent hformat =>
    by_cases hzero : mantissa = 0
    · left
      simp [Binary64.isZero, hzero]
    · right
      have hsign : negative = false := by simpa [Binary64.isRatio, hzero] using hdpr
      simp [Binary64.positive?, hsign, hzero]

/-! ## The arithmetic of one length -/

/-- What is divided to convert a length. -/
def Target.dividend (px : Decimal) : Target → Decimal
  | .rem => px
  | .pixels dpr => px.mul dpr

/-- A target whose ratio, if it has one, is the decimal of a number that is finite and at least
zero. -/
def Target.IsRated : Target → Prop
  | .rem => True
  | .pixels ratio => ∃ dpr : Binary64, dpr.isRatio = true ∧ dpr.toDecimal? = some ratio

/-- Whether a whole number is held in 32 bits with a sign. -/
def InWord (n : Int) : Prop :=
  wrap32 n = n

namespace Converter

/-- What it is divided by. -/
def divisor (c : Converter) : Target → Decimal
  | .rem => c.remUnit
  | .pixels _ => c.baseDpr

/-- What the arithmetic of one length asks for: it does not divide by zero, and no exponent and
no number of digits leaves the 32 bits it is held in. -/
structure Computes (c : Converter) (target : Target) (px : Decimal) : Prop where
  divisor_ne_zero : (c.divisor target).coefficient ≠ 0
  precision : InWord c.settings.remPrecision
  guarded : InWord (c.settings.remPrecision + guardDigits)
  dividend : InWord (target.dividend px).exponent
  shift : InWord ((target.dividend px).exponent - (c.divisor target).exponent +
    (c.settings.remPrecision + guardDigits))

end Converter

section Words

/-- What is held in 32 bits is in range and differs from the number by whole rounds. -/
theorem wrap32_spec (n : Int) :
    -2 ^ 31 ≤ wrap32 n ∧ wrap32 n < 2 ^ 31 ∧ (n - wrap32 n) % 2 ^ 32 = 0 := by
  have hword : pow2 32 = 2 ^ 32 := rfl
  unfold wrap32
  rw [hword, Int.bmod_def]
  split_ifs <;> omega

theorem inWord_iff (n : Int) : InWord n ↔ -2 ^ 31 ≤ n ∧ n < 2 ^ 31 := by
  have hspec := wrap32_spec n
  unfold InWord
  omega

theorem inWord_precision_iff (c : Converter) :
    InWord c.settings.remPrecision ∧ InWord (c.settings.remPrecision + guardDigits) ↔
      c.settings.remPrecision + guardDigits < 2 ^ 31 := by
  have hnonneg := c.precision_nonneg
  have hguard : guardDigits = 16 := rfl
  rw [inWord_iff, inWord_iff]
  omega

end Words

section Arithmetic

variable {c : Converter} {target : Target}

/-- The guard digits fit beside the precision. -/
theorem guarded_lt (hprecision : c.settings.remPrecision ≤ 2 ^ 30) :
    c.settings.remPrecision + guardDigits < 2 ^ 31 := by
  have hguard : guardDigits = 16 := rfl
  omega

theorem IsLength.exponent_nonpos {x : Text} {magnitude : Decimal} (hx : IsLength x magnitude) :
    magnitude.exponent ≤ 0 := by
  cases hx with
  | whole => simp [Decimal.ofDigits]
  | fraction => simp [Decimal.ofDigits]

theorem exponent_nonpos_of_mem_pixelSpans {value : Text} {span : PixelSpan}
    (hspan : span ∈ pixelSpans value) : span.magnitude.exponent ≤ 0 := by
  obtain ⟨p, x, y, rfl, -, hx, -⟩ := exists_of_mem_spans false value hspan
  exact hx.exponent_nonpos

/-- The number of digits of a converted length is the precision, with nothing cut off. -/
theorem convertMagnitude_eq (px : Decimal)
    (hprecision : c.settings.remPrecision + guardDigits < 2 ^ 31) :
    c.convertMagnitude target px =
      ((target.dividend px).divRound (c.divisor target)
        (c.settings.remPrecision + guardDigits)).round c.settings.remPrecision := by
  obtain ⟨hplaces, hguarded⟩ := (inWord_precision_iff c).mpr hprecision
  have hplaces : c.places = c.settings.remPrecision := hplaces
  have hguarded : wrap32 (c.settings.remPrecision + guardDigits) = _ := hguarded
  unfold Converter.convertMagnitude
  rw [hplaces, hguarded]
  cases target <;> rfl

theorem divisor_bounds (c : Converter) (target : Target) :
    0 < (c.divisor target).coefficient ∧ -340 ≤ (c.divisor target).exponent ∧
      (c.divisor target).exponent ≤ 325 := by
  cases target with
  | rem => exact Binary64.positive?_bounds c.remUnit_eq
  | pixels ratio => exact Binary64.positive?_bounds c.baseDpr_eq

theorem ratio_bounds {dpr : Binary64} {ratio : Decimal} (hdpr : dpr.isRatio = true)
    (hratio : dpr.toDecimal? = some ratio) : -340 ≤ ratio.exponent ∧ ratio.exponent ≤ 325 := by
  cases dpr with
  | nan => cases hratio
  | infinite negative => cases hratio
  | finite negative mantissa exponent hformat =>
    by_cases hzero : mantissa = 0
    · subst hzero
      cases hratio
      show (-340 : Int) ≤ 0 ∧ (0 : Int) ≤ 325
      omega
    · obtain rfl : negative = false := by simpa [Binary64.isRatio, hzero] using hdpr
      have hpositive :
          (Binary64.finite false mantissa exponent hformat).positive? = some ratio := by
        rw [← hratio]
        exact if_neg hzero
      exact (Binary64.positive?_bounds hpositive).2

theorem dividend_bounds (htarget : target.IsRated) (px : Decimal) :
    px.exponent - 340 ≤ (target.dividend px).exponent ∧
      (target.dividend px).exponent ≤ px.exponent + 325 := by
  cases target with
  | rem =>
    show px.exponent - 340 ≤ px.exponent ∧ px.exponent ≤ px.exponent + 325
    omega
  | pixels ratio =>
    obtain ⟨dpr, hdpr, hratio⟩ := htarget
    have hbounds := ratio_bounds hdpr hratio
    show px.exponent - 340 ≤ px.exponent + ratio.exponent ∧
      px.exponent + ratio.exponent ≤ px.exponent + 325
    omega

/-- Nothing is divided by zero, so only words are left to ask for. -/
theorem computes_iff_inWord {px : Decimal} : c.Computes target px ↔
    c.settings.remPrecision + guardDigits < 2 ^ 31 ∧ InWord (target.dividend px).exponent ∧
      InWord ((target.dividend px).exponent - (c.divisor target).exponent +
        (c.settings.remPrecision + guardDigits)) := by
  rw [← inWord_precision_iff]
  constructor
  · rintro ⟨-, hprecision, hguarded, hdividend, hshift⟩
    exact ⟨⟨hprecision, hguarded⟩, hdividend, hshift⟩
  · rintro ⟨⟨hprecision, hguarded⟩, hdividend, hshift⟩
    exact ⟨(divisor_bounds c target).1.ne', hprecision, hguarded, hdividend, hshift⟩

/-- With at most `2 ^ 30` digits exponents can only become too low. -/
theorem computes_iff_exponents (hprecision : c.settings.remPrecision ≤ 2 ^ 30)
    (htarget : target.IsRated) {px : Decimal} (hpx : px.exponent ≤ 0) : c.Computes target px ↔
      -2 ^ 31 ≤ (target.dividend px).exponent ∧
        -2 ^ 31 ≤ (target.dividend px).exponent - (c.divisor target).exponent +
          (c.settings.remPrecision + guardDigits) := by
  have hdivisor := divisor_bounds c target
  have hdividend := dividend_bounds htarget px
  have hguard : guardDigits = 16 := rfl
  rw [computes_iff_inWord, inWord_iff, inWord_iff]
  omega

/-- They do not for a length of which not nearly all digits of a word are behind its point. -/
theorem computes_of_le_exponent (hprecision : c.settings.remPrecision ≤ 2 ^ 30)
    (htarget : target.IsRated) {px : Decimal} (hpx : px.exponent ≤ 0)
    (hlow : -2 ^ 31 + 649 ≤ px.exponent) : c.Computes target px := by
  have hdivisor := divisor_bounds c target
  have hdividend := dividend_bounds htarget px
  have hnonneg := c.precision_nonneg
  have hguard : guardDigits = 16 := rfl
  rw [computes_iff_exponents hprecision htarget hpx]
  omega

end Arithmetic

/-! ## The sheets -/

section Sheets

variable {c : Converter} {css : Text}

/-- The fixed sheets are those that are generated one by one. -/
theorem generateAll_pixel {set : SheetSet} (hset : c.generateAll css = .ok set) :
    c.generateRem css = .ok set.rem ∧
      set.pixel.map (fun pair => (pair.1, Except.ok pair.2)) =
        ratios.map fun n => (n, c.generatePixel css (.ofNat n)) := by
  rw [Converter.generateAll, except_bind_eq_ok] at hset
  obtain ⟨rem, hrem, hset⟩ := hset
  rw [except_bind_eq_ok] at hset
  obtain ⟨pixel, hpixel, hset⟩ := hset
  rw [← Except.ok.inj hset]
  refine ⟨hrem, map_of_mapM_eq_ok ?_ hpixel⟩
  intro n pair hpair
  split at hpair
  · rename_i sheet hsheet
    rw [← Except.ok.inj hpair, hsheet]
  · exact absurd hpair (by simp)

theorem generateRem_of_parse_error {e : ParseError} (hparse : parse css = .error e) :
    c.generateRem css = .error (.parse e) := by
  rw [Converter.generateRem, hparse]

theorem generateAll_of_parse_error {e : ParseError} (hparse : parse css = .error e) :
    c.generateAll css = .error (.parse e) := by
  rw [Converter.generateAll, generateRem_of_parse_error hparse]
  rfl

theorem generatePixel_of_parse_error {e : ParseError} (hparse : parse css = .error e)
    {dpr : Binary64} (hdpr : dpr.isRatio = true) :
    c.generatePixel css dpr = .error (.parse e) := by
  obtain ⟨ratio, hratio⟩ := exists_ratio_of_isRatio hdpr
  rw [effectiveRatio] at hratio
  simp only [Converter.generatePixel, hratio, hparse]

end Sheets

/-- Whether sheets are generated depends on the stylesheet alone.  If it cannot be read, every
generator gives the fault of the reader and its wording.  If it can, they all give their sheets,
and the set of all sheets has the one in root units and those for the ratios one, two and three.
On the way no length is divided by zero.  The exponents of a length stay in their words exactly
if neither the product with the ratio nor the quotient has one below `-2 ^ 31`, so they do for every
length with at most `2 ^ 31 - 649` fraction digits. -/
theorem acceptance_of_parse (c : Converter) (css : Text)
    (hprecision : c.settings.remPrecision ≤ 2 ^ 30) :
    (∀ e, parse css = .error e →
      c.generateRem css = .error (.parse e) ∧ c.generateAll css = .error (.parse e) ∧
        (∀ dpr : Binary64, dpr.isRatio = true → c.generatePixel css dpr = .error (.parse e)) ∧
        (GenerateError.parse e).message = e.message) ∧
    (∀ rules, parse css = .ok rules →
      ∃ rem set, c.generateRem css = .ok rem ∧ c.generateAll css = .ok set ∧ set.rem = rem ∧
        set.pixel.map (fun pair => (pair.1, Except.ok pair.2)) =
          [1, 2, 3].map (fun n => (n, c.generatePixel css (.ofNat n))) ∧
        ∀ dpr : Binary64, dpr.isRatio = true → ∃ sheet, c.generatePixel css dpr = .ok sheet) ∧
    (∀ target : Target, target.IsRated → (c.divisor target).coefficient ≠ 0 ∧
      ∀ value : Text, ∀ span ∈ pixelSpans value,
        (c.Computes target span.magnitude ↔
          -2 ^ 31 ≤ (target.dividend span.magnitude).exponent ∧
          -2 ^ 31 ≤ (target.dividend span.magnitude).exponent - (c.divisor target).exponent +
            (c.settings.remPrecision + guardDigits)) ∧
        (-2 ^ 31 + 649 ≤ span.magnitude.exponent → c.Computes target span.magnitude) ∧
        c.convertMagnitude target span.magnitude =
          ((target.dividend span.magnitude).divRound (c.divisor target)
            (c.settings.remPrecision + guardDigits)).round c.settings.remPrecision) := by
  refine ⟨?_, ?_, ?_⟩
  · intro e hparse
    exact ⟨generateRem_of_parse_error hparse, generateAll_of_parse_error hparse,
      fun dpr hdpr => generatePixel_of_parse_error hparse hdpr, rfl⟩
  · intro rules hparse
    obtain ⟨set, hset⟩ := @exists_generateAll c css rules hparse
    obtain ⟨hrem, hpixel⟩ := generateAll_pixel hset
    refine ⟨set.rem, set, hrem, hset, rfl, hpixel, ?_⟩
    intro dpr hdpr
    obtain ⟨ratio, hratio⟩ := exists_ratio_of_isRatio hdpr
    exact exists_generatePixel hparse hratio
  · intro target htarget
    refine ⟨(divisor_bounds c target).1.ne', ?_⟩
    intro value span hspan
    have hexponent := exponent_nonpos_of_mem_pixelSpans hspan
    exact ⟨computes_iff_exponents hprecision htarget hexponent,
      computes_of_le_exponent hprecision htarget hexponent,
      convertMagnitude_eq _ (guarded_lt hprecision)⟩

/-- The least ratio and the greatest root unit of the format, with the greatest precision. -/
theorem acceptance_of_parse_extremes :
    ∃ c : Converter, c.settings.baseDpr = .finite false 1 (-1074) (by decide) ∧
      c.settings.remUnit = .finite false 9007199254740991 971 (by decide) ∧
      c.settings.remPrecision = 2 ^ 30 ∧
      (∃ e, parse (utf8 "\x7d") = .error e ∧ c.generateAll (utf8 "\x7d") = .error (.parse e)) ∧
      (∃ rules set, parse (utf8 "a\x7bb:1px\x7d") = .ok rules ∧
        c.generateAll (utf8 "a\x7bb:1px\x7d") = .ok set ∧
        c.generateRem (utf8 "a\x7bb:1px\x7d") = .ok set.rem) ∧
      (c.divisor .rem).coefficient ≠ 0 ∧
      ∀ span ∈ pixelSpans (utf8 "1px"), c.Computes .rem span.magnitude := by
  have hbase : (Binary64.finite false 1 (-1074) (by decide)).positive? = some ⟨5, -324⟩ := by
    decide +kernel
  have hunit : (Binary64.finite false 9007199254740991 971 (by decide)).positive? =
      some ⟨17976931348623157, 292⟩ := by decide +kernel
  let c : Converter :=
    { settings := ⟨.finite false 1 (-1074) (by decide),
        .finite false 9007199254740991 971 (by decide), 2 ^ 30, utf8 "px", utf8 "no"⟩
      baseDpr := ⟨5, -324⟩
      remUnit := ⟨17976931348623157, 292⟩
      baseDpr_eq := hbase
      remUnit_eq := hunit
      precision_nonneg := by decide
      force_ne_nil := by decide +kernel
      keep_ne_nil := by decide +kernel
      force_ne_keep := by decide +kernel }
  have haccept (css : Text) := acceptance_of_parse c css (Int.le_refl (2 ^ 30))
  obtain ⟨e, herror⟩ := (refused_close .rem (.ofNat 2)).resolve_right fun h =>
    absurd h.1 (by decide)
  obtain ⟨rem, set, hrem, hset, rfl, -⟩ := (haccept _).2.1 _ parse_lengthRule
  have hlengths := (haccept []).2.2 .rem trivial
  have hwhole : ∀ span ∈ pixelSpans (utf8 "1px"), -2 ^ 31 + 649 ≤ span.magnitude.exponent := by
    decide +kernel
  exact ⟨c, rfl, rfl, rfl, ⟨e, herror, ((haccept _).1 e herror).2.1⟩,
    ⟨_, set, parse_lengthRule, hset, hrem⟩, hlengths.1,
    fun span hspan => (hlengths.2 _ span hspan).2.1 (hwhole span hspan)⟩

/-! ## Lengths with too many digits -/

/-- The text of zero in pixels, with a number of fraction digits. -/
def longZero (digits : Nat) : Text :=
  ascii '0' :: ascii '.' :: (List.replicate digits (ascii '0') ++ unitText)

section LongZero

variable {digits : Nat} (hdigits : 0 < digits)

include hdigits

theorem isDigits_replicate : IsDigits (List.replicate digits (ascii '0')) := by
  refine ⟨by simpa using hdigits.ne', fun b hb => ?_⟩
  rw [List.eq_of_mem_replicate hb]
  rfl

theorem pixelSpans_longZero :
    ∃ span, pixelSpans (longZero digits) = [span] ∧ span.magnitude.exponent = -digits := by
  have hzero : IsDigits [ascii '0'] := @isDigits_replicate 1 Nat.one_pos
  have hlength : IsLength (longZero digits)
      (.ofDigits [ascii '0'] (List.replicate digits (ascii '0'))) :=
    .fraction hzero (isDigits_replicate hdigits)
  exact ⟨_, pixelSpans_isLength hlength, by simp [Decimal.ofDigits]⟩

theorem numberLength_longZero (y : Text) :
    numberLength (longZero digits ++ y) = digits + 2 := by
  obtain ⟨n, rfl⟩ : ∃ n, digits = n + 1 := Nat.exists_eq_add_one.mpr hdigits
  let zeros := List.replicate (n + 1) (ascii '0')
  have hrun : digitRun (zeros ++ (unitText ++ y)) = n + 1 := by
    have htake := ((isDigits_replicate hdigits).takeWhile (b := ascii 'p') rfl (ascii 'x' :: y)).1
    show ((zeros ++ ascii 'p' :: ascii 'x' :: y).takeWhile Byte.isDigit).length = n + 1
    rw [htake, List.length_replicate]
  have hfraction : fractionLength (ascii '.' :: (zeros ++ (unitText ++ y))) = n + 2 := by
    rw [fractionLength, if_pos rfl, hrun]
  have hbehind : (zeros ++ (unitText ++ y)).drop (n + 1) = unitText ++ y :=
    List.drop_left' List.length_replicate
  have htext : longZero (n + 1) ++ y =
      ascii '0' :: ascii '.' :: (zeros ++ (unitText ++ y)) := by
    simp [longZero, zeros]
  rw [htext]
  show (if 1 + fractionLength (ascii '.' :: (zeros ++ (unitText ++ y))) = 0 then 0
    else 0 + 1 + fractionLength (ascii '.' :: (zeros ++ (unitText ++ y))) + exponentLength
      ((ascii '0' :: ascii '.' :: (zeros ++ (unitText ++ y))).drop
        (0 + 1 + fractionLength (ascii '.' :: (zeros ++ (unitText ++ y)))))) = n + 3
  rw [hfraction, if_neg (by omega), show 0 + 1 + (n + 2) = n + 1 + 2 by omega, List.drop_succ_cons,
    List.drop_succ_cons, hbehind]
  rfl

theorem numeric?_longZero (y : Text) :
    numeric? (longZero digits ++ ascii '\x7d' :: y) = some (.dimension, digits + 4) := by
  have hbehind : (longZero digits ++ ascii '\x7d' :: y).drop (digits + 2) =
      unitText ++ ascii '\x7d' :: y := by
    rw [longZero, List.cons_append, List.cons_append, List.drop_succ_cons, List.drop_succ_cons,
      List.append_assoc]
    exact List.drop_left' List.length_replicate
  unfold numeric?
  rw [numberLength_longZero hdigits]
  dsimp only
  rw [hbehind]
  rfl

/-- The lexer finds a dimension. -/
theorem heads_longZero (offset : Nat) (y : Text) :
    Token.Heads ⟨.dimension, longZero digits, offset⟩ (ascii '\x7d' :: y) := by
  refine ⟨ascii '0', _, rfl, ?_⟩
  have hscan (t : Text) : scan? (ascii '0') t =
      (numeric? (ascii '0' :: t)).or (identLike? (ascii '0' :: t)) := rfl
  have hnumeric := numeric?_longZero hdigits y
  rw [longZero, List.cons_append] at hnumeric
  rw [scan, hscan, hnumeric]
  simp [longZero, unitText]

theorem parse_longZero : parse (utf8 "a\x7bb:" ++ longZero digits ++ utf8 "\x7d") =
    .ok [.style ⟨[utf8 "a"], [.declaration (utf8 "b") (longZero digits)]⟩] := by
  have hvalue : Token.IsWord ⟨.dimension, longZero digits, 4⟩ :=
    ⟨by simp, List.cons_ne_nil _ _⟩
  have hrules : RuleSeq anyRun
      (([⟨.ident, utf8 "a", 0⟩] ++ ⟨.leftBrace, [0x7B], 1⟩ ::
        (([⟨.ident, utf8 "b", 2⟩] ++ ⟨.colon, utf8 ":", 3⟩ ::
          [⟨.dimension, longZero digits, 4⟩]) ++ [⟨.rightBrace, [0x7D], 0⟩])) ++ [])
      [.style ⟨[utf8 "a"],
        [.declaration (utf8 "b") (runText [⟨.dimension, longZero digits, 4⟩])]⟩] :=
    .word (by decide) trivial rfl
      (.last (.word (by decide) rfl hvalue.isValue trivial trivial)) rfl .nil
  rw [hvalue.runText_eq] at hrules
  have hparse := fun hcut => parse_textOf hcut hrules
  rw [← hparse ⟨⟨_, _, rfl, rfl⟩, ⟨_, _, rfl, rfl⟩, ⟨_, _, rfl, rfl⟩, ⟨_, _, rfl, rfl⟩,
    heads_longZero hdigits 4 [], ⟨_, _, rfl, rfl⟩, trivial⟩]
  rfl

end LongZero

/-- Zero with `2 ^ 31` fraction digits is a length of a stylesheet that can be read, and its product
with the ratio 1.5 has an exponent that no word holds. -/
theorem long_fraction_overflows :
    ∃ c, Settings.default.toConverter = .ok c ∧ c.settings.remPrecision ≤ 2 ^ 30 ∧
      (Binary64.ofDecimal false 15 (-1)).isRatio = true ∧
      (effectiveRatio (.ofDecimal false 15 (-1))).positive? = some ⟨15, -1⟩ ∧
      parse (utf8 "a\x7bb:" ++ longZero (2 ^ 31) ++ utf8 "\x7d") =
        .ok [.style ⟨[utf8 "a"], [.declaration (utf8 "b") (longZero (2 ^ 31))]⟩] ∧
      ∃ span, pixelSpans (longZero (2 ^ 31)) = [span] ∧
        ((Target.pixels ⟨15, -1⟩).dividend span.magnitude).exponent = -2 ^ 31 - 1 ∧
        ¬ c.Computes (.pixels ⟨15, -1⟩) span.magnitude := by
  have hdigits : 0 < 2 ^ 31 := Nat.two_pow_pos 31
  obtain ⟨span, hspan, hexponent⟩ := pixelSpans_longZero hdigits
  have hproduct : ((Target.pixels ⟨15, -1⟩).dividend span.magnitude).exponent = -2 ^ 31 - 1 := by
    show span.magnitude.exponent + -1 = -2 ^ 31 - 1
    rw [hexponent]
    omega
  refine ⟨_, rfl, by decide, by decide +kernel, by decide +kernel, parse_longZero hdigits, span,
    hspan, hproduct, fun hcomputes => ?_⟩
  have hword := (inWord_iff _).mp hcomputes.dividend
  rw [hproduct] at hword
  omega

end PixelRem
