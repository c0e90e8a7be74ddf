import Mathlib
import PixelRem.Proofs.TokenFrame

/-!
# Dimensions in pixels

What becomes of a dimension in pixels: a token that is a decimal number with an optional
sign and the unit `px`.  A number with digits before its point is converted by its value,
and the sign stays before the result.  A number that starts with its point is not read as
one number: the point stays, and the digits behind it are converted as a whole number.  If
digits stand right before the point they are taken for its whole part.

The proofs cut a value at a closing byte, which no pixel length holds, so both sides are
converted apart (`convertValue_closed`).  A sign is such a byte, and so is the byte before a
token that starts with a digit.
-/

namespace PixelRem

open Css

/-- A decimal number without a sign, and its value. -/
inductive IsNumber : Text → Decimal → Prop where
  | whole {digits : Text} (hdigits : IsDigits digits) : IsNumber digits (.ofDigits digits [])
  | fraction {whole fraction : Text} (hwhole : IsDigits whole) (hfraction : IsDigits fraction) :
      IsNumber (whole ++ ascii '.' :: fraction) (.ofDigits whole fraction)
  | point {fraction : Text} (hfraction : IsDigits fraction) :
      IsNumber (ascii '.' :: fraction) (.ofDigits [] fraction)

/-- The signs that a number can have. -/
def signs : List Text :=
  [[], [ascii '+'], [ascii '-']]

/-- A dimension that is a sign, a decimal number and the unit `px`. -/
structure Css.Token.IsDecimalPixels (t : Token) (sign number : Text) (magnitude : Decimal) :
    Prop where
  kind_eq : t.kind = .dimension
  sign_mem : sign ∈ signs
  isNumber : IsNumber number magnitude
  text_eq : t.text = sign ++ (number ++ unitText)

/-- The text ends with digits that do not stand behind a word byte. -/
def EndsWhole (t : Text) : Prop :=
  ∃ p whole, t = p ++ whole ∧ IsDigits whole ∧ wordBehind false p = false

section Number

variable {number : Text} {magnitude : Decimal}

theorem IsNumber.isLength (hnumber : IsNumber number magnitude)
    (hstart : number.head? ≠ some (ascii '.')) : IsLength (number ++ unitText) magnitude := by
  cases hnumber with
  | whole hdigits => exact .whole hdigits
  | fraction hwhole hfraction =>
    rw [List.append_assoc, List.cons_append]
    exact .fraction hwhole hfraction
  | point => exact absurd rfl hstart

theorem IsNumber.digits_behind_point {fraction : Text} (hnumber : IsNumber number magnitude)
    (hpoint : number = ascii '.' :: fraction) : IsDigits fraction := by
  cases hnumber with
  | whole hdigits =>
    rw [hpoint] at hdigits
    exact absurd (hdigits.2 (ascii '.') List.mem_cons_self) (by decide)
  | fraction hwhole =>
    obtain ⟨d, digits, rfl⟩ := List.exists_cons_of_ne_nil hwhole.1
    obtain ⟨rfl, -⟩ := List.cons.inj hpoint
    exact absurd (hwhole.2 (ascii '.') List.mem_cons_self) (by decide)
  | point hfraction =>
    obtain ⟨-, rfl⟩ := List.cons.inj hpoint
    exact hfraction

end Number

/-! ## Cutting a value -/

section Cut

variable {q : Text} {b : UInt8}

/-- A pixel length does not reach over a closing byte. -/
theorem pixelHead?_closed (hb : IsCloser b) (q s : Text) :
    pixelHead? (q ++ b :: s) = pixelHead? q := by
  apply pixelHead?_append
  · intro a r y magnitude hx _ hrest
    obtain ⟨rfl, -⟩ := List.cons.inj hrest
    have hbyte : Byte.isWord b = true ∨ b = ascii '.' := by
      rcases hx.mem (List.mem_append_right q List.mem_cons_self) with hdigit | hother
      · exact .inl (isWord_of_isDigit hdigit)
      · fin_cases hother
        · exact .inr rfl
        · exact .inl rfl
        · exact .inl rfl
    rcases hbyte with hword | hpoint
    · rw [hb.1] at hword
      exact absurd hword (by decide)
    · exact hb.2 hpoint
  · intro magnitude _
    exact breaks_cons.mpr hb.1

variable (c : Converter) (target : Target)

/-- A value is converted apart before and behind a closing byte. -/
theorem convertValue_closed (hb : IsCloser b) (q s : Text) :
    c.convertValue target (q ++ b :: s) =
      c.convertValue target q ++ b :: c.convertValue target s := by
  apply convertValue_of_converts
  apply (converts_convertValue c target q).append
  · intro p r _ _ _
    exact pixelHead?_closed hb r s
  · apply Converts.copy
    · intro _
      exact pixelHead?_closed hb [] s
    · rw [hb.1]
      exact converts_convertValue c target s

/-- What stands behind a text that is empty or ends with a closing byte is converted apart. -/
theorem convertValue_behind_closer (hends : q = [] ∨ ∃ z b, q = z ++ [b] ∧ IsCloser b) (s : Text) :
    c.convertValue target (q ++ s) = c.convertValue target q ++ c.convertValue target s := by
  rcases hends with rfl | ⟨z, b, rfl, hb⟩
  · rfl
  · have hlast : c.convertValue target (z ++ [b]) = c.convertValue target z ++ [b] :=
      convertValue_closed c target hb z []
    rw [hlast, List.append_assoc, List.singleton_append, convertValue_closed c target hb,
      List.append_assoc, List.singleton_append]

theorem convertValue_length {x y : Text} {magnitude : Decimal} (hx : IsLength x magnitude)
    (hy : Breaks y) :
    c.convertValue target (x ++ y) =
      c.formatLength target magnitude ++ c.convertValue target y := by
  apply convertValue_of_converts
  apply Converts.length hx hy
  apply (converts_convertValue c target y).of_false
  intro _ b hb
  by_contra hdigit
  rw [Bool.not_eq_false] at hdigit
  have hword := hy b hb
  rw [isWord_of_isDigit hdigit] at hword
  exact absurd hword (by decide)

end Cut

/-! ## Numbers that start with their point -/

section Point

variable {q s : Text}

theorem IsLength.digits_before_point {magnitude : Decimal}
    (hx : IsLength (q ++ ascii '.' :: s) magnitude) : IsDigits q := by
  have hpoint : ∀ digits, IsDigits digits → ascii '.' ∉ digits := fun digits hdigits hmem =>
    absurd (hdigits.2 _ hmem) (by decide)
  generalize hsplit : q ++ ascii '.' :: s = x at hx
  cases hx with
  | @whole digits hdigits =>
    have hmem : ascii '.' ∈ digits ++ unitText := by
      rw [← hsplit]
      simp
    rcases List.mem_append.mp hmem with hdigit | hunit
    · exact absurd hdigit (hpoint digits hdigits)
    · exact absurd hunit (by decide)
  | @fraction whole fraction hwhole hfraction =>
    rcases List.append_eq_append_iff.mp hsplit with ⟨a, rfl, hrest⟩ | ⟨a, rfl, hrest⟩
    · cases a with
      | nil => rwa [List.append_nil] at hwhole
      | cons b a =>
        obtain ⟨rfl, -⟩ := List.cons.inj hrest
        exact absurd (List.mem_append_right q List.mem_cons_self) (hpoint _ hwhole)
    · cases a with
      | nil => rwa [List.append_nil]
      | cons b a =>
        -- A second point would stand in the fraction or in the unit.
        obtain ⟨-, hbehind⟩ := List.cons.inj hrest
        have hmem : ascii '.' ∈ fraction ++ unitText := by
          rw [hbehind]
          simp
        rcases List.mem_append.mp hmem with hdigit | hunit
        · exact absurd hdigit (hpoint fraction hfraction)
        · exact absurd hunit (by decide)

/-- A pixel length that starts before a number with a point does not reach into it. -/
theorem pixelHead?_before_fraction {whole : Text} (hwhole : IsDigits whole) (hq : q ≠ [])
    (hword : wordBehind false q = false) (s : Text) :
    pixelHead? (q ++ (whole ++ ascii '.' :: s)) = pixelHead? q := by
  apply pixelHead?_append
  · intro b r y magnitude hx _ hrest
    obtain ⟨digits, hdigits, hunit⟩ := hx.cut rfl hq hword
    -- The two runs of digits are the same, but a point follows one and the unit the other.
    have hpoint := (hwhole.takeWhile (b := ascii '.') rfl s).2
    rw [hrest, ← List.cons_append, hunit, List.append_assoc] at hpoint
    rw [unitText, List.cons_append, (hdigits.takeWhile (b := ascii 'p') rfl _).2] at hpoint
    exact absurd (List.cons.inj hpoint).1 (by decide)
  · intro magnitude hx
    rw [wordBehind_isLength hx] at hword
    exact absurd hword (by decide)

variable (c : Converter) (target : Target)

/-- The digits right before a point are the whole part of the number. -/
theorem convertValue_whole_point {p whole fraction y : Text} (hwhole : IsDigits whole)
    (hp : wordBehind false p = false) (hfraction : IsDigits fraction) (hy : Breaks y) :
    c.convertValue target (p ++ (whole ++ ascii '.' :: (fraction ++ unitText)) ++ y) =
      c.convertValue target p ++
        (c.formatLength target (.ofDigits whole fraction) ++ c.convertValue target y) := by
  have hbehind := convertValue_length c target (.fraction hwhole hfraction) hy
  rw [← hbehind, List.append_assoc]
  apply convertValue_of_converts
  apply (converts_convertValue c target p).append
  · intro z r hsplit hr hz
    rw [List.append_assoc, List.cons_append]
    apply pixelHead?_before_fraction hwhole hr
    rw [hsplit, wordBehind_append, hz] at hp
    exact hp
  · rw [hp]
    exact converts_convertValue c target _

/-- Behind a text that does not end with a whole part a point stays, and the digits behind it
are converted as a whole number. -/
theorem convertValue_point {fraction y : Text} (hends : ¬ EndsWhole q)
    (hfraction : IsDigits fraction) (hy : Breaks y) :
    c.convertValue target (q ++ ascii '.' :: (fraction ++ unitText ++ y)) =
      c.convertValue target q ++ ascii '.' ::
        (c.formatLength target (.ofDigits fraction []) ++ c.convertValue target y) := by
  rw [← convertValue_length c target (.whole hfraction) hy]
  apply convertValue_of_converts
  apply (converts_convertValue c target q).append
  · intro p r hsplit hr hp
    apply pixelHead?_append
    · intro b a z magnitude hx _ hrest
      obtain ⟨rfl, -⟩ := List.cons.inj hrest
      exact hends ⟨p, r, hsplit, hx.digits_before_point, hp⟩
    · intro _ _
      exact breaks_cons.mpr rfl
  · apply Converts.copy
    · intro _
      rfl
    · exact converts_convertValue c target _

end Point

/-! ## The tokens of a value -/

section Token

variable {value : Text} {ts us : List Token} {t : Token} {sign number : Text}
  {magnitude : Decimal} (hstands : Stands value ts t us)
  (hpixels : t.IsDecimalPixels sign number magnitude)

include hstands hpixels

/-- No word byte follows a dimension in pixels. -/
theorem Stands.breaks_behind : Breaks (textOf us) := by
  cases hbehind : textOf us with
  | nil => exact breaks_nil
  | cons b s =>
    have hcut : Cut (ts ++ [t]) (b :: s) := by
      rw [← hbehind, cut_append, textOf_cons, textOf_nil, List.append_nil]
      exact ⟨hstands.before, hstands.heads, trivial⟩
    have hlast : textOf (ts ++ [t]) =
        (textOf ts ++ (sign ++ (number ++ [ascii 'p']))) ++ [ascii 'x'] := by
      rw [textOf_concat, hpixels.text_eq]
      simp [unitText]
    exact breaks_cons.mpr (breaks_of_unit hcut hlast (.inr rfl))

/-- What stands before the digits of a dimension is empty or ends with a closing byte. -/
theorem Stands.closed_before (hstart : number.head? ≠ some (ascii '.')) :
    textOf ts ++ sign = [] ∨ ∃ z b, textOf ts ++ sign = z ++ [b] ∧ IsCloser b := by
  have hsign := hpixels.sign_mem
  simp only [signs, List.mem_cons, List.not_mem_nil, or_false] at hsign
  rcases hsign with rfl | rfl | rfl
  · rw [List.append_nil]
    rcases List.eq_nil_or_concat' (textOf ts) with hnil | ⟨z, b, hlast⟩
    · exact .inl hnil
    · obtain ⟨d, digits, hcons, hd⟩ := (hpixels.isNumber.isLength hstart).starts
      have hcut := hstands.before
      rw [hpixels.text_eq, List.nil_append, hcons, List.cons_append] at hcut
      exact .inr ⟨z, b, hlast, isCloser_of_digit hcut hlast hd⟩
  · exact .inr ⟨textOf ts, ascii '+', rfl, by decide⟩
  · exact .inr ⟨textOf ts, ascii '-', rfl, by decide⟩

end Token

theorem convertValue_sign (c : Converter) (target : Target) {sign : Text} (hsign : sign ∈ signs)
    (before : Text) :
    c.convertValue target (before ++ sign) = c.convertValue target before ++ sign := by
  simp only [signs, List.mem_cons, List.not_mem_nil, or_false] at hsign
  rcases hsign with rfl | rfl | rfl
  · rw [List.append_nil, List.append_nil]
  · exact convertValue_closed c target (by decide) before []
  · exact convertValue_closed c target (by decide) before []

/-- A dimension in pixels with digits before its point is converted by its value, behind its
sign.  One that starts with its point keeps the point before the converted digits, unless
digits stand right before it, which are then converted with it as its whole part. -/
theorem convertValue_dimension (c : Converter) (target : Target) {value : Text}
    {ts us : List Token} {t : Token} {sign number : Text} {magnitude : Decimal}
    (htokens : tokenize value = ts ++ t :: us)
    (hpixels : t.IsDecimalPixels sign number magnitude) :
    (number.head? ≠ some (ascii '.') →
      c.convertValue target value = c.convertValue target (textOf ts) ++
        (sign ++ (c.formatLength target magnitude ++ c.convertValue target (textOf us)))) ∧
    ∀ fraction, number = ascii '.' :: fraction →
      (¬ EndsWhole (textOf ts ++ sign) →
        c.convertValue target value = c.convertValue target (textOf ts) ++
          (sign ++ ascii '.' :: (c.formatLength target (.ofDigits fraction []) ++
            c.convertValue target (textOf us)))) ∧
      ∀ p whole, textOf ts ++ sign = p ++ whole → IsDigits whole → wordBehind false p = false →
        c.convertValue target value = c.convertValue target p ++
          (c.formatLength target (.ofDigits whole fraction) ++
            c.convertValue target (textOf us)) := by
  have hstands := stands_of_tokenize htokens
  have hbreaks := hstands.breaks_behind hpixels
  have hvalue : value = (textOf ts ++ sign) ++ ((number ++ unitText) ++ textOf us) := by
    rw [hstands.value_eq, hpixels.text_eq]
    simp only [List.append_assoc]
  have hbefore := convertValue_sign c target hpixels.sign_mem (textOf ts)
  rw [hvalue]
  refine ⟨fun hstart => ?_, ?_⟩
  · rw [convertValue_behind_closer c target (hstands.closed_before hpixels hstart), hbefore,
      convertValue_length c target (hpixels.isNumber.isLength hstart) hbreaks, List.append_assoc]
  rintro fraction rfl
  have hfraction := hpixels.isNumber.digits_behind_point rfl
  refine ⟨fun hends => ?_, fun p whole hsplit hwhole hp => ?_⟩
  · rw [List.cons_append, List.cons_append, convertValue_point c target hends hfraction hbreaks,
      hbefore, List.append_assoc]
  · rw [hsplit, ← convertValue_whole_point c target hwhole hp hfraction hbreaks]
    congr 1
    simp only [List.append_assoc, List.cons_append]

-- The digit before the second point is taken for the whole part of `.5px`.
example :
    tokenize (utf8 "1.2.5px") = [⟨.number, utf8 "1.2", 0⟩, ⟨.dimension, utf8 ".5px", 3⟩] ∧
      Settings.default.toConverter.map (·.convertValue .rem (utf8 "1.2.5px")) =
        .ok (utf8 "1.0.033333rem") := by
  refine ⟨by decide +kernel, rfl⟩

/-- A negative dimension behind another one. -/
theorem convertValue_dimension_signed :
    ∃ c ts t us, Settings.default.toConverter = .ok c ∧
      tokenize (utf8 "1px -2.5px") = ts ++ t :: us ∧
      t.IsDecimalPixels (utf8 "-") (utf8 "2" ++ ascii '.' :: utf8 "5")
        (.ofDigits (utf8 "2") (utf8 "5")) ∧
      c.convertValue .rem (utf8 "1px -2.5px") =
        c.convertValue .rem (textOf ts) ++
          (utf8 "-" ++ (c.formatLength .rem (.ofDigits (utf8 "2") (utf8 "5")) ++
            c.convertValue .rem (textOf us))) := by
  have htokens : tokenize (utf8 "1px -2.5px") =
      [⟨.dimension, utf8 "1px", 0⟩, ⟨.whitespace, utf8 " ", 3⟩] ++
        ⟨.dimension, utf8 "-2.5px", 4⟩ :: [] := by decide +kernel
  have hpixels : Token.IsDecimalPixels ⟨.dimension, utf8 "-2.5px", 4⟩ (utf8 "-")
      (utf8 "2" ++ ascii '.' :: utf8 "5") (.ofDigits (utf8 "2") (utf8 "5")) :=
    ⟨rfl, by decide, .fraction ⟨by decide, by decide +kernel⟩ ⟨by decide, by decide +kernel⟩, rfl⟩
  obtain ⟨c, hc⟩ : ∃ c, Settings.default.toConverter = .ok c := ⟨_, rfl⟩
  have hconverted := (convertValue_dimension c .rem htokens hpixels).1 (by decide)
  exact ⟨c, _, _, _, hc, htokens, hpixels, hconverted⟩

/-- The point of `.5px` stays, and its digit is converted like `5px`. -/
theorem leading_point_kept :
    tokenize (utf8 ".5px") = [⟨.dimension, utf8 ".5px", 0⟩] ∧
      Token.IsDecimalPixels ⟨.dimension, utf8 ".5px", 0⟩ [] (ascii '.' :: utf8 "5")
        (.ofDigits [] (utf8 "5")) ∧
      ∃ c, Settings.default.toConverter = .ok c ∧
        c.convertValue .rem (utf8 ".5px") = utf8 ".0.066667rem" ∧
        c.formatLength .rem (.ofDigits [] (utf8 "5")) = utf8 "0.006667rem" := by
  refine ⟨by decide +kernel, ⟨rfl, by decide, .point ⟨by decide, by decide +kernel⟩, rfl⟩, ?_⟩
  exact ⟨_, rfl, rfl, rfl⟩

end PixelRem
