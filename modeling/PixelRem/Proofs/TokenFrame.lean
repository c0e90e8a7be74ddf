import Mathlib
import PixelRem.Proofs.Pixels
import PixelRem.Proofs.Reprint
import PixelRem.Proofs.TokenEnds

/-!
# Tokens that conversion leaves alone

Pixel lengths are looked for in the bytes of a value, while a stylesheet is read in
tokens.  A token other than a dimension in pixels can therefore be touched: a string, a
comment or a name can hold the text of a pixel length.  This module says exactly which
tokens are touched, and that a value is otherwise converted around the token.

There are three groups.

* The lexer at a pixel length.  `Token.Heads.dimension` says that a token which starts
  with a pixel length is a dimension.
* The borders of a token.  No pixel length reaches over a border between tokens, but for
  two cases: the next token starts with the point, or it is the unit behind a unicode
  range (`crosses_border`).
* The assembly.  `Stands.exists_overlap_iff` tells the touched tokens, and
  `Stands.convertValue_around` converts around the others.
-/

namespace PixelRem

open Css

/-- A dimension with the unit `px`. -/
def Css.Token.IsPixels (t : Token) : Prop :=
  t.kind = .dimension ∧ t.text.drop (numberLength t.text) = utf8 "px"

instance (t : Token) : Decidable t.IsPixels :=
  inferInstanceAs (Decidable (_ ∧ _))

/-- A pixel length starts inside the token, behind one of its bytes that is no word byte.
It can go on in the text behind the token. -/
def Css.Token.HoldsPixels (t : Token) (behind : Text) : Prop :=
  ∃ x b y, t.text = x ++ b :: y ∧ y ≠ [] ∧ Byte.isWord b = false ∧
    (pixelHead? (y ++ behind)).isSome = true

/-- A dimension that starts with a pixel length. -/
def Css.Token.ExtendsPixels (t : Token) : Prop :=
  t.kind = .dimension ∧ (pixelHead? t.text).isSome = true

/-- The token stands right behind a unicode range, and a pixel length starts in that. -/
def Css.Token.FollowsRange (t : Token) (before : List Token) (behind : Text) : Prop :=
  ∃ ts range, before = ts ++ [range] ∧ range.kind = .unicodeRange ∧
    range.HoldsPixels (t.text ++ behind)

/-- A pixel length stands in the token or reaches into it. -/
def Css.Token.Touched (t : Token) (before : List Token) (behind : Text) : Prop :=
  t.HoldsPixels behind ∨ t.ExtendsPixels ∨ t.FollowsRange before behind

/-- The span and the token have a byte in common. -/
def PixelSpan.Overlaps (span : PixelSpan) (t : Token) : Prop :=
  span.start < t.offset + t.text.length ∧ t.offset < span.stop

instance (span : PixelSpan) (t : Token) : Decidable (span.Overlaps t) :=
  inferInstanceAs (Decidable (_ ∧ _))

/-! ## The lexer at a pixel length -/

theorem scan?_digit {b : UInt8} (hb : Byte.isDigit b = true) (t : Text) :
    scan? b t = (numeric? (b :: t)).or (identLike? (b :: t)) := by
  simp only [Byte.isDigit, Bool.and_eq_true, decide_eq_true_eq, UInt8.le_iff_toNat_le] at hb
  obtain ⟨hlow, hhigh⟩ : 48 ≤ b.toNat ∧ b.toNat ≤ 57 := hb
  rw [← UInt8.ofNat_toNat (x := b)]
  interval_cases b.toNat <;> rfl

section Number

variable {digits : Text} (hdigits : IsDigits digits) {b : UInt8} (hb : Byte.isDigit b = false)

include hdigits

theorem IsDigits.signLength (t : Text) : signLength (digits ++ t) = 0 := by
  obtain ⟨d, rest, rfl⟩ := List.exists_cons_of_ne_nil hdigits.1
  exact signLength_of_isDigit (hdigits.2 d List.mem_cons_self) _

include hb

theorem IsDigits.digitRun (t : Text) : digitRun (digits ++ b :: t) = digits.length := by
  unfold Css.digitRun
  rw [(hdigits.takeWhile hb t).1]

end Number

/-- The number of a pixel length is what stands before its unit. -/
theorem IsLength.number {x : Text} {magnitude : Decimal} (hx : IsLength x magnitude) :
    ∃ number, x = number ++ unitText ∧ number ≠ [] ∧
      ∀ s, numberLength (number ++ ascii 'p' :: s) = number.length := by
  cases hx with
  | @whole digits hdigits =>
    refine ⟨digits, rfl, hdigits.1, fun s => ?_⟩
    have hwhole : digitRun (digits ++ ascii 'p' :: s) = digits.length := hdigits.digitRun rfl s
    have hfraction : fractionLength (ascii 'p' :: s) = 0 := rfl
    have hexponent : exponentLength (ascii 'p' :: s) = 0 := rfl
    have hpos : digits.length ≠ 0 := fun h => hdigits.1 (List.length_eq_zero_iff.mp h)
    unfold numberLength
    simp only [hdigits.signLength, List.drop_zero, hwhole, Nat.zero_add, List.drop_left, hfraction,
      Nat.add_zero, hexponent, if_neg hpos]
  | @fraction whole fraction hwhole hfraction =>
    refine ⟨whole ++ ascii '.' :: fraction, by simp, by simp, fun s => ?_⟩
    have hsplit : (whole ++ ascii '.' :: fraction) ++ ascii 'p' :: s =
        whole ++ ascii '.' :: (fraction ++ ascii 'p' :: s) := by simp
    have hrun : digitRun (whole ++ ascii '.' :: (fraction ++ ascii 'p' :: s)) = whole.length :=
      hwhole.digitRun rfl _
    have hlength : fractionLength (ascii '.' :: (fraction ++ ascii 'p' :: s)) =
        fraction.length + 1 := by
      rw [fractionLength, if_pos rfl, hfraction.digitRun rfl s]
      cases hsize : fraction.length with
      | zero => exact absurd (List.length_eq_zero_iff.mp hsize) hfraction.1
      | succ n => rfl
    have hdrop : (whole ++ ascii '.' :: (fraction ++ ascii 'p' :: s)).drop
        (whole.length + (fraction.length + 1)) = ascii 'p' :: s := by
      rw [← hsplit]
      exact List.drop_left' (by simp)
    have hexponent : exponentLength (ascii 'p' :: s) = 0 := rfl
    rw [hsplit]
    unfold numberLength
    simp only [hwhole.signLength, List.drop_zero, hrun, Nat.zero_add, List.drop_left, hlength,
      hdrop, hexponent]
    rw [if_neg (by omega)]
    simp

theorem numeric?_isLength {x : Text} {magnitude : Decimal} (hx : IsLength x magnitude) (y : Text) :
    numeric? (x ++ y) = some (.dimension, x.length + nameRun y) := by
  obtain ⟨number, rfl, hne, hnumber⟩ := hx.number
  have hsplit : number ++ unitText ++ y = number ++ ascii 'p' :: ascii 'x' :: y := by
    simp [unitText]
  have hident : identLength (ascii 'p' :: ascii 'x' :: y) = nameRun y + 2 := by
    rw [identLength, if_neg (by decide), plainIdentLength_cons (by decide), if_pos (by decide),
      nameRun_cons (by decide), if_pos (by decide)]
    omega
  obtain ⟨n, hn⟩ := Nat.exists_eq_succ_of_ne_zero
    (fun h => hne (List.length_eq_zero_iff.mp h) : number.length ≠ 0)
  have hdrop : (number ++ ascii 'p' :: ascii 'x' :: y).drop (n + 1) = ascii 'p' :: ascii 'x' :: y :=
    List.drop_left' hn
  rw [hsplit, numeric?, hnumber, hn]
  simp only [Nat.succ_eq_add_one, hdrop, hident, List.head?_cons, List.length_append, hn]
  rw [if_neg (by decide)]
  simp only [unitText, List.length_cons, List.length_nil, Option.some.injEq, Prod.mk.injEq,
    true_and]
  omega

/-- A token that starts with a pixel length is a dimension, and if it is no more than that
its unit is `px`. -/
theorem Css.Token.Heads.dimension {t : Token} {s x y : Text} {magnitude : Decimal}
    (hheads : t.Heads s) (hx : IsLength x magnitude) (hsplit : t.text ++ s = x ++ y) :
    t.kind = .dimension ∧ ∃ z, t.text = x ++ z ∧ y = z ++ s ∧ (z = [] → t.IsPixels) := by
  obtain ⟨b, tail, htext, hscan⟩ := hheads
  obtain ⟨d, rest, hcons, hd⟩ := hx.starts
  have hb : b = d ∧ tail ++ s = rest ++ y := by
    rw [htext, hcons, List.cons_append, List.cons_append, List.cons.injEq] at hsplit
    exact hsplit
  obtain ⟨rfl, hrest⟩ := hb
  have hfound : scan b (tail ++ s) = (.dimension, x.length + nameRun y) := by
    rw [scan, scan?_digit hd, hrest, ← List.cons_append, ← hcons, numeric?_isLength hx]
    rfl
  rw [hscan, Prod.mk.injEq] at hfound
  obtain ⟨hkind, hlength⟩ := hfound
  have hprefix : ∃ z, t.text = x ++ z ∧ y = z ++ s := by
    rcases List.append_eq_append_iff.mp hsplit with ⟨a, hxa, hs⟩ | hz
    · have ha : a = [] := by
        apply List.length_eq_zero_iff.mp
        rw [hxa, List.length_append] at hlength
        omega
      rw [ha, List.append_nil] at hxa
      exact ⟨[], by rw [hxa, List.append_nil], by rw [hs, ha]; rfl⟩
    · exact hz
  obtain ⟨z, hz, hy⟩ := hprefix
  refine ⟨hkind, z, hz, hy, fun hnil => ⟨hkind, ?_⟩⟩
  obtain ⟨number, rfl, -, hnumber⟩ := hx.number
  rw [hz, hnil, List.append_nil, unitText, hnumber, List.drop_left]
  rfl

/-! ## Borders between tokens -/

/-- The last byte before a border and the first behind it belong apart, or a unicode range
stands before the border. -/
theorem Css.Cut.border {ts : List Token} {c : UInt8} {s : Text} (hcut : Cut ts (c :: s))
    {x : Text} {b : UInt8} (htext : textOf ts = x ++ [b]) :
    Apart b c ∨ ∃ us range, ts = us ++ [range] ∧ range.kind = .unicodeRange ∧
      range.Heads (c :: s) ∧ ∃ z, range.text = z ++ [b] := by
  have hne : ts ≠ [] := by
    rintro rfl
    simp at htext
  obtain ⟨us, t, rfl⟩ := (List.eq_nil_or_concat' ts).resolve_left hne
  obtain ⟨-, hheads, -⟩ := cut_append.mp hcut
  rw [textOf_nil, List.nil_append] at hheads
  have hlast : ∃ z, t.text = z ++ [b] := by
    obtain ⟨a, tail, hcons, -⟩ := hheads
    obtain ⟨z, d, hend⟩ := (List.eq_nil_or_concat' t.text).resolve_left (by simp [hcons])
    rw [textOf_concat, hend, ← List.append_assoc] at htext
    have hb := List.singleton_inj.mp (List.append_inj' htext rfl).2
    exact ⟨z, by rw [hend, hb]⟩
  obtain ⟨z, hz⟩ := hlast
  by_cases hkind : t.kind = .unicodeRange
  · exact .inr ⟨us, t, rfl, hkind, hheads, z, hz⟩
  · exact .inl (hheads.parts hkind hz)

section Border

variable {ts : List Token} {c : UInt8} {s : Text} (hcut : Cut ts (c :: s)) {x : Text} {b : UInt8}
  (htext : textOf ts = x ++ [b])

include hcut htext

/-- A digit stands behind a border only if a closing byte stands before it. -/
theorem isCloser_of_digit (hc : Byte.isDigit c = true) : IsCloser b := by
  rcases hcut.border htext with ⟨hword, hpoint⟩ | ⟨us, range, rfl, hkind, hheads, z, hz⟩
  · refine ⟨?_, fun hb => ?_⟩
    · by_contra hb
      rw [Bool.not_eq_false] at hb
      have hother := hword hb
      rw [isWord_of_isDigit hc] at hother
      exact absurd hother (by decide)
    · rw [hpoint hb] at hc
      exact absurd hc (by decide)
  · have hhex : Byte.isHexDigit c = true := by simp [Byte.isHexDigit, hc]
    obtain ⟨-, rfl | hnext⟩ := hheads.range_last hkind hz
    · decide
    · rw [hhex] at hnext
      exact absurd hnext (by decide)

/-- The unit of a pixel length does not stand across a border, and no word byte follows it
there. -/
theorem breaks_of_unit (hb : b = ascii 'p' ∨ b = ascii 'x') : Byte.isWord c = false := by
  rcases hcut.border htext with ⟨hword, -⟩ | ⟨us, range, rfl, hkind, hheads, z, hz⟩
  · apply hword
    rcases hb with rfl | rfl <;> rfl
  · have hrange := (hheads.range_last hkind hz).1
    rcases hb with rfl | rfl <;> exact absurd hrange (by decide)

end Border

/-- The unit of a pixel length does not stand in a unicode range. -/
theorem Css.Token.Heads.not_mem_range {range : Token} {s : Text} (hheads : range.Heads s)
    (hkind : range.kind = .unicodeRange) : ascii 'p' ∉ range.text := by
  obtain ⟨u, body, hcons, hu, -, hrange⟩ := hheads.range hkind
  rw [hcons]
  intro hmem
  rcases List.mem_cons.mp hmem with rfl | hbody
  · exact absurd hu (by decide)
  · have hbyte := hrange.bytes (ascii 'p') (by rwa [List.take_left])
    exact absurd hbyte (by decide)

/-- A unicode range does not lie inside a pixel length, so one that reaches over its end
starts in it. -/
theorem holdsPixels_range {us : List Token} {range : Token} {p q rest y s : Text}
    {magnitude : Decimal} (hkind : range.kind = .unicodeRange) (hheads : range.Heads s)
    (htext : textOf us ++ range.text = p ++ q) (hp : wordBehind false p = false) (hq : q ≠ [])
    (hx : IsLength (q ++ rest) magnitude) (hy : Breaks y) :
    range.HoldsPixels (rest ++ y) := by
  obtain ⟨u, body, hcons, hu, -⟩ := hheads.range hkind
  have hletter : u ∉ q := by
    intro hmem
    rcases hx.mem (List.mem_append_left rest hmem) with hdigit | hother
    · rcases hu with rfl | rfl <;> exact absurd hdigit (by decide)
    · rcases hu with rfl | rfl <;> exact absurd hother (by decide)
  rcases List.append_eq_append_iff.mp htext with ⟨a, rfl, hrange⟩ | ⟨a, -, rfl⟩
  · have ha : a ≠ [] := by
      rintro rfl
      rw [List.nil_append] at hrange
      exact hletter (by rw [← hrange, hcons]; exact List.mem_cons_self)
    obtain ⟨z, b, rfl⟩ := (List.eq_nil_or_concat' a).resolve_left ha
    refine ⟨z, b, q, by rw [hrange]; simp, hq, ?_, ?_⟩
    · rwa [← List.append_assoc, wordBehind_concat] at hp
    · rw [← List.append_assoc, pixelHead?_isLength hx hy]
      rfl
  · exact absurd (List.mem_append_right a (by rw [hcons]; exact List.mem_cons_self)) hletter

/-- A pixel length that reaches over the border before a token: the token starts with its
point, or it starts with its unit and stands behind a unicode range. -/
theorem crosses_border {ts : List Token} {t : Token} {behind p q rest y : Text}
    {magnitude : Decimal} (hcut : Cut ts (t.text ++ behind)) (hheads : t.Heads behind)
    (htext : textOf ts = p ++ q) (hp : wordBehind false p = false) (hq : q ≠ [])
    (hx : IsLength (q ++ rest) magnitude) (hrest : rest ≠ []) (hy : Breaks y)
    (hsplit : t.text ++ behind = rest ++ y) :
    t.HoldsPixels behind ∨ t.FollowsRange ts behind := by
  obtain ⟨z, b, rfl⟩ := (List.eq_nil_or_concat' q).resolve_left hq
  obtain ⟨c, s, rfl⟩ := List.exists_cons_of_ne_nil hrest
  have hcut' : Cut ts (c :: (s ++ y)) := by rwa [hsplit] at hcut
  have hlast : textOf ts = (p ++ z) ++ [b] := by rw [htext, List.append_assoc]
  rcases hx.split (q := z) (b := b) (c := c) (s := s) (by simp) with
    ⟨hb, hc⟩ | ⟨hb, hunit⟩ | ⟨hb, rfl⟩ | ⟨hb, rfl, m, hs⟩
  · -- A digit never stands behind a digit or a point there.
    obtain ⟨hword, hpoint⟩ := isCloser_of_digit hcut' hlast hc
    rcases hb with hb | hb
    · rw [isWord_of_isDigit hb] at hword
      exact absurd hword (by decide)
    · exact absurd hb hpoint
  · -- A unit behind a digit only stands there behind a unicode range.
    obtain ⟨rfl, -⟩ := List.cons.inj hunit
    rcases hcut'.border hlast with ⟨hword, -⟩ | ⟨us, range, rfl, hkind, hrange, -⟩
    · exact absurd (hword (isWord_of_isDigit hb)) (by decide)
    · refine .inr ⟨us, range, rfl, hkind, ?_⟩
      rw [hsplit]
      rw [textOf_concat] at htext
      exact holdsPixels_range hkind hrange htext hp hq hx hy
  · exact absurd (breaks_of_unit hcut' hlast (.inl hb)) (by decide)
  · -- The token starts with the point, and the fraction behind it is a pixel length.
    obtain ⟨a, tail, hcons, -⟩ := id hheads
    rw [hcons, List.cons_append, List.cons_append, List.cons.injEq] at hsplit
    obtain ⟨rfl, htail⟩ := hsplit
    refine .inl ⟨[], ascii '.', tail, hcons, ?_, rfl, ?_⟩
    · rintro rfl
      obtain ⟨d, digits, rfl, hd⟩ := hs.starts
      have hlone : Cut [t] (d :: (digits ++ y)) := ⟨by rwa [← List.cons_append, ← htail], trivial⟩
      have htoken : textOf [t] = [] ++ [ascii '.'] := by simp [hcons]
      exact absurd rfl (isCloser_of_digit hlone htoken hd).2
    · rw [htail, pixelHead?_isLength hs hy]
      rfl

/-- A digit behind a border is not behind a word. -/
theorem wordBehind_of_digit {ts : List Token} {c : UInt8} {s : Text} (hcut : Cut ts (c :: s))
    (hc : Byte.isDigit c = true) : wordBehind false (textOf ts) = false := by
  rcases List.eq_nil_or_concat' (textOf ts) with hnil | ⟨x, b, hlast⟩
  · rw [hnil, wordBehind_nil]
  · rw [hlast, wordBehind_concat]
    exact (isCloser_of_digit hcut hlast hc).1

/-! ## The touched tokens of a value -/

/-- The token stands in the value between the tokens of two lists. -/
structure Stands (value : Text) (ts : List Token) (t : Token) (us : List Token) : Prop where
  value_eq : value = textOf ts ++ (t.text ++ textOf us)
  before : Cut ts (t.text ++ textOf us)
  heads : t.Heads (textOf us)
  offset_eq : t.offset = (textOf ts).length

theorem stands_of_tokenize {value : Text} {ts us : List Token} {t : Token}
    (htokens : tokenize value = ts ++ t :: us) : Stands value ts t us := by
  have hvalue := textOf_tokenize value
  have hcut := cut_tokenize value
  have hplace := tokenize_cut hcut
  rw [hvalue, htokens, place_append, Nat.zero_add] at hplace
  rw [htokens, textOf_append, textOf_cons] at hvalue
  rw [htokens, cut_append, textOf_cons, List.append_nil] at hcut
  obtain ⟨hbefore, hheads, -⟩ := hcut
  rw [List.append_nil] at hheads
  refine ⟨hvalue.symm, hbefore, hheads, ?_⟩
  have htoken := (List.cons.inj (List.append_inj hplace (length_place 0 ts).symm).2).1
  rw [htoken]

section Touched

variable {value : Text} {ts us : List Token} {t : Token} (hstands : Stands value ts t us)

include hstands

/-- A token that starts with a pixel length and is no dimension in pixels goes on behind
it. -/
theorem Stands.extendsPixels (hother : ¬ t.IsPixels) {x y : Text} {magnitude : Decimal}
    (hx : IsLength x magnitude) (hy : Breaks y) (hsplit : t.text ++ textOf us = x ++ y) :
    t.ExtendsPixels := by
  obtain ⟨hkind, z, hz, rfl, hpixels⟩ := hstands.heads.dimension hx hsplit
  have hne : z ≠ [] := fun h => hother (hpixels h)
  have hbreaks : Breaks z := (breaks_append hne _).mp hy
  refine ⟨hkind, ?_⟩
  rw [hz, pixelHead?_isLength hx hbreaks]
  rfl

/-- A pixel length with a byte in the token touches it. -/
theorem Stands.touched (hother : ¬ t.IsPixels) {p x y : Text} {magnitude : Decimal}
    (hsplit : value = p ++ (x ++ y)) (hp : wordBehind false p = false)
    (hx : IsLength x magnitude) (hy : Breaks y)
    (hstart : p.length < (textOf ts).length + t.text.length)
    (hstop : (textOf ts).length < p.length + x.length) : t.Touched ts (textOf us) := by
  rw [hstands.value_eq] at hsplit
  rcases List.append_eq_append_iff.mp hsplit with ⟨a, rfl, htext⟩ | ⟨a, hbefore, htext⟩
  · -- It starts in the token, at its head or behind one of its bytes.
    rcases List.eq_nil_or_concat' a with rfl | ⟨z, b, rfl⟩
    · exact .inr (.inl (hstands.extendsPixels hother hx hy htext))
    · rcases List.append_eq_append_iff.mp htext with ⟨w, hw, -⟩ | ⟨w, hw, hrest⟩
      · have hlength := congrArg List.length hw
        simp only [List.length_append] at hlength hstart
        omega
      · refine .inl ⟨z, b, w, by rw [hw]; simp, ?_, ?_, ?_⟩
        · rintro rfl
          simp [hw] at hstart
        · rwa [← List.append_assoc, wordBehind_concat] at hp
        · rw [← hrest, pixelHead?_isLength hx hy]
          rfl
  · -- It starts before the token and reaches over the border.
    rcases List.append_eq_append_iff.mp htext with ⟨w, hw, -⟩ | ⟨rest, rfl, hrest⟩
    · have hlength := congrArg List.length hw
      rw [hbefore] at hstop
      simp only [List.length_append] at hlength hstop
      omega
    · have hne : rest ≠ [] := by
        rintro rfl
        simp [hbefore] at hstop
      by_cases ha : a = []
      · subst ha
        exact .inr (.inl (hstands.extendsPixels hother hx hy hrest))
      · rcases crosses_border hstands.before hstands.heads hbefore hp ha hx hne hy hrest with
          hholds | hfollows
        · exact .inl hholds
        · exact .inr (.inr hfollows)

theorem Stands.exists_overlap {p x y : Text} {magnitude : Decimal}
    (hsplit : value = p ++ (x ++ y)) (hp : wordBehind false p = false)
    (hx : IsLength x magnitude) (hy : Breaks y)
    (hstart : p.length < (textOf ts).length + t.text.length)
    (hstop : (textOf ts).length < p.length + x.length) :
    ∃ span ∈ pixelSpans value, span.Overlaps t := by
  obtain ⟨span, hspan, hfirst, hlast⟩ := exists_span false value hsplit hp hx hy 0
  refine ⟨span, hspan, ?_, ?_⟩
  · rw [hstands.offset_eq]
    omega
  · rw [hstands.offset_eq]
    omega

theorem Stands.overlap_of_holdsPixels (hholds : t.HoldsPixels (textOf us)) :
    ∃ span ∈ pixelSpans value, span.Overlaps t := by
  obtain ⟨z, b, w, htext, hne, hb, hsome⟩ := hholds
  obtain ⟨⟨n, magnitude⟩, hhead⟩ := Option.isSome_iff_exists.mp hsome
  obtain ⟨x, y, hw, -, hx, hy⟩ := pixelHead?_eq_some_iff.mp hhead
  have hpos := List.length_pos_of_ne_nil hne
  have hvalue : value = (textOf ts ++ (z ++ [b])) ++ (x ++ y) := by
    rw [hstands.value_eq, htext, ← hw]
    simp
  refine hstands.exists_overlap hvalue ?_ hx hy ?_ ?_
  · rw [← List.append_assoc, wordBehind_concat, hb]
  · rw [htext]
    simp only [List.length_append, List.length_cons, List.length_nil]
    omega
  · simp only [List.length_append, List.length_cons, List.length_nil]
    omega

theorem Stands.overlap_of_extendsPixels (hother : ¬ t.IsPixels) (hextends : t.ExtendsPixels) :
    ∃ span ∈ pixelSpans value, span.Overlaps t := by
  obtain ⟨⟨n, magnitude⟩, hhead⟩ := Option.isSome_iff_exists.mp hextends.2
  obtain ⟨x, y, htext, -, hx, hy⟩ := pixelHead?_eq_some_iff.mp hhead
  have hsplit : t.text ++ textOf us = x ++ (y ++ textOf us) := by rw [htext, List.append_assoc]
  obtain ⟨-, z, hz, -, hpixels⟩ := hstands.heads.dimension hx hsplit
  have hzy : z = y := List.append_cancel_left (hz.symm.trans htext)
  have hne : y ≠ [] := fun h => hother (hpixels (hzy.trans h))
  have hpos := List.length_pos_of_ne_nil hx.ne_nil
  refine hstands.exists_overlap (by rw [hstands.value_eq, hsplit]) ?_ hx
    ((breaks_append hne _).mpr hy) ?_ ?_
  · obtain ⟨d, digits, hcons, hd⟩ := hx.starts
    have hcut := hstands.before
    rw [hsplit, hcons] at hcut
    exact wordBehind_of_digit hcut hd
  · rw [htext, List.length_append]
    omega
  · omega

theorem Stands.overlap_of_followsRange (hfollows : t.FollowsRange ts (textOf us)) :
    ∃ span ∈ pixelSpans value, span.Overlaps t := by
  obtain ⟨vs, range, rfl, hkind, z, b, w, htext, hne, hb, hsome⟩ := hfollows
  obtain ⟨⟨n, magnitude⟩, hhead⟩ := Option.isSome_iff_exists.mp hsome
  obtain ⟨x, y, hw, -, hx, hy⟩ := pixelHead?_eq_some_iff.mp hhead
  have hunit : ascii 'p' ∉ range.text := by
    obtain ⟨-, hheads, -⟩ := cut_append.mp hstands.before
    exact hheads.not_mem_range hkind
  have hpos := List.length_pos_of_ne_nil hne
  -- The unit is no part of the range, so the length ends behind it.
  have hover : w.length < x.length := by
    by_contra hle
    have hinside : x <+: w :=
      List.prefix_of_prefix_length_le ⟨y, hw.symm⟩ (List.prefix_append w _) (by omega)
    obtain ⟨number, rfl, -⟩ := hx.number
    have hmem : ascii 'p' ∈ w := hinside.subset (by simp [unitText])
    exact hunit (by rw [htext]; simp [hmem])
  have hvalue : value = (textOf vs ++ (z ++ [b])) ++ (x ++ y) := by
    rw [hstands.value_eq, ← hw, textOf_concat, htext]
    simp
  refine hstands.exists_overlap hvalue ?_ hx hy ?_ ?_
  · rw [← List.append_assoc, wordBehind_concat, hb]
  · simp only [textOf_concat, htext, List.length_append, List.length_cons, List.length_nil]
    omega
  · simp only [textOf_concat, htext, List.length_append, List.length_cons, List.length_nil]
    omega

/-- The tokens that a span overlaps are the touched ones. -/
theorem Stands.exists_overlap_iff (hother : ¬ t.IsPixels) :
    (∃ span ∈ pixelSpans value, span.Overlaps t) ↔ t.Touched ts (textOf us) := by
  constructor
  · rintro ⟨span, hspan, hfirst, hlast⟩
    obtain ⟨p, x, y, hsplit, hp, hx, hy, hstart, hstop⟩ := exists_of_mem_spans false value hspan
    rw [hstands.offset_eq] at hfirst hlast
    exact hstands.touched hother hsplit hp hx hy (by omega) (by omega)
  · rintro (hholds | hextends | hfollows)
    · exact hstands.overlap_of_holdsPixels hholds
    · exact hstands.overlap_of_extendsPixels hother hextends
    · exact hstands.overlap_of_followsRange hfollows

-- The length starts at `10`, behind the hyphen of the range, and ends with the name.
omit hstands in
example :
    tokenize (utf8 "u+1-10px") = [⟨.unicodeRange, utf8 "u+1-10", 0⟩, ⟨.ident, utf8 "px", 6⟩] ∧
      (pixelSpans (utf8 "u+1-10px")).map (fun span => (span.start, span.stop)) = [(4, 8)] := by
  decide +kernel

/-- No word byte follows a pixel length that ends at the token. -/
theorem Stands.breaks {p x : Text} {magnitude : Decimal} (htext : textOf ts = p ++ x)
    (hx : IsLength x magnitude) : Breaks (t.text ++ textOf us) := by
  obtain ⟨c, tail, hcons, -⟩ := hstands.heads
  obtain ⟨number, rfl, -⟩ := hx.number
  have hcut : Cut ts (c :: (tail ++ textOf us)) := by
    have hbefore := hstands.before
    rwa [hcons, List.cons_append] at hbefore
  have hlast : textOf ts = (p ++ number ++ [ascii 'p']) ++ [ascii 'x'] := by
    rw [htext]
    simp [unitText]
  rw [hcons, List.cons_append, breaks_cons]
  exact breaks_of_unit hcut hlast (.inr rfl)

section Untouched

variable (hother : ¬ t.IsPixels) (huntouched : ¬ t.Touched ts (textOf us))

include hother huntouched

/-- What starts before the token ends before it. -/
theorem Stands.pixelHead?_before {p q : Text} (htext : textOf ts = p ++ q) (hq : q ≠ [])
    (hp : wordBehind false p = false) :
    pixelHead? (q ++ (t.text ++ textOf us)) = pixelHead? q := by
  apply pixelHead?_append
  · intro b r y magnitude hx hy hrest
    have hvalue : value = p ++ ((q ++ b :: r) ++ y) := by
      rw [hstands.value_eq, htext, hrest]
      simp
    have hpos := List.length_pos_of_ne_nil hq
    refine huntouched (hstands.touched hother hvalue hp hx hy ?_ ?_)
    · rw [htext, List.length_append]
      omega
    · rw [htext, List.length_append, List.length_append, List.length_cons]
      omega
  · intro magnitude hx
    exact hstands.breaks htext hx

/-- No pixel length starts in the token. -/
theorem Stands.pixelHead?_inside {p q : Text} (htext : t.text = p ++ q) (hq : q ≠ [])
    (hp : wordBehind (wordBehind false (textOf ts)) p = false) :
    pixelHead? (q ++ textOf us) = none := by
  by_contra hsome
  obtain ⟨⟨n, magnitude⟩, hhead⟩ := Option.ne_none_iff_exists'.mp hsome
  obtain ⟨x, y, hsplit, -, hx, hy⟩ := pixelHead?_eq_some_iff.mp hhead
  have hvalue : value = (textOf ts ++ p) ++ (x ++ y) := by
    rw [hstands.value_eq, htext, ← hsplit]
    simp
  have hpos := List.length_pos_of_ne_nil hq
  have hsize := List.length_pos_of_ne_nil hx.ne_nil
  rw [← wordBehind_append] at hp
  refine huntouched (hstands.touched hother hvalue hp hx hy ?_ ?_)
  · rw [htext, List.length_append, List.length_append]
    omega
  · rw [List.length_append]
    omega

/-- A value is converted around a token that is not touched. -/
theorem Stands.convertValue_around (c : Converter) (target : Target) :
    c.convertValue target value =
      c.convertValue target (textOf ts) ++ (t.text ++ c.convertValue target (textOf us)) := by
  apply convertValue_of_converts
  rw [hstands.value_eq]
  apply (converts_convertValue c target (textOf ts)).append
  · intro p q htext hq hp
    exact hstands.pixelHead?_before hother huntouched htext hq hp
  apply Converts.copies
  · apply (converts_convertValue c target (textOf us)).of_false
    intro hword b hb
    obtain ⟨s, hbehind⟩ := List.head?_eq_some_iff.mp hb
    by_contra hdigit
    rw [Bool.not_eq_false] at hdigit
    have hcut : Cut (ts ++ [t]) (b :: s) := by
      rw [← hbehind, cut_append, textOf_cons, textOf_nil, List.append_nil]
      exact ⟨hstands.before, hstands.heads, trivial⟩
    have hapart := wordBehind_of_digit hcut hdigit
    rw [textOf_concat, wordBehind_append, hword] at hapart
    exact absurd hapart (by decide)
  · intro p q htext hq hp
    exact hstands.pixelHead?_inside hother huntouched htext hq hp

end Untouched

end Touched

/-- A token of a value that is no dimension in pixels is overlapped by a converted span
exactly if it is touched.  If not, it is copied, and the value is converted before and
behind it. -/
theorem convertValue_frame (c : Converter) (target : Target) {value : Text} {ts us : List Token}
    {t : Token} (htokens : tokenize value = ts ++ t :: us) (hother : ¬ t.IsPixels) :
    ((∃ span ∈ pixelSpans value, span.Overlaps t) ↔ t.Touched ts (textOf us)) ∧
      (¬ t.Touched ts (textOf us) →
        c.convertValue target value =
          c.convertValue target (textOf ts) ++ (t.text ++ c.convertValue target (textOf us))) := by
  have hstands := stands_of_tokenize htokens
  refine ⟨hstands.exists_overlap_iff hother, fun huntouched => ?_⟩
  exact hstands.convertValue_around hother huntouched c target

/-- A name can end like a pixel length and stand between two of them. -/
theorem convertValue_frame_name :
    ∃ c ts t us, Settings.default.toConverter = .ok c ∧
      tokenize (utf8 "10px w10px 20px") = ts ++ t :: us ∧ t.text = utf8 "w10px" ∧
      ¬ t.IsPixels ∧ ¬ t.Touched ts (textOf us) ∧
      c.convertValue .rem (utf8 "10px w10px 20px") =
        c.convertValue .rem (textOf ts) ++ (t.text ++ c.convertValue .rem (textOf us)) := by
  have htokens : tokenize (utf8 "10px w10px 20px") =
      [⟨.dimension, utf8 "10px", 0⟩, ⟨.whitespace, utf8 " ", 4⟩] ++
        ⟨.ident, utf8 "w10px", 5⟩ ::
          [⟨.whitespace, utf8 " ", 10⟩, ⟨.dimension, utf8 "20px", 11⟩] := by decide +kernel
  obtain ⟨c, hc⟩ : ∃ c, Settings.default.toConverter = .ok c := ⟨_, rfl⟩
  have hframe := convertValue_frame c .rem htokens (by decide)
  have huntouched := mt hframe.1.mpr (by decide +kernel)
  exact ⟨c, _, _, _, hc, htokens, rfl, by decide, huntouched, hframe.2 huntouched⟩

/-- A string is not copied: the pixel length in it is converted. -/
theorem string_not_copied :
    tokenize (utf8 "\"10px\"") = [⟨.string, utf8 "\"10px\"", 0⟩] ∧
      ¬ Token.IsPixels ⟨.string, utf8 "\"10px\"", 0⟩ ∧
      (∃ span ∈ pixelSpans (utf8 "\"10px\""), span.Overlaps ⟨.string, utf8 "\"10px\"", 0⟩) ∧
      Settings.default.toConverter.map (·.convertValue .rem (utf8 "\"10px\"")) =
        .ok (utf8 "\"0.133333rem\"") := by
  refine ⟨by decide +kernel, by decide, by decide +kernel, rfl⟩

end PixelRem
