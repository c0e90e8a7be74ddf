import Mathlib
import PixelRem.Proofs.Numerals

/-!
# The spans are the maximal pixel lengths

`StandsApart` says where a pixel length stands in a value, on bytes and without a search: a
number with the unit, and no byte of a word right before or right behind it.  Two such places
can overlap only with the same end, as `2.5px` and `5px` do in `1.2.5px`.

The spans of a value are the places that start first among those with the same end, from left
to right and without overlap (`pixelSpans_maximal`).  The order is `pairwise_pixelSpansFrom`; that
every place ends with a span, and that a span is such a place, are facts about the steps in
which a text is read (`exists_span`, `exists_of_mem_spans`).
-/

namespace PixelRem

/-- A pixel length of a given size stands from byte `start` up to byte `stop` of a value, with
no byte of a word right before or right behind it. -/
structure StandsApart (value : Text) (start stop : Nat) (size : ℚ) : Prop where
  bounds : start ≤ stop ∧ stop ≤ value.length
  length : ∃ number, (value.take stop).drop start = number ++ unitText ∧ IsNumeral number size
  before : ∀ i b, i + 1 = start → value[i]? = some b → Byte.isWord b = false
  behind : ∀ b, value[stop]? = some b → Byte.isWord b = false

/-! ## Places and cuts -/

theorem wordBehind_eq_false_iff {p : Text} (y : Text) :
    wordBehind false p = false ↔
      ∀ i b, i + 1 = p.length → (p ++ y)[i]? = some b → Byte.isWord b = false := by
  rcases p.eq_nil_or_concat with rfl | ⟨p, a, rfl⟩
  · simp
  · rw [List.concat_eq_append, wordBehind_concat]
    have hlast : (p ++ [a] ++ y)[p.length]? = some a := by simp
    constructor
    · intro ha i b hi hb
      rw [List.length_append, List.length_singleton] at hi
      obtain rfl : i = p.length := by omega
      rw [hlast] at hb
      rwa [← Option.some.inj hb]
    · intro hword
      exact hword p.length a (by simp) hlast

theorem breaks_iff {x y : Text} :
    Breaks y ↔ ∀ b, (x ++ y)[x.length]? = some b → Byte.isWord b = false := by
  have hnext : (x ++ y)[x.length]? = y.head? := by
    rw [List.getElem?_append_right (Nat.le_refl _), Nat.sub_self, List.head?_eq_getElem?]
  rw [hnext]
  rfl

/-- A place where a pixel length stands apart cuts the value into three. -/
theorem standsApart_iff {value : Text} {start stop : Nat} {size : ℚ} :
    StandsApart value start stop size ↔
      ∃ p x y magnitude, value = p ++ (x ++ y) ∧ p.length = start ∧ start + x.length = stop ∧
        wordBehind false p = false ∧ IsLength x magnitude ∧ magnitude.toRat = size ∧
        Breaks y := by
  constructor
  · rintro ⟨⟨hstart, hstop⟩, hlength, hbefore, hbehind⟩
    obtain ⟨magnitude, hx, hsize⟩ := isLength_iff.mpr hlength
    have hcut : value =
        value.take start ++ ((value.take stop).drop start ++ value.drop stop) := by
      have htake : value.take start = (value.take stop).take start := by
        rw [List.take_take, Nat.min_eq_left hstart]
      rw [← List.append_assoc, htake, List.take_append_drop, List.take_append_drop]
    have hp : (value.take start).length = start := by
      rw [List.length_take]
      omega
    have hwhole : start + ((value.take stop).drop start).length = stop := by
      rw [List.length_drop, List.length_take]
      omega
    refine ⟨_, _, _, magnitude, hcut, hp, hwhole, ?_, hx, hsize, ?_⟩
    · rw [wordBehind_eq_false_iff, ← hcut, hp]
      exact hbefore
    · have htake : (value.take stop).length = stop := by
        rw [List.length_take]
        omega
      rw [@breaks_iff (value.take stop), List.take_append_drop, htake]
      exact hbehind
  · rintro ⟨p, x, y, magnitude, rfl, rfl, rfl, hp, hx, hsize, hy⟩
    refine ⟨?_, ?_, ?_, ?_⟩
    · simp only [List.length_append]
      omega
    · apply isLength_iff.mp
      refine ⟨magnitude, ?_, hsize⟩
      rwa [← List.append_assoc, ← List.length_append, List.take_left, List.drop_left]
    · exact (wordBehind_eq_false_iff _).mp hp
    · rw [@breaks_iff (p ++ x), List.append_assoc, List.length_append] at hy
      exact hy

theorem standsApart_of_mem {value : Text} {span : PixelSpan} (hspan : span ∈ pixelSpans value) :
    StandsApart value span.start span.stop span.magnitude.toRat := by
  obtain ⟨p, x, y, rfl, hp, hx, hy, hstart, hstop⟩ := exists_of_mem_spans false value hspan
  rw [Nat.zero_add] at hstart hstop
  rw [standsApart_iff]
  exact ⟨p, x, y, span.magnitude, rfl, hstart.symm, by rw [hstart, hstop], hp, hx, rfl, hy⟩

/-- A place has one size. -/
theorem StandsApart.size_eq {value : Text} {start stop : Nat} {size size' : ℚ}
    (happart : StandsApart value start stop size) (happart' : StandsApart value start stop size') :
    size = size' := by
  obtain ⟨number, hnumber, hsize⟩ := happart.length
  obtain ⟨number', hnumber', hsize'⟩ := happart'.length
  have hsame : number = number' := List.append_cancel_right (hnumber.symm.trans hnumber')
  rw [hsame] at hsize
  exact hsize.unique hsize'

/-! ## The order of the spans -/

theorem bounds_of_mem_spans {word : Bool} {t : Text} {offset : Nat} {span : PixelSpan}
    (hspan : span ∈ pixelSpansFrom offset word 0 t) :
    offset ≤ span.start ∧ span.start < span.stop := by
  obtain ⟨p, x, y, -, -, hx, -, hstart, hstop⟩ := exists_of_mem_spans word t hspan
  have hpos : 0 < x.length := List.length_pos_iff.mpr hx.ne_nil
  omega

/-- A step over a pixel length gives one span, and the spans of the rest start behind it. -/
theorem pairwise_pixelSpansFrom (word : Bool) (t : Text) (offset : Nat) :
    (pixelSpansFrom offset word 0 t).Pairwise
      fun a b => a.start < a.stop ∧ a.stop ≤ b.start := by
  induction word, t using steps_induction generalizing offset with
  | nil word => exact List.Pairwise.nil
  | length x y magnitude hx hy ih =>
    have hpos : 0 < x.length := List.length_pos_iff.mpr hx.ne_nil
    rw [pixelSpansFrom_length hx hy, List.pairwise_cons]
    refine ⟨?_, ih _⟩
    intro span hspan
    exact ⟨Nat.lt_add_of_pos_right hpos, (bounds_of_mem_spans hspan).1⟩
  | copy word b t hb ih =>
    rw [pixelSpansFrom_copy hb]
    exact ih _

theorem eq_of_stop_eq {value : Text} {a b : PixelSpan} (ha : a ∈ pixelSpans value)
    (hb : b ∈ pixelSpans value) (hstop : a.stop = b.stop) : a = b := by
  have hnodup : ((pixelSpans value).map PixelSpan.stop).Nodup := by
    rw [List.Nodup, List.pairwise_map]
    refine (pairwise_pixelSpansFrom false value 0).imp_of_mem ?_
    intro c d hc hd horder
    have hbounds := bounds_of_mem_spans hd
    omega
  exact List.inj_on_of_nodup_map hnodup ha hb hstop

/-! ## The spans -/

/-- Where a pixel length stands apart, a span that does not start later has the same end. -/
theorem StandsApart.exists_span {value : Text} {start stop : Nat} {size : ℚ}
    (happart : StandsApart value start stop size) :
    ∃ span ∈ pixelSpans value, span.start ≤ start ∧ span.stop = stop := by
  obtain ⟨p, x, y, magnitude, hcut, rfl, rfl, hp, hx, -, hy⟩ := standsApart_iff.mp happart
  have hspan := PixelRem.exists_span false value hcut hp hx hy 0
  rwa [Nat.zero_add] at hspan

/-- The spans of a value are the places where a pixel length stands apart and none that starts
earlier has the same end, each with the number that its digits spell.  They come in order and
do not overlap, and a value has pixels if and only if it has a span, which is if a pixel length
stands apart in it at all. -/
theorem pixelSpans_maximal (value : Text) :
    (∀ start stop size,
      (∃ span ∈ pixelSpans value,
        span.start = start ∧ span.stop = stop ∧ span.magnitude.toRat = size) ↔
      StandsApart value start stop size ∧
        ∀ start' size', StandsApart value start' stop size' → start ≤ start') ∧
    (pixelSpans value).Pairwise (fun a b => a.start < a.stop ∧ a.stop ≤ b.start) ∧
    (hasPixels value = true ↔ pixelSpans value ≠ []) ∧
    (hasPixels value = true ↔ ∃ start stop size, StandsApart value start stop size) := by
  have hhas : hasPixels value = true ↔ pixelSpans value ≠ [] := by
    rw [hasPixels, hasPixelsFrom_eq false value 0, ← pixelSpans]
    simp
  refine ⟨?_, pairwise_pixelSpansFrom false value 0, hhas, ?_⟩
  · intro start stop size
    constructor
    · rintro ⟨span, hspan, rfl, rfl, rfl⟩
      refine ⟨standsApart_of_mem hspan, ?_⟩
      intro start' size' happart
      obtain ⟨span', hspan', hstart, hstop⟩ := happart.exists_span
      rwa [eq_of_stop_eq hspan' hspan hstop] at hstart
    · rintro ⟨happart, hfirst⟩
      obtain ⟨span, hspan, hstart, rfl⟩ := happart.exists_span
      have hspanApart := standsApart_of_mem hspan
      have hsame : span.start = start := Nat.le_antisymm hstart (hfirst _ _ hspanApart)
      rw [hsame] at hspanApart
      exact ⟨span, hspan, hsame, rfl, hspanApart.size_eq happart⟩
  · rw [hhas]
    constructor
    · intro hne
      obtain ⟨span, spans, hspans⟩ := List.exists_cons_of_ne_nil hne
      have hspan : span ∈ pixelSpans value := hspans ▸ List.mem_cons_self
      exact ⟨_, _, _, standsApart_of_mem hspan⟩
    · rintro ⟨start, stop, size, happart⟩
      obtain ⟨span, hspan, -⟩ := happart.exists_span
      exact List.ne_nil_of_mem hspan

example : pixelSpans (utf8 "1.2.5px 1px.5px") =
    [⟨2, 7, ⟨25, -1⟩⟩, ⟨8, 11, ⟨1, 0⟩⟩, ⟨12, 15, ⟨5, 0⟩⟩] := by
  decide

end PixelRem
