import Mathlib
import PixelRem.Length.Convert

/-!
# Pixel lengths and their conversion

`IsLength` says which texts are pixel lengths, and `pixelHead?_eq_some_iff` that these
are what `pixelHead?` finds where no word byte follows.  A text is then read in steps:
a pixel length behind no word byte is one step, any other byte is one step
(`steps_induction`), and the spans and the conversion of a text follow these steps.

The main facts are about all texts:

* `exists_of_mem_spans` and `exists_span`: a span is where a pixel length stands apart, and
  each pixel length that stands apart ends with a span;
* `Converts.append`: conversion goes through a cut that no pixel length crosses;
* `free_of_converts`: what is converted to root units has no pixel length left.
-/

namespace PixelRem

/-! ## Texts of pixel lengths -/

/-- A run of digits that is not empty. -/
def IsDigits (t : Text) : Prop :=
  t ≠ [] ∧ ∀ b ∈ t, Byte.isDigit b = true

/-- The unit of a pixel length. -/
def unitText : Text :=
  [ascii 'p', ascii 'x']

/-- A pixel length with its magnitude. -/
inductive IsLength : Text → Decimal → Prop where
  | whole {digits : Text} (hdigits : IsDigits digits) :
      IsLength (digits ++ unitText) (.ofDigits digits [])
  | fraction {whole fraction : Text} (hwhole : IsDigits whole) (hfraction : IsDigits fraction) :
      IsLength (whole ++ ascii '.' :: (fraction ++ unitText)) (.ofDigits whole fraction)

/-- A text does not go on with a word byte. -/
def Breaks (t : Text) : Prop :=
  ∀ b ∈ t.head?, Byte.isWord b = false

@[simp] theorem breaks_nil : Breaks [] := by
  simp [Breaks]

@[simp] theorem breaks_cons {b : UInt8} {t : Text} : Breaks (b :: t) ↔ Byte.isWord b = false := by
  simp [Breaks]

theorem breaks_append {x : Text} (hx : x ≠ []) (y : Text) : Breaks (x ++ y) ↔ Breaks x := by
  obtain ⟨b, t, rfl⟩ := List.exists_cons_of_ne_nil hx
  rw [List.cons_append, breaks_cons, breaks_cons]

theorem Breaks.left {x y : Text} (hbreaks : Breaks (x ++ y)) : Breaks x := by
  by_cases hx : x = []
  · rw [hx]
    exact breaks_nil
  · exact (breaks_append hx y).mp hbreaks

theorem isWord_of_isDigit {b : UInt8} (hb : Byte.isDigit b = true) : Byte.isWord b = true := by
  simp [Byte.isWord, hb]

theorem pixelUnit_iff {t : Text} : pixelUnit t = true ↔ ∃ y, t = unitText ++ y ∧ Breaks y := by
  match t with
  | [] => simp [pixelUnit, unitText]
  | [a] => simp [pixelUnit, unitText]
  | a :: b :: t =>
    have hbreaks : (!(t.head?.any Byte.isWord)) = true ↔ Breaks t := by
      cases t <;> simp
    simp only [pixelUnit, Bool.and_eq_true, beq_iff_eq, hbreaks, unitText, List.cons_append,
      List.nil_append, List.cons.injEq]
    constructor
    · rintro ⟨⟨ha, hb⟩, ht⟩
      exact ⟨t, ⟨ha, hb, rfl⟩, ht⟩
    · rintro ⟨y, ⟨ha, hb, rfl⟩, hy⟩
      exact ⟨⟨ha, hb⟩, hy⟩

theorem IsDigits.takeWhile {digits : Text} (hdigits : IsDigits digits) {b : UInt8}
    (hb : Byte.isDigit b = false) (t : Text) :
    (digits ++ b :: t).takeWhile Byte.isDigit = digits ∧
      (digits ++ b :: t).dropWhile Byte.isDigit = b :: t := by
  rw [List.takeWhile_append_of_pos hdigits.2, List.dropWhile_append_of_pos hdigits.2]
  simp [hb]

theorem isDigits_takeWhile {t : Text} (hne : (t.takeWhile Byte.isDigit).isEmpty = false) :
    IsDigits (t.takeWhile Byte.isDigit) :=
  ⟨by simpa using hne, fun _ hb => List.mem_takeWhile_imp hb⟩

theorem pixelHead?_whole {digits y : Text} (hdigits : IsDigits digits) (hy : Breaks y) :
    pixelHead? (digits ++ unitText ++ y) =
      some ((digits ++ unitText).length, .ofDigits digits []) := by
  obtain ⟨htake, hdrop⟩ := hdigits.takeWhile (b := ascii 'p') rfl (ascii 'x' :: y)
  have hunit : pixelUnit (ascii 'p' :: ascii 'x' :: y) = true :=
    pixelUnit_iff.mpr ⟨y, rfl, hy⟩
  rw [List.append_assoc, unitText, List.cons_append, List.cons_append, List.nil_append,
    pixelHead?, htake, hdrop, if_neg (by simpa using hdigits.1), if_pos hunit]
  simp

theorem pixelHead?_fraction {whole fraction y : Text} (hwhole : IsDigits whole)
    (hfraction : IsDigits fraction) (hy : Breaks y) :
    pixelHead? (whole ++ ascii '.' :: (fraction ++ unitText ++ y)) =
      some ((whole ++ ascii '.' :: (fraction ++ unitText)).length, .ofDigits whole fraction) := by
  obtain ⟨htake, hdrop⟩ := hwhole.takeWhile (b := ascii '.') rfl (fraction ++ unitText ++ y)
  obtain ⟨htake', hdrop'⟩ := hfraction.takeWhile (b := ascii 'p') rfl (ascii 'x' :: y)
  have hbehind : fraction ++ unitText ++ y = fraction ++ ascii 'p' :: ascii 'x' :: y := by
    simp [unitText]
  have hunit : pixelUnit (ascii 'p' :: ascii 'x' :: y) = true :=
    pixelUnit_iff.mpr ⟨y, rfl, hy⟩
  have hpoint : ¬ pixelUnit (ascii '.' :: (fraction ++ unitText ++ y)) = true := by
    rw [pixelUnit_iff]
    rintro ⟨z, hz, -⟩
    exact absurd (List.cons.inj hz).1 (by decide)
  rw [pixelHead?, htake, hdrop, if_neg (by simpa using hwhole.1), if_neg hpoint]
  simp only [hbehind, htake', hdrop', hunit, List.isEmpty_eq_false_iff.mpr hfraction.1]
  simp [unitText]
  omega

/-- What `pixelHead?` finds is a pixel length that no word byte follows. -/
theorem pixelHead?_eq_some_iff {t : Text} {n : Nat} {magnitude : Decimal} :
    pixelHead? t = some (n, magnitude) ↔
      ∃ x y, t = x ++ y ∧ x.length = n ∧ IsLength x magnitude ∧ Breaks y := by
  constructor
  · intro hhead
    rw [pixelHead?] at hhead
    simp only at hhead
    split_ifs at hhead with hempty hunit
    · obtain ⟨y, hbehind, hy⟩ := pixelUnit_iff.mp hunit
      rw [Bool.not_eq_true] at hempty
      simp only [Option.some.injEq, Prod.mk.injEq] at hhead
      obtain ⟨rfl, rfl⟩ := hhead
      refine ⟨_, y, ?_, ?_, .whole (isDigits_takeWhile hempty), hy⟩
      · rw [List.append_assoc, ← hbehind, List.takeWhile_append_dropWhile]
      · simp [unitText]
    · split at hhead
      · simp at hhead
      rename_i point rest hbehind
      split_ifs at hhead with hfraction
      simp only [Bool.and_eq_true, decide_eq_true_eq, Bool.not_eq_eq_eq_not, Bool.not_true]
        at hfraction
      obtain ⟨⟨rfl, hsome⟩, hunit⟩ := hfraction
      obtain ⟨y, hrest, hy⟩ := pixelUnit_iff.mp hunit
      rw [Bool.not_eq_true] at hempty
      simp only [Option.some.injEq, Prod.mk.injEq] at hhead
      obtain ⟨rfl, rfl⟩ := hhead
      refine ⟨_, y, ?_, ?_, .fraction (isDigits_takeWhile hempty) (isDigits_takeWhile hsome), hy⟩
      · rw [List.append_assoc, List.cons_append, List.append_assoc, ← hrest,
          List.takeWhile_append_dropWhile, ← hbehind, List.takeWhile_append_dropWhile]
      · simp [unitText]
        omega
  · rintro ⟨x, y, rfl, rfl, hlength, hy⟩
    cases hlength with
    | whole hdigits => exact pixelHead?_whole hdigits hy
    | fraction hwhole hfraction =>
      rw [List.append_assoc, List.cons_append]
      exact pixelHead?_fraction hwhole hfraction hy

theorem pixelHead?_isLength {x y : Text} {magnitude : Decimal} (hx : IsLength x magnitude)
    (hy : Breaks y) : pixelHead? (x ++ y) = some (x.length, magnitude) :=
  pixelHead?_eq_some_iff.mpr ⟨x, y, rfl, rfl, hx, hy⟩

theorem IsLength.eq_of_append {x y x' y' : Text} {magnitude magnitude' : Decimal}
    (hx : IsLength x magnitude) (hy : Breaks y) (hx' : IsLength x' magnitude') (hy' : Breaks y')
    (heq : x ++ y = x' ++ y') : x = x' ∧ y = y' ∧ magnitude = magnitude' := by
  have hhead := pixelHead?_isLength hx hy
  rw [heq, pixelHead?_isLength hx' hy'] at hhead
  simp only [Option.some.injEq, Prod.mk.injEq] at hhead
  obtain ⟨rfl, rfl⟩ := List.append_inj heq hhead.1.symm
  exact ⟨rfl, rfl, hhead.2.symm⟩

/-- What is found at the head of a text stays the same with more text behind it, if no pixel
length reaches over the end of the text and none that is the whole text goes on. -/
theorem pixelHead?_append {q s : Text}
    (hover : ∀ b r y magnitude, IsLength (q ++ b :: r) magnitude → Breaks y → s ≠ b :: (r ++ y))
    (hbreaks : ∀ magnitude, IsLength q magnitude → Breaks s) :
    pixelHead? (q ++ s) = pixelHead? q := by
  cases hwhole : pixelHead? (q ++ s) with
  | some found =>
    obtain ⟨x, y, hsplit, hlength, hx, hy⟩ := pixelHead?_eq_some_iff.mp hwhole
    rcases List.append_eq_append_iff.mp hsplit with ⟨a, rfl, rfl⟩ | ⟨a, rfl, rfl⟩
    · cases a with
      | nil =>
        rw [List.append_nil] at hx hlength
        have hfound := pixelHead?_isLength hx breaks_nil
        rw [List.append_nil, hlength] at hfound
        exact hfound.symm
      | cons b r => exact absurd rfl (hover b r y _ hx hy)
    · rw [pixelHead?_isLength hx hy.left, hlength]
  | none =>
    cases hpart : pixelHead? q with
    | none => rfl
    | some found =>
      obtain ⟨x, y, rfl, -, hx, hy⟩ := pixelHead?_eq_some_iff.mp hpart
      have hgoes : Breaks (y ++ s) := by
        by_cases hnil : y = []
        · rw [hnil, List.nil_append]
          exact hbreaks _ (by rwa [hnil, List.append_nil])
        · exact (breaks_append hnil s).mpr hy
      rw [List.append_assoc, pixelHead?_isLength hx hgoes] at hwhole
      exact absurd hwhole (by simp)

/-! ## The byte before a place -/

/-- Whether the byte before a place is part of a word, where `t` stands before the place
and `word` says it of the byte before `t`. -/
def wordBehind (word : Bool) (t : Text) : Bool :=
  t.foldl (fun _ b => Byte.isWord b) word

@[simp] theorem wordBehind_nil (word : Bool) : wordBehind word [] = word := rfl

@[simp] theorem wordBehind_cons (word : Bool) (b : UInt8) (t : Text) :
    wordBehind word (b :: t) = wordBehind (Byte.isWord b) t := rfl

@[simp] theorem wordBehind_append (word : Bool) (t u : Text) :
    wordBehind word (t ++ u) = wordBehind (wordBehind word t) u :=
  List.foldl_append

theorem wordBehind_concat (word : Bool) (t : Text) (b : UInt8) :
    wordBehind word (t ++ [b]) = Byte.isWord b := by
  rw [wordBehind_append, wordBehind_cons, wordBehind_nil]

theorem wordBehind_of_forall {t : Text} (hne : t ≠ []) (hwords : ∀ b ∈ t, Byte.isWord b = true)
    (word : Bool) : wordBehind word t = true := by
  induction t generalizing word with
  | nil => exact absurd rfl hne
  | cons b t ih =>
    rw [wordBehind_cons, hwords b List.mem_cons_self]
    by_cases ht : t = []
    · rw [ht, wordBehind_nil]
    · exact ih ht (fun a ha => hwords a (List.mem_cons_of_mem b ha)) true

theorem IsDigits.isWord {digits : Text} (hdigits : IsDigits digits) :
    ∀ b ∈ digits, Byte.isWord b = true :=
  fun b hb => isWord_of_isDigit (hdigits.2 b hb)

theorem IsDigits.isWord_unit {digits : Text} (hdigits : IsDigits digits) :
    ∀ b ∈ digits ++ unitText, Byte.isWord b = true := by
  intro b hb
  rcases List.mem_append.mp hb with hdigit | hunit
  · exact hdigits.isWord b hdigit
  · fin_cases hunit <;> rfl

theorem wordBehind_isLength {x : Text} {magnitude : Decimal} (hx : IsLength x magnitude)
    (word : Bool) : wordBehind word x = true := by
  cases hx with
  | whole => rw [wordBehind_append]; rfl
  | fraction => rw [wordBehind_append, wordBehind_cons, wordBehind_append]; rfl

theorem IsLength.ne_nil {x : Text} {magnitude : Decimal} (hx : IsLength x magnitude) : x ≠ [] := by
  cases hx <;> simp [unitText]

theorem IsLength.starts {x : Text} {magnitude : Decimal} (hx : IsLength x magnitude) :
    ∃ b t, x = b :: t ∧ Byte.isDigit b = true := by
  cases hx with
  | @whole digits hdigits =>
    obtain ⟨b, t, rfl⟩ := List.exists_cons_of_ne_nil hdigits.1
    exact ⟨b, t ++ unitText, rfl, hdigits.2 b List.mem_cons_self⟩
  | @fraction whole fraction hwhole _ =>
    obtain ⟨b, t, rfl⟩ := List.exists_cons_of_ne_nil hwhole.1
    exact ⟨b, t ++ ascii '.' :: (fraction ++ unitText), rfl, hwhole.2 b List.mem_cons_self⟩

/-- Inside a pixel length only the place behind its point is not behind a word byte, and
the fraction with the unit stands there. -/
theorem IsLength.cut {x p q : Text} {magnitude : Decimal} (hx : IsLength x magnitude)
    (hsplit : x = p ++ q) (hp : p ≠ []) (hword : wordBehind false p = false) :
    ∃ digits, IsDigits digits ∧ q = digits ++ unitText := by
  have hother : ¬ ∀ b ∈ p, Byte.isWord b = true := fun hwords => by
    rw [wordBehind_of_forall hp hwords] at hword
    exact absurd hword (by decide)
  cases hx with
  | whole hdigits =>
    refine (hother fun b hb => ?_).elim
    exact hdigits.isWord_unit b (hsplit ▸ List.mem_append_left q hb)
  | @fraction whole fraction hwhole hfraction =>
    rcases List.append_eq_append_iff.mp hsplit with ⟨c, rfl, hpoint⟩ | ⟨c, rfl, -⟩
    · cases c with
      | nil => exact (hother (by simpa using hwhole.isWord)).elim
      | cons b c =>
        simp only [List.cons_append, List.cons.injEq] at hpoint
        obtain ⟨rfl, hrest⟩ := hpoint
        by_cases hc : c = []
        · rw [hc, List.nil_append] at hrest
          exact ⟨fraction, hfraction, hrest.symm⟩
        · have hwords : ∀ b ∈ c, Byte.isWord b = true := fun b hb =>
            hfraction.isWord_unit b (hrest ▸ List.mem_append_left q hb)
          rw [wordBehind_append, wordBehind_cons, wordBehind_of_forall hc hwords] at hword
          exact absurd hword (by decide)
    · exact (hother fun b hb => hwhole.isWord b (List.mem_append_left c hb)).elim

/-- Two bytes side by side in digits with the unit. -/
theorem IsDigits.split {digits q s : Text} {b c : UInt8} (hdigits : IsDigits digits)
    (hsplit : digits ++ unitText = q ++ b :: c :: s) :
    Byte.isDigit b = true ∧ (Byte.isDigit c = true ∨ c :: s = unitText) ∨
      b = ascii 'p' ∧ c = ascii 'x' := by
  rcases List.append_eq_append_iff.mp hsplit with ⟨a, rfl, hunit⟩ | ⟨a, rfl, hunit⟩
  · rcases a with _ | ⟨d, _ | ⟨e, a⟩⟩ <;> simp [unitText] at hunit
    exact .inr ⟨hunit.1.symm, hunit.2.1.symm⟩
  · have ha : ∀ d ∈ a, Byte.isDigit d = true := fun d hd => hdigits.2 d (List.mem_append_right q hd)
    rcases a with _ | ⟨d, _ | ⟨e, a⟩⟩
    · simp [unitText] at hunit
      exact .inr ⟨hunit.1, hunit.2.1⟩
    · simp only [List.cons_append, List.nil_append, List.cons.injEq] at hunit
      obtain ⟨rfl, hrest⟩ := hunit
      exact .inl ⟨ha b List.mem_cons_self, .inr hrest⟩
    · simp only [List.cons_append, List.cons.injEq] at hunit
      obtain ⟨rfl, rfl, -⟩ := hunit
      exact .inl ⟨ha b List.mem_cons_self, .inl (ha c (List.mem_cons_of_mem _ List.mem_cons_self))⟩

/-- Two bytes side by side in a pixel length: a digit stands behind a digit or the point,
or the second byte is the point or starts or ends the unit. -/
theorem IsLength.split {x q s : Text} {b c : UInt8} {magnitude : Decimal}
    (hx : IsLength x magnitude) (hsplit : x = q ++ b :: c :: s) :
    (Byte.isDigit b = true ∨ b = ascii '.') ∧ Byte.isDigit c = true ∨
      Byte.isDigit b = true ∧ c :: s = unitText ∨ b = ascii 'p' ∧ c = ascii 'x' ∨
      Byte.isDigit b = true ∧ c = ascii '.' ∧ ∃ magnitude', IsLength s magnitude' := by
  cases hx with
  | whole hdigits =>
    rcases hdigits.split hsplit with ⟨hb, hc | hunit⟩ | hunit
    · exact .inl ⟨.inl hb, hc⟩
    · exact .inr (.inl ⟨hb, hunit⟩)
    · exact .inr (.inr (.inl hunit))
  | @fraction whole fraction hwhole hfraction =>
    have hpoint (hrest : ascii '.' :: (fraction ++ unitText) = b :: c :: s) :
        b = ascii '.' ∧ Byte.isDigit c = true := by
      obtain ⟨d, t, rfl⟩ := List.exists_cons_of_ne_nil hfraction.1
      simp only [List.cons_append, List.cons.injEq] at hrest
      obtain ⟨rfl, rfl, -⟩ := hrest
      exact ⟨rfl, hfraction.2 _ List.mem_cons_self⟩
    rcases List.append_eq_append_iff.mp hsplit with ⟨a, rfl, hrest⟩ | ⟨a, rfl, hrest⟩
    · rcases a with _ | ⟨d, a⟩
      · obtain ⟨hb, hc⟩ := hpoint hrest
        exact .inl ⟨.inr hb, hc⟩
      · simp only [List.cons_append, List.cons.injEq] at hrest
        rcases hfraction.split hrest.2 with ⟨hb, hc | hunit⟩ | hunit
        · exact .inl ⟨.inl hb, hc⟩
        · exact .inr (.inl ⟨hb, hunit⟩)
        · exact .inr (.inr (.inl hunit))
    · have ha : ∀ d ∈ a, Byte.isDigit d = true := fun d hd =>
        hwhole.2 d (List.mem_append_right q hd)
      rcases a with _ | ⟨d, _ | ⟨e, a⟩⟩
      · obtain ⟨hb, hc⟩ := hpoint hrest.symm
        exact .inl ⟨.inr hb, hc⟩
      · simp only [List.cons_append, List.nil_append, List.cons.injEq] at hrest
        obtain ⟨rfl, rfl, rfl⟩ := hrest
        exact .inr (.inr (.inr ⟨ha b List.mem_cons_self, rfl, _, .whole hfraction⟩))
      · simp only [List.cons_append, List.cons.injEq] at hrest
        obtain ⟨rfl, rfl, -⟩ := hrest
        have hb := ha b List.mem_cons_self
        exact .inl ⟨.inl hb, ha c (List.mem_cons_of_mem _ List.mem_cons_self)⟩

/-- The bytes of a pixel length. -/
theorem IsLength.mem {x : Text} {magnitude : Decimal} (hx : IsLength x magnitude) {b : UInt8}
    (hb : b ∈ x) : Byte.isDigit b = true ∨ b ∈ [ascii '.', ascii 'p', ascii 'x'] := by
  cases hx with
  | whole hdigits =>
    rcases List.mem_append.mp hb with hdigit | hunit
    · exact .inl (hdigits.2 b hdigit)
    · exact .inr (List.mem_cons_of_mem _ hunit)
  | fraction hwhole hfraction =>
    rcases List.mem_append.mp hb with hdigit | hrest
    · exact .inl (hwhole.2 b hdigit)
    rcases List.mem_cons.mp hrest with rfl | hrest
    · exact .inr List.mem_cons_self
    rcases List.mem_append.mp hrest with hdigit | hunit
    · exact .inl (hfraction.2 b hdigit)
    · exact .inr (List.mem_cons_of_mem _ hunit)

/-! ## Reading a text in steps -/

/-- A text is read in steps: a pixel length that does not stand behind a word byte is one,
and where none starts a byte is one. -/
theorem steps_induction {P : Bool → Text → Prop} (nil : ∀ word, P word [])
    (length : ∀ x y magnitude, IsLength x magnitude → Breaks y → P true y → P false (x ++ y))
    (copy : ∀ word b t, (word = false → pixelHead? (b :: t) = none) → P (Byte.isWord b) t →
      P word (b :: t)) (word : Bool) (t : Text) : P word t := by
  induction hlength : t.length using Nat.strong_induction_on generalizing word t with
  | _ n ih =>
    subst hlength
    cases t with
    | nil => exact nil word
    | cons b t =>
      have hcopy := copy word b t
      cases hhead : pixelHead? (b :: t) with
      | none => exact hcopy (fun _ => hhead) (ih t.length (by simp) _ t rfl)
      | some found =>
        obtain ⟨n, magnitude⟩ := found
        cases word with
        | true => exact hcopy (by simp) (ih t.length (by simp) _ t rfl)
        | false =>
          obtain ⟨x, y, hsplit, -, hx, hy⟩ := pixelHead?_eq_some_iff.mp hhead
          rw [hsplit]
          have hpos : 0 < x.length := List.length_pos_iff.mpr hx.ne_nil
          exact length x y magnitude hx hy (ih y.length (by rw [hsplit]; simp; omega) _ y rfl)

theorem pixelSpansFrom_skip (offset : Nat) (word : Bool) (x y : Text) :
    pixelSpansFrom offset word x.length (x ++ y) =
      pixelSpansFrom (offset + x.length) (wordBehind word x) 0 y := by
  induction x generalizing offset word with
  | nil => rfl
  | cons b x ih =>
    rw [List.cons_append, List.length_cons, pixelSpansFrom, ih, wordBehind_cons]
    congr 1
    omega

theorem pixelSpansFrom_copy {word : Bool} {b : UInt8} {t : Text}
    (hb : word = false → pixelHead? (b :: t) = none) (offset : Nat) :
    pixelSpansFrom offset word 0 (b :: t) = pixelSpansFrom (offset + 1) (Byte.isWord b) 0 t := by
  have hnone : (if word then none else pixelHead? (b :: t)) = none := by
    cases word with
    | false => exact hb rfl
    | true => rfl
  rw [pixelSpansFrom, hnone]

theorem pixelSpansFrom_length {x y : Text} {magnitude : Decimal} (hx : IsLength x magnitude)
    (hy : Breaks y) (offset : Nat) :
    pixelSpansFrom offset false 0 (x ++ y) =
      ⟨offset, offset + x.length, magnitude⟩ :: pixelSpansFrom (offset + x.length) true 0 y := by
  have hhead := pixelHead?_isLength hx hy
  have hword := wordBehind_isLength hx false
  obtain ⟨b, t, rfl⟩ := List.exists_cons_of_ne_nil hx.ne_nil
  rw [List.cons_append] at hhead ⊢
  rw [pixelSpansFrom, if_neg (by simp), hhead]
  simp only [List.length_cons, Nat.add_sub_cancel]
  rw [pixelSpansFrom_skip, ← wordBehind_cons false, hword, show offset + 1 + t.length =
    offset + (t.length + 1) by omega]

/-! ## Where the spans are -/

/-- A pixel length alone is one span. -/
theorem pixelSpans_isLength {x : Text} {magnitude : Decimal} (hx : IsLength x magnitude) :
    pixelSpans x = [⟨0, x.length, magnitude⟩] := by
  have hspans := pixelSpansFrom_length hx breaks_nil 0
  rw [List.append_nil, Nat.zero_add] at hspans
  exact hspans

/-- A span is a pixel length that neither stands behind a word byte nor goes on with one. -/
theorem exists_of_mem_spans (word : Bool) (t : Text) {offset : Nat} {span : PixelSpan}
    (hspan : span ∈ pixelSpansFrom offset word 0 t) :
    ∃ p x y, t = p ++ (x ++ y) ∧ wordBehind word p = false ∧ IsLength x span.magnitude ∧
      Breaks y ∧ span.start = offset + p.length ∧ span.stop = offset + p.length + x.length := by
  induction word, t using steps_induction generalizing offset with
  | nil word => simp [pixelSpansFrom] at hspan
  | length x y magnitude hx hy ih =>
    rw [pixelSpansFrom_length hx hy, List.mem_cons] at hspan
    rcases hspan with rfl | hspan
    · exact ⟨[], x, y, rfl, rfl, hx, hy, rfl, rfl⟩
    · obtain ⟨p, z, w, rfl, hp, hz, hw, hstart, hstop⟩ := ih hspan
      refine ⟨x ++ p, z, w, by simp, ?_, hz, hw, ?_, ?_⟩
      · rw [wordBehind_append, wordBehind_isLength hx, hp]
      · rw [hstart, List.length_append]
        omega
      · rw [hstop, List.length_append]
        omega
  | copy word b t hb ih =>
    rw [pixelSpansFrom_copy hb] at hspan
    obtain ⟨p, x, y, rfl, hp, hx, hy, hstart, hstop⟩ := ih hspan
    refine ⟨b :: p, x, y, rfl, hp, hx, hy, ?_, ?_⟩
    · rw [hstart, List.length_cons]
      omega
    · rw [hstop, List.length_cons]
      omega

/-- A pixel length that neither stands behind a word byte nor goes on with one is the end
of a span. -/
theorem exists_span (word : Bool) (t : Text) {p x y : Text} {magnitude : Decimal}
    (hsplit : t = p ++ (x ++ y)) (hp : wordBehind word p = false) (hx : IsLength x magnitude)
    (hy : Breaks y) (offset : Nat) :
    ∃ span ∈ pixelSpansFrom offset word 0 t,
      span.start ≤ offset + p.length ∧ span.stop = offset + p.length + x.length := by
  induction word, t using steps_induction generalizing offset p with
  | nil word =>
    have hnil := (List.nil_eq_append_iff.mp hsplit).2
    exact absurd (List.append_eq_nil_iff.mp hnil).1 hx.ne_nil
  | length z w magnitude' hz hw ih =>
    rw [pixelSpansFrom_length hz hw]
    rcases List.append_eq_append_iff.mp hsplit with ⟨c, rfl, rfl⟩ | ⟨c, rfl, hrest⟩
    · -- The place is behind the first length, so it is one of the rest.
      rw [wordBehind_append, wordBehind_isLength hz] at hp
      obtain ⟨span, hspan, hstart, hstop⟩ := ih rfl hp (offset + z.length)
      refine ⟨span, List.mem_cons_of_mem _ hspan, ?_, ?_⟩
      · rw [List.length_append]
        omega
      · rw [hstop, List.length_append]
        omega
    · -- The place is inside the first length, at its start or behind its point.
      refine ⟨_, List.mem_cons_self, by simp, ?_⟩
      have hlength : ∃ magnitude, IsLength c magnitude := by
        by_cases hnil : p = []
        · exact ⟨magnitude', by simpa [hnil] using hz⟩
        · obtain ⟨digits, hdigits, rfl⟩ := hz.cut rfl hnil hp
          exact ⟨_, .whole hdigits⟩
      obtain ⟨inner, hc⟩ := hlength
      obtain ⟨rfl, -, -⟩ := hx.eq_of_append hy hc hw hrest
      simp only [List.length_append]
      omega
  | copy word b t hb ih =>
    rw [pixelSpansFrom_copy hb]
    cases p with
    | nil =>
      rw [List.nil_append] at hsplit
      have hnone := hb hp
      rw [hsplit, pixelHead?_isLength hx hy] at hnone
      simp at hnone
    | cons a p =>
      rw [List.cons_append, List.cons.injEq] at hsplit
      obtain ⟨rfl, rfl⟩ := hsplit
      obtain ⟨span, hspan, hstart, hstop⟩ := ih rfl hp (offset + 1)
      refine ⟨span, hspan, ?_, ?_⟩
      · rw [List.length_cons]
        omega
      · rw [hstop, List.length_cons]
        omega

/-- The text has no word that is digits with the unit, where `word` says whether a word
byte stands before it. -/
def Free (word : Bool) (t : Text) : Prop :=
  ∀ p digits y, t = p ++ (digits ++ unitText ++ y) → IsDigits digits → Breaks y →
    wordBehind word p = true

theorem free_of_spans_eq_nil {word : Bool} {t : Text} {offset : Nat}
    (hspans : pixelSpansFrom offset word 0 t = []) : Free word t := by
  intro p digits y hsplit hdigits hy
  by_contra hp
  rw [Bool.not_eq_true] at hp
  obtain ⟨span, hspan, -⟩ := exists_span word t hsplit hp (.whole hdigits) hy offset
  rw [hspans] at hspan
  exact absurd hspan List.not_mem_nil

theorem spans_eq_nil_of_free {word : Bool} {t : Text} (hfree : Free word t) (offset : Nat) :
    pixelSpansFrom offset word 0 t = [] := by
  rw [List.eq_nil_iff_forall_not_mem]
  intro span hspan
  obtain ⟨p, x, y, rfl, hp, hx, hy, -⟩ := exists_of_mem_spans word t hspan
  generalize span.magnitude = magnitude at hx
  cases hx with
  | @whole digits hdigits =>
    have hword := hfree p digits y rfl hdigits hy
    rw [hp] at hword
    exact absurd hword (by decide)
  | @fraction whole fraction hwhole hfraction =>
    -- The digits behind the point are a word of their own.
    have hword := hfree (p ++ whole ++ [ascii '.']) fraction y (by simp) hfraction hy
    rw [wordBehind_concat] at hword
    exact absurd hword (by decide)

/-- The search for a first pixel length ends where there is a first span. -/
theorem hasPixelsFrom_eq (word : Bool) (t : Text) (offset : Nat) :
    hasPixelsFrom word t = !(pixelSpansFrom offset word 0 t).isEmpty := by
  induction word, t using steps_induction generalizing offset with
  | nil word => rfl
  | length x y magnitude hx hy _ =>
    have hhead := pixelHead?_isLength hx hy
    rw [pixelSpansFrom_length hx hy]
    obtain ⟨b, t, rfl⟩ := List.exists_cons_of_ne_nil hx.ne_nil
    rw [List.cons_append] at hhead ⊢
    rw [hasPixelsFrom, hhead]
    rfl
  | copy word b t hb ih =>
    have hnone : (!word && (pixelHead? (b :: t)).isSome) = false := by
      cases word with
      | false => rw [hb rfl]; rfl
      | true => rfl
    rw [pixelSpansFrom_copy hb, hasPixelsFrom, hnone, Bool.false_or, ih]

theorem hasPixels_eq_false_iff {value : Text} : hasPixels value = false ↔ Free false value := by
  rw [hasPixels, hasPixelsFrom_eq false value 0, Bool.not_eq_false', List.isEmpty_iff]
  exact ⟨free_of_spans_eq_nil, fun hfree => spans_eq_nil_of_free hfree 0⟩

/-! ## Conversion -/

/-- The steps of a conversion.  `word` says whether a word byte stands before the text. -/
inductive Converts (c : Converter) (target : Target) : Bool → Text → Text → Prop where
  | nil (word : Bool) : Converts c target word [] []
  | length {x y out : Text} {magnitude : Decimal} (hx : IsLength x magnitude) (hy : Breaks y)
      (tail : Converts c target true y out) :
      Converts c target false (x ++ y) (c.formatLength target magnitude ++ out)
  | copy {word : Bool} {b : UInt8} {t out : Text}
      (hb : word = false → pixelHead? (b :: t) = none)
      (tail : Converts c target (Byte.isWord b) t out) : Converts c target word (b :: t) (b :: out)

section Conversion

variable {c : Converter} {target : Target} {word : Bool} {t out x xout : Text}

theorem exists_converts (c : Converter) (target : Target) (word : Bool) (t : Text) :
    ∃ out, Converts c target word t out := by
  induction word, t using steps_induction with
  | nil word => exact ⟨[], .nil word⟩
  | length x y magnitude hx hy ih =>
    obtain ⟨out, hout⟩ := ih
    exact ⟨_, .length hx hy hout⟩
  | copy word b t hb ih =>
    obtain ⟨out, hout⟩ := ih
    exact ⟨_, .copy hb hout⟩

/-- Replacing the spans of a text from a place on gives what stands before the first and
then the conversion. -/
theorem replaceSpans_of_converts (hout : Converts c target word t out) {value : Text}
    {start offset : Nat} (hstart : start ≤ offset) (hdrop : value.drop offset = t) :
    c.replaceSpans target value start (pixelSpansFrom offset word 0 t) =
      (value.drop start).take (offset - start) ++ out := by
  induction hout generalizing start offset with
  | nil word =>
    have hlength : (value.drop start).length ≤ offset - start := by
      rw [List.drop_eq_nil_iff] at hdrop
      rw [List.length_drop]
      omega
    rw [pixelSpansFrom, Converter.replaceSpans, List.take_of_length_le hlength, List.append_nil]
  | @length x y out magnitude hx hy _ ih =>
    have hrest : value.drop (offset + x.length) = y := by
      rw [← List.drop_drop, hdrop, List.drop_left]
    rw [pixelSpansFrom_length hx hy, Converter.replaceSpans, ih le_rfl hrest]
    simp
  | @copy word b t out hb _ ih =>
    have hrest : value.drop (offset + 1) = t := by
      rw [← List.drop_drop, hdrop, List.drop_one, List.tail_cons]
    have hnext : (value.drop start).take (offset + 1 - start) =
        (value.drop start).take (offset - start) ++ [b] := by
      rw [show offset + 1 - start = offset - start + 1 by omega, List.take_add, List.drop_drop,
        show start + (offset - start) = offset by omega, hdrop]
      rfl
    rw [pixelSpansFrom_copy hb, ih (Nat.le_succ_of_le hstart) hrest, hnext, List.append_assoc,
      List.singleton_append]

theorem convertValue_of_converts (hout : Converts c target false t out) :
    c.convertValue target t = out := by
  rw [Converter.convertValue, pixelSpans, replaceSpans_of_converts hout le_rfl rfl]
  simp

theorem converts_convertValue (c : Converter) (target : Target) (value : Text) :
    Converts c target false value (c.convertValue target value) := by
  obtain ⟨out, hout⟩ := exists_converts c target false value
  rwa [convertValue_of_converts hout]

/-- A word that starts the conversion behind a word byte also starts the source. -/
theorem Converts.run {run y : Text} (hout : Converts c target true t (run ++ y))
    (hrun : ∀ b ∈ run, Byte.isWord b = true) (hy : Breaks y) :
    ∃ z, t = run ++ z ∧ Breaks z := by
  induction run generalizing t with
  | nil =>
    refine ⟨t, rfl, ?_⟩
    rw [List.nil_append] at hout
    cases hout with
    | nil => exact breaks_nil
    | copy => exact breaks_cons.mpr (breaks_cons.mp hy)
  | cons a run ih =>
    rw [List.cons_append] at hout
    cases hout with
    | copy hb tail =>
      rw [hrun a List.mem_cons_self] at tail
      obtain ⟨z, rfl, hz⟩ := ih tail fun b hb => hrun b (List.mem_cons_of_mem a hb)
      exact ⟨z, rfl, hz⟩

theorem Converts.breaks (hout : Converts c target true t out) (ht : Breaks t) : Breaks out := by
  cases hout with
  | nil => exact breaks_nil
  | copy => exact breaks_cons.mpr (breaks_cons.mp ht)

/-- The byte before a text counts only for a digit at its start. -/
theorem Converts.of_false (hout : Converts c target false t out)
    (hdigit : word = true → ∀ b ∈ t.head?, Byte.isDigit b = false) :
    Converts c target word t out := by
  cases word with
  | false => exact hout
  | true =>
    cases hout with
    | nil => exact .nil true
    | @length x y out magnitude hx hy tail =>
      obtain ⟨b, z, rfl, hb⟩ := hx.starts
      rw [hdigit rfl b rfl] at hb
      exact absurd hb (by decide)
    | copy hb tail => exact .copy (by simp) tail

/-- A text in which no pixel length starts is copied. -/
theorem Converts.copies (hout : Converts c target (wordBehind word x) t out)
    (hnone : ∀ p q, x = p ++ q → q ≠ [] → wordBehind word p = false → pixelHead? (q ++ t) = none) :
    Converts c target word (x ++ t) (x ++ out) := by
  induction x generalizing word with
  | nil => exact hout
  | cons b x ih =>
    refine .copy (fun hword => ?_) (ih hout fun p q hsplit hq hp => ?_)
    · exact hnone [] (b :: x) rfl (by simp) hword
    · exact hnone (b :: p) q (by rw [hsplit]; rfl) hq hp

/-- Conversion goes through a place that does not change what starts before it. -/
theorem Converts.append (hx : Converts c target word x xout)
    (hcut : ∀ p q, x = p ++ q → q ≠ [] → wordBehind word p = false →
      pixelHead? (q ++ t) = pixelHead? q)
    (hout : Converts c target (wordBehind word x) t out) :
    Converts c target word (x ++ t) (xout ++ out) := by
  induction hx with
  | nil word => exact hout
  | @length x y yout magnitude hx hy _ ih =>
    have hhead := hcut [] (x ++ y) rfl (by simp [hx.ne_nil]) rfl
    rw [pixelHead?_isLength hx hy, pixelHead?_eq_some_iff] at hhead
    obtain ⟨z, rest, hsplit, hlength, -, hrest⟩ := hhead
    rw [List.append_assoc] at hsplit
    obtain ⟨rfl, rfl⟩ := List.append_inj hsplit hlength.symm
    rw [List.append_assoc, List.append_assoc]
    refine .length hx hrest (ih (fun p q hsplit hq hp => ?_) ?_)
    · refine hcut (x ++ p) q (by rw [hsplit, List.append_assoc]) hq ?_
      rw [wordBehind_append, wordBehind_isLength hx, hp]
    · rwa [wordBehind_append, wordBehind_isLength hx] at hout
  | @copy word b x xout hb _ ih =>
    refine .copy (fun hword => ?_) (ih (fun p q hsplit hq hp => ?_) hout)
    · have hhead := hcut [] (b :: x) rfl (by simp) hword
      rwa [hb hword] at hhead
    · exact hcut (b :: p) q (by rw [hsplit]; rfl) hq hp

end Conversion

/-! ## No pixel length is left -/

theorem isDigit_ascii {ch : Char} (hch : ch.isDigit = true) : Byte.isDigit (ascii ch) = true := by
  simp only [Char.isDigit, Bool.and_eq_true, decide_eq_true_eq, ge_iff_le, UInt32.le_iff_toNat_le]
    at hch
  obtain ⟨hlow, hhigh⟩ := hch
  have hnat : (ascii ch).toNat = ch.val.toNat := by
    show ch.val.toNat % 256 = ch.val.toNat
    exact Nat.mod_eq_of_lt (lt_of_le_of_lt hhigh (by decide))
  simp only [Byte.isDigit, Bool.and_eq_true, decide_eq_true_eq, UInt8.le_iff_toNat_le, hnat]
  exact ⟨hlow, hhigh⟩

theorem isDigit_ofNat (n : Nat) : ∀ b ∈ Text.ofNat n, Byte.isDigit b = true := by
  intro b hb
  obtain ⟨ch, hch, rfl⟩ := List.mem_map.mp hb
  exact isDigit_ascii (Nat.isDigit_of_mem_toDigits (by decide) (by decide) hch)

theorem mem_dropEndZeros {digits : Text} {b : UInt8} (hb : b ∈ Decimal.dropEndZeros digits) :
    b ∈ digits := by
  rw [Decimal.dropEndZeros, List.mem_reverse] at hb
  exact List.mem_reverse.mp ((List.dropWhile_sublist _).mem hb)

theorem mem_placePoint {n places : Nat} {b : UInt8} (hb : b ∈ Decimal.placePoint n places) :
    b = ascii '.' ∨ Byte.isDigit b = true := by
  have hdigits : ∀ a ∈ List.replicate (places + 1 - (Text.ofNat n).length) (ascii '0') ++
      Text.ofNat n, Byte.isDigit a = true := by
    intro a ha
    rcases List.mem_append.mp ha with hzero | hdigit
    · rw [List.eq_of_mem_replicate hzero]
      rfl
    · exact isDigit_ofNat n a hdigit
  rw [Decimal.placePoint] at hb
  split at hb
  · exact .inr (hdigits b (List.mem_of_mem_take hb))
  · rcases List.mem_append.mp hb with hwhole | hrest
    · exact .inr (hdigits b (List.mem_of_mem_take hwhole))
    · rcases List.mem_cons.mp hrest with rfl | hfraction
      · exact .inl rfl
      · exact .inr (hdigits b (List.mem_of_mem_drop (mem_dropEndZeros hfraction)))

theorem not_mem_toText (d : Decimal) : ascii 'p' ∉ d.toText := by
  intro hmem
  rcases List.mem_append.mp hmem with hsign | hdigits
  · split_ifs at hsign
    · exact absurd (List.mem_singleton.mp hsign) (by decide)
    · exact absurd hsign List.not_mem_nil
  · rcases mem_placePoint hdigits with hpoint | hdigit
    · exact absurd hpoint (by decide)
    · exact absurd hdigit (by decide)

/-- The text of a length in root units has no `p`. -/
theorem not_mem_formatLength_rem (c : Converter) (magnitude : Decimal) :
    ascii 'p' ∉ c.formatLength .rem magnitude := by
  rw [Converter.formatLength]
  split_ifs
  · decide
  · rw [List.mem_append, not_or]
    exact ⟨not_mem_toText _, by decide⟩

/-- A pixel length does not reach from a text without `p` into one that a word breaks off
before. -/
theorem Free.append {x y : Text} (hx : ascii 'p' ∉ x) (hbreaks : Breaks y) (hy : Free true y)
    (word : Bool) : Free word (x ++ y) := by
  intro p digits z hsplit hdigits hz
  rcases List.append_eq_append_iff.mp hsplit with ⟨c, rfl, rfl⟩ | ⟨c, rfl, hrest⟩
  · -- The word stands in `y`, and not at its start.
    cases c with
    | nil =>
      obtain ⟨b, digits, rfl⟩ := List.exists_cons_of_ne_nil hdigits.1
      rw [List.nil_append, List.cons_append, List.cons_append, breaks_cons] at hbreaks
      rw [hdigits.isWord b List.mem_cons_self] at hbreaks
      exact absurd hbreaks (by decide)
    | cons b c =>
      have hword := hy (b :: c) digits z rfl hdigits hz
      rw [wordBehind_append]
      exact hword
  · -- The word starts in `x`, so all of it stands there, with the `p` of its unit.
    have hunit : ascii 'p' ∈ digits ++ unitText := by
      simp [unitText]
    rcases List.append_eq_append_iff.mp hrest with ⟨d, rfl, -⟩ | ⟨d, hword, rfl⟩
    · exact absurd (List.mem_append_right p (List.mem_append_left d hunit)) hx
    · cases d with
      | nil =>
        rw [List.append_nil] at hword
        rw [hword] at hunit
        exact absurd (List.mem_append_right p hunit) hx
      | cons b d =>
        rw [List.cons_append, breaks_cons] at hbreaks
        have hb := hdigits.isWord_unit b (hword ▸ List.mem_append_right c List.mem_cons_self)
        rw [hbreaks] at hb
        exact absurd hb (by decide)

theorem free_of_converts {c : Converter} {word : Bool} {t out : Text}
    (hout : Converts c .rem word t out) : Free word out := by
  induction hout with
  | nil word =>
    intro p digits y hsplit hdigits
    have hnil := (List.nil_eq_append_iff.mp hsplit).2
    exact absurd hnil (by simp [hdigits.1])
  | length hx hy tail ih =>
    exact Free.append (not_mem_formatLength_rem c _) (tail.breaks hy) ih false
  | @copy word b t out hb tail ih =>
    intro p digits y hsplit hdigits hy
    cases p with
    | nil =>
      -- The word starts the copied text, so it also starts the source.
      by_contra hword
      rw [wordBehind_nil, Bool.not_eq_true] at hword
      obtain ⟨a, digits, rfl⟩ := List.exists_cons_of_ne_nil hdigits.1
      simp only [List.nil_append, List.cons_append, List.cons.injEq] at hsplit
      obtain ⟨rfl, rfl⟩ := hsplit
      rw [hdigits.isWord b List.mem_cons_self] at tail
      have hrun : ∀ a ∈ digits ++ unitText, Byte.isWord a = true := fun a ha =>
        hdigits.isWord_unit a (List.mem_cons_of_mem b ha)
      obtain ⟨z, rfl, hz⟩ := tail.run hrun hy
      have hnone := hb hword
      rw [← List.cons_append, ← List.cons_append, pixelHead?_whole hdigits hz] at hnone
      simp at hnone
    | cons a p =>
      simp only [List.cons_append, List.cons.injEq] at hsplit
      obtain ⟨rfl, hrest⟩ := hsplit
      exact ih p digits y hrest hdigits hy

theorem hasPixels_convertValue_rem (c : Converter) (value : Text) :
    hasPixels (c.convertValue .rem value) = false :=
  hasPixels_eq_false_iff.mpr (free_of_converts (converts_convertValue c .rem value))

end PixelRem
