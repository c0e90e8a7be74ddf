import Mathlib
import PixelRem.Proofs.Lexer

/-!
# How far the lexer looks

A number or a name is fixed by the text up to the next stop: white space, a colon, a
semicolon, a comma or a brace.  What stands behind the stop makes no difference.  Which stop
it is makes one for escapes alone: they take white space with them, and a backslash before a
line end escapes nothing.

* `Local` says this of a rule that knows no escapes.
* `escapeBody_append` says when an escape is the same before two texts.
* `nameRun_swap` and `identLength_swap` say so of runs of name bytes and of identifiers, and
  `nameRun_zero_swap` and `identLength_zero_swap` of places where none starts.
-/

namespace PixelRem.Css

/-! ## Stops -/

/-- White space and the bytes `:`, `;`, `,` and the braces. -/
def stops : List UInt8 :=
  [0x20, 0x09, 0x0A, 0x0D, 0x0C, 0x3A, 0x3B, 0x2C, 0x7B, 0x7D]

/-- The text is empty or starts with a stop. -/
def Ends (s : Text) : Prop :=
  ∀ b ∈ s.head?, b ∈ stops

@[simp] theorem ends_nil : Ends [] := by
  simp [Ends]

@[simp] theorem ends_cons {b : UInt8} {s : Text} : Ends (b :: s) ↔ b ∈ stops := by
  simp [Ends]

theorem stops_any (p : UInt8 → Bool) (hp : stops.any p = false) {b : UInt8} (hb : b ∈ stops) :
    p b = false := by
  simpa using List.any_eq_false.mp hp b hb

theorem ne_of_mem_stops {b c : UInt8} (hb : b ∈ stops) (hc : c ∉ stops) : b ≠ c := by
  rintro rfl
  exact hc hb

/-- A rule that reads a text the same way whatever stands behind a stop. -/
def Local {α : Type} (rule : Text → α) : Prop :=
  ∀ x s, Ends s → rule (x ++ s) = rule x

theorem takeWhile_ends {p : UInt8 → Bool} (hp : stops.any p = false) {s : Text}
    (hs : Ends s) : s.takeWhile p = [] := by
  cases s with
  | nil => rfl
  | cons b s => rw [List.takeWhile_cons, stops_any p hp (ends_cons.mp hs)]; rfl

theorem takeWhile_local {p : UInt8 → Bool} (hp : stops.any p = false) :
    Local (List.takeWhile p) := by
  intro x s hs
  induction x with
  | nil => exact takeWhile_ends hp hs
  | cons b x ih => rw [List.cons_append, List.takeWhile_cons, List.takeWhile_cons, ih]

/-- A byte that is no stop heads a text with a stop behind it only if it heads the
text. -/
theorem head?_append_ends {c : UInt8} (hc : c ∉ stops) {s : Text} (hs : Ends s) (x : Text) :
    (x ++ s).head? = some c ↔ x.head? = some c := by
  cases x with
  | nil =>
    rw [List.nil_append, List.head?_nil]
    refine ⟨fun hhead => absurd (hs c hhead) hc, fun hnone => by simp at hnone⟩
  | cons b x => rfl

theorem isPrefixOf_append_ends {mark : Text} (hmark : mark.any (stops.contains ·) = false)
    {s : Text} (hs : Ends s) (x : Text) : mark.isPrefixOf (x ++ s) = mark.isPrefixOf x := by
  induction mark generalizing x with
  | nil => simp
  | cons c mark ih =>
    rw [List.any_cons, Bool.or_eq_false_iff] at hmark
    cases x with
    | nil =>
      cases s with
      | nil => rfl
      | cons b s =>
        have hc : c ∉ stops := by simpa using hmark.1
        have hne : c ≠ b := (ne_of_mem_stops (ends_cons.mp hs) hc).symm
        simp [List.isPrefixOf, hne]
    | cons b x => rw [List.cons_append, List.isPrefixOf, List.isPrefixOf, ih hmark.2]

/-! ## Numbers -/

theorem digitRun_local : Local digitRun := by
  intro x s hs
  rw [digitRun, digitRun, takeWhile_local rfl x s hs]

theorem fractionLength_local : Local fractionLength := by
  intro x s hs
  match x, s with
  | x, [] => rw [List.append_nil]
  | [], c :: s => exact if_neg (ne_of_mem_stops (ends_cons.mp hs) (by decide))
  | b :: x, c :: s =>
    rw [List.cons_append, fractionLength, fractionLength, digitRun_local x _ hs]

theorem signLength_local : Local signLength := by
  intro x s hs
  match x, s with
  | x, [] => rw [List.append_nil]
  | [], c :: s =>
    have hsign := stops_any (fun c => decide (c = ascii '+') || decide (c = ascii '-')) rfl
      (ends_cons.mp hs)
    rw [List.nil_append, signLength, hsign]
    rfl
  | b :: x, c :: s => rfl

theorem exponentLength_local : Local exponentLength := by
  intro x s hs
  match x, s with
  | x, [] => rw [List.append_nil]
  | [], c :: s =>
    have hletter := stops_any (fun c => decide (c = ascii 'e') || decide (c = ascii 'E')) rfl
      (ends_cons.mp hs)
    rw [List.nil_append, exponentLength, hletter]
    rfl
  | b :: x, c :: s =>
    rw [List.cons_append, exponentLength, exponentLength, signLength_local x _ hs]
    dsimp only
    rw [List.drop_append_of_le_length (signLength_le x), digitRun_local _ _ hs]

theorem numberLength_local : Local numberLength := by
  intro x s hs
  have hsign := signLength_le x
  have hwhole := digitRun_le (x.drop (signLength x))
  rw [List.length_drop] at hwhole
  have hfraction := fractionLength_le (x.drop (signLength x + digitRun (x.drop (signLength x))))
  rw [List.length_drop] at hfraction
  rw [numberLength, numberLength, signLength_local x s hs,
    List.drop_append_of_le_length hsign, digitRun_local _ s hs,
    List.drop_append_of_le_length (by omega), fractionLength_local _ s hs]
  dsimp only
  split_ifs
  · rfl
  · rw [List.drop_append_of_le_length (by omega), exponentLength_local _ s hs]

/-! ## Unicode ranges -/

theorem hexRun_local : Local hexRun := by
  intro x s hs
  rw [hexRun, hexRun, takeWhile_local rfl x s hs]

theorem unicodeRangeBody_local : Local unicodeRangeBody := by
  intro x s hs
  match x, s with
  | x, [] => rw [List.append_nil]
  | [], c :: s => exact if_neg (ne_of_mem_stops (ends_cons.mp hs) (by decide))
  | b :: t, c :: s =>
    have hmarks : stops.any (· == ascii '?') = false := rfl
    rw [List.cons_append, unicodeRangeBody, unicodeRangeBody, hexRun_local t _ hs]
    split_ifs
    · dsimp only
      rw [List.drop_append_of_le_length (hexRun_le t)]
      generalize t.drop (hexRun t) = rest
      cases rest with
      | nil =>
        have hc : c ≠ ascii '-' := ne_of_mem_stops (ends_cons.mp hs) (by decide)
        rw [List.nil_append]
        simp only [if_neg hc, takeWhile_ends hmarks hs, List.length_nil, Nat.add_zero]
      | cons d rest =>
        rw [List.cons_append]
        dsimp only
        rw [← List.cons_append, takeWhile_local hmarks _ _ hs, hexRun_local rest _ hs]
    · rfl

/-! ## Escapes -/

/-- The text is empty or starts with a line end, so that a backslash before it escapes
nothing. -/
def Unescapable (t : Text) : Prop :=
  ∀ b ∈ t.head?, Byte.isNewline b = true

/-- White space heads `r'` only if white space heads `r`. -/
def KeepsSpace (r r' : Text) : Prop :=
  r'.head?.any Byte.isSpace = true → r.head?.any Byte.isSpace = true

theorem escapeLength_of_ne {b : UInt8} (hb : b ≠ ascii '\\') (t : Text) :
    escapeLength (b :: t) = 0 := by
  rw [escapeLength, if_neg hb]

theorem escapeLength_slash (t : Text) :
    escapeLength (ascii '\\' :: t) = if escapeBody t = 0 then 0 else escapeBody t + 1 := by
  rw [escapeLength, if_pos rfl]
  split <;> simp_all

theorem escapedWidth_pos (b : UInt8) : 1 ≤ escapedWidth b := by
  unfold escapedWidth
  split_ifs <;> decide

theorem isNewline_of_isHexDigit {b : UInt8} (hhex : Byte.isHexDigit b = true) :
    Byte.isNewline b = false := by
  by_contra hline
  rw [Bool.not_eq_false] at hline
  simp only [Byte.isNewline, Bool.or_eq_true, beq_iff_eq] at hline
  rcases hline with (rfl | rfl) | rfl <;> exact absurd hhex (by decide)

/-- An escape by digits takes up to six of them and one white-space byte. -/
theorem escapeBody_hex {b : UInt8} {t : Text} (hb : t.head? = some b)
    (hhex : Byte.isHexDigit b = true) :
    escapeBody t = min 6 (hexRun t) +
      ((t.drop (min 6 (hexRun t))).head?.any Byte.isSpace).toNat := by
  obtain ⟨t, rfl⟩ := List.head?_eq_some_iff.mp hb
  have hdigits : (((b :: t).take 6).takeWhile Byte.isHexDigit).length =
      min 6 (hexRun (b :: t)) := by
    rw [← List.take_takeWhile, List.length_take]
    rfl
  rw [escapeBody, isNewline_of_isHexDigit hhex, if_neg Bool.false_ne_true, if_pos hhex]
  simp only [hdigits]
  split
  · rename_i c s hrest
    rw [hrest, List.head?_cons, Option.any_some]
    split_ifs with hspace <;> simp [hspace]
  · rename_i hrest
    rw [hrest]
    rfl

theorem escapeBody_plain {b : UInt8} (hline : Byte.isNewline b = false)
    (hhex : Byte.isHexDigit b = false) (t : Text) :
    escapeBody (b :: t) = min (escapedWidth b) (t.length + 1) := by
  rw [escapeBody, hline, hhex]
  rfl

theorem escapeBody_eq_zero_iff {t : Text} : escapeBody t = 0 ↔ Unescapable t := by
  cases t with
  | nil => simp [escapeBody, Unescapable]
  | cons b t =>
    have hnext : Unescapable (b :: t) ↔ Byte.isNewline b = true := by simp [Unescapable]
    rw [hnext]
    cases hline : Byte.isNewline b with
    | true => simp [escapeBody, hline]
    | false =>
      have hpos : escapeBody (b :: t) ≠ 0 := by
        cases hhex : Byte.isHexDigit b with
        | true =>
          have hrun : 1 ≤ hexRun (b :: t) := by
            rw [hexRun, List.takeWhile_cons, if_pos hhex, List.length_cons]
            omega
          rw [escapeBody_hex rfl hhex]
          omega
        | false =>
          have hwidth := escapedWidth_pos b
          rw [escapeBody_plain hline hhex]
          omega
      simp [hpos]

theorem escapeLength_eq_zero_iff {b : UInt8} {t : Text} :
    escapeLength (b :: t) = 0 ↔ (b = ascii '\\' → Unescapable t) := by
  by_cases hb : b = ascii '\\'
  · subst hb
    rw [escapeLength_slash, ← escapeBody_eq_zero_iff]
    split_ifs with hbody <;> simp [hbody]
  · rw [escapeLength_of_ne hb]
    simp [hb]

theorem two_le_escapeLength {t : Text} (hpos : escapeLength t ≠ 0) : 2 ≤ escapeLength t := by
  cases t with
  | nil => exact absurd rfl hpos
  | cons b t =>
    by_cases hb : b = ascii '\\'
    · subst hb
      rw [escapeLength_slash] at hpos ⊢
      split_ifs at hpos ⊢ with hbody
      · exact absurd rfl hpos
      · omega
    · exact absurd (escapeLength_of_ne hb t) hpos

/-- A text that goes on behind `n` bytes has the same next byte whatever stands at its
end. -/
theorem drop_append_cons {u : Text} {n : Nat} (hn : n < u.length) :
    ∃ b v, u.drop n = b :: v ∧ ∀ z, (u ++ z).drop n = b :: (v ++ z) := by
  obtain ⟨b, v, hv⟩ := List.exists_cons_of_ne_nil
    (show u.drop n ≠ [] from fun hnil => absurd (List.drop_eq_nil_iff.mp hnil) (by omega))
  refine ⟨b, v, hv, fun z => ?_⟩
  rw [List.drop_append_of_le_length (by omega), hv, List.cons_append]

theorem hexRun_append (w r : Text) :
    hexRun (w ++ r) = if hexRun w = w.length then w.length + hexRun r else hexRun w := by
  unfold hexRun
  rw [List.takeWhile_append]
  split_ifs <;> simp

/-- An escape that lies in `w` is the same before any text.  Where it ends with `w`, what
follows must not lengthen it. -/
theorem escapeBody_append {w r r' : Text} (hw : w ≠ []) (hr : r ≠ [])
    (hle : escapeBody (w ++ r) ≤ w.length)
    (hend : escapeBody (w ++ r) = w.length →
      (∀ b ∈ r'.head?, Byte.isHexDigit b = false) ∧ KeepsSpace r r') :
    escapeBody (w ++ r') = escapeBody (w ++ r) := by
  obtain ⟨b, v, hv⟩ := List.exists_cons_of_ne_nil hw
  have hhead (z : Text) : (w ++ z).head? = some b := by
    rw [hv]
    rfl
  cases hline : Byte.isNewline b with
  | true =>
    have hzero (z : Text) : escapeBody (w ++ z) = 0 := by
      rw [escapeBody_eq_zero_iff]
      intro c hc
      rw [hhead] at hc
      rwa [← Option.some.inj hc]
    rw [hzero, hzero]
  | false =>
    cases hhex : Byte.isHexDigit b with
    | false =>
      have hlength := List.length_pos_of_ne_nil hr
      rw [hv, List.cons_append, escapeBody_plain hline hhex, List.length_append,
        List.length_cons] at hle
      rw [hv, List.cons_append, List.cons_append, escapeBody_plain hline hhex,
        escapeBody_plain hline hhex, List.length_append, List.length_append]
      omega
    | true =>
      rw [escapeBody_hex (hhead r) hhex] at hle hend ⊢
      rw [escapeBody_hex (hhead r') hhex]
      have hrun := hexRun_append w r
      have hrun' := hexRun_append w r'
      have hwhole := hexRun_le w
      by_cases hinside : min 6 (hexRun (w ++ r)) < w.length
      · -- the byte behind the digits is one of `w`
        have hdigits : min 6 (hexRun (w ++ r')) = min 6 (hexRun (w ++ r)) := by
          split_ifs at hrun hrun' <;> omega
        obtain ⟨c, u, -, hdrop⟩ := drop_append_cons hinside
        rw [hdigits, hdrop, hdrop]
        rfl
      · have hdigits : min 6 (hexRun (w ++ r)) = w.length := by omega
        rw [hdigits, List.drop_left] at hle hend ⊢
        have hspace : (r.head?.any Byte.isSpace).toNat = 0 := by omega
        rw [hspace] at hend ⊢
        obtain ⟨hhex', hkeeps⟩ := hend rfl
        have hnone : hexRun r' = 0 := by
          cases r' with
          | nil => rfl
          | cons c r' => rw [hexRun, List.takeWhile_cons, hhex' c rfl]; rfl
        have hdigits' : min 6 (hexRun (w ++ r')) = w.length := by
          split_ifs at hrun hrun' <;> omega
        rw [hdigits', List.drop_left, Nat.add_left_cancel_iff]
        rw [Bool.toNat_eq_zero] at hspace ⊢
        by_contra hspace'
        rw [Bool.not_eq_false] at hspace'
        exact absurd (hkeeps hspace') (by rw [hspace]; exact Bool.false_ne_true)

theorem escapeLength_append {b : UInt8} {w r r' : Text} (hw : w ≠ []) (hr : r ≠ [])
    (hle : escapeLength (b :: (w ++ r)) ≤ w.length + 1)
    (hend : escapeLength (b :: (w ++ r)) = w.length + 1 →
      (∀ b ∈ r'.head?, Byte.isHexDigit b = false) ∧ KeepsSpace r r') :
    escapeLength (b :: (w ++ r')) = escapeLength (b :: (w ++ r)) := by
  by_cases hb : b = ascii '\\'
  · subst hb
    have hlength := List.length_pos_of_ne_nil hw
    rw [escapeLength_slash] at hle hend
    have hbody : escapeBody (w ++ r') = escapeBody (w ++ r) := by
      apply escapeBody_append hw hr
      · split_ifs at hle <;> omega
      · intro hbody
        rw [if_neg (by omega), hbody] at hend
        exact hend rfl
    rw [escapeLength_slash, escapeLength_slash, hbody]
  · rw [escapeLength_of_ne hb, escapeLength_of_ne hb]

/-! ## Names -/

/-- A backslash alone or behind a hyphen: the texts that start a name or not by what follows
them. -/
def IsLone (t : Text) : Prop :=
  t = [ascii '\\'] ∨ t = [ascii '-', ascii '\\']

theorem isHexDigit_of_isNameByte {b : UInt8} (hname : isNameByte b = false) :
    Byte.isHexDigit b = false := by
  simp only [isNameByte, isNameStart, Byte.isLetter, Byte.isDigit, Bool.or_eq_false_iff,
    Bool.and_eq_false_iff, decide_eq_false_iff_not] at hname
  obtain ⟨⟨⟨⟨⟨hupper, hlower⟩, -⟩, -⟩, hdigit⟩, -⟩ := hname
  simp only [Byte.isHexDigit, Byte.isDigit, Bool.or_eq_false_iff, Bool.and_eq_false_iff,
    decide_eq_false_iff_not]
  simp only [UInt8.le_iff_toNat_le, UInt8.reduceToNat] at *
  omega

theorem nameRun_ends {s : Text} (hs : Ends s) : nameRun s = 0 := by
  cases s with
  | nil => rfl
  | cons b s =>
    have hb := ends_cons.mp hs
    rw [nameRun, nameRunFrom, stops_any isNameByte rfl hb,
      escapeLength_of_ne (ne_of_mem_stops hb (by decide))]
    rfl

/-- A text starts with no run of name bytes if it starts neither with a name byte nor with an
escape. -/
theorem nameRun_eq_zero_iff {b : UInt8} {t : Text} :
    nameRun (b :: t) = 0 ↔ isNameByte b = false ∧ (b = ascii '\\' → Unescapable t) := by
  rw [nameRun, nameRunFrom, ← escapeLength_eq_zero_iff]
  cases isNameByte b with
  | true => simp
  | false => cases escapeLength (b :: t) <;> simp

theorem nameStartLength_eq_zero_iff {b : UInt8} {t : Text} :
    nameStartLength (b :: t) = 0 ↔ isNameStart b = false ∧ (b = ascii '\\' → Unescapable t) := by
  rw [nameStartLength, ← escapeLength_eq_zero_iff]
  cases isNameStart b <;> simp

theorem le_nameRunFrom (skip : Nat) (t : Text) : min skip t.length ≤ nameRunFrom skip t := by
  induction t generalizing skip with
  | nil => simp
  | cons b t ih =>
    cases skip with
    | zero => simp
    | succ skip =>
      have hrest := ih skip
      rw [nameRunFrom, List.length_cons]
      omega

theorem nameRunFrom_eq {skip : Nat} {t : Text} (hskip : skip ≤ t.length) :
    nameRunFrom skip t = skip + nameRun (t.drop skip) := by
  induction t generalizing skip with
  | nil =>
    obtain rfl : skip = 0 := Nat.le_zero.mp hskip
    rfl
  | cons b t ih =>
    cases skip with
    | zero => simp [nameRun]
    | succ skip =>
      rw [nameRunFrom, List.drop_succ_cons, ih (by simpa using hskip)]
      omega

/-- A name start with a run behind it is one run. -/
theorem plainIdentLength_eq {t : Text} (hpos : plainIdentLength t ≠ 0) :
    plainIdentLength t = nameRun t := by
  cases t with
  | nil => exact absurd rfl hpos
  | cons b t =>
    rw [plainIdentLength] at hpos ⊢
    rw [nameRun, nameRunFrom]
    have hle := escapeLength_le (b :: t)
    rw [List.length_cons] at hle
    cases hstart : isNameStart b with
    | true =>
      have hname : isNameByte b = true := by simp [isNameByte, hstart]
      rw [nameStartLength, if_pos hstart, if_pos hname]
      rfl
    | false =>
      rw [nameStartLength, hstart, if_neg Bool.false_ne_true] at hpos ⊢
      cases hescape : escapeLength (b :: t) with
      | zero => simp [hescape] at hpos
      | succ k =>
        have hslash : b = ascii '\\' := by
          by_contra hb
          rw [escapeLength_of_ne hb] at hescape
          omega
        have hname : isNameByte b = false := by
          rw [hslash]
          decide
        simp only [hname, Bool.false_eq_true, if_false, List.drop_succ_cons]
        rw [nameRunFrom_eq (by omega)]
        omega

/-- An identifier is a run of name bytes and escapes. -/
theorem identLength_eq {t : Text} (hpos : identLength t ≠ 0) : identLength t = nameRun t := by
  match t with
  | [] => exact absurd rfl hpos
  | [a] => exact plainIdentLength_eq hpos
  | a :: b :: t =>
    rw [identLength] at hpos ⊢
    split_ifs at hpos ⊢ with ha hb
    · subst ha hb
      show 2 + nameRun t = 1 + (1 + nameRunFrom 0 t)
      rw [nameRun]
      omega
    · subst ha
      have hplain : plainIdentLength (b :: t) ≠ 0 := by
        intro hzero
        simp [hzero] at hpos
      have heq := plainIdentLength_eq hplain
      have hrun : nameRun (ascii '-' :: b :: t) = 1 + nameRun (b :: t) := rfl
      rw [hrun, ← heq]
      split
      · omega
      · omega
    · exact plainIdentLength_eq hpos

theorem plainIdentLength_eq_zero_iff {t : Text} :
    plainIdentLength t = 0 ↔ nameStartLength t = 0 := by
  rw [plainIdentLength]
  split <;> simp_all

theorem plainIdentLength_ends {s : Text} (hs : Ends s) : plainIdentLength s = 0 := by
  rw [plainIdentLength_eq_zero_iff]
  cases s with
  | nil => rfl
  | cons b s =>
    have hb := ends_cons.mp hs
    refine nameStartLength_eq_zero_iff.mpr ⟨stops_any isNameStart rfl hb, fun hslash => ?_⟩
    exact absurd hslash (ne_of_mem_stops hb (by decide))

theorem identLength_of_ne {a : UInt8} (ha : a ≠ ascii '-') (t : Text) :
    identLength (a :: t) = plainIdentLength (a :: t) := by
  cases t with
  | nil => rfl
  | cons b t => rw [identLength, if_neg ha]

theorem identLength_hyphen_eq_zero_iff {b : UInt8} {t : Text} :
    identLength (ascii '-' :: b :: t) = 0 ↔ b ≠ ascii '-' ∧ plainIdentLength (b :: t) = 0 := by
  rw [identLength, if_pos rfl]
  by_cases hb : b = ascii '-'
  · rw [if_pos hb]
    simp [hb]
  · rw [if_neg hb]
    cases plainIdentLength (b :: t) <;> simp [hb]

theorem identLength_ends {s : Text} (hs : Ends s) : identLength s = 0 := by
  cases s with
  | nil => rfl
  | cons b s =>
    rw [identLength_of_ne (ne_of_mem_stops (ends_cons.mp hs) (by decide))]
    exact plainIdentLength_ends hs

section Swap

variable {v p s s' : Text} (hs' : Ends s')

include hs'

theorem nameRun_zero_swap (hlone : IsLone p → Unescapable s → Unescapable s')
    (hzero : nameRun (p ++ s) = 0) : nameRun (p ++ s') = 0 := by
  match p with
  | [] => exact nameRun_ends hs'
  | [b] =>
    obtain ⟨hname, hnext⟩ := nameRun_eq_zero_iff.mp hzero
    exact nameRun_eq_zero_iff.mpr ⟨hname, fun hb => hlone (.inl (by rw [hb])) (hnext hb)⟩
  | b :: c :: p =>
    have hfirst := (nameRun_eq_zero_iff (t := c :: (p ++ s))).mp hzero
    exact nameRun_eq_zero_iff.mpr hfirst

theorem plainIdentLength_zero_swap (hlone : p = [ascii '\\'] → Unescapable s → Unescapable s')
    (hzero : plainIdentLength (p ++ s) = 0) : plainIdentLength (p ++ s') = 0 := by
  match p with
  | [] => exact plainIdentLength_ends hs'
  | [b] =>
    rw [plainIdentLength_eq_zero_iff] at hzero ⊢
    obtain ⟨hname, hnext⟩ := nameStartLength_eq_zero_iff.mp hzero
    exact nameStartLength_eq_zero_iff.mpr ⟨hname, fun hb => hlone (by rw [hb]) (hnext hb)⟩
  | b :: c :: p =>
    rw [plainIdentLength_eq_zero_iff] at hzero ⊢
    have hfirst := (nameStartLength_eq_zero_iff (t := c :: (p ++ s))).mp hzero
    exact nameStartLength_eq_zero_iff.mpr hfirst

theorem identLength_zero_swap (hlone : IsLone p → Unescapable s → Unescapable s')
    (hzero : identLength (p ++ s) = 0) : identLength (p ++ s') = 0 := by
  match p with
  | [] => exact identLength_ends hs'
  | [a] =>
    by_cases ha : a = ascii '-'
    · subst ha
      cases s' with
      | nil => rfl
      | cons c s' =>
        refine identLength_hyphen_eq_zero_iff.mpr ⟨?_, plainIdentLength_ends hs'⟩
        exact ne_of_mem_stops (ends_cons.mp hs') (by decide)
    · rw [List.cons_append, identLength_of_ne ha] at hzero ⊢
      exact plainIdentLength_zero_swap (p := [a]) hs' (fun hlast => hlone (.inl hlast)) hzero
  | a :: b :: p =>
    by_cases ha : a = ascii '-'
    · subst ha
      obtain ⟨hb, hplain⟩ := (identLength_hyphen_eq_zero_iff (t := p ++ s)).mp hzero
      refine identLength_hyphen_eq_zero_iff.mpr ⟨hb, ?_⟩
      refine plainIdentLength_zero_swap (p := b :: p) hs' (fun hlast => hlone (.inr ?_)) hplain
      rw [hlast]
    · rw [List.cons_append, identLength_of_ne ha] at hzero ⊢
      exact plainIdentLength_zero_swap (p := a :: b :: p) hs' (by simp) hzero

end Swap

/-- The run ends where it does. -/
theorem nameRun_stop {v r : Text} (hr : r ≠ []) (skip : Nat)
    (hrun : nameRunFrom skip (v ++ r) = v.length) : nameRun r = 0 := by
  induction v generalizing skip with
  | nil =>
    have hskip := le_nameRunFrom skip r
    have hlength := List.length_pos_of_ne_nil hr
    rw [List.nil_append, List.length_nil] at hrun
    obtain rfl : skip = 0 := by omega
    exact hrun
  | cons b v ih =>
    rw [List.cons_append, List.length_cons] at hrun
    cases skip with
    | succ skip =>
      rw [nameRunFrom] at hrun
      exact ih skip (by omega)
    | zero =>
      rw [nameRunFrom] at hrun
      split_ifs at hrun
      · exact ih 0 (by omega)
      · split at hrun
        · omega
        · rename_i k _
          exact ih k (by omega)

/-- A run of name bytes and escapes that ends with `v` is the same before any text that goes on
with no name byte and adds no white space to an escape. -/
theorem nameRunFrom_swap {v r r' : Text} (hr : r ≠ []) (hstop : nameRun r' = 0)
    (hspace : ascii '\\' ∈ v → KeepsSpace r r') (skip : Nat)
    (hrun : nameRunFrom skip (v ++ r) = v.length) : nameRunFrom skip (v ++ r') = v.length := by
  have hlength := List.length_pos_of_ne_nil hr
  induction v generalizing skip with
  | nil =>
    have hskip := le_nameRunFrom skip r
    rw [List.nil_append, List.length_nil] at hrun
    obtain rfl : skip = 0 := by omega
    exact hstop
  | cons b v ih =>
    have htail := ih fun hmem => hspace (List.mem_cons_of_mem b hmem)
    rw [List.cons_append, List.length_cons] at hrun ⊢
    cases skip with
    | succ skip =>
      rw [nameRunFrom] at hrun ⊢
      rw [htail skip (by omega)]
      omega
    | zero =>
      rw [nameRunFrom] at hrun ⊢
      split_ifs at hrun ⊢ with hb
      · rw [htail 0 (by omega)]
        omega
      · cases hescape : escapeLength (b :: (v ++ r)) with
        | zero =>
          rw [hescape] at hrun
          dsimp only at hrun
          omega
        | succ k =>
          rw [hescape] at hrun
          dsimp only at hrun
          -- the escape ends within `v`
          have hskip := le_nameRunFrom k (v ++ r)
          have htwo := two_le_escapeLength (t := b :: (v ++ r)) (by omega)
          rw [List.length_append] at hskip
          have hv : v ≠ [] := by
            rintro rfl
            rw [List.length_nil] at hrun hskip
            omega
          have hsame : escapeLength (b :: (v ++ r')) = k + 1 := by
            rw [← hescape]
            refine escapeLength_append hv hr (by omega) fun _ => ⟨fun c hc => ?_, ?_⟩
            · obtain ⟨z, rfl⟩ := List.head?_eq_some_iff.mp hc
              exact isHexDigit_of_isNameByte (nameRun_eq_zero_iff.mp hstop).1
            · refine hspace ?_
              have hslash : b = ascii '\\' := by
                by_contra hslash
                rw [escapeLength_of_ne hslash] at hescape
                omega
              rw [hslash]
              exact List.mem_cons_self
          rw [hsame]
          dsimp only
          rw [htail k (by omega)]
          omega

theorem nameRun_slash_ne_one (t : Text) : nameRun (ascii '\\' :: t) ≠ 1 := by
  intro hone
  have hname : isNameByte (ascii '\\') = false := by decide
  have hle := escapeLength_le (ascii '\\' :: t)
  rw [nameRun, nameRunFrom, hname, if_neg Bool.false_ne_true] at hone
  split at hone
  · omega
  · rename_i k hescape
    have htwo := two_le_escapeLength (t := ascii '\\' :: t) (by omega)
    have hskip := le_nameRunFrom k t
    rw [List.length_cons] at hle
    omega

/-- A name does not end with a backslash that would have to be an escape. -/
theorem not_isLone_of_identLength {v r : Text} (hv : v ≠ [])
    (hlength : identLength (v ++ r) = v.length) (p : Text) : ¬ IsLone (v ++ p) := by
  have hpos := List.length_pos_of_ne_nil hv
  have hrun := identLength_eq (t := v ++ r) (by omega)
  rw [hlength] at hrun
  rintro (hsplit | hsplit)
  · rcases List.append_eq_singleton_iff.mp hsplit with ⟨hnil, -⟩ | ⟨rfl, -⟩
    · exact hv hnil
    · exact nameRun_slash_ne_one r hrun.symm
  · rcases List.append_eq_cons_iff.mp hsplit with ⟨hnil, -⟩ | ⟨w, rfl, hrest⟩
    · exact hv hnil
    rcases List.append_eq_singleton_iff.mp hrest.symm with ⟨rfl, -⟩ | ⟨rfl, -⟩
    · -- a hyphen alone is no identifier
      cases r with
      | nil => exact absurd hlength (by decide)
      | cons c r =>
        rw [List.cons_append, List.nil_append, identLength, if_pos rfl] at hlength
        split_ifs at hlength
        · rw [List.length_singleton] at hlength
          omega
        · split at hlength <;> simp at hlength
    · have hslash : 1 + 1 = 1 + nameRun (ascii '\\' :: r) := hrun
      exact nameRun_slash_ne_one r (by omega)

section Swap

variable {v p s s' : Text} (hs : Ends s) (hne : s ≠ []) (hs' : Ends s')
  (hspace : ascii '\\' ∈ v → p = [] → KeepsSpace s s')
  (hlone : IsLone p → Unescapable s → Unescapable s')

include hs hne hs' hspace hlone

omit hs in
/-- A run that ends with `v` stays the same when what follows the next stop changes. -/
theorem nameRun_swap (hrun : nameRun (v ++ (p ++ s)) = v.length) :
    nameRun (v ++ (p ++ s')) = v.length := by
  have hrest : p ++ s ≠ [] := List.append_ne_nil_of_right_ne_nil p hne
  have hstop : nameRun (p ++ s') = 0 := nameRun_zero_swap hs' hlone (nameRun_stop hrest 0 hrun)
  refine nameRunFrom_swap hrest hstop (fun hslash => ?_) 0 hrun
  cases p with
  | nil => exact hspace hslash rfl
  | cons b p => exact id

/-- An identifier that ends with `v` stays the same when what follows the next stop changes. -/
theorem identLength_swap (hv : v ≠ []) (hlength : identLength (v ++ (p ++ s)) = v.length) :
    identLength (v ++ (p ++ s')) = v.length := by
  have hpos := List.length_pos_of_ne_nil hv
  have hrun := identLength_eq (t := v ++ (p ++ s)) (by omega)
  rw [hlength] at hrun
  rw [← nameRun_swap hne hs' hspace hlone hrun.symm]
  refine identLength_eq fun hzero => ?_
  rw [← List.append_assoc] at hzero
  have hzero' : identLength ((v ++ p) ++ s) = 0 := identLength_zero_swap hs
    (fun hlast => absurd hlast (not_isLone_of_identLength hv hlength p)) hzero
  rw [List.append_assoc] at hzero'
  omega

end Swap

section Behind

variable {v y : Text} (hy : Ends y) (hescape : ascii '\\' ∉ v)

include hy hescape

/-- A run without escapes that ends before a blank ends before any stop. -/
theorem nameRun_behind (hrun : nameRun (v ++ [0x20]) = v.length) :
    nameRun (v ++ y) = v.length :=
  nameRun_swap (p := []) (s := [0x20]) (by decide) hy (fun hmem => absurd hmem hescape)
    (by simp [IsLone]) hrun

theorem identLength_behind (hv : v ≠ []) (hlength : identLength (v ++ [0x20]) = v.length) :
    identLength (v ++ y) = v.length :=
  identLength_swap (p := []) (s := [0x20]) (ends_cons.mpr (by decide)) (by decide) hy
    (fun hmem => absurd hmem hescape) (by simp [IsLone]) hv hlength

end Behind

end PixelRem.Css
