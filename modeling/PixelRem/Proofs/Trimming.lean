import Mathlib
import PixelRem.Text.Blank

/-!
# Trimmed texts

Trimming takes characters of a table from the head of a text as long as one is there.  If no
character of the table is the start of another one, that is all there is to it: a run of characters
goes (`trimHeadFrom_run`), and what is left starts with none of them (`exists_run`).

The white-space characters are such a table, from the front and from behind.  Besides, the byte
that starts one never stands inside another one, so white space behind a text does not change what
is taken from its head.  Hence white space around a text does not matter (`trim_pad`), a trimmed
text stays as it is (`trim_trim`), and it is known which texts are trimmed to a word
(`trim_eq_iff`).
-/

namespace PixelRem.Text

/-! ## Tables of characters -/

/-- No character of a table is empty or the start of another one. -/
structure IsCode (table : List Text) : Prop where
  ne_nil : ∀ a ∈ table, a ≠ []
  eq_of_prefix : ∀ a ∈ table, ∀ b ∈ table, a <+: b → a = b

/-- A text is a run of characters of a table. -/
def IsRun (table : List Text) (w : Text) : Prop :=
  ∃ chars : List Text, (∀ a ∈ chars, a ∈ table) ∧ w = chars.flatten

section Tables

variable {table : List Text}

theorem trimHeadFrom_skip (x t : Text) :
    trimHeadFrom table x.length (x ++ t) = trimHeadFrom table 0 t := by
  induction x with
  | nil => rfl
  | cons b x ih =>
    rw [List.length_cons, List.cons_append, trimHeadFrom]
    exact ih

/-- The character at the head of a text is the only one that is there. -/
theorem blankHead_of_mem (hcode : IsCode table) {a : Text} (ha : a ∈ table) (t : Text) :
    blankHead table (a ++ t) = a.length := by
  unfold blankHead
  cases hfind : table.find? (·.isPrefixOf (a ++ t)) with
  | none =>
    have hnone := List.find?_eq_none.mp hfind a ha
    simp at hnone
  | some b =>
    have hb := List.mem_of_find?_eq_some hfind
    have hprefix : b <+: a ++ t := by simpa using List.find?_some hfind
    rcases List.prefix_or_prefix_of_prefix hprefix (List.prefix_append a t) with hba | hab
    · exact congrArg List.length (hcode.eq_of_prefix b hb a ha hba)
    · exact congrArg List.length (hcode.eq_of_prefix a ha b hb hab).symm

theorem trimHeadFrom_char (hcode : IsCode table) {a : Text} (ha : a ∈ table) (t : Text) :
    trimHeadFrom table 0 (a ++ t) = trimHeadFrom table 0 t := by
  have hhead := blankHead_of_mem hcode ha t
  obtain ⟨b, rest, rfl⟩ := List.exists_cons_of_ne_nil (hcode.ne_nil a ha)
  rw [List.cons_append] at hhead ⊢
  rw [trimHeadFrom, hhead]
  exact trimHeadFrom_skip rest t

/-- A run of characters at the head of a text is taken off. -/
theorem trimHeadFrom_run (hcode : IsCode table) {w : Text} (hw : IsRun table w) (t : Text) :
    trimHeadFrom table 0 (w ++ t) = trimHeadFrom table 0 t := by
  obtain ⟨chars, hchars, rfl⟩ := hw
  induction chars with
  | nil => rfl
  | cons a chars ih =>
    rw [List.flatten_cons, List.append_assoc,
      trimHeadFrom_char hcode (hchars a List.mem_cons_self)]
    exact ih fun b hb => hchars b (List.mem_cons_of_mem a hb)

/-- A text that starts with no character stays as it is. -/
theorem trimHeadFrom_of_forall {t : Text} (hnone : ∀ a ∈ table, ¬ a <+: t) :
    trimHeadFrom table 0 t = t := by
  cases t with
  | nil => rfl
  | cons b t =>
    have hzero : blankHead table (b :: t) = 0 := by
      have hfind : table.find? (·.isPrefixOf (b :: t)) = none := by
        rw [List.find?_eq_none]
        intro a ha
        simpa using hnone a ha
      rw [blankHead, hfind]
    rw [trimHeadFrom, hzero]

/-- What is taken off a text is a run of characters, and none of them is left at its head. -/
theorem exists_run (hcode : IsCode table) (t : Text) :
    ∃ w, IsRun table w ∧ t = w ++ trimHeadFrom table 0 t ∧
      ∀ a ∈ table, ¬ a <+: trimHeadFrom table 0 t := by
  induction hlength : t.length using Nat.strong_induction_on generalizing t with
  | _ n ih =>
    by_cases hnone : ∀ a ∈ table, ¬ a <+: t
    · have hsame := trimHeadFrom_of_forall hnone
      rw [hsame]
      exact ⟨[], ⟨[], by simp, rfl⟩, rfl, hnone⟩
    · push Not at hnone
      obtain ⟨a, ha, rest, rfl⟩ := hnone
      have hpos : 0 < a.length := List.length_pos_iff.mpr (hcode.ne_nil a ha)
      rw [List.length_append] at hlength
      obtain ⟨w, ⟨chars, hchars, rfl⟩, hrest, hleft⟩ := ih rest.length (by omega) rest rfl
      rw [trimHeadFrom_char hcode ha]
      refine ⟨a ++ chars.flatten, ⟨a :: chars, ?_, rfl⟩, ?_, hleft⟩
      · simpa using ⟨ha, hchars⟩
      · rw [List.append_assoc, ← hrest]

theorem IsRun.reverse {w : Text} (hw : IsRun table w) :
    IsRun (table.map List.reverse) w.reverse := by
  obtain ⟨chars, hchars, rfl⟩ := hw
  refine ⟨(chars.map List.reverse).reverse, ?_, List.reverse_flatten⟩
  intro a ha
  rw [List.mem_reverse, List.mem_map] at ha
  obtain ⟨b, hb, rfl⟩ := ha
  exact List.mem_map_of_mem (hchars b hb)

end Tables

/-! ## White space -/

/-- A text is white space. -/
def IsBlank (w : Text) : Prop :=
  IsRun blanks w

theorem isCode_blanks : IsCode blanks :=
  ⟨by decide +kernel, by decide +kernel⟩

theorem isCode_blanks_reverse : IsCode (blanks.map List.reverse) :=
  ⟨by decide +kernel, by decide +kernel⟩

/-- A byte goes on with a character, so that none starts with it. -/
def goesOn (byte : UInt8) : Bool :=
  byte.toNat / 64 == 2

theorem goesOn_of_mem {a : Text} (ha : a ∈ blanks) :
    a.head?.all (!goesOn ·) = true ∧ a.tail.all goesOn = true := by
  have hall : blanks.all (fun a => a.head?.all (!goesOn ·) && a.tail.all goesOn) = true := by
    decide
  have hbytes := List.all_eq_true.mp hall a ha
  rwa [Bool.and_eq_true] at hbytes

/-- White space starts with a byte that starts a character. -/
theorem IsBlank.goesOn_head {byte : UInt8} {w : Text} (hw : IsBlank (byte :: w)) :
    goesOn byte = false := by
  obtain ⟨chars, hchars, hflat⟩ := hw
  cases chars with
  | nil => exact absurd hflat (List.cons_ne_nil _ _)
  | cons a chars =>
    have ha := hchars a List.mem_cons_self
    obtain ⟨b, rest, rfl⟩ := List.exists_cons_of_ne_nil (isCode_blanks.ne_nil a ha)
    rw [List.flatten_cons, List.cons_append, List.cons.injEq] at hflat
    rw [hflat.1]
    simpa using (goesOn_of_mem ha).1

theorem isBlank_reverse {w : Text} (hw : IsRun (blanks.map List.reverse) w) :
    IsBlank w.reverse := by
  have hrun := hw.reverse
  rwa [List.map_map, List.reverse_involutive.comp_self, List.map_id] at hrun

theorem trimStart_blank_append {w : Text} (hw : IsBlank w) (t : Text) :
    trimStart (w ++ t) = trimStart t :=
  trimHeadFrom_run isCode_blanks hw t

theorem trimEnd_append_blank {w : Text} (hw : IsBlank w) (t : Text) :
    trimEnd (t ++ w) = trimEnd t := by
  rw [trimEnd, List.reverse_append, trimHeadFrom_run isCode_blanks_reverse (IsRun.reverse hw)]
  rfl

/-- White space behind a text adds no white space to its head. -/
theorem not_prefix_append_blank {t w : Text} (hne : t ≠ []) (hw : IsBlank w)
    (hnone : ∀ a ∈ blanks, ¬ a <+: t) : ∀ a ∈ blanks, ¬ a <+: t ++ w := by
  intro a ha hprefix
  rcases List.prefix_or_prefix_of_prefix hprefix (List.prefix_append t w) with hat | hta
  · exact hnone a ha hat
  obtain ⟨rest, rfl⟩ := hta
  rw [List.prefix_append_right_inj] at hprefix
  cases rest with
  | nil => exact hnone _ ha (by rw [List.append_nil])
  | cons byte rest =>
    obtain ⟨w, rfl⟩ := hprefix
    -- The text ends inside a character, but the white space behind it starts another one.
    obtain ⟨first, t, rfl⟩ := List.exists_cons_of_ne_nil hne
    have hinside : goesOn byte = true :=
      List.all_eq_true.mp (goesOn_of_mem ha).2 byte (by simp)
    exact absurd (hinside.symm.trans hw.goesOn_head) (by decide)

/-- White space around a text does not matter for its trimmed form. -/
theorem trim_pad {left right : Text} (hleft : IsBlank left) (hright : IsBlank right) (t : Text) :
    trim (left ++ t ++ right) = trim t := by
  obtain ⟨w, hw, ht, hnone⟩ := exists_run isCode_blanks t
  have hstart : trimStart (left ++ t ++ right) = trimStart (trimStart t ++ right) := by
    rw [List.append_assoc, trimStart_blank_append hleft]
    nth_rewrite 1 [ht]
    rw [List.append_assoc, trimStart_blank_append hw]
    rfl
  rw [trim, hstart, trim]
  by_cases hnil : trimStart t = []
  · have hblank : trimStart right = [] := by
      have hrun := trimStart_blank_append hright []
      rwa [List.append_nil] at hrun
    rw [hnil, List.nil_append, hblank]
  · have hsame : trimStart (trimStart t ++ right) = trimStart t ++ right :=
      trimHeadFrom_of_forall (not_prefix_append_blank hnil hright hnone)
    rw [hsame, trimEnd_append_blank hright]

theorem trim_trim (t : Text) : trim (trim t) = trim t := by
  obtain ⟨-, -, -, hstart⟩ := exists_run isCode_blanks t
  obtain ⟨w, -, hcut, hend⟩ := exists_run isCode_blanks_reverse (trimStart t).reverse
  have hprefix : trim t <+: trimStart t := by
    refine ⟨w.reverse, ?_⟩
    rw [trim, trimEnd, ← List.reverse_append, ← hcut, List.reverse_reverse]
  have hhead : trimStart (trim t) = trim t :=
    trimHeadFrom_of_forall fun a ha hmem => hstart a ha (hmem.trans hprefix)
  have hlast : trimHeadFrom (blanks.map List.reverse) 0 (trim t).reverse = (trim t).reverse := by
    apply trimHeadFrom_of_forall
    rwa [trim, trimEnd, List.reverse_reverse]
  nth_rewrite 1 [trim]
  rw [hhead, trimEnd, hlast, List.reverse_reverse]

/-- A text is a word with white space around it. -/
def IsPadded (word t : Text) : Prop :=
  ∃ left right, IsBlank left ∧ IsBlank right ∧ t = left ++ word ++ right

theorem isPadded_trim (t : Text) : IsPadded (trim t) t := by
  obtain ⟨left, hleft, ht, -⟩ := exists_run isCode_blanks t
  obtain ⟨right, hright, hcut, -⟩ := exists_run isCode_blanks_reverse (trimStart t).reverse
  refine ⟨left, right.reverse, hleft, isBlank_reverse hright, ?_⟩
  rw [List.append_assoc, trim, trimEnd, ← List.reverse_append, ← hcut, List.reverse_reverse]
  exact ht

/-- The texts that are trimmed to a word are those that have it between white space, if the word
has no white space around it itself, and none if it has. -/
theorem trim_eq_iff {word t : Text} : trim t = word ↔ trim word = word ∧ IsPadded word t := by
  constructor
  · rintro rfl
    exact ⟨trim_trim t, isPadded_trim t⟩
  · rintro ⟨hword, left, right, hleft, hright, rfl⟩
    rw [trim_pad hleft hright, hword]

end PixelRem.Text
