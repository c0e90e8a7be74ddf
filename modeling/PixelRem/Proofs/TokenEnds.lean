import Mathlib
import PixelRem.Proofs.TokenSwap

/-!
# Where tokens end

A token ends where its last byte and the byte behind it belong apart.  Either the
token has a closing byte, such as a quote or a parenthesis, or it is a name or a number
and goes on as long as the text lets it.  Only a unicode range can be directly followed
by a letter.

There are three groups.

* Runs that go on: `nameRun_next`, `identLength_next` and `numberLength_ends` say what
  does not follow a name or a number.
* Runs that are closed: `stringRunFrom_last`, `commentRun_last` and `urlBody_last` give
  the last byte of a run that ends before the text does.
* The assembly: `scan_parts` goes through the rules of the lexer, and
  `Token.Heads.parts` reads the result off for a token in its place.
-/

namespace PixelRem.Css

/-! ## Bytes that belong apart -/

/-- A word does not go on from `b` to `c`, and neither does a fraction. -/
structure Apart (b c : UInt8) : Prop where
  word : Byte.isWord b = true → Byte.isWord c = false
  point : b = ascii '.' → Byte.isDigit c = false

/-- The text has its first `n` bytes apart from the rest. -/
def PartsAt (t : Text) (n : Nat) : Prop :=
  ∀ x b c s, t = x ++ b :: c :: s → n = x.length + 1 → Apart b c

/-- The last of the first `n` bytes of a text has a property. -/
def LastIs (P : UInt8 → Prop) (t : Text) (n : Nat) : Prop :=
  ∃ x b, t.take n = x ++ [b] ∧ P b

/-- The byte behind the first `n` bytes of a text, if there is one, has a property. -/
def NextIs (P : UInt8 → Prop) (t : Text) (n : Nat) : Prop :=
  ∀ c ∈ (t.drop n).head?, P c

section Parts

variable {P Q : UInt8 → Prop} {t : Text} {n : Nat}

theorem LastIs.mono (hlast : LastIs P t n) (hQ : ∀ b, P b → Q b) : LastIs Q t n := by
  obtain ⟨x, b, htake, hb⟩ := hlast
  exact ⟨x, b, htake, hQ b hb⟩

theorem LastIs.cons (hlast : LastIs P t n) (a : UInt8) : LastIs P (a :: t) (n + 1) := by
  obtain ⟨x, b, htake, hb⟩ := hlast
  refine ⟨a :: x, b, ?_, hb⟩
  rw [List.take_succ_cons, htake, List.cons_append]

theorem LastIs.of_drop {k : Nat} (hlast : LastIs P (t.drop k) n) : LastIs P t (k + n) := by
  obtain ⟨x, b, htake, hb⟩ := hlast
  refine ⟨t.take k ++ x, b, ?_, hb⟩
  rw [List.take_add, htake, List.append_assoc]

theorem lastIs_one {b : UInt8} (hb : P b) : LastIs P (b :: t) 1 :=
  ⟨[], b, rfl, hb⟩

theorem NextIs.cons (hnext : NextIs P t n) (a : UInt8) : NextIs P (a :: t) (n + 1) := by
  unfold NextIs
  rwa [List.drop_succ_cons]

theorem NextIs.of_drop {k : Nat} (hnext : NextIs P (t.drop k) n) : NextIs P t (k + n) := by
  unfold NextIs at hnext ⊢
  rwa [List.drop_drop] at hnext

theorem take_drop_split {x s : Text} {b c : UInt8} (hsplit : t = x ++ b :: c :: s)
    (hn : n = x.length + 1) : t.take n = x ++ [b] ∧ t.drop n = c :: s := by
  have happend : t = (x ++ [b]) ++ c :: s := by simp [hsplit]
  have hlength : (x ++ [b]).length = n := by simp [hn]
  rw [happend]
  exact ⟨List.take_left' hlength, List.drop_left' hlength⟩

/-- A closing byte: it neither is part of a word nor starts a fraction. -/
def IsCloser (b : UInt8) : Prop :=
  Byte.isWord b = false ∧ b ≠ ascii '.'

instance (b : UInt8) : Decidable (IsCloser b) :=
  inferInstanceAs (Decidable (_ ∧ _))

theorem PartsAt.of_last (hlast : LastIs IsCloser t n) : PartsAt t n := by
  intro x b c s hsplit hn
  obtain ⟨z, a, htake, hword, hpoint⟩ := hlast
  rw [(take_drop_split hsplit hn).1] at htake
  obtain rfl : b = a := List.singleton_inj.mp (List.append_inj' htake rfl).2
  refine ⟨fun hb => ?_, fun hb => absurd hb hpoint⟩
  rw [hword] at hb
  exact absurd hb (by decide)

theorem isWord_of_isNameByte {c : UInt8} (hc : isNameByte c = false) : Byte.isWord c = false := by
  simp only [isNameByte, isNameStart, Bool.or_eq_false_iff] at hc
  obtain ⟨⟨⟨⟨hletter, hbar⟩, -⟩, hdigit⟩, -⟩ := hc
  simp only [Byte.isWord, hletter, hdigit, Bool.or_self, Bool.false_or]
  exact hbar

theorem PartsAt.of_next (hnext : NextIs (isNameByte · = false) t n) : PartsAt t n := by
  intro x b c s hsplit hn
  have hc : isNameByte c = false := by
    apply hnext
    rw [(take_drop_split hsplit hn).2]
    rfl
  have hdigit : Byte.isDigit c = false := by
    simp only [isNameByte, Bool.or_eq_false_iff] at hc
    exact hc.1.2
  exact ⟨fun _ => isWord_of_isNameByte hc, fun _ => hdigit⟩

/-- A number: its last byte is a digit and no word byte follows. -/
theorem PartsAt.of_digit (hlast : LastIs (Byte.isDigit · = true) t n)
    (hnext : NextIs (Byte.isWord · = false) t n) : PartsAt t n := by
  intro x b c s hsplit hn
  obtain ⟨htake, hdrop⟩ := take_drop_split hsplit hn
  obtain ⟨z, a, htake', ha⟩ := hlast
  rw [htake] at htake'
  obtain rfl : b = a := List.singleton_inj.mp (List.append_inj' htake' rfl).2
  have hc : Byte.isWord c = false := by
    apply hnext
    rw [hdrop]
    rfl
  refine ⟨fun _ => hc, fun hb => ?_⟩
  rw [hb] at ha
  exact absurd ha (by decide)

end Parts

/-! ## Runs that go on -/

theorem nameRunFrom_next (skip : Nat) (t : Text) :
    NextIs (isNameByte · = false) t (nameRunFrom skip t) := by
  fun_induction nameRunFrom skip t with
  | case1 => simp [NextIs]
  | case2 skip b t ih =>
    rw [Nat.add_comm]
    exact ih.cons b
  | case3 b t hb ih =>
    rw [Nat.add_comm]
    exact ih.cons b
  | case4 b t hb hescape =>
    intro c hc
    obtain rfl : b = c := Option.some.inj hc
    simpa using hb
  | case5 b t hb k hescape ih =>
    rw [Nat.add_comm]
    exact ih.cons b

theorem nameRun_next (t : Text) : NextIs (isNameByte · = false) t (nameRun t) :=
  nameRunFrom_next 0 t

theorem plainIdentLength_next {t : Text} (hpos : plainIdentLength t ≠ 0) :
    NextIs (isNameByte · = false) t (plainIdentLength t) := by
  unfold plainIdentLength at hpos ⊢
  split at hpos
  · exact absurd rfl hpos
  · exact (nameRun_next _).of_drop

theorem identLength_next {t : Text} (hpos : identLength t ≠ 0) :
    NextIs (isNameByte · = false) t (identLength t) := by
  match t with
  | [] => exact plainIdentLength_next hpos
  | [a] => exact plainIdentLength_next hpos
  | a :: b :: t =>
    rw [identLength] at hpos ⊢
    split_ifs at hpos ⊢ with hhyphen htwo
    · rw [Nat.add_comm]
      exact ((nameRun_next t).cons b).cons a
    · split at hpos
      · exact absurd rfl hpos
      · rename_i k hlength
        have hplain : plainIdentLength (b :: t) ≠ 0 := by omega
        have hnext := plainIdentLength_next hplain
        rw [hlength] at hnext
        exact hnext.cons a
    · exact plainIdentLength_next hpos

theorem takeWhile_next (p : UInt8 → Bool) (t : Text) :
    NextIs (p · = false) t (t.takeWhile p).length := by
  intro c hc
  have hdrop : t.drop (t.takeWhile p).length = t.dropWhile p := by
    nth_rewrite 2 [← List.takeWhile_append_dropWhile (p := p) (l := t)]
    exact List.drop_left
  have hhead := List.head?_dropWhile_not p t
  rw [← hdrop, Option.mem_def.mp hc] at hhead
  simpa using hhead

theorem takeWhile_last (p : UInt8 → Bool) {t : Text} (hpos : (t.takeWhile p).length ≠ 0) :
    LastIs (p · = true) t (t.takeWhile p).length := by
  have htake : t.take (t.takeWhile p).length = t.takeWhile p := by
    nth_rewrite 2 [← List.takeWhile_append_dropWhile (p := p) (l := t)]
    exact List.take_left
  have hne : t.takeWhile p ≠ [] := List.length_pos_iff.mp (Nat.pos_of_ne_zero hpos)
  have hlast : p ((t.takeWhile p).getLast hne) = true :=
    List.mem_takeWhile_imp (List.getLast_mem hne)
  exact ⟨(t.takeWhile p).dropLast, _, by rw [htake, List.dropLast_append_getLast hne], hlast⟩

/-- The first `n` bytes of a text end with all of a run of digits. -/
structure EndsDigits (t : Text) (n : Nat) : Prop where
  last : LastIs (Byte.isDigit · = true) t n
  next : NextIs (Byte.isDigit · = false) t n

theorem EndsDigits.of_drop {t : Text} {k n : Nat} (hends : EndsDigits (t.drop k) n) :
    EndsDigits t (k + n) :=
  ⟨hends.last.of_drop, hends.next.of_drop⟩

theorem EndsDigits.cons {t : Text} {n : Nat} (hends : EndsDigits t n) (b : UInt8) :
    EndsDigits (b :: t) (n + 1) :=
  ⟨hends.last.cons b, hends.next.cons b⟩

theorem digitRun_ends {t : Text} (hpos : digitRun t ≠ 0) : EndsDigits t (digitRun t) :=
  ⟨takeWhile_last Byte.isDigit hpos, takeWhile_next Byte.isDigit t⟩

theorem fractionLength_ends {t : Text} (hpos : fractionLength t ≠ 0) :
    EndsDigits t (fractionLength t) := by
  fun_cases fractionLength t with
  | case1 t hrun => simp [fractionLength, hrun] at hpos
  | case2 t k hrun =>
    have hends : EndsDigits t (digitRun t) := digitRun_ends (by omega)
    rw [hrun] at hends
    exact hends.cons _
  | case3 b t hb => simp [fractionLength, hb] at hpos
  | case4 => simp [fractionLength] at hpos

theorem exponentLength_ends {t : Text} (hpos : exponentLength t ≠ 0) :
    EndsDigits t (exponentLength t) := by
  cases t with
  | nil => exact absurd rfl hpos
  | cons b t =>
    rw [exponentLength] at hpos ⊢
    split_ifs at hpos ⊢
    · simp only at hpos ⊢
      split at hpos
      · exact absurd rfl hpos
      · rename_i k hrun
        have hends : EndsDigits (t.drop (signLength t)) (digitRun (t.drop (signLength t))) :=
          digitRun_ends (by omega)
        rw [hrun] at hends
        rw [show 1 + signLength t + (k + 1) = signLength t + (k + 1) + 1 by omega]
        exact hends.of_drop.cons b
    · exact absurd rfl hpos

theorem numberLength_ends {t : Text} (hpos : numberLength t ≠ 0) :
    EndsDigits t (numberLength t) := by
  unfold numberLength at hpos ⊢
  simp only at hpos ⊢
  split_ifs at hpos ⊢ with hzero
  · exact absurd rfl hpos
  -- The number ends with its exponent, its fraction or its whole part, the last it has.
  generalize hsign : signLength t = sign at *
  generalize hwhole : digitRun (t.drop sign) = whole at *
  generalize hfraction : fractionLength (t.drop (sign + whole)) = fraction at *
  by_cases hexponent : exponentLength (t.drop (sign + whole + fraction)) = 0
  · rw [hexponent, Nat.add_zero]
    by_cases hnone : fraction = 0
    · have hends : EndsDigits (t.drop sign) whole := by
        rw [← hwhole]
        exact digitRun_ends (by omega)
      rw [hnone, Nat.add_zero]
      exact hends.of_drop
    · have hends : EndsDigits (t.drop (sign + whole)) fraction := by
        rw [← hfraction]
        exact fractionLength_ends (by omega)
      exact hends.of_drop
  · exact (exponentLength_ends hexponent).of_drop

theorem isWord_of_not_start {c : UInt8} (hdigit : Byte.isDigit c = false)
    (hstart : isNameStart c = false) : Byte.isWord c = false := by
  simp only [isNameStart, Bool.or_eq_false_iff] at hstart
  simp only [Byte.isWord, hdigit, hstart.1.1, Bool.or_self, Bool.false_or]
  exact hstart.1.2

theorem identLength_of_isNameStart {c : UInt8} (hc : isNameStart c = true) (t : Text) :
    identLength (c :: t) ≠ 0 := by
  have hplain : plainIdentLength (c :: t) ≠ 0 := by
    rw [plainIdentLength, nameStartLength, if_pos hc]
    show 0 + 1 + nameRun _ ≠ 0
    omega
  cases t with
  | nil => exact hplain
  | cons d t =>
    have hhyphen : c ≠ ascii '-' := by
      rintro rfl
      exact absurd hc (by decide)
    rwa [identLength, if_neg hhyphen]

theorem numeric?_parts {t : Text} {kind : TokenKind} {n : Nat}
    (hfound : numeric? t = some (kind, n)) : PartsAt t n := by
  unfold numeric? at hfound
  split at hfound
  · simp at hfound
  rename_i m hnumber
  have hends : EndsDigits t (numberLength t) := numberLength_ends (by omega)
  rw [hnumber] at hends
  simp only at hfound
  split_ifs at hfound with hpercent
  · simp only [Option.some.injEq, Prod.mk.injEq] at hfound
    obtain ⟨-, rfl⟩ := hfound
    obtain ⟨s, hs⟩ := List.head?_eq_some_iff.mp hpercent
    have hlast : LastIs IsCloser (t.drop (m + 1)) 1 := by
      rw [hs]
      exact lastIs_one (by decide)
    exact .of_last hlast.of_drop
  split at hfound
  · -- No name starts behind the number.
    rename_i hident
    simp only [Option.some.injEq, Prod.mk.injEq] at hfound
    obtain ⟨-, rfl⟩ := hfound
    refine .of_digit hends.last fun c hc => isWord_of_not_start (hends.next c hc) ?_
    obtain ⟨s, hs⟩ := List.head?_eq_some_iff.mp hc
    by_contra hstart
    rw [Bool.not_eq_false] at hstart
    rw [hs] at hident
    exact identLength_of_isNameStart hstart s hident
  · rename_i k hident
    simp only [Option.some.injEq, Prod.mk.injEq] at hfound
    obtain ⟨-, rfl⟩ := hfound
    have hnext : NextIs (isNameByte · = false) (t.drop (m + 1)) (identLength (t.drop (m + 1))) :=
      identLength_next (by omega)
    rw [hident] at hnext
    exact .of_next hnext.of_drop

/-! ## Runs that are closed -/

/-- A string that ends before the text does ends with its quote or a line end. -/
theorem stringRunFrom_last (quote : UInt8) (skip : Nat) (t : Text)
    (hshort : (stringRunFrom quote skip t).2 < t.length) :
    LastIs (fun b => b = quote ∨ Byte.isNewline b = true) t (stringRunFrom quote skip t).2 := by
  fun_induction stringRunFrom quote skip t with
  | case1 => simp at hshort
  | case2 skip b t good n hrun ih =>
    rw [hrun] at ih
    exact (ih (by simpa using hshort)).cons b
  | case3 b t hnewline => exact lastIs_one (.inr hnewline)
  | case4 t => exact lastIs_one (.inl rfl)
  | case5 t good n _ _ skip hrun ih =>
    rw [hrun] at ih
    exact (ih (by simpa using hshort)).cons _
  | case6 b t _ _ _ good n hrun ih =>
    rw [hrun] at ih
    exact (ih (by simpa using hshort)).cons b

theorem commentRun_last (t : Text) (hshort : commentRun t < t.length) :
    LastIs (· = ascii '/') t (commentRun t) := by
  fun_induction commentRun t with
  | case1 => simp at hshort
  | case2 => simp at hshort
  | case3 a b t hclose =>
    simp only [Bool.and_eq_true, decide_eq_true_eq] at hclose
    have hlast : LastIs (· = ascii '/') (b :: t) 1 := lastIs_one hclose.2
    exact hlast.cons a
  | case4 a b t hclose ih =>
    rw [Nat.add_comm]
    exact (ih (by simp only [List.length_cons] at hshort ⊢; omega)).cons a

theorem badUrlRunFrom_last (skip : Nat) (t : Text) (hshort : badUrlRunFrom skip t < t.length) :
    LastIs (· = ascii ')') t (badUrlRunFrom skip t) := by
  fun_induction badUrlRunFrom skip t with
  | case1 => simp at hshort
  | case2 skip b t ih =>
    rw [Nat.add_comm]
    exact (ih (by simp only [List.length_cons] at hshort; omega)).cons b
  | case3 t => exact lastIs_one rfl
  | case4 b t hb ih =>
    rw [Nat.add_comm]
    exact (ih (by simp only [List.length_cons] at hshort; omega)).cons b

theorem badUrl_last {t : Text} {n : Nat} (hshort : (badUrl t n).2 < t.length) :
    LastIs (· = ascii ')') t (badUrl t n).2 := by
  unfold badUrl at hshort ⊢
  have hrest : badUrlRunFrom 0 (t.drop n) < (t.drop n).length := by
    rw [List.length_drop]
    dsimp only at hshort
    omega
  exact (badUrlRunFrom_last 0 (t.drop n) hrest).of_drop

theorem closeUrl_last {t : Text} {n : Nat} (hshort : (closeUrl t n).2 < t.length) :
    LastIs (· = ascii ')') t (closeUrl t n).2 := by
  unfold closeUrl at hshort ⊢
  simp only at hshort ⊢
  split at hshort
  · rename_i hnil
    rw [List.drop_eq_nil_iff] at hnil
    exact absurd hshort (Nat.not_lt.mpr hnil)
  · rename_i b rest hdrop
    split_ifs at hshort ⊢ with hclose
    · have hlast : LastIs (· = ascii ')') (t.drop (n + spaceRun (t.drop n))) 1 := by
        rw [hdrop]
        exact lastIs_one hclose
      exact hlast.of_drop
    · exact badUrl_last hshort

/-- An address that ends before the text does ends with its parenthesis. -/
theorem urlBody_last {t : Text} (hshort : (urlBody t).2 < t.length) :
    LastIs (· = ascii ')') t (urlBody t).2 := by
  unfold urlBody at hshort ⊢
  simp only at hshort ⊢
  split at hshort
  · exact closeUrl_last hshort
  split at hshort
  · split_ifs at hshort ⊢
    · exact closeUrl_last hshort
    · exact badUrl_last hshort
  · split_ifs at hshort ⊢
    · exact closeUrl_last hshort
    · split at hshort
      · split_ifs at hshort ⊢
        · exact closeUrl_last hshort
        · exact badUrl_last hshort
      · exact badUrl_last hshort

/-! ## Where a rule of the lexer ends -/

theorem partsAt_of_length_le {t : Text} {n : Nat} (hlength : t.length ≤ n) : PartsAt t n := by
  intro x b c s hsplit hn
  rw [hsplit, List.length_append, List.length_cons, List.length_cons] at hlength
  omega

theorem identLike?_parts {t : Text} {kind : TokenKind} {n : Nat}
    (hfound : identLike? t = some (kind, n)) : PartsAt t n := by
  unfold identLike? at hfound
  split at hfound
  · simp at hfound
  rename_i m hident
  split at hfound
  · rename_i b body hdrop
    simp only at hfound
    split_ifs at hfound with hopen hurl
    · simp only [Option.some.injEq, Prod.mk.injEq] at hfound
      obtain ⟨-, rfl⟩ := hfound
      by_cases hshort : (urlBody body).2 < body.length
      · have hlast : LastIs IsCloser (t.drop (m + 1)) ((urlBody body).2 + 1) := by
          rw [hdrop]
          refine ((urlBody_last hshort).cons b).mono ?_
          rintro c rfl
          decide
        have hparts := PartsAt.of_last hlast.of_drop
        rwa [show m + 1 + ((urlBody body).2 + 1) = m + 2 + (urlBody body).2 by omega] at hparts
      · apply partsAt_of_length_le
        have hlength := congrArg List.length hdrop
        rw [List.length_drop, List.length_cons] at hlength
        omega
    · simp only [Option.some.injEq, Prod.mk.injEq] at hfound
      obtain ⟨-, rfl⟩ := hfound
      have hlast : LastIs IsCloser (t.drop (m + 1)) 1 := by
        rw [hdrop, hopen]
        exact lastIs_one (by decide)
      exact .of_last hlast.of_drop
    · simp only [Option.some.injEq, Prod.mk.injEq] at hfound
      obtain ⟨-, rfl⟩ := hfound
      have hnext := identLength_next (t := t) (by omega)
      rw [hident] at hnext
      exact .of_next hnext
  · rename_i hdrop
    simp only [Option.some.injEq, Prod.mk.injEq] at hfound
    obtain ⟨-, rfl⟩ := hfound
    rw [List.drop_eq_nil_iff] at hdrop
    exact partsAt_of_length_le hdrop

theorem numberLength_of_numeric?_none {t : Text} (hnone : numeric? t = none) :
    numberLength t = 0 := by
  unfold numeric? at hnone
  split at hnone
  · assumption
  · simp only at hnone
    split_ifs at hnone
    split at hnone <;> simp at hnone

theorem digitRun_cons {b : UInt8} (hb : Byte.isDigit b = true) (t : Text) :
    digitRun (b :: t) = digitRun t + 1 := by
  unfold digitRun
  rw [List.takeWhile_cons_of_pos hb, List.length_cons]

theorem signLength_of_isDigit {b : UInt8} (hb : Byte.isDigit b = true) (t : Text) :
    signLength (b :: t) = 0 := by
  rw [signLength, if_neg]
  intro hsign
  simp only [Bool.or_eq_true, decide_eq_true_eq] at hsign
  rcases hsign with rfl | rfl <;> exact absurd hb (by decide)

theorem isDigit_of_numeric?_none {b : UInt8} {t : Text} (hnone : numeric? (b :: t) = none) :
    Byte.isDigit b = false := by
  have hzero := numberLength_of_numeric?_none hnone
  by_contra hb
  rw [Bool.not_eq_false] at hb
  unfold numberLength at hzero
  simp only [signLength_of_isDigit hb, List.drop_zero, digitRun_cons hb] at hzero
  split_ifs at hzero with hnumber <;> omega

theorem isDigit_of_point {c : UInt8} {t : Text} (hnone : numeric? (ascii '.' :: c :: t) = none) :
    Byte.isDigit c = false := by
  have hzero := numberLength_of_numeric?_none hnone
  by_contra hc
  rw [Bool.not_eq_false] at hc
  have hsign : signLength (ascii '.' :: c :: t) = 0 := rfl
  have hwhole : digitRun (ascii '.' :: c :: t) = 0 := rfl
  have hfraction : fractionLength (ascii '.' :: c :: t) = digitRun t + 2 := by
    rw [fractionLength, if_pos rfl, digitRun_cons hc]
  unfold numberLength at hzero
  simp only [hsign, hwhole, hfraction, List.drop_zero, Nat.add_zero] at hzero
  split_ifs at hzero with hnumber <;> omega

theorem punctuation?_closer {b : UInt8} {kind : TokenKind} (hb : punctuation? b = some kind) :
    IsCloser b ∧ kind ≠ .unicodeRange := by
  simp only [punctuation?, ite_eq_iff, Option.some.injEq, reduceCtorEq, and_false, or_false] at hb
  obtain ⟨rfl, rfl⟩ | ⟨-, ⟨rfl, rfl⟩ | ⟨-, ⟨rfl, rfl⟩ | ⟨-, ⟨rfl, rfl⟩ | ⟨-, ⟨rfl, rfl⟩ |
    ⟨-, ⟨rfl, rfl⟩ | ⟨-, ⟨rfl, rfl⟩ | ⟨-, ⟨rfl, rfl⟩ | ⟨-, rfl, rfl⟩⟩⟩⟩⟩⟩⟩⟩ := hb <;> decide

theorem matchOperator?_closer {b : UInt8} {kind : TokenKind} (hb : matchOperator? b = some kind) :
    IsCloser b ∧ kind ≠ .unicodeRange := by
  simp only [matchOperator?, ite_eq_iff, Option.some.injEq, reduceCtorEq, and_false, or_false] at hb
  obtain ⟨rfl, rfl⟩ | ⟨-, ⟨rfl, rfl⟩ | ⟨-, ⟨rfl, rfl⟩ | ⟨-, ⟨rfl, rfl⟩ | ⟨-, rfl, rfl⟩⟩⟩⟩ := hb <;>
    decide

theorem isSpace_closer {b : UInt8} (hb : Byte.isSpace b = true) : IsCloser b := by
  simp only [Byte.isSpace, Bool.or_eq_true, beq_iff_eq] at hb
  obtain (((rfl | rfl) | rfl) | rfl) | rfl := hb <;> decide

/-- The text behind `b` makes it a unicode range. -/
def RangeAt (b : UInt8) (t : Text) : Prop :=
  (b = ascii 'u' ∨ b = ascii 'U') ∧
    ∃ n, unicodeRangeBody t = n + 1 ∧ scan b t = (.unicodeRange, n + 2)

theorem spaceRun_parts {b : UInt8} (hb : Byte.isSpace b = true) (t : Text) :
    PartsAt (b :: t) (1 + spaceRun t) := by
  have hlength : ((b :: t).takeWhile Byte.isSpace).length = 1 + spaceRun t := by
    rw [List.takeWhile_cons_of_pos hb, List.length_cons, spaceRun]
    omega
  have hlast := takeWhile_last Byte.isSpace (t := b :: t) (by omega)
  rw [hlength] at hlast
  exact .of_last (hlast.mono fun _ => isSpace_closer)

theorem stringRun_parts {b : UInt8} (hb : b = ascii '"' ∨ b = ascii '\'') (t : Text) :
    PartsAt (b :: t) (1 + (stringRunFrom b 0 t).2) := by
  by_cases hshort : (stringRunFrom b 0 t).2 < t.length
  · rw [Nat.add_comm]
    refine .of_last (((stringRunFrom_last b 0 t hshort).cons b).mono ?_)
    rintro c (rfl | hnewline)
    · rcases hb with rfl | rfl <;> decide
    · apply isSpace_closer
      simp only [Byte.isNewline, Bool.or_eq_true] at hnewline
      simp only [Byte.isSpace, Bool.or_eq_true]
      tauto
  · apply partsAt_of_length_le
    rw [List.length_cons]
    omega

theorem commentRun_parts (t : Text) :
    PartsAt (ascii '/' :: ascii '*' :: t) (2 + commentRun t) := by
  by_cases hshort : commentRun t < t.length
  · rw [Nat.add_comm]
    refine .of_last ((((commentRun_last t hshort).cons _).cons _).mono ?_)
    rintro c rfl
    decide
  · apply partsAt_of_length_le
    rw [List.length_cons, List.length_cons]
    omega

/-- A mark of several bytes, the last of which closes it. -/
theorem partsAt_mark (mark : Text) {b : UInt8} (hb : IsCloser b) (t : Text) :
    PartsAt (mark ++ b :: t) (mark.length + 1) := by
  apply PartsAt.of_last
  refine ⟨mark, b, ?_, hb⟩
  rw [show mark ++ b :: t = (mark ++ [b]) ++ t by simp]
  exact List.take_left' (by simp)

theorem partsAt_delim {b : UInt8} {t : Text} (hword : Byte.isWord b = false)
    (hnumber : numeric? (b :: t) = none) : PartsAt (b :: t) 1 := by
  intro x a c s hsplit hn
  obtain rfl : x = [] := List.length_eq_zero_iff.mp (by omega)
  rw [List.nil_append, List.cons.injEq] at hsplit
  obtain ⟨rfl, rfl⟩ := hsplit
  refine ⟨fun hb => ?_, fun hpoint => ?_⟩
  · rw [hword] at hb
    exact absurd hb (by decide)
  · rw [hpoint] at hnumber
    exact isDigit_of_point hnumber

/-- The token at the head of `b :: t` ends where its text belongs apart from the rest, or
it is a unicode range. -/
def EndsApart (b : UInt8) (t : Text) : Prop :=
  (scan b t).1 ≠ .unicodeRange ∧ PartsAt (b :: t) (scan b t).2 ∨ RangeAt b t

section Scan

variable {b : UInt8} {t : Text} {kind : TokenKind} {n : Nat}

theorem EndsApart.of_some (hfound : scan? b t = some (kind, n)) (hkind : kind ≠ .unicodeRange)
    (hparts : PartsAt (b :: t) n) : EndsApart b t := by
  unfold EndsApart
  rw [scan, hfound]
  exact .inl ⟨hkind, hparts⟩

theorem EndsApart.of_none (hfound : scan? b t = none) (hparts : PartsAt (b :: t) 1) :
    EndsApart b t := by
  unfold EndsApart
  rw [scan, hfound]
  exact .inl ⟨by decide, hparts⟩

theorem EndsApart.of_closer (hfound : scan? b t = none) (hb : IsCloser b) : EndsApart b t :=
  .of_none hfound (.of_last (lastIs_one hb))

theorem EndsApart.of_numeric? (hfound : scan? b t = some (kind, n))
    (hrule : numeric? (b :: t) = some (kind, n)) : EndsApart b t := by
  refine .of_some hfound ?_ (numeric?_parts hrule)
  rintro rfl
  simpa using numeric?_kind hrule

theorem EndsApart.of_identLike? (hfound : scan? b t = some (kind, n))
    (hrule : identLike? (b :: t) = some (kind, n)) : EndsApart b t := by
  refine .of_some hfound ?_ (identLike?_parts hrule)
  rintro rfl
  simpa using identLike?_kind hrule

/-- Behind a hyphen: the end of a comment mark, a custom property, a name or a number. -/
theorem endsApart_hyphen (t : Text) : EndsApart (ascii '-') t := by
  have hscan : scan? (ascii '-') t = (if (utf8 "->").isPrefixOf t then some (.cdc, 3)
      else if t.head? = some (ascii '-') then
        some (.customPropertyName, identLength (ascii '-' :: t))
      else (identLike? (ascii '-' :: t)).or (numeric? (ascii '-' :: t))) := rfl
  have hcloser : IsCloser (ascii '-') := by decide
  split_ifs at hscan with hmark hhyphen
  · obtain ⟨s, rfl⟩ := List.isPrefixOf_iff_prefix.mp hmark
    refine .of_some hscan (by decide) ?_
    exact partsAt_mark [ascii '-', ascii '-'] (b := ascii '>') (by decide) s
  · refine .of_some hscan (by decide) (.of_next (identLength_next ?_))
    obtain ⟨s, rfl⟩ := List.head?_eq_some_iff.mp hhyphen
    rw [identLength, if_pos rfl, if_pos rfl]
    omega
  · cases hident : identLike? (ascii '-' :: t) with
    | some found => exact .of_identLike? (by rw [hscan, hident]; rfl) hident
    | none =>
      rw [hident, Option.none_or] at hscan
      cases hnumber : numeric? (ascii '-' :: t) with
      | some found => exact .of_numeric? (by rw [hscan, hnumber]) hnumber
      | none => exact .of_closer (by rw [hscan, hnumber]) hcloser

theorem endsApart_operator (hb : matchOperator? b = some kind)
    (hscan : scan? b t = (if t.head? = some (ascii '=') then some (kind, 2)
      else if b = ascii '|' && t.head? = some (ascii '|') then some (.column, 2)
      else none)) : EndsApart b t := by
  obtain ⟨hcloser, hkind⟩ := matchOperator?_closer hb
  split_ifs at hscan with hequal hbar
  · obtain ⟨s, rfl⟩ := List.head?_eq_some_iff.mp hequal
    exact .of_some hscan hkind (.of_last ((lastIs_one (by decide)).cons b))
  · simp only [Bool.and_eq_true, decide_eq_true_eq] at hbar
    obtain ⟨s, rfl⟩ := List.head?_eq_some_iff.mp hbar.2
    exact .of_some hscan (by decide) (.of_last ((lastIs_one (by decide)).cons b))
  · exact .of_closer hscan hcloser

end Scan

/-- Every token ends apart from the rest of its text, if it is no unicode range. -/
theorem scan_parts (b : UInt8) (t : Text) : EndsApart b t := by
  obtain ⟨hb, hscan⟩ | ⟨kind, hb, hscan⟩ | ⟨rfl, hscan⟩ | ⟨hb, hscan⟩ | ⟨hb, hscan⟩ | ⟨rfl, hscan⟩ |
    ⟨rfl, hscan⟩ | ⟨rfl, hscan⟩ | ⟨rfl, hscan⟩ | ⟨kind, hb, hscan⟩ | ⟨rfl, hscan⟩ |
    ⟨hb, hscan⟩ | hscan := scan?_cases b
  · exact .of_some (hscan t) (by decide) (spaceRun_parts hb t)
  · obtain ⟨hcloser, hkind⟩ := punctuation?_closer hb
    exact .of_some (hscan t) hkind (.of_last (lastIs_one hcloser))
  · cases hname : nameRun t with
    | zero => exact .of_closer (by rw [hscan, hname]) (by decide)
    | succ n =>
      have hnext := nameRun_next t
      rw [hname] at hnext
      exact .of_some (n := n + 2) (by rw [hscan, hname]) (by decide) (.of_next (hnext.cons _))
  · refine .of_some (hscan t) ?_ (stringRun_parts hb t)
    split_ifs <;> decide
  · cases hrule : numeric? (b :: t) with
    | none =>
      refine .of_none (by rw [hscan, hrule]) (partsAt_delim ?_ hrule)
      rcases hb with rfl | rfl <;> rfl
    | some found => exact .of_numeric? (by rw [hscan, hrule]) hrule
  · exact endsApart_hyphen t
  · cases hname : identLength t with
    | zero => exact .of_closer (by rw [hscan, hname]) (by decide)
    | succ n =>
      have hnext := identLength_next (t := t) (by omega)
      rw [hname] at hnext
      exact .of_some (n := n + 2) (by rw [hscan, hname]) (by decide) (.of_next (hnext.cons _))
  · have hcloser : IsCloser (ascii '/') := by decide
    cases t with
    | nil => exact .of_closer (hscan []) hcloser
    | cons c t =>
      by_cases hstar : c = ascii '*'
      · subst hstar
        exact .of_some (hscan _) (by decide) (commentRun_parts t)
      · exact .of_closer (by rw [hscan]; exact if_neg hstar) hcloser
  · by_cases hmark : (utf8 "!--").isPrefixOf t = true
    · obtain ⟨s, rfl⟩ := List.isPrefixOf_iff_prefix.mp hmark
      refine .of_some (n := 4) (by rw [hscan, if_pos hmark]) (by decide) ?_
      exact partsAt_mark (utf8 "<!-") (b := ascii '-') (by decide) s
    · exact .of_closer (by rw [hscan, if_neg hmark]) (by decide)
  · exact endsApart_operator hb (hscan t)
  · cases hrule : identLike? (ascii '\\' :: t) with
    | none => exact .of_closer (by rw [hscan, hrule]) (by decide)
    | some found => exact .of_identLike? (by rw [hscan, hrule]) hrule
  · cases hrange : unicodeRangeBody t with
    | zero =>
      cases hrule : identLike? (b :: t) with
      | none =>
        have hstart : isNameStart b = true := by
          rcases hb with rfl | rfl <;> rfl
        exact absurd (identLike?_eq_none_iff.mp hrule) (identLength_of_isNameStart hstart t)
      | some found => exact .of_identLike? (by rw [hscan, hrange]; exact hrule) hrule
    | succ n => exact .inr ⟨hb, n, hrange, by rw [scan, hscan, hrange]; rfl⟩
  · cases hnumber : numeric? (b :: t) with
    | some found => exact .of_numeric? (by rw [hscan, hnumber, Option.some_or]) hnumber
    | none =>
      cases hident : identLike? (b :: t) with
      | some found => exact .of_identLike? (by rw [hscan, hnumber, hident]; rfl) hident
      | none =>
        refine .of_none (by rw [hscan, hnumber, hident]; rfl) (partsAt_delim ?_ hnumber)
        apply isWord_of_not_start (isDigit_of_numeric?_none hnumber)
        by_contra hstart
        rw [Bool.not_eq_false] at hstart
        exact identLength_of_isNameStart hstart t (identLike?_eq_none_iff.mp hident)

/-! ## Unicode ranges -/

/-- The bytes of a unicode range behind its letter. -/
def isRangeByte (b : UInt8) : Bool :=
  Byte.isHexDigit b || b == ascii '+' || b == ascii '-' || b == ascii '?'

theorem forall_take_takeWhile {p q : UInt8 → Bool} (hpq : ∀ b, p b = true → q b = true)
    (t : Text) : ∀ b ∈ t.take (t.takeWhile p).length, q b = true := by
  intro b hb
  have htake : t.take (t.takeWhile p).length = t.takeWhile p := by
    nth_rewrite 2 [← List.takeWhile_append_dropWhile (p := p) (l := t)]
    exact List.take_left
  rw [htake] at hb
  exact hpq b (List.mem_takeWhile_imp hb)

theorem forall_take_add {p : UInt8 → Bool} {t : Text} {k n : Nat}
    (hfirst : ∀ b ∈ t.take k, p b = true) (hrest : ∀ b ∈ (t.drop k).take n, p b = true) :
    ∀ b ∈ t.take (k + n), p b = true := by
  intro b hb
  rw [List.take_add, List.mem_append] at hb
  rcases hb with hb | hb
  · exact hfirst b hb
  · exact hrest b hb

/-- A unicode range behind its letter: it has bytes of its own, starts with a plus sign and
takes in all digits of its last run. -/
structure IsRange (t : Text) (n : Nat) : Prop where
  starts : ∃ s, t = ascii '+' :: s
  bytes : ∀ b ∈ t.take n, isRangeByte b = true
  ends : LastIs (· = ascii '?') t n ∨ NextIs (Byte.isHexDigit · = false) t n

theorem unicodeRangeBody_isRange {t : Text} (hpos : unicodeRangeBody t ≠ 0) :
    IsRange t (unicodeRangeBody t) := by
  have hhex : ∀ b, Byte.isHexDigit b = true → isRangeByte b = true := by
    intro b hb
    simp [isRangeByte, hb]
  obtain _ | ⟨a, t⟩ := t
  · exact absurd rfl hpos
  by_cases hplus : a = ascii '+'
  swap
  · rw [unicodeRangeBody, if_neg hplus] at hpos
    exact absurd rfl hpos
  subst hplus
  have hfirst : ∀ b ∈ (ascii '+' :: t).take (1 + hexRun t), isRangeByte b = true := by
    apply forall_take_add
    · intro b hb
      rw [List.take_one, List.head?_cons, Option.toList_some, List.mem_singleton] at hb
      rw [hb]
      rfl
    · exact forall_take_takeWhile hhex t
  have hnext : NextIs (Byte.isHexDigit · = false) (ascii '+' :: t) (1 + hexRun t) := by
    rw [Nat.add_comm]
    exact (takeWhile_next Byte.isHexDigit t).cons _
  rw [unicodeRangeBody, if_pos rfl] at hpos ⊢
  simp only at hpos ⊢
  split at hpos
  · rename_i c rest hdrop
    have hbehind : (ascii '+' :: t).drop (1 + hexRun t) = c :: rest := by
      rw [Nat.add_comm, List.drop_succ_cons, hdrop]
    split_ifs at hpos ⊢ with hhyphen hsizes hsizes
    · -- A second run of digits stands behind a hyphen.
      rw [show 2 + hexRun t + hexRun rest = 1 + hexRun t + (hexRun rest + 1) by omega]
      refine ⟨⟨t, rfl⟩, forall_take_add hfirst ?_, .inr (NextIs.of_drop ?_)⟩
      · rw [hbehind, List.take_succ_cons, hhyphen]
        exact List.forall_mem_cons.mpr ⟨rfl, forall_take_takeWhile hhex rest⟩
      · rw [hbehind]
        exact (takeWhile_next Byte.isHexDigit rest).cons c
    · exact absurd rfl hpos
    · -- Question marks, if there are any, stand behind the first run.
      generalize hmarks : (c :: rest).takeWhile (· == ascii '?') = marks at *
      by_cases hnone : marks.length = 0
      · rw [hnone, Nat.add_zero]
        exact ⟨⟨t, rfl⟩, hfirst, .inr hnext⟩
      · have hmark : ∀ b, (b == ascii '?') = true → isRangeByte b = true := by
          intro b hb
          simp [isRangeByte, hb]
        refine ⟨⟨t, rfl⟩, forall_take_add hfirst ?_, .inl (LastIs.of_drop ?_)⟩
        · rw [hbehind, ← hmarks]
          exact forall_take_takeWhile hmark (c :: rest)
        · rw [hbehind, ← hmarks]
          refine (takeWhile_last (· == ascii '?') (by rwa [hmarks])).mono ?_
          intro b hb
          exact beq_iff_eq.mp hb
    · exact absurd rfl hpos
  · split_ifs at hpos ⊢
    · exact ⟨⟨t, rfl⟩, hfirst, .inr hnext⟩
    · exact absurd rfl hpos

/-! ## Tokens in their place -/

/-- A token that is no unicode range ends apart from what stands behind it. -/
theorem Token.Heads.parts {t : Token} {c : UInt8} {s : Text} (hheads : t.Heads (c :: s))
    (hkind : t.kind ≠ .unicodeRange) {x : Text} {b : UInt8} (htext : t.text = x ++ [b]) :
    Apart b c := by
  obtain ⟨a, tail, hcons, hscan⟩ := hheads
  rcases scan_parts a (tail ++ c :: s) with ⟨-, hparts⟩ | ⟨-, n, -, hrange⟩
  · rw [hscan] at hparts
    refine hparts x b c s ?_ ?_
    · rw [← List.cons_append, ← hcons, htext]
      simp
    · simp [htext]
  · rw [hrange] at hscan
    exact absurd (congrArg Prod.fst hscan).symm hkind

/-- A unicode range has its letter and bytes of its own, and takes in all digits of its
last run. -/
theorem Token.Heads.range {t : Token} {s : Text} (hheads : t.Heads s)
    (hkind : t.kind = .unicodeRange) :
    ∃ u body, t.text = u :: body ∧ (u = ascii 'u' ∨ u = ascii 'U') ∧ body ≠ [] ∧
      IsRange (body ++ s) body.length := by
  obtain ⟨u, body, hcons, hscan⟩ := hheads
  rcases scan_parts u (body ++ s) with ⟨hother, -⟩ | ⟨hu, n, hrange, hlength⟩
  · rw [hscan] at hother
    exact absurd hkind hother
  · have hn : n + 1 = body.length := by
      rw [hscan, hcons, List.length_cons] at hlength
      have hsize := congrArg Prod.snd hlength
      dsimp only at hsize
      omega
    refine ⟨u, body, hcons, hu, List.length_pos_iff.mp (by omega), ?_⟩
    have hspec : IsRange (body ++ s) (unicodeRangeBody (body ++ s)) :=
      unicodeRangeBody_isRange (by omega)
    rwa [hrange, hn] at hspec

/-- The last byte of a unicode range, and what can follow it. -/
theorem Token.Heads.range_last {t : Token} {c : UInt8} {s : Text} (hheads : t.Heads (c :: s))
    (hkind : t.kind = .unicodeRange) {x : Text} {b : UInt8} (htext : t.text = x ++ [b]) :
    isRangeByte b = true ∧ (b = ascii '?' ∨ Byte.isHexDigit c = false) := by
  obtain ⟨u, body, hcons, -, hne, hrange⟩ := hheads.range hkind
  have htake : (body ++ c :: s).take body.length = body := List.take_left
  have hdrop : (body ++ c :: s).drop body.length = c :: s := List.drop_left
  have hend := List.dropLast_append_getLast hne
  have hb : body.getLast hne = b := by
    rw [hcons, ← hend, ← List.cons_append] at htext
    exact List.singleton_inj.mp (List.append_inj' htext rfl).2
  constructor
  · apply hrange.bytes
    rw [htake, ← hb]
    exact List.getLast_mem hne
  · rcases hrange.ends with ⟨z, a, hz, rfl⟩ | hnext
    · left
      rw [htake, ← hend] at hz
      rw [← hb]
      exact List.singleton_inj.mp (List.append_inj' hz rfl).2
    · right
      apply hnext
      rw [hdrop]
      rfl

end PixelRem.Css
