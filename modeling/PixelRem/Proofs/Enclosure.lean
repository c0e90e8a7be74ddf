import Mathlib
import PixelRem.Proofs.Locality

/-!
# Rules with a closing mark

Strings, comments and addresses pass over stops.  They have a closing mark instead, and
nothing behind it is looked at: `Enclosed` says so of one rule, and there is a lemma
`…_enclosed` for each.  A run that can hold escapes carries the number of bytes still to pass
over, and the lemmas `le_…` say that it does pass over them.
-/

namespace PixelRem.Css

/-- A rule that looks at nothing behind the bytes it measures: where they lie in `u` and
the text goes on behind `u`, it does not matter how. -/
def Enclosed {α : Type} (rule : Text → α) (size : α → Nat) : Prop :=
  ∀ u y z, y ≠ [] → size (rule (u ++ y)) ≤ u.length → rule (u ++ z) = rule (u ++ y)

theorem spaceRun_enclosed : Enclosed spaceRun (· + 1) := by
  intro u y z hy hsize
  induction u with
  | nil => simp at hsize
  | cons b u ih =>
    simp only [spaceRun, List.cons_append, List.takeWhile_cons, List.length_cons] at hsize ih ⊢
    split_ifs at hsize ⊢
    · simp only [List.length_cons] at hsize ⊢
      rw [ih (by omega)]
    · rfl

/-- An escape that ends before the last byte of a text is the same whatever follows. -/
theorem escapeLength_enclosed {b : UInt8} {u y z : Text} (hy : y ≠ []) (hu : u ≠ [])
    (hsize : escapeLength (b :: (u ++ y)) ≤ u.length) :
    escapeLength (b :: (u ++ z)) = escapeLength (b :: (u ++ y)) :=
  escapeLength_append hu hy (by omega) fun hlong => by omega

theorem le_stringRunFrom (quote : UInt8) (skip : Nat) (t : Text) :
    min (skip + 1) t.length ≤ (stringRunFrom quote skip t).2 := by
  induction t generalizing skip with
  | nil => simp
  | cons b t ih =>
    cases skip with
    | succ skip =>
      have hrest := ih skip
      simp only [stringRunFrom, List.length_cons]
      omega
    | zero =>
      simp only [stringRunFrom, List.length_cons]
      split_ifs <;> dsimp only <;> omega

/-- Behind a backslash that escapes nothing a string goes on with a line end. -/
theorem newlineLength_pos {t : Text} (hnext : Unescapable t) (ht : t ≠ []) :
    1 ≤ newlineLength t := by
  obtain ⟨b, t, rfl⟩ := List.exists_cons_of_ne_nil ht
  have hline : Byte.isNewline b = true := hnext b rfl
  cases t with
  | nil => simp [newlineLength, hline]
  | cons c t =>
    rw [newlineLength, if_pos hline]
    split_ifs <;> omega

theorem stringRun_enclosed (quote : UInt8) (skip : Nat) :
    Enclosed (stringRunFrom quote skip) Prod.snd := by
  intro u y z hy hsize
  have hlength := List.length_pos_of_ne_nil hy
  induction u generalizing skip with
  | nil =>
    have hread := le_stringRunFrom quote skip y
    rw [List.nil_append, List.length_nil] at hsize
    omega
  | cons b u ih =>
    simp only [List.cons_append, List.length_cons] at hsize ⊢
    cases skip with
    | succ skip =>
      rw [stringRunFrom] at hsize ⊢
      rw [stringRunFrom, ih skip (by simpa using hsize)]
    | zero =>
      rw [stringRunFrom] at hsize ⊢
      rw [stringRunFrom]
      split_ifs at hsize ⊢ with hline hquote hslash
      · rfl
      · rfl
      · -- an escape or an escaped line end lies in `u`, with a byte behind it
        cases hescape : escapeLength (b :: (u ++ y)) with
        | zero =>
          rw [hescape] at hsize
          dsimp only at hsize
          have hread := le_stringRunFrom quote (newlineLength (u ++ y)) (u ++ y)
          have hpos := newlineLength_pos (escapeLength_eq_zero_iff.mp hescape hslash)
            (List.append_ne_nil_of_right_ne_nil u hy)
          rw [List.length_append] at hread
          match u with
          | c :: d :: u =>
            have hsame : newlineLength (c :: d :: u ++ z) = newlineLength (c :: d :: u ++ y) := rfl
            rw [escapeLength_enclosed hy (by simp) (by omega), hescape, hsame]
            dsimp only
            rw [ih _ (by omega)]
          | [c] =>
            rw [List.length_singleton] at hread hsize
            omega
          | [] =>
            rw [List.length_nil] at hread hsize
            omega
        | succ k =>
          rw [hescape] at hsize
          dsimp only at hsize
          have hread := le_stringRunFrom quote k (u ++ y)
          rw [List.length_append] at hread
          have hu : u ≠ [] := by
            rintro rfl
            rw [List.length_nil] at hread hsize
            omega
          rw [escapeLength_enclosed hy hu (by omega), hescape]
          dsimp only
          rw [ih k (by omega)]
      · rw [ih 0 (by simpa using hsize)]

theorem commentRun_enclosed : Enclosed commentRun id := by
  intro u y z hy hsize
  have hpos : ∀ w : Text, w ≠ [] → 1 ≤ commentRun w := by
    intro w hw
    fun_cases commentRun w <;> simp_all
  induction u with
  | nil => exact absurd hsize (by simpa using Nat.one_le_iff_ne_zero.mp (hpos y hy))
  | cons a u ih =>
    cases u with
    | nil =>
      -- the closing mark has two bytes
      obtain ⟨c, y, rfl⟩ := List.exists_cons_of_ne_nil hy
      have hrest := hpos (c :: y) hy
      simp only [List.cons_append, List.nil_append, commentRun, id, List.length_cons,
        List.length_nil] at hsize
      split_ifs at hsize <;> omega
    | cons c u =>
      simp only [List.cons_append, commentRun, id, List.length_cons] at hsize ih ⊢
      split_ifs at hsize ⊢
      · rfl
      · rw [ih (by omega)]

theorem le_urlRunFrom (skip : Nat) (t : Text) : min skip t.length ≤ (urlRunFrom skip t).2 := by
  induction t generalizing skip with
  | nil => simp
  | cons b t ih =>
    cases skip with
    | zero => simp
    | succ skip =>
      have hrest := ih skip
      simp only [urlRunFrom, List.length_cons]
      omega

/-- An address stops at a byte of `u` for what that byte is, but for a backslash at the end. -/
theorem urlRunFrom_enclosed {u y z : Text} (hy : y ≠ []) (skip : Nat)
    (hstop : u.drop (urlRunFrom skip (u ++ y)).2 ≠ [])
    (hlast : u.drop (urlRunFrom skip (u ++ y)).2 ≠ [ascii '\\']) :
    urlRunFrom skip (u ++ z) = urlRunFrom skip (u ++ y) := by
  induction u generalizing skip with
  | nil => simp at hstop
  | cons b u ih =>
    simp only [List.cons_append] at hstop hlast ⊢
    cases skip with
    | succ skip =>
      rw [urlRunFrom] at hstop hlast ⊢
      dsimp only at hstop hlast ⊢
      rw [urlRunFrom, ih skip hstop hlast]
    | zero =>
      rw [urlRunFrom] at hstop hlast ⊢
      rw [urlRunFrom]
      split_ifs at hstop hlast ⊢ with hclose hbreak hslash
      · rfl
      · rfl
      · subst hslash
        cases hescape : escapeLength (ascii '\\' :: (u ++ y)) with
        | zero =>
          rw [hescape] at hlast
          have hu : u ≠ [] := by
            rintro rfl
            exact hlast rfl
          rw [escapeLength_enclosed hy hu (by omega), hescape]
        | succ k =>
          rw [hescape] at hstop hlast
          dsimp only at hstop hlast
          rw [List.drop_succ_cons] at hstop hlast
          have hread := le_urlRunFrom k (u ++ y)
          rw [ne_eq, List.drop_eq_nil_iff, not_le] at hstop
          rw [List.length_append] at hread
          rw [escapeLength_enclosed hy (by rintro rfl; simp at hstop) (by omega), hescape]
          dsimp only
          rw [ih k (by rwa [ne_eq, List.drop_eq_nil_iff, not_le]) hlast]
      · dsimp only at hstop hlast
        rw [ih 0 hstop hlast]

theorem le_badUrlRunFrom (skip : Nat) (t : Text) :
    min (skip + 1) t.length ≤ badUrlRunFrom skip t := by
  induction t generalizing skip with
  | nil => simp
  | cons b t ih =>
    cases skip with
    | succ skip =>
      have hrest := ih skip
      rw [badUrlRunFrom, List.length_cons]
      omega
    | zero =>
      rw [badUrlRunFrom, List.length_cons]
      split_ifs <;> omega

theorem badUrlRun_enclosed (skip : Nat) : Enclosed (badUrlRunFrom skip) id := by
  intro u y z hy hsize
  have hlength := List.length_pos_of_ne_nil hy
  induction u generalizing skip with
  | nil =>
    have hread := le_badUrlRunFrom skip y
    rw [List.nil_append, List.length_nil, id] at hsize
    omega
  | cons b u ih =>
    simp only [List.cons_append, List.length_cons, id] at hsize ih ⊢
    cases skip with
    | succ skip =>
      rw [badUrlRunFrom] at hsize ⊢
      rw [badUrlRunFrom, ih skip (by omega)]
    | zero =>
      rw [badUrlRunFrom] at hsize ⊢
      rw [badUrlRunFrom]
      split_ifs at hsize ⊢
      · rfl
      · have hread := le_badUrlRunFrom (escapeLength (b :: (u ++ y)) - 1) (u ++ y)
        rw [List.length_append] at hread
        have hu : u ≠ [] := by
          rintro rfl
          rw [List.length_nil] at hsize hread
          omega
        rw [escapeLength_enclosed hy hu (by omega), ih _ (by omega)]

section Url

variable {u y : Text} {n : Nat} (hy : y ≠ [])

include hy

theorem badUrl_lt (hsize : (badUrl (u ++ y) n).2 ≤ u.length) : n < u.length := by
  rw [badUrl] at hsize
  dsimp only at hsize
  have hlength := List.length_pos_of_ne_nil hy
  have hread := le_badUrlRunFrom 0 ((u ++ y).drop n)
  rw [List.length_drop, List.length_append] at hread
  omega

theorem closeUrl_lt (hsize : (closeUrl (u ++ y) n).2 ≤ u.length) :
    n + spaceRun ((u ++ y).drop n) < u.length := by
  rw [closeUrl] at hsize
  split at hsize
  · rename_i hnil
    have hy' := List.length_pos_of_ne_nil hy
    rw [List.drop_eq_nil_iff, List.length_append] at hnil
    dsimp only at hsize
    omega
  · split_ifs at hsize
    · exact hsize
    · exact badUrl_lt hy hsize

/-- What is left of a broken address does not begin with a last backslash. -/
theorem badUrl_drop_ne (hsize : (badUrl (u ++ y) n).2 ≤ u.length) : u.drop n ≠ [ascii '\\'] := by
  intro hlast
  have hn := badUrl_lt hy hsize
  have hdrop : (u ++ y).drop n = ascii '\\' :: y := by
    rw [List.drop_append_of_le_length (by omega), hlast]
    rfl
  have hlength := congrArg List.length hlast
  rw [List.length_drop, List.length_singleton] at hlength
  rw [badUrl, hdrop, badUrlRunFrom, if_neg (by decide)] at hsize
  dsimp only at hsize
  have hread := le_badUrlRunFrom (escapeLength (ascii '\\' :: y) - 1) y
  have hy' := List.length_pos_of_ne_nil hy
  omega

theorem closeUrl_drop_ne (hsize : (closeUrl (u ++ y) n).2 ≤ u.length) :
    u.drop n ≠ [ascii '\\'] := by
  intro hlast
  have hn := closeUrl_lt hy hsize
  have hdrop : (u ++ y).drop n = ascii '\\' :: y := by
    rw [List.drop_append_of_le_length (by omega), hlast]
    rfl
  have hspace : spaceRun (ascii '\\' :: y) = 0 := rfl
  rw [closeUrl, hdrop, hspace, Nat.add_zero, hdrop] at hsize
  dsimp only at hsize
  rw [if_neg (by decide)] at hsize
  exact badUrl_drop_ne hy hsize hlast

end Url

theorem badUrl_enclosed (n : Nat) : Enclosed (badUrl · n) Prod.snd := by
  intro u y z hy hsize
  dsimp only at hsize ⊢
  have hn := badUrl_lt hy hsize
  have hdrop (w : Text) : (u ++ w).drop n = u.drop n ++ w :=
    List.drop_append_of_le_length (by omega)
  rw [badUrl, hdrop] at hsize
  rw [badUrl, badUrl, hdrop, hdrop, badUrlRun_enclosed 0 (u.drop n) y z hy]
  rw [List.length_drop, id]
  dsimp only at hsize
  omega

theorem closeUrl_enclosed (n : Nat) : Enclosed (closeUrl · n) Prod.snd := by
  intro u y z hy hsize
  dsimp only at hsize ⊢
  have hstop := closeUrl_lt hy hsize
  have hdrop (w : Text) : (u ++ w).drop n = u.drop n ++ w :=
    List.drop_append_of_le_length (by omega)
  rw [hdrop] at hstop
  have hspace : spaceRun (u.drop n ++ z) = spaceRun (u.drop n ++ y) := by
    refine spaceRun_enclosed (u.drop n) y z hy ?_
    rw [List.length_drop]
    show spaceRun (u.drop n ++ y) + 1 ≤ u.length - n
    omega
  obtain ⟨b, v, -, hcons⟩ := drop_append_cons hstop
  rw [closeUrl, hdrop] at hsize
  rw [closeUrl, closeUrl, hdrop, hdrop, hspace]
  rw [hcons] at hsize
  rw [hcons, hcons]
  dsimp only at hsize ⊢
  split_ifs at hsize ⊢
  · rfl
  · exact badUrl_enclosed _ u y z hy hsize

/-- An address that is closed within `u` has read the white space before its content
there. -/
theorem urlBody_lt {u y : Text} (hy : y ≠ []) (hsize : (urlBody (u ++ y)).2 ≤ u.length) :
    spaceRun (u ++ y) < u.length := by
  rw [urlBody] at hsize
  dsimp only at hsize
  split at hsize
  · have hclose := closeUrl_lt hy hsize
    omega
  · split_ifs at hsize
    · have hclose := closeUrl_lt hy hsize
      omega
    · have hbad := badUrl_lt hy hsize
      omega
    · have hclose := closeUrl_lt hy hsize
      omega
    · split at hsize
      · split_ifs at hsize
        · have hclose := closeUrl_lt hy hsize
          omega
        · have hbad := badUrl_lt hy hsize
          omega
      · have hbad := badUrl_lt hy hsize
        omega

theorem urlBody_enclosed : Enclosed urlBody Prod.snd := by
  intro u y z hy hsize
  have hstart := urlBody_lt hy hsize
  have hspace : spaceRun (u ++ z) = spaceRun (u ++ y) := spaceRun_enclosed u y z hy hstart
  obtain ⟨b, v, hv, hdrop⟩ := drop_append_cons hstart
  have hlength : v.length + 1 = u.length - spaceRun (u ++ y) := by
    rw [← List.length_drop, hv, List.length_cons]
  rw [urlBody, hdrop] at hsize
  rw [urlBody, urlBody, hspace, hdrop, hdrop]
  dsimp only at hsize ⊢
  by_cases hquote : (decide (b = ascii '"') || decide (b = ascii '\'')) = true
  · rw [if_pos hquote] at hsize
    rw [if_pos hquote, if_pos hquote]
    have hstring : stringRunFrom b 0 (v ++ z) = stringRunFrom b 0 (v ++ y) := by
      refine stringRun_enclosed b 0 v y z hy ?_
      split_ifs at hsize
      · have hclose := closeUrl_lt hy hsize
        omega
      · have hbad := badUrl_lt hy hsize
        omega
    rw [hstring]
    split_ifs at hsize ⊢
    · exact closeUrl_enclosed _ u y z hy hsize
    · exact badUrl_enclosed _ u y z hy hsize
  · rw [if_neg hquote] at hsize
    rw [if_neg hquote, if_neg hquote]
    -- the content ends in `u`, with the byte behind it
    have hend : spaceRun (u ++ y) + (urlRunFrom 0 (b :: (v ++ y))).2 < u.length ∧
        u.drop (spaceRun (u ++ y) + (urlRunFrom 0 (b :: (v ++ y))).2) ≠ [ascii '\\'] := by
      split_ifs at hsize
      · have hclose := closeUrl_lt hy hsize
        exact ⟨by omega, closeUrl_drop_ne hy hsize⟩
      · split at hsize
        · rename_i c rest hrest
          split_ifs at hsize with hblank
          · have hclose := closeUrl_lt hy hsize
            refine ⟨by omega, fun hlast => ?_⟩
            rw [List.drop_append_of_le_length (by omega), hlast] at hrest
            obtain ⟨rfl, -⟩ := List.cons.inj hrest
            exact absurd hblank (by decide)
          · exact ⟨badUrl_lt hy hsize, badUrl_drop_ne hy hsize⟩
        · exact ⟨badUrl_lt hy hsize, badUrl_drop_ne hy hsize⟩
    have hrun : urlRunFrom 0 (b :: (v ++ z)) = urlRunFrom 0 (b :: (v ++ y)) := by
      have hrest : (b :: v).drop (urlRunFrom 0 (b :: (v ++ y))).2 =
          u.drop (spaceRun (u ++ y) + (urlRunFrom 0 (b :: (v ++ y))).2) := by
        rw [← hv, List.drop_drop]
      refine urlRunFrom_enclosed (u := b :: v) hy 0 ?_ ?_
      · rw [List.cons_append, hrest, ne_eq, List.drop_eq_nil_iff, not_le]
        exact hend.1
      · rw [List.cons_append, hrest]
        exact hend.2
    obtain ⟨c, w, -, hrest⟩ := drop_append_cons hend.1
    rw [hrest] at hsize
    rw [hrun, hrest, hrest]
    dsimp only at hsize ⊢
    split_ifs at hsize ⊢
    · exact closeUrl_enclosed _ u y z hy hsize
    · exact closeUrl_enclosed _ u y z hy hsize
    · exact badUrl_enclosed _ u y z hy hsize

end PixelRem.Css
