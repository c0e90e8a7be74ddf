import Mathlib
import PixelRem.Css.Lexer

/-!
# Tokens and their texts

The lexer cuts a text without gaps: the texts of the tokens make up the text again,
each token has at least one byte, and no rule of the token syntax reads past the end.

`Token.Heads` says that a token is the one at the head of a text, with what follows
it present, and `Cut` says so of a run of tokens one after another.  The tokens of a
text are cut from it (`cut_tokenize`), and whatever is cut from the head of a text is
what the lexer finds there (`tokenizeFrom_cut`), up to the offsets, which `place`
gives.
-/

namespace PixelRem.Css

/-! ## No rule reads past the end -/

theorem escapeBody_le (t : Text) : escapeBody t ≤ t.length := by
  obtain _ | ⟨b, t⟩ := t
  · rfl
  rw [escapeBody]
  split_ifs with hnewline hhex
  · exact Nat.zero_le _
  · have hdigits : (((b :: t).take 6).takeWhile Byte.isHexDigit).length ≤ (b :: t).length :=
      (List.takeWhile_prefix _).length_le.trans (List.take_prefix _ _).length_le
    dsimp only
    split
    · rename_i c rest hrest
      have hlength := congrArg List.length hrest
      simp only [List.length_drop, List.length_cons] at hlength hdigits ⊢
      split_ifs <;> omega
    · exact hdigits
  · exact Nat.min_le_right _ _

theorem escapeLength_le (t : Text) : escapeLength t ≤ t.length := by
  obtain _ | ⟨b, t⟩ := t
  · rfl
  rw [escapeLength]
  have hbody := escapeBody_le t
  split_ifs
  · split
    · exact Nat.zero_le _
    · rename_i n hn
      rw [List.length_cons]
      omega
  · exact Nat.zero_le _

theorem nameRunFrom_le (skip : Nat) (t : Text) : nameRunFrom skip t ≤ t.length := by
  fun_induction nameRunFrom skip t with
  | case1 => exact Nat.zero_le _
  | case2 skip b t ih => rw [List.length_cons]; omega
  | case3 b t hname ih => rw [List.length_cons]; omega
  | case4 => exact Nat.zero_le _
  | case5 b t hname k hescape ih => rw [List.length_cons]; omega

theorem nameRun_le (t : Text) : nameRun t ≤ t.length :=
  nameRunFrom_le 0 t

theorem nameStartLength_le (t : Text) : nameStartLength t ≤ t.length := by
  obtain _ | ⟨b, t⟩ := t
  · rfl
  rw [nameStartLength]
  split_ifs
  · rw [List.length_cons]; omega
  · exact escapeLength_le _

theorem plainIdentLength_le (t : Text) : plainIdentLength t ≤ t.length := by
  rw [plainIdentLength]
  have hstart := nameStartLength_le t
  split
  · exact Nat.zero_le _
  · rename_i k hk
    have hrun := nameRun_le (t.drop (k + 1))
    rw [List.length_drop] at hrun
    omega

theorem identLength_le (t : Text) : identLength t ≤ t.length := by
  unfold identLength
  split
  · rename_i a b t
    split_ifs
    · have hrun := nameRun_le t
      simp only [List.length_cons]
      omega
    · have hplain := plainIdentLength_le (b :: t)
      split
      · exact Nat.zero_le _
      · simp only [List.length_cons] at hplain ⊢
        omega
    · exact plainIdentLength_le _
  · exact plainIdentLength_le _

theorem digitRun_le (t : Text) : digitRun t ≤ t.length :=
  (List.takeWhile_prefix _).length_le

theorem fractionLength_le (t : Text) : fractionLength t ≤ t.length := by
  obtain _ | ⟨b, t⟩ := t
  · rfl
  rw [fractionLength]
  have hrun := digitRun_le t
  split_ifs
  · split
    · exact Nat.zero_le _
    · rw [List.length_cons]
      omega
  · exact Nat.zero_le _

theorem signLength_le (t : Text) : signLength t ≤ t.length := by
  obtain _ | ⟨b, t⟩ := t
  · rfl
  rw [signLength, List.length_cons]
  split_ifs <;> omega

theorem exponentLength_le (t : Text) : exponentLength t ≤ t.length := by
  obtain _ | ⟨b, t⟩ := t
  · rfl
  rw [exponentLength]
  have hsign := signLength_le t
  have hrun := digitRun_le (t.drop (signLength t))
  rw [List.length_drop] at hrun
  split_ifs
  · dsimp only
    split
    · exact Nat.zero_le _
    · rw [List.length_cons]
      omega
  · exact Nat.zero_le _

theorem numberLength_le (t : Text) : numberLength t ≤ t.length := by
  rw [numberLength]
  have hsign := signLength_le t
  have hwhole := digitRun_le (t.drop (signLength t))
  have hfraction := fractionLength_le (t.drop (signLength t + digitRun (t.drop (signLength t))))
  rw [List.length_drop] at hwhole hfraction
  dsimp only
  split_ifs
  · exact Nat.zero_le _
  · have hexponent := exponentLength_le (t.drop (signLength t + digitRun (t.drop (signLength t)) +
      fractionLength (t.drop (signLength t + digitRun (t.drop (signLength t))))))
    rw [List.length_drop] at hexponent
    omega

/-- A rule gives a length between one and the length of the text. -/
def Fits (found : TokenKind × Nat) (t : Text) : Prop :=
  1 ≤ found.2 ∧ found.2 ≤ t.length

theorem numeric?_fits {t : Text} {found : TokenKind × Nat} (hfound : numeric? t = some found) :
    Fits found t := by
  rw [numeric?] at hfound
  have hnumber := numberLength_le t
  split at hfound
  · simp at hfound
  rename_i n hn
  have hbehind := identLength_le (t.drop (n + 1))
  rw [List.length_drop] at hbehind
  dsimp only at hfound
  split at hfound
  · rename_i hhead
    have hnonempty : t.drop (n + 1) ≠ [] := by
      intro hnil
      rw [hnil] at hhead
      simp at hhead
    rw [Ne, List.drop_eq_nil_iff] at hnonempty
    simp only [Option.some.injEq] at hfound
    rw [← hfound, Fits]
    omega
  · split at hfound <;>
    · simp only [Option.some.injEq] at hfound
      rw [← hfound, Fits]
      omega

theorem stringRunFrom_le (quote : UInt8) (skip : Nat) (t : Text) :
    (stringRunFrom quote skip t).2 ≤ t.length := by
  fun_induction stringRunFrom quote skip t <;> simp_all

theorem commentRun_le (t : Text) : commentRun t ≤ t.length := by
  fun_induction commentRun t <;> simp_all
  omega

theorem spaceRun_le (t : Text) : spaceRun t ≤ t.length :=
  (List.takeWhile_prefix _).length_le

theorem urlRunFrom_le (skip : Nat) (t : Text) : (urlRunFrom skip t).2 ≤ t.length := by
  fun_induction urlRunFrom skip t <;> simp_all

theorem badUrlRunFrom_le (skip : Nat) (t : Text) : badUrlRunFrom skip t ≤ t.length := by
  fun_induction badUrlRunFrom skip t <;> simp_all <;> omega

theorem badUrl_le {t : Text} {n : Nat} (hn : n ≤ t.length) : (badUrl t n).2 ≤ t.length := by
  have hrun := badUrlRunFrom_le 0 (t.drop n)
  rw [List.length_drop] at hrun
  rw [badUrl]
  omega

theorem closeUrl_le {t : Text} {n : Nat} (hn : n ≤ t.length) : (closeUrl t n).2 ≤ t.length := by
  have hspace := spaceRun_le (t.drop n)
  rw [List.length_drop] at hspace
  rw [closeUrl]
  split
  · omega
  · rename_i b rest hrest
    have hlength := congrArg List.length hrest
    rw [List.length_drop, List.length_cons] at hlength
    split_ifs
    · dsimp only
      omega
    · exact badUrl_le (by omega)

theorem urlBody_le (t : Text) : (urlBody t).2 ≤ t.length := by
  have hspace := spaceRun_le t
  rw [urlBody]
  dsimp only
  split
  · exact closeUrl_le hspace
  · rename_i b rest hrest
    have hlength := congrArg List.length hrest
    rw [List.length_drop, List.length_cons] at hlength
    have hstring := stringRunFrom_le b 0 rest
    have hrun := urlRunFrom_le 0 (b :: rest)
    rw [List.length_cons] at hrun
    split_ifs
    · exact closeUrl_le (by omega)
    · exact badUrl_le (by omega)
    · exact closeUrl_le (by omega)
    · split
      · rename_i c rest' hrest'
        have hlength' := congrArg List.length hrest'
        rw [List.length_drop, List.length_cons] at hlength'
        split_ifs
        · exact closeUrl_le (by omega)
        · exact badUrl_le (by omega)
      · exact badUrl_le (by omega)

theorem identLike?_fits {t : Text} {found : TokenKind × Nat} (hfound : identLike? t = some found) :
    Fits found t := by
  rw [identLike?] at hfound
  have hident := identLength_le t
  split at hfound
  · simp at hfound
  rename_i n hn
  split at hfound
  · rename_i b body hrest
    have hlength := congrArg List.length hrest
    rw [List.length_drop, List.length_cons] at hlength
    have hbody := urlBody_le body
    dsimp only at hfound
    split_ifs at hfound <;>
    · simp only [Option.some.injEq] at hfound
      rw [← hfound, Fits]
      dsimp only
      omega
  · simp only [Option.some.injEq] at hfound
    rw [← hfound, Fits]
    omega

theorem hexRun_le (t : Text) : hexRun t ≤ t.length :=
  (List.takeWhile_prefix _).length_le

theorem unicodeRangeBody_le (t : Text) : unicodeRangeBody t ≤ t.length := by
  obtain _ | ⟨b, t⟩ := t
  · rfl
  rw [unicodeRangeBody]
  have hfirst := hexRun_le t
  split_ifs
  · dsimp only
    split
    · rename_i c rest hrest
      have hlength := congrArg List.length hrest
      rw [List.length_drop, List.length_cons] at hlength
      have hsecond := hexRun_le rest
      have hmarks : ((c :: rest).takeWhile (· == ascii '?')).length ≤ (c :: rest).length :=
        (List.takeWhile_prefix _).length_le
      rw [List.length_cons] at hmarks
      simp only [List.length_cons]
      split_ifs <;> omega
    · split_ifs <;> simp only [List.length_cons] <;> omega
  · exact Nat.zero_le _

/-! ## The rule that applies -/

/-- The rule for each first byte. -/
theorem scan?_cases (b : UInt8) :
    (Byte.isSpace b = true ∧ ∀ t, scan? b t = some (.whitespace, 1 + spaceRun t)) ∨
    (∃ kind, punctuation? b = some kind ∧ ∀ t, scan? b t = some (kind, 1)) ∨
    (b = ascii '#' ∧ ∀ t, scan? b t = (match nameRun t with
      | 0 => none
      | n + 1 => some (.hash, n + 2))) ∨
    ((b = ascii '"' ∨ b = ascii '\'') ∧ ∀ t,
      scan? b t = some (if (stringRunFrom b 0 t).1 then .string else .badString,
        1 + (stringRunFrom b 0 t).2)) ∨
    ((b = ascii '.' ∨ b = ascii '+') ∧ ∀ t, scan? b t = numeric? (b :: t)) ∨
    (b = ascii '-' ∧ ∀ t, scan? b t = (if (utf8 "->").isPrefixOf t then some (.cdc, 3)
      else if t.head? = some (ascii '-') then some (.customPropertyName, identLength (b :: t))
      else (identLike? (b :: t)).or (numeric? (b :: t)))) ∨
    (b = ascii '@' ∧ ∀ t, scan? b t = (match identLength t with
      | 0 => none
      | n + 1 => some (.atKeyword, n + 2))) ∨
    (b = ascii '/' ∧ ∀ t, scan? b t = (match t with
      | c :: rest => if c = ascii '*' then some (.comment, 2 + commentRun rest) else none
      | [] => none)) ∨
    (b = ascii '<' ∧ ∀ t,
      scan? b t = (if (utf8 "!--").isPrefixOf t then some (.cdo, 4) else none)) ∨
    (∃ kind, matchOperator? b = some kind ∧ ∀ t,
      scan? b t = (if t.head? = some (ascii '=') then some (kind, 2)
        else if b = ascii '|' && t.head? = some (ascii '|') then some (.column, 2)
        else none)) ∨
    (b = ascii '\\' ∧ ∀ t, scan? b t = identLike? (b :: t)) ∨
    ((b = ascii 'u' ∨ b = ascii 'U') ∧ ∀ t, scan? b t = (match unicodeRangeBody t with
      | 0 => identLike? (b :: t)
      | n + 1 => some (.unicodeRange, n + 2))) ∨
    ∀ t, scan? b t = (numeric? (b :: t)).or (identLike? (b :: t)) := by
  by_cases hspace : Byte.isSpace b = true
  · exact .inl ⟨hspace, fun t => by simp only [scan?, if_pos hspace]⟩
  refine .inr ?_
  cases hpunctuation : punctuation? b with
  | some kind =>
    exact .inl ⟨kind, rfl, fun t => by simp only [scan?, if_neg hspace, hpunctuation]⟩
  | none =>
  refine .inr ?_
  by_cases hhash : b = ascii '#'
  · exact .inl ⟨hhash, fun t => by
      cases hname : nameRun t <;>
        simp only [scan?, if_neg hspace, hpunctuation, if_pos hhash, hname]⟩
  refine .inr ?_
  by_cases hquote : (b = ascii '"' || b = ascii '\'') = true
  · exact .inl ⟨by simpa using hquote, fun t => by
      simp only [scan?, if_neg hspace, hpunctuation, if_neg hhash, if_pos hquote]⟩
  refine .inr ?_
  by_cases hpoint : (b = ascii '.' || b = ascii '+') = true
  · exact .inl ⟨by simpa using hpoint, fun t => by
      simp only [scan?, if_neg hspace, hpunctuation, if_neg hhash, if_neg hquote, if_pos hpoint]⟩
  refine .inr ?_
  by_cases hhyphen : b = ascii '-'
  · exact .inl ⟨hhyphen, fun t => by
      simp only [scan?, if_neg hspace, hpunctuation, if_neg hhash, if_neg hquote, if_neg hpoint,
        if_pos hhyphen]⟩
  refine .inr ?_
  by_cases hat : b = ascii '@'
  · exact .inl ⟨hat, fun t => by
      cases hname : identLength t <;>
        simp only [scan?, if_neg hspace, hpunctuation, if_neg hhash, if_neg hquote, if_neg hpoint,
          if_neg hhyphen, if_pos hat, hname]⟩
  refine .inr ?_
  by_cases hslash : b = ascii '/'
  · exact .inl ⟨hslash, fun t => by
      cases t <;>
        simp only [scan?, if_neg hspace, hpunctuation, if_neg hhash, if_neg hquote, if_neg hpoint,
          if_neg hhyphen, if_neg hat, if_pos hslash]⟩
  refine .inr ?_
  by_cases hless : b = ascii '<'
  · exact .inl ⟨hless, fun t => by
      simp only [scan?, if_neg hspace, hpunctuation, if_neg hhash, if_neg hquote, if_neg hpoint,
        if_neg hhyphen, if_neg hat, if_neg hslash, if_pos hless]⟩
  refine .inr ?_
  cases hoperator : matchOperator? b with
  | some kind =>
    exact .inl ⟨kind, rfl, fun t => by
      simp only [scan?, if_neg hspace, hpunctuation, if_neg hhash, if_neg hquote, if_neg hpoint,
        if_neg hhyphen, if_neg hat, if_neg hslash, if_neg hless, hoperator]⟩
  | none =>
  refine .inr ?_
  by_cases hback : b = ascii '\\'
  · exact .inl ⟨hback, fun t => by
      simp only [scan?, if_neg hspace, hpunctuation, if_neg hhash, if_neg hquote, if_neg hpoint,
        if_neg hhyphen, if_neg hat, if_neg hslash, if_neg hless, hoperator, if_pos hback]⟩
  refine .inr ?_
  by_cases hu : (b = ascii 'u' || b = ascii 'U') = true
  · exact .inl ⟨by simpa using hu, fun t => by
      cases hrange : unicodeRangeBody t <;>
        simp only [scan?, if_neg hspace, hpunctuation, if_neg hhash, if_neg hquote, if_neg hpoint,
          if_neg hhyphen, if_neg hat, if_neg hslash, if_neg hless, hoperator, if_neg hback,
          if_pos hu, hrange]⟩
  exact .inr fun t => by
    simp only [scan?, if_neg hspace, hpunctuation, if_neg hhash, if_neg hquote, if_neg hpoint,
      if_neg hhyphen, if_neg hat, if_neg hslash, if_neg hless, hoperator, if_neg hback, if_neg hu]

theorem scan?_fits {b : UInt8} {t : Text} {found : TokenKind × Nat}
    (hfound : scan? b t = some found) : Fits found (b :: t) := by
  obtain ⟨-, hscan⟩ | ⟨kind, -, hscan⟩ | ⟨-, hscan⟩ | ⟨-, hscan⟩ | ⟨-, hscan⟩ | ⟨hb, hscan⟩ |
    ⟨-, hscan⟩ | ⟨-, hscan⟩ | ⟨-, hscan⟩ | ⟨kind, -, hscan⟩ | ⟨-, hscan⟩ | ⟨-, hscan⟩ | hscan :=
    scan?_cases b <;> rw [hscan] at hfound
  · have hspace := spaceRun_le t
    rw [← Option.some.inj hfound, Fits, List.length_cons]
    omega
  · rw [← Option.some.inj hfound, Fits, List.length_cons]
    omega
  · have hname := nameRun_le t
    split at hfound
    · simp at hfound
    · rw [← Option.some.inj hfound, Fits, List.length_cons]
      omega
  · have hstring := stringRunFrom_le b 0 t
    rw [← Option.some.inj hfound, Fits, List.length_cons]
    omega
  · exact numeric?_fits hfound
  · split at hfound
    · rename_i hmark
      have hlength := (List.isPrefixOf_iff_prefix.mp hmark).length_le
      rw [show (utf8 "->").length = 2 from rfl] at hlength
      rw [← Option.some.inj hfound, Fits, List.length_cons]
      omega
    split at hfound
    · rename_i hhyphen
      obtain ⟨rest, rfl⟩ := List.head?_eq_some_iff.mp hhyphen
      have hident := identLength_le (b :: ascii '-' :: rest)
      rw [← Option.some.inj hfound, Fits]
      refine ⟨?_, hident⟩
      rw [hb, identLength, if_pos rfl, if_pos rfl]
      omega
    · rcases Option.or_eq_some_iff.mp hfound with hident | ⟨-, hnumber⟩
      · exact identLike?_fits hident
      · exact numeric?_fits hnumber
  · have hident := identLength_le t
    split at hfound
    · simp at hfound
    · rw [← Option.some.inj hfound, Fits, List.length_cons]
      omega
  · split at hfound
    · rename_i c rest
      have hcomment := commentRun_le rest
      split at hfound
      · rw [← Option.some.inj hfound, Fits]
        simp only [List.length_cons]
        omega
      · simp at hfound
    · simp at hfound
  · split at hfound
    · rename_i hmark
      have hlength := (List.isPrefixOf_iff_prefix.mp hmark).length_le
      rw [show (utf8 "!--").length = 3 from rfl] at hlength
      rw [← Option.some.inj hfound, Fits, List.length_cons]
      omega
    · simp at hfound
  · have hhead {c : UInt8} (h : t.head? = some c) : 1 ≤ t.length := by
      obtain ⟨rest, rfl⟩ := List.head?_eq_some_iff.mp h
      rw [List.length_cons]
      omega
    split at hfound
    · rename_i hequal
      have hlength := hhead hequal
      rw [← Option.some.inj hfound, Fits, List.length_cons]
      omega
    split at hfound
    · rename_i hbar
      simp only [Bool.and_eq_true, decide_eq_true_eq] at hbar
      have hlength := hhead hbar.2
      rw [← Option.some.inj hfound, Fits, List.length_cons]
      omega
    · simp at hfound
  · exact identLike?_fits hfound
  · have hrange := unicodeRangeBody_le t
    split at hfound
    · exact identLike?_fits hfound
    · rw [← Option.some.inj hfound, Fits, List.length_cons]
      omega
  · rcases Option.or_eq_some_iff.mp hfound with hnumber | ⟨-, hident⟩
    · exact numeric?_fits hnumber
    · exact identLike?_fits hident

/-- A token has at least one byte and ends with the text at the latest. -/
theorem scan_fits (b : UInt8) (t : Text) : Fits (scan b t) (b :: t) := by
  rw [scan]
  cases hfound : scan? b t with
  | none => simp [Fits]
  | some found => exact scan?_fits hfound

/-! ## Runs of tokens -/

/-- The text of a run of tokens. -/
def textOf (ts : List Token) : Text :=
  ts.flatMap Token.text

@[simp] theorem textOf_nil : textOf [] = [] := rfl

@[simp] theorem textOf_cons (t : Token) (ts : List Token) :
    textOf (t :: ts) = t.text ++ textOf ts := rfl

@[simp] theorem textOf_append (ts us : List Token) : textOf (ts ++ us) = textOf ts ++ textOf us :=
  List.flatMap_append

theorem textOf_concat (ts : List Token) (t : Token) : textOf (ts ++ [t]) = textOf ts ++ t.text := by
  rw [textOf_append, textOf_cons, textOf_nil, List.append_nil]

/-- The token is what the lexer finds where its text stands with `behind` following. -/
def Token.Heads (t : Token) (behind : Text) : Prop :=
  ∃ b tail, t.text = b :: tail ∧ scan b (tail ++ behind) = (t.kind, t.text.length)

/-- The tokens are found one after another where their texts stand with `behind`
following. -/
def Cut : List Token → Text → Prop
  | [], _ => True
  | t :: ts, behind => t.Heads (textOf ts ++ behind) ∧ Cut ts behind

theorem cut_append {ts us : List Token} {behind : Text} :
    Cut (ts ++ us) behind ↔ Cut ts (textOf us ++ behind) ∧ Cut us behind := by
  induction ts with
  | nil => simp [Cut]
  | cons t ts ih =>
    simp only [List.cons_append, Cut, ih, textOf_append, List.append_assoc, and_assoc]

theorem tokenizeFrom_nil (offset : Nat) : tokenizeFrom offset [] = [] := by
  rw [tokenizeFrom]

theorem tokenizeFrom_heads {t : Token} {behind : Text} (hheads : t.Heads behind) (offset : Nat) :
    tokenizeFrom offset (t.text ++ behind) =
      ⟨t.kind, t.text, offset⟩ :: tokenizeFrom (offset + t.text.length) behind := by
  obtain ⟨b, tail, htext, hscan⟩ := hheads
  rw [htext, List.cons_append, tokenizeFrom, hscan, htext]
  simp

/-- The tokens of a text are cut from it, and their texts make it up. -/
theorem cut_tokenizeFrom (offset : Nat) (t : Text) :
    Cut (tokenizeFrom offset t) [] ∧ textOf (tokenizeFrom offset t) = t := by
  fun_induction tokenizeFrom offset t with
  | case1 => exact ⟨trivial, rfl⟩
  | case2 offset b t kind length hscan text ih =>
    obtain ⟨hcut, htext⟩ := ih
    have hfits := scan_fits b t
    rw [hscan, Fits, List.length_cons] at hfits
    have hlength : text.length = length := by
      simp only [text, List.length_cons, List.length_take]
      dsimp only at hfits
      omega
    refine ⟨⟨⟨b, t.take (length - 1), rfl, ?_⟩, hcut⟩, ?_⟩
    · rw [htext, List.append_nil, List.take_append_drop, hscan, hlength]
    · rw [textOf_cons, htext]
      simp only [text, List.cons_append, List.take_append_drop]

theorem cut_tokenize (t : Text) : Cut (tokenize t) [] :=
  (cut_tokenizeFrom 0 t).1

theorem textOf_tokenize (t : Text) : textOf (tokenize t) = t :=
  (cut_tokenizeFrom 0 t).2

/-- The tokens with the offsets they have when the first one stands at `offset`. -/
def place (offset : Nat) : List Token → List Token
  | [] => []
  | t :: ts => ⟨t.kind, t.text, offset⟩ :: place (offset + t.text.length) ts

@[simp] theorem length_place (offset : Nat) (ts : List Token) :
    (place offset ts).length = ts.length := by
  induction ts generalizing offset with
  | nil => rfl
  | cons t ts ih => rw [place, List.length_cons, List.length_cons, ih]

theorem place_append (offset : Nat) (ts us : List Token) :
    place offset (ts ++ us) = place offset ts ++ place (offset + (textOf ts).length) us := by
  induction ts generalizing offset with
  | nil => rfl
  | cons t ts ih =>
    rw [List.cons_append, place, ih, place, List.cons_append, textOf_cons, List.length_append,
      Nat.add_assoc]

/-- What is cut from the head of a text is what the lexer finds there. -/
theorem tokenizeFrom_cut {ts : List Token} {behind : Text} (hcut : Cut ts behind) (offset : Nat) :
    tokenizeFrom offset (textOf ts ++ behind) =
      place offset ts ++ tokenizeFrom (offset + (textOf ts).length) behind := by
  induction ts generalizing offset with
  | nil => rfl
  | cons t ts ih =>
    obtain ⟨hheads, hcut⟩ := hcut
    rw [textOf_cons, List.append_assoc, tokenizeFrom_heads hheads, ih hcut, place,
      List.cons_append, List.length_append, Nat.add_assoc]

theorem tokenize_cut {ts : List Token} (hcut : Cut ts []) : tokenize (textOf ts) = place 0 ts := by
  have htokens := tokenizeFrom_cut hcut 0
  rwa [List.append_nil, tokenizeFrom_nil, List.append_nil] at htokens

end PixelRem.Css
