import Mathlib
import PixelRem.Proofs.Readers

/-!
# The reader accepts the grammar

`parse_eq_ok_iff` says that a stylesheet is accepted exactly when its tokens derive a
rule tree, and that the tree is the one that is returned.

`readRules` and `readRule` are the readers of rules without the bound on the tokens
they leave; their equations carry both directions.  `readRules_append` reads a
derivation in front of any tokens, and `reads_of_readRules` finds the derivation of
what was read, by induction on the number of tokens.
-/

namespace PixelRem.Css

/-! ## At-keywords -/

theorem isVendor_iff {mark : Text} :
    IsVendor mark ↔
      mark = [] ∨ 2 < mark.length ∧ mark.head? = some 0x2D ∧ mark.getLast? = some 0x2D := by
  obtain _ | ⟨a, mark⟩ := mark
  · simp [IsVendor]
  obtain rfl | ⟨word, z, rfl⟩ := mark.eq_nil_or_concat'
  · simp [IsVendor]
  have hlast : (a :: (word ++ [z])).getLast? = some z := by
    rw [← List.cons_append, List.getLast?_append]
    rfl
  have hlength : 2 < (a :: (word ++ [z])).length ↔ word ≠ [] := by
    rw [← List.length_pos_iff]
    simp only [List.length_cons, List.length_append, List.length_nil]
    omega
  rw [hlast, hlength]
  simp only [IsVendor, reduceCtorEq, false_or, List.head?_cons, Option.some.injEq]
  constructor
  · rintro ⟨word', hword, hmark⟩
    simp only [List.cons.injEq] at hmark
    obtain ⟨rfl, htail⟩ := hmark
    obtain ⟨rfl, hz⟩ := List.append_inj' htail rfl
    simp only [List.cons.injEq, and_true] at hz
    exact ⟨hword, rfl, hz⟩
  · rintro ⟨hword, rfl, rfl⟩
    exact ⟨word, hword, rfl⟩

theorem isKeyframesName_iff {name : Text} :
    isKeyframesName name = true ↔ ∃ mark, IsVendor mark ∧ name = mark ++ utf8 "keyframes" := by
  unfold isKeyframesName Text.dropSuffix?
  by_cases hsuffix : (utf8 "keyframes").isSuffixOf name
  · obtain ⟨mark, rfl⟩ := List.isSuffixOf_iff_suffix.mp hsuffix
    have hmark : (mark ++ utf8 "keyframes").take
        ((mark ++ utf8 "keyframes").length - (utf8 "keyframes").length) = mark := by simp
    rw [if_pos hsuffix, hmark]
    simp only [List.append_cancel_right_eq, exists_eq_right', isVendor_iff, Bool.or_eq_true,
      Bool.and_eq_true, List.isEmpty_iff, decide_eq_true_eq, beq_iff_eq, and_assoc]
  · rw [if_neg hsuffix]
    simp only [Bool.false_eq_true, false_iff]
    rintro ⟨mark, -, rfl⟩
    exact hsuffix (List.isSuffixOf_iff_suffix.mpr (List.suffix_append _ _))

theorem not_isKeyframes_of_isMedia {t : Token} (hmedia : IsMedia t) : ¬ IsKeyframes t := by
  rintro ⟨mark, -, -, hname⟩
  have hlength := congrArg List.length (hmedia.2.symm.trans hname)
  rw [List.length_append, show (utf8 "media").length = 5 from rfl,
    show (utf8 "keyframes").length = 9 from rfl] at hlength
  omega

/-- An at-keyword is told apart by its name in lower case. -/
theorem atRuleOf_cases {t : Token} (hkind : t.kind = .atKeyword) :
    IsMedia t ∧ atRuleOf t.text = .media ∨
      IsKeyframes t ∧ atRuleOf t.text = .keyframes (vendorOf t.text) ∨
      IsOther t ∧ atRuleOf t.text = .other := by
  unfold atRuleOf
  by_cases hmedia : Text.toLower (t.text.drop 1) = utf8 "media"
  · exact .inl ⟨⟨hkind, hmedia⟩, by rw [if_pos hmedia]⟩
  rw [if_neg hmedia]
  by_cases hframes : isKeyframesName (Text.toLower (t.text.drop 1))
  · obtain ⟨mark, hmark, hname⟩ := isKeyframesName_iff.mp hframes
    exact .inr (.inl ⟨⟨mark, hmark, hkind, hname⟩, by rw [if_pos hframes]; rfl⟩)
  · refine .inr (.inr ⟨⟨hkind, fun h => hmedia h.2, ?_⟩, by rw [if_neg hframes]⟩)
    rintro ⟨mark, hmark, -, hname⟩
    exact hframes (isKeyframesName_iff.mpr ⟨mark, hmark, hname⟩)

theorem atRuleOf_media {t : Token} (hmedia : IsMedia t) : atRuleOf t.text = .media := by
  obtain ⟨-, h⟩ | ⟨h, -⟩ | ⟨h, -⟩ := atRuleOf_cases hmedia.1
  · exact h
  · exact absurd h (not_isKeyframes_of_isMedia hmedia)
  · exact absurd hmedia h.2.1

theorem IsKeyframes.kind {t : Token} (hframes : IsKeyframes t) : t.kind = .atKeyword := by
  obtain ⟨-, -, hkind, -⟩ := hframes
  exact hkind

theorem atRuleOf_keyframes {t : Token} (hframes : IsKeyframes t) :
    atRuleOf t.text = .keyframes (vendorOf t.text) := by
  obtain ⟨h, -⟩ | ⟨-, h⟩ | ⟨h, -⟩ := atRuleOf_cases hframes.kind
  · exact absurd hframes (not_isKeyframes_of_isMedia h)
  · exact h
  · exact absurd hframes h.2.2

theorem atRuleOf_other {t : Token} (hother : IsOther t) : atRuleOf t.text = .other := by
  obtain ⟨h, -⟩ | ⟨h, -⟩ | ⟨-, h⟩ := atRuleOf_cases hother.1
  · exact absurd h hother.2.1
  · exact absurd h hother.2.2
  · exact h

/-! ## Equations of the readers of rules -/

theorem map_eq_ok_iff {ε α β : Type} {f : α → β} {x : Except ε α} {b : β} :
    x.map f = .ok b ↔ ∃ a, x = .ok a ∧ f a = b := by
  cases x <;> simp [Except.map]

/-- `ruleList` without the bound on the tokens it leaves. -/
def readRules (eof : Nat) (opened : Option Nat) (ts : List Token) :
    Except Fault (List Rule × List Token) :=
  (ruleList eof opened ts).map fun (rules, rest) => (rules, rest.1)

/-- `rule` without the bound on the tokens it leaves. -/
def readRule (eof : Nat) (t : Token) (ts : List Token) : Except Fault (Rule × List Token) :=
  (rule eof t ts).map fun (first, rest) => (first, rest.1)

theorem readRules_nil_none (eof : Nat) : readRules eof none [] = .ok ([], []) := by
  rw [readRules, ruleList]
  rfl

theorem readRules_nil_some (eof opened : Nat) :
    readRules eof (some opened) [] = .error ⟨opened, .missingClose⟩ := by
  rw [readRules, ruleList]
  rfl

theorem readRules_skip {eof : Nat} {opened : Option Nat} {t : Token} {ts : List Token}
    (hskip : t.kind.isSkipped = true) :
    readRules eof opened (t :: ts) = readRules eof opened ts := by
  rw [readRules, ruleList.eq_def]
  simp only [hskip, if_true]
  rw [readRules]
  cases ruleList eof opened ts <;> rfl

theorem readRules_close {eof opened : Nat} {t : Token} {ts : List Token}
    (hclose : t.kind = .rightBrace) : readRules eof (some opened) (t :: ts) = .ok ([], ts) := by
  rw [readRules, ruleList, if_neg (by simp [hclose, TokenKind.isSkipped]), if_pos hclose]
  rfl

theorem readRules_close_none {eof : Nat} {t : Token} {ts : List Token}
    (hclose : t.kind = .rightBrace) :
    readRules eof none (t :: ts) = .error ⟨t.offset, .unexpectedClose⟩ := by
  rw [readRules, ruleList, if_neg (by simp [hclose, TokenKind.isSkipped]), if_pos hclose]
  rfl

theorem readRules_rule {eof : Nat} {opened : Option Nat} {t : Token} {ts : List Token}
    (hskip : t.kind.isSkipped = false) (hclose : t.kind ≠ .rightBrace) :
    readRules eof opened (t :: ts) =
      match readRule eof t ts with
      | .error fault => .error fault
      | .ok (first, behind) =>
        (readRules eof opened behind).map fun (rules, rest) => (first :: rules, rest) := by
  rw [readRules, ruleList.eq_def, readRule]
  simp only [hskip, Bool.false_eq_true, if_false, hclose]
  cases rule eof t ts with
  | error fault => rfl
  | ok read =>
    obtain ⟨first, behind, hbehind⟩ := read
    simp only [Except.map, readRules]
    cases ruleList eof opened behind <;> rfl

theorem readRule_comment {eof : Nat} {t : Token} {ts : List Token} (hkind : t.kind = .comment) :
    readRule eof t ts = .ok (.comment (commentText t.text), ts) := by
  rw [readRule, rule]
  simp only [hkind]
  rfl

theorem readRule_media {eof : Nat} {t : Token} {ts : List Token} (hname : IsMedia t) :
    readRule eof t ts =
      match prelude eof ts with
      | .error fault => .error fault
      | .ok (pre, opened, body) =>
        (readRules eof (some opened) body).map fun (rules, rest) =>
          (.media (joinTokens pre) rules, rest) := by
  rw [readRule, rule]
  simp only [hname.1, atRuleOf_media hname]
  split
  · rename_i hread
    rw [hread]
    rfl
  · rename_i body hread
    simp only [hread, readRules]
    cases ruleList eof (some _) body <;> rfl

theorem readRule_keyframes {eof : Nat} {t : Token} {ts : List Token} (hname : IsKeyframes t) :
    readRule eof t ts =
      match prelude eof ts with
      | .error fault => .error fault
      | .ok (pre, opened, body) =>
        (keyframeList eof opened body).map fun (rules, rest) =>
          (.keyframes (vendorOf t.text) (joinTokens pre) rules, rest) := by
  rw [readRule, rule]
  simp only [hname.kind, atRuleOf_keyframes hname]
  split
  · rename_i hread
    rw [hread]
    rfl
  · rename_i hread
    simp only [hread]
    split
    · rename_i hframes
      simp only [hframes, Except.map]
    · rename_i hframes
      simp only [hframes, Except.map]

theorem readRule_other {eof : Nat} {t : Token} {ts : List Token} (hname : IsOther t) :
    readRule eof t ts =
      (rawFrom 0 0 ts).map fun (raw, rest) => (.other (rawText t raw), rest) := by
  rw [readRule, rule]
  simp only [hname.1, atRuleOf_other hname]
  split
  · rename_i hread
    simp only [hread, Except.map]
  · rename_i hread
    simp only [hread, Except.map, rawText]

theorem readRule_style {eof : Nat} {t : Token} {ts : List Token} (hcomment : t.kind ≠ .comment)
    (hkeyword : t.kind ≠ .atKeyword) :
    readRule eof t ts = (block eof t ts).map fun (b, rest) => (.style b, rest) := by
  rw [readRule, rule]
  split
  · contradiction
  · contradiction
  · split
    · rename_i hread
      simp only [hread, Except.map]
    · rename_i hread
      simp only [hread, Except.map]

/-! ## From derivations to readings -/

/-- A derivation is read in front of any tokens: its rules go before theirs, and their fault
stays. -/
theorem readRules_append {demand : Demand} {ts : List Token} {rules : List Rule}
    (hrules : RuleSeq demand ts rules) (eof : Nat) (opened : Option Nat) (us : List Token) :
    readRules eof opened (ts ++ us) =
      (readRules eof opened us).map (Prod.map (rules ++ ·) id) := by
  induction hrules generalizing opened us with
  | nil =>
    rw [List.nil_append]
    cases readRules eof opened us <;> rfl
  | skip hskip _ ih =>
    rw [List.cons_append, readRules_skip (isSkipped_iff_mem.mpr hskip), ih]
  | comment hkind _ ih =>
    rw [List.cons_append, readRules_rule (by simp [hkind, TokenKind.isSkipped]) (by simp [hkind]),
      readRule_comment hkind, ← commentBody_eq]
    simp only [ih]
    cases readRules eof opened us <;> rfl
  | @media t opening closing pre body ts inner rules hname hpre _ hopen _ hclose _ ihblock ihtail =>
    have hprelude := prelude_isPrelude hpre hopen eof (body ++ closing :: (ts ++ us))
    have hblock : readRules eof (some opening.offset) (body ++ closing :: (ts ++ us)) =
        .ok (inner ++ [], ts ++ us) := by
      rw [ihblock, readRules_close hclose]
      rfl
    simp only [List.cons_append, List.append_assoc]
    rw [readRules_rule (by simp [hname.1, TokenKind.isSkipped]) (by simp [hname.1]),
      readRule_media hname, hprelude]
    simp only [hblock, ihtail, Except.map, List.append_nil, joinTokens_withoutComments,
      runText_eq]
    cases readRules eof opened us <;> rfl
  | @keyframes t opening closing pre body ts inner rules hname hpre _ hopen hframes hclose _ ih =>
    have hprelude := prelude_isPrelude hpre hopen eof (body ++ closing :: (ts ++ us))
    have hblock := keyframeList_keyframeSeq hframes hclose eof opening.offset (ts ++ us)
    simp only [List.cons_append, List.append_assoc]
    rw [readRules_rule (by simp [hname.kind, TokenKind.isSkipped]) (by simp [hname.kind]),
      readRule_keyframes hname, hprelude]
    simp only [hblock, ih, Except.map, joinTokens_withoutComments, runText_eq]
    cases readRules eof opened us <;> rfl
  | @other t raw ts rules hname hraw _ ih =>
    rw [List.cons_append, List.append_assoc,
      readRules_rule (by simp [hname.1, TokenKind.isSkipped]) (by simp [hname.1]),
      readRule_other hname, rawFrom_raw hraw]
    simp only [ih, Except.map]
    cases readRules eof opened us <;> rfl
  | @style run ts b rules hblock hplain _ ih =>
    obtain ⟨t, tail, rfl, hskip, hcomment, hclose⟩ := hblock.head
    rw [List.append_assoc, List.cons_append, readRules_rule hskip hclose,
      readRule_style hcomment (leadsPlain_cons.mp hplain), block_qualifies hblock]
    simp only [ih, Except.map]
    cases readRules eof opened us <;> rfl

theorem readRules_sheet {demand : Demand} {ts : List Token} {rules : List Rule}
    (hsheet : Sheet demand ts rules) (eof : Nat) : readRules eof none ts = .ok (rules, []) := by
  cases hsheet with
  | complete entries =>
    have happend := readRules_append entries eof none []
    rwa [List.append_nil, readRules_nil_none, Except.map, Prod.map_apply, List.append_nil]
      at happend
  | @unended t _ raw _ entries hname hraw =>
    rw [readRules_append entries]
    have hread : rawFrom 0 0 raw = .ok (raw, []) := by
      simpa [rawFrom, prepend, Except.map] using rawFrom_statement hraw 0 []
    rw [readRules_rule (by simp [hname.1, TokenKind.isSkipped]) (by simp [hname.1]),
      readRule_other hname, hread]
    simp only [Except.map, readRules_nil_none]
    rfl

/-! ## From readings to derivations -/

/-- What a reader of rules has found: a whole stylesheet where no block is open, and
else the entries of the block with its closing brace. -/
def Reads (opened : Option Nat) (ts : List Token) (rules : List Rule) (rest : List Token) :
    Prop :=
  match opened with
  | none => rest = [] ∧ Sheet anyRun ts rules
  | some _ => ∃ body closing, ts = body ++ closing :: rest ∧ closing.kind = .rightBrace ∧
      RuleSeq anyRun body rules

/-- An entry goes in front of what was found behind it. -/
theorem Reads.prepend {opened : Option Nat} {us ts rest : List Token} {first : Rule}
    {rules : List Rule}
    (hentry : ∀ {vs rules}, RuleSeq anyRun vs rules → RuleSeq anyRun (us ++ vs) (first :: rules))
    (hreads : Reads opened ts rules rest) : Reads opened (us ++ ts) (first :: rules) rest := by
  cases opened with
  | none =>
    obtain ⟨rfl, hsheet⟩ := hreads
    refine ⟨rfl, ?_⟩
    cases hsheet with
    | complete entries => exact .complete (hentry entries)
    | unended entries hname hraw =>
      rw [← List.append_assoc]
      exact .unended (hentry entries) hname hraw
  | some opened =>
    obtain ⟨body, closing, rfl, hclose, hrules⟩ := hreads
    exact ⟨us ++ body, closing, by simp, hclose, hentry hrules⟩

theorem Reads.skip {opened : Option Nat} {t : Token} {ts rest : List Token} {rules : List Rule}
    (hskip : t.kind ∈ betweenEntries) (hreads : Reads opened ts rules rest) :
    Reads opened (t :: ts) rules rest := by
  cases opened with
  | none =>
    obtain ⟨rfl, hsheet⟩ := hreads
    refine ⟨rfl, ?_⟩
    cases hsheet with
    | complete entries => exact .complete (.skip hskip entries)
    | unended entries hname hraw => exact .unended (.skip hskip entries) hname hraw
  | some opened =>
    obtain ⟨body, closing, rfl, hclose, hrules⟩ := hreads
    exact ⟨t :: body, closing, rfl, hclose, .skip hskip hrules⟩

/-- A rule that was read is an entry, or an at-rule that the source ends with.  The
blocks of media queries are found by `hblocks`. -/
theorem entry_of_readRule {eof : Nat} {t : Token} {ts rest : List Token} {first : Rule}
    (hskip : t.kind.isSkipped = false)
    (hblocks : ∀ {opened us rules behind}, us.length ≤ ts.length →
      readRules eof (some opened) us = .ok (rules, behind) → Reads (some opened) us rules behind)
    (hread : readRule eof t ts = .ok (first, rest)) :
    (∃ us, ts = us ++ rest ∧ ∀ {vs rules}, RuleSeq anyRun vs rules →
        RuleSeq anyRun (t :: us ++ vs) (first :: rules)) ∨
      rest = [] ∧ IsOther t ∧ IsStatement ts ∧ first = .other (rawText t ts) := by
  by_cases hcomment : t.kind = .comment
  · rw [readRule_comment hcomment] at hread
    simp only [Except.ok.injEq, Prod.mk.injEq] at hread
    obtain ⟨rfl, rfl⟩ := hread
    rw [← commentBody_eq]
    exact .inl ⟨[], rfl, fun tail => .comment hcomment tail⟩
  by_cases hkeyword : t.kind = .atKeyword
  · obtain ⟨hname, -⟩ | ⟨hname, -⟩ | ⟨hname, -⟩ := atRuleOf_cases hkeyword
    · rw [readRule_media hname] at hread
      split at hread
      · simp at hread
      rename_i pre opened inner hprelude
      obtain ⟨run, opening, rfl, hpre, hopen, rfl, rfl⟩ := prelude_eq_ok_iff.mp hprelude
      obtain ⟨⟨rules, rest'⟩, hrules, hfirst⟩ := map_eq_ok_iff.mp hread
      obtain ⟨body, closing, rfl, hclose, hbody⟩ :=
        hblocks (by simp only [List.length_append, List.length_cons]; omega) hrules
      simp only [Prod.mk.injEq] at hfirst
      obtain ⟨rfl, rfl⟩ := hfirst
      refine .inl ⟨run ++ opening :: (body ++ [closing]), by simp, fun tail => ?_⟩
      rw [joinTokens_withoutComments, ← runText_eq]
      simpa using RuleSeq.media hname hpre trivial hopen hbody hclose tail
    · rw [readRule_keyframes hname] at hread
      split at hread
      · simp at hread
      rename_i pre opened inner hprelude
      obtain ⟨run, opening, rfl, hpre, hopen, rfl, rfl⟩ := prelude_eq_ok_iff.mp hprelude
      obtain ⟨⟨rules, rest'⟩, hrules, hfirst⟩ := map_eq_ok_iff.mp hread
      obtain ⟨body, closing, rfl, hclose, hbody⟩ := keyframeSeq_of_keyframeList hrules
      simp only [Prod.mk.injEq] at hfirst
      obtain ⟨rfl, rfl⟩ := hfirst
      refine .inl ⟨run ++ opening :: (body ++ [closing]), by simp, fun tail => ?_⟩
      rw [joinTokens_withoutComments, ← runText_eq]
      simpa using RuleSeq.keyframes hname hpre trivial hopen hbody hclose tail
    · rw [readRule_other hname] at hread
      obtain ⟨⟨raw, rest'⟩, hraw, hfirst⟩ := map_eq_ok_iff.mp hread
      simp only [Prod.mk.injEq] at hfirst
      obtain ⟨rfl, rfl⟩ := hfirst
      obtain ⟨rfl, hraw | ⟨rfl, hstatement⟩⟩ := raw_of_rawFrom hraw
      · exact .inl ⟨raw, rfl, fun tail => .other hname hraw tail⟩
      · rw [List.append_nil]
        exact .inr ⟨rfl, hname, hstatement, rfl⟩
  · rw [readRule_style hcomment hkeyword] at hread
    obtain ⟨⟨b, rest'⟩, hblock, hfirst⟩ := map_eq_ok_iff.mp hread
    simp only [Prod.mk.injEq] at hfirst
    obtain ⟨rfl, rfl⟩ := hfirst
    obtain ⟨us, hsplit, hqualifies⟩ :=
      qualifies_of_block (leadsEntry_cons.mpr ⟨hskip, hcomment⟩) hblock
    exact .inl ⟨us, hsplit, fun tail => .style hqualifies (leadsPlain_cons.mpr hkeyword) tail⟩

/-- What is read as rules has a derivation. -/
theorem reads_of_readRules {eof : Nat} {opened : Option Nat} {ts rest : List Token}
    {rules : List Rule} (hread : readRules eof opened ts = .ok (rules, rest)) :
    Reads opened ts rules rest := by
  -- The rule behind a first one and the block of a media query are both shorter than `ts`.
  induction hlength : ts.length using Nat.strong_induction_on generalizing opened ts rest rules with
  | _ n ih =>
    subst hlength
    obtain _ | ⟨t, ts⟩ := ts
    · cases opened with
      | none =>
        rw [readRules_nil_none] at hread
        simp only [Except.ok.injEq, Prod.mk.injEq] at hread
        obtain ⟨rfl, rfl⟩ := hread
        exact ⟨rfl, .complete .nil⟩
      | some opened =>
        rw [readRules_nil_some] at hread
        simp at hread
    by_cases hskip : t.kind.isSkipped = true
    · rw [readRules_skip hskip] at hread
      exact (ih ts.length (by simp) hread rfl).skip (isSkipped_iff_mem.mp hskip)
    by_cases hclose : t.kind = .rightBrace
    · cases opened with
      | none =>
        rw [readRules_close_none hclose] at hread
        simp at hread
      | some opened =>
        rw [readRules_close hclose] at hread
        simp only [Except.ok.injEq, Prod.mk.injEq] at hread
        obtain ⟨rfl, rfl⟩ := hread
        exact ⟨[], t, rfl, hclose, .nil⟩
    rw [Bool.not_eq_true] at hskip
    rw [readRules_rule hskip hclose] at hread
    split at hread
    · simp at hread
    rename_i first behind hfirst
    obtain ⟨⟨rules', rest'⟩, htail, hrules⟩ := map_eq_ok_iff.mp hread
    simp only [Prod.mk.injEq] at hrules
    obtain ⟨rfl, rfl⟩ := hrules
    have hblocks : ∀ {opened us rules behind}, us.length ≤ ts.length →
        readRules eof (some opened) us = .ok (rules, behind) →
          Reads (some opened) us rules behind := fun hlength hblock =>
      ih _ (Nat.lt_succ_of_le hlength) hblock rfl
    obtain ⟨us, rfl, hentry⟩ | ⟨rfl, hname, hstatement, rfl⟩ :=
      entry_of_readRule hskip hblocks hfirst
    · have hshorter : behind.length < (t :: (us ++ behind)).length := by
        simp only [List.length_cons, List.length_append]
        omega
      have hreads : Reads opened behind rules' rest' := ih behind.length hshorter htail rfl
      rw [← List.cons_append]
      exact hreads.prepend hentry
    · cases opened with
      | none =>
        rw [readRules_nil_none] at htail
        simp only [Except.ok.injEq, Prod.mk.injEq] at htail
        obtain ⟨rfl, rfl⟩ := htail
        exact ⟨rfl, .unended .nil hname hstatement⟩
      | some opened =>
        rw [readRules_nil_some] at htail
        simp at htail

/-! ## The grammar of `parse` -/

theorem parseTokens_eq (eof : Nat) (ts : List Token) :
    parseTokens eof ts = (readRules eof none ts).map Prod.fst := by
  rw [parseTokens, readRules]
  cases ruleList eof none ts <;> rfl

theorem parseTokens_eq_ok_iff (eof : Nat) {ts : List Token} {rules : List Rule} :
    parseTokens eof ts = .ok rules ↔ Sheet anyRun ts rules := by
  rw [parseTokens_eq, map_eq_ok_iff]
  constructor
  · rintro ⟨⟨rules', rest⟩, hrules, rfl⟩
    exact (reads_of_readRules hrules).2
  · intro hsheet
    exact ⟨(rules, []), readRules_sheet hsheet eof, rfl⟩

theorem parse_eq_ok {source : Text} {rules : List Rule} :
    parse source = .ok rules ↔ parseTokens source.length (tokenize source) = .ok rules := by
  rw [parse]
  cases parseTokens source.length (tokenize source) <;> simp [Except.mapError]

/-- A text is accepted with a rule tree exactly when its tokens derive the tree. -/
theorem parse_eq_ok_iff (source : Text) (rules : List Rule) :
    parse source = .ok rules ↔ Sheet anyRun (tokenize source) rules := by
  rw [parse_eq_ok, parseTokens_eq_ok_iff]

end PixelRem.Css
