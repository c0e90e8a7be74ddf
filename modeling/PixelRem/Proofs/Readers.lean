import Mathlib
import PixelRem.Css.Parser
import PixelRem.Proofs.Grammar

/-!
# What the readers read

One statement for each reader of a run: the reader gives a result exactly when the
tokens start with a run of the grammar, and the result is what the run stands for.
The readers of lists of rules are in `PixelRem.Proofs.Parse`.

The grammar has its own rules for the text of a run, the parts of a selector list
and the text of a comment.  The first section proves that the readers follow them
(`runText_eq`, `Parted.textsOf_eq`, `commentBody_eq`).
-/

namespace PixelRem.Css

/-! ## The rules of the grammar -/

theorem intercalate_blank_cons (word : Text) (words : List Text) :
    [0x20].intercalate (word :: words) = word ++ words.flatMap ([0x20] ++ ·) := by
  induction words generalizing word with
  | nil => simp [List.intercalate]
  | cons next words ih =>
    rw [List.intercalate_cons_cons, ih, List.flatMap_cons, List.append_assoc, List.append_assoc]

theorem joinFrom_text {t : Token} (hcomment : t.kind ≠ .comment) (hspace : t.kind ≠ .whitespace)
    (started blank : Bool) (ts : List Token) :
    joinFrom started blank (t :: ts) =
      (if started && blank then [0x20] else []) ++ t.text ++ joinFrom true false ts := by
  rw [joinFrom]
  split
  · contradiction
  · contradiction
  · rfl

/-- What is joined depends on what came before.  At the start it is the text of the run, inside a
word it is the rest of the word and the words behind it, and behind white space it is all words,
those behind something else with a blank before each. -/
theorem joinFrom_eq {ts first : List Token} {others : List (List Token)}
    (hsplit : (withoutComments ts).splitOnP (·.kind = .whitespace) = first :: others) :
    (∀ blank, joinFrom false blank ts = runText ts) ∧
      joinFrom true false ts = first.flatMap Token.text ++
        ((others.filter (· ≠ [])).map (List.flatMap Token.text)).flatMap ([0x20] ++ ·) ∧
      joinFrom true true ts =
        ((wordsOf ts).map (List.flatMap Token.text)).flatMap ([0x20] ++ ·) := by
  induction ts generalizing first others with
  | nil =>
    obtain ⟨rfl, rfl⟩ : first = [] ∧ others = [] := by
      simpa [withoutComments, eq_comm] using hsplit
    simp [joinFrom, runText, wordsOf, withoutComments]
  | cons t ts ih =>
    obtain ⟨word, words, hrest⟩ := List.exists_cons_of_ne_nil
      (List.splitOnP_ne_nil (fun t : Token => decide (t.kind = .whitespace)) (withoutComments ts))
    obtain ⟨hstart, hword, hblank⟩ := ih hrest
    by_cases hcomment : t.kind = .comment
    · rw [withoutComments_cons, if_pos hcomment] at hsplit
      obtain ⟨rfl, rfl⟩ := List.cons.inj (hrest.symm.trans hsplit)
      have hwords : wordsOf (t :: ts) = wordsOf ts := by
        rw [wordsOf, withoutComments_cons, if_pos hcomment, wordsOf]
      simp only [joinFrom, hcomment, runText, hwords]
      exact ⟨hstart, hword, hblank⟩
    rw [withoutComments_cons, if_neg hcomment, List.splitOnP_cons_eq_if_modifyHead, hrest] at hsplit
    have hwords : wordsOf (t :: ts) = (first :: others).filter (· ≠ []) := by
      rw [wordsOf, withoutComments_cons, if_neg hcomment, List.splitOnP_cons_eq_if_modifyHead,
        hrest, hsplit]
    by_cases hspace : t.kind = .whitespace
    · rw [if_pos (decide_eq_true hspace)] at hsplit
      obtain ⟨rfl, rfl⟩ := List.cons.inj hsplit
      have hsame : wordsOf (t :: ts) = wordsOf ts := by
        rw [hwords, wordsOf, hrest]
        rfl
      simp only [joinFrom, hspace, runText, hsame]
      refine ⟨fun _ => hstart true, ?_, hblank⟩
      rw [hblank, wordsOf, hrest]
      rfl
    · rw [if_neg (by simpa using hspace)] at hsplit
      obtain ⟨rfl, rfl⟩ := List.cons.inj hsplit
      have hkept : wordsOf (t :: ts) = (t :: word) :: words.filter (· ≠ []) := hwords
      simp only [joinFrom_text hcomment hspace, hword, runText, hkept, List.map_cons,
        intercalate_blank_cons, List.flatMap_cons]
      simp

/-- The readers join a run to its text. -/
theorem runText_eq (ts : List Token) : runText ts = joinTokens ts := by
  obtain ⟨first, others, hsplit⟩ := List.exists_cons_of_ne_nil
    (List.splitOnP_ne_nil (fun t : Token => decide (t.kind = .whitespace)) (withoutComments ts))
  exact ((joinFrom_eq hsplit).1 false).symm

/-- A run without a comma outside brackets stays together when a list is split. -/
theorem splitFrom_append {depth : Nat} {ts : List Token} (hguards : Guards [.comma] depth ts)
    (rest : List Token) :
    splitFrom depth (ts ++ rest) =
      (ts ++ (splitFrom (depthBehind depth ts) rest).1,
        (splitFrom (depthBehind depth ts) rest).2) := by
  induction ts generalizing depth with
  | nil => rfl
  | cons t ts ih =>
    rw [guards_cons] at hguards
    have hcomma : ¬ (t.kind = .comma ∧ depth = 0) := fun h => by
      simpa [h.1] using hguards.1 h.2
    rw [List.cons_append, splitFrom, ih hguards.2, depthBehind_cons]
    exact if_neg hcomma

/-- The readers find the parts of a list. -/
theorem Parted.splitTopLevel_eq {ts : List Token} {parts : List (List Token)}
    (hparts : Parted ts parts) : splitTopLevel ts = parts := by
  induction hparts with
  | last hpart =>
    have happend := splitFrom_append hpart []
    rw [List.append_nil] at happend
    rw [splitTopLevel, happend]
    simp [splitFrom]
  | comma hpart hclosed hcomma _ ih =>
    rw [splitTopLevel, splitFrom_append hpart, hclosed, splitFrom]
    have hdepth : TokenKind.depthAfter .comma 0 = 0 := rfl
    simp only [hcomma, hdepth, and_self, if_true, List.append_nil, List.cons.injEq, true_and]
    exact ih

/-- Every run has parts: the first one is the run, or it ends before a comma. -/
theorem parted_splitFrom (depth : Nat) (ts : List Token) :
    Guards [.comma] depth (splitFrom depth ts).1 ∧
      (ts = (splitFrom depth ts).1 ∧ (splitFrom depth ts).2 = [] ∨
        ∃ comma rest, ts = (splitFrom depth ts).1 ++ comma :: rest ∧ comma.kind = .comma ∧
          depthBehind depth (splitFrom depth ts).1 = 0 ∧ Parted rest (splitFrom depth ts).2) := by
  induction ts generalizing depth with
  | nil => exact ⟨guards_nil _ _, .inl ⟨rfl, rfl⟩⟩
  | cons t ts ih =>
    obtain ⟨hguards, hparts⟩ := ih (t.kind.depthAfter depth)
    rw [splitFrom]
    dsimp only
    split_ifs with hcomma
    · obtain ⟨hkind, rfl⟩ := hcomma
      rw [hkind] at hguards hparts ⊢
      refine ⟨guards_nil _ _, .inr ⟨t, ts, rfl, hkind, rfl, ?_⟩⟩
      obtain ⟨hrun, hnone⟩ | ⟨comma, rest, hrun, hnext, hclosed, htail⟩ := hparts
      · rw [hnone]
        nth_rewrite 1 [hrun]
        exact .last hguards
      · nth_rewrite 1 [hrun]
        exact .comma hguards hclosed hnext htail
    · refine ⟨guards_cons.mpr ⟨fun hdepth => ?_, hguards⟩, ?_⟩
      · simpa using fun hkind => hcomma ⟨hkind, hdepth⟩
      · obtain ⟨hrun, hnone⟩ | ⟨comma, rest, hrun, hnext, hclosed, htail⟩ := hparts
        · exact .inl ⟨congrArg (t :: ·) hrun, hnone⟩
        · exact .inr ⟨comma, rest, congrArg (t :: ·) hrun, hnext, by rwa [depthBehind_cons], htail⟩

theorem parted_splitTopLevel (ts : List Token) : Parted ts (splitTopLevel ts) := by
  show Parted ts ((splitFrom 0 ts).1 :: (splitFrom 0 ts).2)
  obtain ⟨hguards, ⟨hrun, hnone⟩ | ⟨comma, rest, hrun, hcomma, hclosed, htail⟩⟩ :=
    parted_splitFrom 0 ts
  · rw [hnone]
    nth_rewrite 1 [hrun]
    exact .last hguards
  · nth_rewrite 1 [hrun]
    exact .comma hguards hclosed hcomma htail

/-- The readers take the selectors from the parts of a list. -/
theorem Parted.textsOf_eq {ts : List Token} {parts : List (List Token)} (hparts : Parted ts parts) :
    textsOf parts = selectorsOf ts := by
  rw [textsOf, selectorsOf, hparts.splitTopLevel_eq, funext runText_eq]

/-- A block with its selectors, from what the readers see of it. -/
theorem Qualifies.of_selectorsOf {demand : Demand} {pre body : List Token}
    {opening closing : Token} {items : List Item} (hlead : LeadsEntry pre) (hpre : IsPrelude pre)
    (htext : selectorsOf pre ≠ []) (hdemand : demand .selectors pre)
    (hopen : opening.kind = .leftBrace) (block : ItemSeq demand body items)
    (hclose : closing.kind = .rightBrace) :
    Qualifies demand (pre ++ opening :: (body ++ [closing])) ⟨selectorsOf pre, items⟩ := by
  have hparts := parted_splitTopLevel pre
  rw [← hparts.textsOf_eq] at htext ⊢
  exact .intro hlead hpre hparts htext hdemand hopen block hclose

/-- The readers take the marks off a comment. -/
theorem commentBody_eq (raw : Text) : commentBody raw = commentText raw := by
  have hopen : (Text.dropPrefix? (utf8 "/*") raw).getD raw =
      if utf8 "/*" <+: raw then raw.drop 2 else raw := by
    simp only [Text.dropPrefix?, List.isPrefixOf_iff_prefix]
    split_ifs <;> rfl
  have hclose (body : Text) : (Text.dropSuffix? (utf8 "*/") body).getD body =
      if utf8 "*/" <:+ body then body.take (body.length - 2) else body := by
    simp only [Text.dropSuffix?, List.isSuffixOf_iff_suffix]
    split_ifs <;> rfl
  rw [commentText, hopen, hclose]
  rfl

/-! ## Preludes -/

theorem joinFrom_withoutComments (started blank : Bool) (ts : List Token) :
    joinFrom started blank (withoutComments ts) = joinFrom started blank ts := by
  induction ts generalizing started blank with
  | nil => rfl
  | cons t ts ih =>
    rw [withoutComments_cons]
    split
    · rename_i hcomment
      simp only [joinFrom, hcomment, ih]
    · simp only [joinFrom, ih]

theorem joinTokens_withoutComments (ts : List Token) :
    joinTokens (withoutComments ts) = joinTokens ts :=
  joinFrom_withoutComments false false ts

theorem splitFrom_withoutComments (depth : Nat) (ts : List Token) :
    splitFrom depth (withoutComments ts) =
      (withoutComments (splitFrom depth ts).1, (splitFrom depth ts).2.map withoutComments) := by
  induction ts generalizing depth with
  | nil => rfl
  | cons t ts ih =>
    rw [withoutComments_cons]
    split
    · rename_i hcomment
      simp only [splitFrom, ih, hcomment, TokenKind.depthAfter, reduceCtorEq, false_and, if_false,
        withoutComments_cons, if_true]
    · rename_i hcomment
      simp only [splitFrom, ih]
      split
      · rfl
      · simp only [withoutComments_cons, hcomment, if_false]

theorem selectorsOf_withoutComments (ts : List Token) :
    selectorsOf (withoutComments ts) = selectorsOf ts := by
  have hjoin : joinTokens ∘ withoutComments = joinTokens :=
    funext joinTokens_withoutComments
  simp only [selectorsOf, splitTopLevel, splitFrom_withoutComments, List.map_cons, List.map_map,
    hjoin, joinTokens_withoutComments]

/-- A prelude is read up to the first opening brace outside brackets. -/
theorem preludeFrom_eq_ok_iff {start depth opened : Nat} {ts pre rest : List Token} :
    preludeFrom start depth ts = .ok (pre, opened, rest) ↔
      ∃ run opening, ts = run ++ opening :: rest ∧ Guards preludeStops depth run ∧
        depthBehind depth run = 0 ∧ opening.kind = .leftBrace ∧ opened = opening.offset ∧
        pre = withoutComments run := by
  induction ts generalizing depth pre with
  | nil => simp [preludeFrom]
  | cons t ts ih =>
    rw [preludeFrom]
    by_cases hopen : depth = 0 ∧ t.kind = .leftBrace
    · rw [if_pos hopen]
      constructor
      · intro hread
        simp only [Except.ok.injEq, Prod.mk.injEq] at hread
        obtain ⟨rfl, rfl, rfl⟩ := hread
        exact ⟨[], t, rfl, guards_nil _ _, hopen.1, hopen.2, rfl, rfl⟩
      · rintro ⟨run, opening, hsplit, hguards, hdepth, hkind, rfl, rfl⟩
        cases run with
        | nil =>
          simp only [List.nil_append, List.cons.injEq] at hsplit
          obtain ⟨rfl, rfl⟩ := hsplit
          rfl
        | cons u run =>
          simp only [List.cons_append, List.cons.injEq] at hsplit
          obtain ⟨rfl, -⟩ := hsplit
          have hfree := (guards_cons.mp hguards).1 hopen.1
          simp [preludeStops, hopen.2] at hfree
    rw [if_neg hopen]
    by_cases hstop : depth = 0 ∧ (t.kind = .semicolon ∨ t.kind = .rightBrace)
    · rw [if_pos hstop]
      constructor
      · intro hread
        simp at hread
      · rintro ⟨run, opening, hsplit, hguards, hdepth, hkind, -, -⟩
        cases run with
        | nil =>
          simp only [List.nil_append, List.cons.injEq] at hsplit
          rw [hsplit.1, hkind] at hstop
          simp at hstop
        | cons u run =>
          simp only [List.cons_append, List.cons.injEq] at hsplit
          obtain ⟨rfl, -⟩ := hsplit
          have hfree := (guards_cons.mp hguards).1 hstop.1
          rcases hstop.2 with hkind | hkind <;> simp [preludeStops, hkind] at hfree
    rw [if_neg hstop]
    have hfree : depth = 0 → t.kind ∉ preludeStops := by
      intro hzero hmem
      simp only [preludeStops, List.mem_cons, List.not_mem_nil, or_false] at hmem
      tauto
    constructor
    · intro hread
      split at hread
      · simp at hread
      · rename_i pre' opened' rest' htail
        simp only [Except.ok.injEq, Prod.mk.injEq] at hread
        obtain ⟨rfl, rfl, rfl⟩ := hread
        obtain ⟨run, opening, rfl, hguards, hdepth, hkind, rfl, rfl⟩ := ih.mp htail
        exact ⟨t :: run, opening, rfl, guards_cons.mpr ⟨hfree, hguards⟩,
          by rwa [depthBehind_cons], hkind, rfl, (withoutComments_cons t run).symm⟩
    · rintro ⟨run, opening, hsplit, hguards, hdepth, hkind, rfl, rfl⟩
      cases run with
      | nil =>
        simp only [List.nil_append, List.cons.injEq] at hsplit
        rw [hsplit.1] at hopen
        exact absurd ⟨hdepth, hkind⟩ hopen
      | cons u run =>
        simp only [List.cons_append, List.cons.injEq] at hsplit
        obtain ⟨rfl, rfl⟩ := hsplit
        rw [depthBehind_cons] at hdepth
        have htail := ih.mpr ⟨run, opening, rfl, (guards_cons.mp hguards).2, hdepth, hkind, rfl,
          rfl⟩
        rw [htail, withoutComments_cons]

theorem prelude_eq_ok_iff {eof opened : Nat} {ts pre rest : List Token} :
    prelude eof ts = .ok (pre, opened, rest) ↔
      ∃ run opening, ts = run ++ opening :: rest ∧ IsPrelude run ∧
        opening.kind = .leftBrace ∧ opened = opening.offset ∧ pre = withoutComments run := by
  rw [prelude, preludeFrom_eq_ok_iff]
  constructor
  · rintro ⟨run, opening, hsplit, hguards, hdepth, hrest⟩
    exact ⟨run, opening, hsplit, ⟨hguards, hdepth⟩, hrest⟩
  · rintro ⟨run, opening, hsplit, hpre, hrest⟩
    exact ⟨run, opening, hsplit, hpre.guards, hpre.closed, hrest⟩

/-- A prelude is read up to the brace behind it. -/
theorem prelude_isPrelude {pre : List Token} {opening : Token} (hpre : IsPrelude pre)
    (hopen : opening.kind = .leftBrace) (eof : Nat) (rest : List Token) :
    prelude eof (pre ++ opening :: rest) = .ok (withoutComments pre, opening.offset, rest) :=
  prelude_eq_ok_iff.mpr ⟨pre, opening, rfl, hpre, hopen, rfl, rfl⟩

/-! ## Raw at-rules -/

theorem braceDepthAfter_of_ne {kind : TokenKind} (hopen : kind ≠ .leftBrace)
    (hclose : kind ≠ .rightBrace) (depth : Nat) : kind.braceDepthAfter depth = depth := by
  unfold TokenKind.braceDepthAfter
  split
  · contradiction
  · contradiction
  · rfl

/-- A run that closes `depth + 1` open braces with its last token. -/
inductive Closes : Nat → List Token → Prop where
  | last {inner : List Token} {closing : Token} (block : Balanced inner)
      (hclose : closing.kind = .rightBrace) : Closes 0 (inner ++ [closing])
  | step {depth : Nat} {inner ts : List Token} {closing : Token} (block : Balanced inner)
      (hclose : closing.kind = .rightBrace) (tail : Closes depth ts) :
      Closes (depth + 1) (inner ++ closing :: ts)

theorem Balanced.append {ts us : List Token} (hts : Balanced ts) (hus : Balanced us) :
    Balanced (ts ++ us) := by
  induction hts with
  | nil => exact hus
  | token hopen hclose _ ih => exact .token hopen hclose ih
  | braces hopen block hclose _ _ ih =>
    rw [List.cons_append, List.append_assoc, List.cons_append]
    exact .braces hopen block hclose ih

theorem Closes.prepend {depth : Nat} {ts us : List Token} (hts : Balanced ts)
    (hus : Closes depth us) : Closes depth (ts ++ us) := by
  cases hus with
  | last block hclose =>
    rw [← List.append_assoc]
    exact .last (hts.append block) hclose
  | step block hclose tail =>
    rw [← List.append_assoc]
    exact .step (hts.append block) hclose tail

/-- Tokens that are put in front of what a raw reader read. -/
def prepend (ts : List Token) :
    Except Fault (List Token × List Token) → Except Fault (List Token × List Token) :=
  Except.map fun (raw, rest) => (ts ++ raw, rest)

/-- Inside braces a balanced run is read without a stop. -/
theorem rawFrom_balanced {run : List Token} (hrun : Balanced run) (depth opened : Nat)
    (ts : List Token) :
    rawFrom (depth + 1) opened (run ++ ts) = prepend run (rawFrom (depth + 1) opened ts) := by
  induction hrun generalizing depth ts with
  | nil => cases hread : rawFrom (depth + 1) opened ts <;> simp [prepend, Except.map, hread]
  | @token t run hopen hclose _ ih =>
    have hdepth := braceDepthAfter_of_ne hopen hclose (depth + 1)
    rw [List.cons_append, rawFrom]
    simp only [Nat.add_eq_zero_iff, Nat.one_ne_zero, and_false, false_and, if_false, hclose, hdepth]
    rw [ih]
    cases rawFrom (depth + 1) opened ts <;> rfl
  | @braces opening closing inner tail hopen _ hclose _ ihblock ihtail =>
    rw [List.cons_append, List.append_assoc, List.cons_append, rawFrom]
    simp only [Nat.add_eq_zero_iff, Nat.one_ne_zero, and_false, false_and, if_false, hopen,
      reduceCtorEq, TokenKind.braceDepthAfter]
    rw [ihblock, rawFrom]
    simp only [Nat.add_eq_zero_iff, Nat.one_ne_zero, and_false, false_and, if_false, hclose,
      Nat.add_eq_right, TokenKind.braceDepthAfter, Nat.add_sub_cancel]
    rw [ihtail]
    cases rawFrom (depth + 1) opened ts <;> simp [prepend, Except.map]

theorem rawFrom_closes {depth : Nat} {raw : List Token} (hraw : Closes depth raw)
    (opened : Nat) (rest : List Token) :
    rawFrom (depth + 1) opened (raw ++ rest) = .ok (raw, rest) := by
  induction hraw with
  | last block hclose =>
    rw [List.append_assoc, rawFrom_balanced block]
    simp [rawFrom, hclose, prepend, Except.map]
  | @step depth _ _ _ block hclose _ ih =>
    rw [List.append_assoc, rawFrom_balanced block, List.cons_append, rawFrom]
    simp [hclose, TokenKind.braceDepthAfter, ih, prepend, Except.map]

theorem closes_of_rawFrom {depth opened : Nat} {ts raw rest : List Token}
    (hread : rawFrom (depth + 1) opened ts = .ok (raw, rest)) :
    ts = raw ++ rest ∧ Closes depth raw := by
  induction ts generalizing depth opened raw with
  | nil => simp [rawFrom] at hread
  | cons t ts ih =>
    rw [rawFrom] at hread
    simp only [Nat.add_eq_zero_iff, Nat.one_ne_zero, and_false, false_and, if_false,
      Nat.add_eq_right] at hread
    split at hread
    · rename_i hlast
      simp only [Except.ok.injEq, Prod.mk.injEq] at hread
      obtain ⟨rfl, rfl⟩ := hread
      obtain ⟨rfl, hclose⟩ := hlast
      exact ⟨rfl, .last .nil hclose⟩
    · rename_i hinner
      split at hread
      · simp at hread
      · rename_i raw' rest' htail
        simp only [Except.ok.injEq, Prod.mk.injEq] at hread
        obtain ⟨rfl, rfl⟩ := hread
        by_cases hopen : t.kind = .leftBrace
        · rw [hopen] at htail
          obtain ⟨rfl, hcloses⟩ := ih htail
          cases hcloses with
          | step block hclose tail =>
            refine ⟨rfl, ?_⟩
            have hpair := Balanced.braces hopen block hclose .nil
            simpa using Closes.prepend hpair tail
        · by_cases hclose : t.kind = .rightBrace
          · obtain _ | depth := depth
            · exact absurd ⟨rfl, hclose⟩ hinner
            · rw [hclose] at htail
              obtain ⟨rfl, hcloses⟩ := ih htail
              exact ⟨rfl, .step .nil hclose hcloses⟩
          · rw [braceDepthAfter_of_ne hopen hclose] at htail
            obtain ⟨rfl, hcloses⟩ := ih htail
            exact ⟨rfl, hcloses.prepend (.token hopen hclose .nil)⟩

/-- Outside braces a statement is read without a stop. -/
theorem rawFrom_statement {run : List Token} (hrun : IsStatement run) (opened : Nat)
    (ts : List Token) : rawFrom 0 opened (run ++ ts) = prepend run (rawFrom 0 opened ts) := by
  induction run with
  | nil => cases hread : rawFrom 0 opened ts <;> simp [prepend, Except.map, hread]
  | cons t run ih =>
    obtain ⟨⟨hsemicolon, hopen, hclose⟩, htail⟩ := List.forall_mem_cons.mp hrun
    have hdepth := braceDepthAfter_of_ne hopen hclose 0
    rw [List.cons_append, rawFrom]
    simp only [hsemicolon, hopen, hclose, and_false, if_false, hdepth]
    rw [ih htail]
    cases rawFrom 0 opened ts <;> rfl

theorem rawFrom_raw {raw : List Token} (hraw : IsRaw raw) (opened : Nat) (rest : List Token) :
    rawFrom 0 opened (raw ++ rest) = .ok (raw, rest) := by
  cases hraw with
  | statement head hend =>
    rw [List.append_assoc, rawFrom_statement head]
    simp [rawFrom, hend, prepend, Except.map]
  | @block _ _ opening _ head hopen body hclose =>
    have hblock := rawFrom_closes (.last body hclose) opening.offset rest
    rw [List.append_assoc, rawFrom_statement head, List.cons_append, rawFrom]
    simp only [hopen, reduceCtorEq, and_false, and_self, if_false, if_true,
      TokenKind.braceDepthAfter, hblock]
    rfl

/-- A raw at-rule is read up to the semicolon or the brace that ends it, or to the end
of the source. -/
theorem raw_of_rawFrom {opened : Nat} {ts raw rest : List Token}
    (hread : rawFrom 0 opened ts = .ok (raw, rest)) :
    ts = raw ++ rest ∧ (IsRaw raw ∨ rest = [] ∧ IsStatement raw) := by
  induction ts generalizing opened raw with
  | nil =>
    simp only [rawFrom, if_true, Except.ok.injEq, Prod.mk.injEq] at hread
    obtain ⟨rfl, rfl⟩ := hread
    exact ⟨rfl, .inr ⟨rfl, isStatement_nil⟩⟩
  | cons t ts ih =>
    rw [rawFrom] at hread
    by_cases hsemicolon : t.kind = .semicolon
    · simp only [hsemicolon, and_self, if_true, Except.ok.injEq, Prod.mk.injEq] at hread
      obtain ⟨rfl, rfl⟩ := hread
      exact ⟨rfl, .inl (.statement isStatement_nil hsemicolon)⟩
    by_cases hclose : t.kind = .rightBrace
    · simp [hclose] at hread
    simp only [hsemicolon, hclose, and_false, if_false, true_and] at hread
    split at hread
    · simp at hread
    rename_i raw' rest' htail
    simp only [Except.ok.injEq, Prod.mk.injEq] at hread
    obtain ⟨rfl, rfl⟩ := hread
    by_cases hopen : t.kind = .leftBrace
    · rw [if_pos hopen, hopen] at htail
      obtain ⟨rfl, hcloses⟩ := closes_of_rawFrom htail
      cases hcloses with
      | last block hlast =>
        exact ⟨rfl, .inl (.block isStatement_nil hopen block hlast)⟩
    · have hhead : ∀ us, IsStatement us → IsStatement (t :: us) := fun us hus =>
        List.forall_mem_cons.mpr ⟨⟨hsemicolon, hopen, hclose⟩, hus⟩
      rw [if_neg hopen, braceDepthAfter_of_ne hopen hclose] at htail
      obtain ⟨rfl, hraw | ⟨rfl, hstatement⟩⟩ := ih htail
      · refine ⟨rfl, .inl ?_⟩
        cases hraw with
        | statement head hend => exact .statement (hhead _ head) hend
        | block head hopen body hclose => exact .block (hhead _ head) hopen body hclose
      · exact ⟨rfl, .inr ⟨rfl, hhead _ hstatement⟩⟩

/-! ## Declarations -/

theorem propertyFrom_property {name : List Token} (hname : IsProperty name) (start : Nat)
    (ts : List Token) : propertyFrom start (name ++ ts) = prepend name (propertyFrom start ts) := by
  induction name with
  | nil => cases hread : propertyFrom start ts <;> simp [prepend, Except.map, hread]
  | cons t name ih =>
    obtain ⟨⟨hcolon, hsemicolon, hopen, hclose⟩, htail⟩ := List.forall_mem_cons.mp hname
    rw [List.cons_append, propertyFrom, ih htail]
    split
    all_goals first | contradiction | skip
    cases propertyFrom start ts <;> rfl

/-- A property is read up to the first colon. -/
theorem property_of_propertyFrom {start : Nat} {ts name rest : List Token}
    (hread : propertyFrom start ts = .ok (name, rest)) :
    ∃ colon, ts = name ++ colon :: rest ∧ IsProperty name ∧ colon.kind = .colon := by
  induction ts generalizing name with
  | nil => simp [propertyFrom] at hread
  | cons t ts ih =>
    rw [propertyFrom] at hread
    split at hread
    · rename_i hcolon
      simp only [Except.ok.injEq, Prod.mk.injEq] at hread
      obtain ⟨rfl, rfl⟩ := hread
      exact ⟨t, rfl, by simp [IsProperty], hcolon⟩
    · simp at hread
    · simp at hread
    · simp at hread
    · rename_i hcolon hsemicolon hclose hopen
      split at hread
      · simp at hread
      rename_i name' rest' htail
      simp only [Except.ok.injEq, Prod.mk.injEq] at hread
      obtain ⟨rfl, rfl⟩ := hread
      obtain ⟨colon, rfl, hname, hkind⟩ := ih htail
      exact ⟨colon, rfl, List.forall_mem_cons.mpr ⟨⟨hcolon, hsemicolon, hopen, hclose⟩, hname⟩,
        hkind⟩

theorem valueFrom_value {value : List Token} {depth : Nat} (hguards : Guards valueStops depth value)
    (hopen : ∀ t ∈ value, t.kind ≠ .leftBrace) (property : Text) (ts : List Token) :
    valueFrom property depth (value ++ ts) =
      prepend value (valueFrom property (depthBehind depth value) ts) := by
  induction value generalizing depth with
  | nil => cases hread : valueFrom property depth ts <;> simp [prepend, Except.map, hread]
  | cons t value ih =>
    obtain ⟨hfirst, hguards⟩ := guards_cons.mp hguards
    obtain ⟨hfree, hopen⟩ := List.forall_mem_cons.mp hopen
    have hsemicolon : ¬(depth = 0 ∧ t.kind = .semicolon) := by
      rintro ⟨hdepth, hkind⟩
      simpa [valueStops, hkind] using hfirst hdepth
    have hclose : ¬(depth = 0 ∧ t.kind = .rightBrace) := by
      rintro ⟨hdepth, hkind⟩
      simpa [valueStops, hkind] using hfirst hdepth
    rw [List.cons_append, valueFrom, if_neg hfree, if_neg hsemicolon, if_neg hclose,
      ih hguards hopen, depthBehind_cons]
    cases valueFrom property (depthBehind (t.kind.depthAfter depth) value) ts <;> rfl

/-- A value is read up to the semicolon or the closing brace outside brackets that ends
it, or to the end of the source. -/
theorem value_of_valueFrom {property : Text} {depth : Nat} {ts value rest : List Token}
    (hread : valueFrom property depth ts = .ok (value, rest)) :
    Guards valueStops depth value ∧ (∀ t ∈ value, t.kind ≠ .leftBrace) ∧
      (depthBehind depth value = 0 ∧
          (∃ semicolon, ts = value ++ semicolon :: rest ∧ semicolon.kind = .semicolon) ∨
        depthBehind depth value = 0 ∧ ts = value ++ rest ∧
          (∃ closing behind, rest = closing :: behind ∧ closing.kind = .rightBrace) ∨
        ts = value ∧ rest = []) := by
  induction ts generalizing depth value with
  | nil =>
    simp only [valueFrom, Except.ok.injEq, Prod.mk.injEq] at hread
    obtain ⟨rfl, rfl⟩ := hread
    exact ⟨guards_nil _ _, by simp, .inr (.inr ⟨rfl, rfl⟩)⟩
  | cons t ts ih =>
    rw [valueFrom] at hread
    split at hread
    · simp at hread
    rename_i hopen
    split at hread
    · rename_i hend
      simp only [Except.ok.injEq, Prod.mk.injEq] at hread
      obtain ⟨rfl, rfl⟩ := hread
      exact ⟨guards_nil _ _, by simp, .inl ⟨hend.1, t, rfl, hend.2⟩⟩
    rename_i hsemicolon
    split at hread
    · rename_i hend
      simp only [Except.ok.injEq, Prod.mk.injEq] at hread
      obtain ⟨rfl, rfl⟩ := hread
      exact ⟨guards_nil _ _, by simp, .inr (.inl ⟨hend.1, rfl, t, ts, rfl, hend.2⟩)⟩
    rename_i hclose
    split at hread
    · simp at hread
    rename_i value' rest' htail
    simp only [Except.ok.injEq, Prod.mk.injEq] at hread
    obtain ⟨rfl, rfl⟩ := hread
    obtain ⟨hguards, hfree, hend⟩ := ih htail
    refine ⟨guards_cons.mpr ⟨?_, hguards⟩, List.forall_mem_cons.mpr ⟨hopen, hfree⟩, ?_⟩
    · intro hdepth hmem
      simp only [valueStops, List.mem_cons, List.not_mem_nil, or_false] at hmem
      tauto
    · rw [depthBehind_cons]
      rcases hend with ⟨hdepth, semicolon, rfl, hkind⟩ | ⟨hdepth, rfl, hbehind⟩ | ⟨rfl, rfl⟩
      · exact .inl ⟨hdepth, semicolon, rfl, hkind⟩
      · exact .inr (.inl ⟨hdepth, rfl, hbehind⟩)
      · exact .inr (.inr ⟨rfl, rfl⟩)

theorem runText_nil : runText [] = [] := rfl

/-- A declaration is read from its run and whatever ends its value. -/
theorem declaration_declares {demand : Demand} {t : Token} {us ts rest : List Token} {item : Item}
    (hdeclares : Declares demand (t :: us) item)
    (hend : ∀ property, valueFrom property 0 ts = .ok ([], rest)) :
    declaration t (us ++ ts) = .ok (item, rest) := by
  generalize hrun : t :: us = run at hdeclares
  obtain ⟨hlead, hplain, hname, htext, hcolon, hvalue, -, -⟩ := hdeclares
  rename_i name value colon
  have hproperty : propertyFrom t.offset (t :: (us ++ ts)) = .ok (name, value ++ ts) := by
    rw [← List.cons_append, hrun, List.append_assoc, propertyFrom_property hname]
    simp [propertyFrom, hcolon, prepend, Except.map]
  rw [runText_eq] at htext
  rw [declaration, hproperty, runText_eq, runText_eq]
  simp only [htext, if_false, valueFrom_value hvalue.guards hvalue.noOpen, hvalue.closed, hend,
    prepend, Except.map, List.append_nil]

/-- A run that starts a declaration and whose value nothing ends. -/
inductive Unended : List Token → Prop where
  | intro {name value : List Token} {colon : Token} (hname : IsProperty name)
      (htext : runText name ≠ []) (hcolon : colon.kind = .colon)
      (hguards : Guards valueStops 0 value) (hopen : ∀ t ∈ value, t.kind ≠ .leftBrace) :
      Unended (name ++ colon :: value)

/-- What is read as a declaration is the run of one, unless the source ends with it. -/
theorem declares_of_declaration {t : Token} {ts rest : List Token} {item : Item}
    (hlead : LeadsEntry [t]) (hplain : LeadsPlain [t])
    (hread : declaration t ts = .ok (item, rest)) :
    rest = [] ∧ Unended (t :: ts) ∨ ∃ us, Declares anyRun us item ∧
      ((∃ semicolon, t :: ts = us ++ semicolon :: rest ∧ semicolon.kind = .semicolon) ∨
        t :: ts = us ++ rest ∧
          ∃ closing behind, rest = closing :: behind ∧ closing.kind = .rightBrace) := by
  rw [declaration] at hread
  split at hread
  · simp at hread
  rename_i name behind hproperty
  dsimp only at hread
  split at hread
  · simp at hread
  rename_i htext
  split at hread
  · simp at hread
  rename_i value rest' hvalue
  simp only [Except.ok.injEq, Prod.mk.injEq] at hread
  obtain ⟨rfl, rfl⟩ := hread
  obtain ⟨colon, hsplit, hname, hcolon⟩ := property_of_propertyFrom hproperty
  obtain ⟨hguards, hopen, hend⟩ := value_of_valueFrom hvalue
  obtain _ | ⟨u, name⟩ := name
  · exact absurd rfl htext
  simp only [List.cons_append, List.cons.injEq] at hsplit
  obtain ⟨rfl, rfl⟩ := hsplit
  rw [← runText_eq] at htext
  rw [← runText_eq, ← runText_eq]
  have hdeclares (hdepth : depthBehind 0 value = 0) :
      Declares anyRun (t :: name ++ colon :: value)
        (.declaration (runText (t :: name)) (runText value)) :=
    .intro (leadsEntry_cons.mpr (leadsEntry_cons.mp hlead))
      (leadsPlain_cons.mpr (leadsPlain_cons.mp hplain)) hname htext hcolon
      ⟨hguards, hopen, hdepth⟩ trivial trivial
  rcases hend with ⟨hdepth, semicolon, rfl, hkind⟩ | ⟨hdepth, rfl, hclose⟩ | ⟨rfl, rfl⟩
  · exact .inr ⟨_, hdeclares hdepth, .inl ⟨semicolon, by simp, hkind⟩⟩
  · exact .inr ⟨_, hdeclares hdepth, .inr ⟨by simp, hclose⟩⟩
  · exact .inl ⟨rfl, .intro hname htext hcolon hguards hopen⟩

/-- The first token of a declaration. -/
theorem Declares.head {demand : Demand} {us : List Token} {item : Item}
    (hdeclares : Declares demand us item) :
    ∃ t tail, us = t :: tail ∧ t.kind.isSkipped = false ∧ t.kind ≠ .comment ∧
      t.kind ≠ .atKeyword ∧ t.kind ≠ .leftBrace ∧ t.kind ≠ .rightBrace := by
  obtain ⟨hlead, hplain, hname, htext, -, -, -, -⟩ := hdeclares
  rename_i name value colon
  obtain _ | ⟨t, name⟩ := name
  · exact absurd runText_nil htext
  · obtain ⟨hskip, hcomment⟩ := leadsEntry_cons.mp hlead
    obtain ⟨-, -, hopen, hclose⟩ := hname t (by simp)
    exact ⟨t, _, rfl, hskip, hcomment, leadsPlain_cons.mp hplain, hopen, hclose⟩

/-! ## Items -/

/-- How items are read where a declaration starts. -/
theorem itemList_declaration {opened : Nat} {t : Token} {ts : List Token}
    (hskip : t.kind.isSkipped = false) (hcomment : t.kind ≠ .comment)
    (hkeyword : t.kind ≠ .atKeyword) (hopen : t.kind ≠ .leftBrace)
    (hclose : t.kind ≠ .rightBrace) :
    itemList opened (t :: ts) =
      match declaration t ts with
      | .error fault => .error fault
      | .ok (item, behind) =>
        match itemList opened behind with
        | .error fault => .error fault
        | .ok (items, rest) => .ok (item :: items, rest) := by
  rw [itemList]
  simp only [hskip, Bool.false_eq_true, if_false]
  split
  · rename_i hread
    rw [hread]
  · rename_i behind hread
    rcases hrest : itemList opened behind with fault | ⟨items, rest⟩ <;>
      simp only [hread, hrest]

theorem itemList_itemSeq {demand : Demand} {body : List Token} {items : List Item}
    (hitems : ItemSeq demand body items) {closing : Token} (hclose : closing.kind = .rightBrace)
    (opened : Nat) (rest : List Token) :
    itemList opened (body ++ closing :: rest) = .ok (items, rest) := by
  induction hitems with
  | nil => simp [itemList, hclose, TokenKind.isSkipped]
  | skip hskip _ ih =>
    rw [List.cons_append, itemList, if_pos (isSkipped_iff_mem.mpr hskip), ih]
  | comment hkind _ ih =>
    rw [List.cons_append, itemList]
    simp [hkind, TokenKind.isSkipped, ih, commentBody_eq]
  | @declaration us ts semicolon _ _ first hend _ ih =>
    obtain ⟨t, tail, rfl, hskip, hcomment, hkeyword, hopen, hbrace⟩ := first.head
    have hread : declaration t (tail ++ semicolon :: (ts ++ closing :: rest)) =
        .ok (_, ts ++ closing :: rest) :=
      declaration_declares first fun property => by simp [valueFrom, hend]
    simp only [List.cons_append, List.append_assoc]
    rw [itemList_declaration hskip hcomment hkeyword hopen hbrace, hread]
    simp only [ih]
  | last first =>
    obtain ⟨t, tail, rfl, hskip, hcomment, hkeyword, hopen, hbrace⟩ := first.head
    have hread : declaration t (tail ++ closing :: rest) = .ok (_, closing :: rest) :=
      declaration_declares first fun property => by simp [valueFrom, hclose]
    rw [List.cons_append, itemList_declaration hskip hcomment hkeyword hopen hbrace, hread]
    simp [itemList, hclose, TokenKind.isSkipped]

/-- Items are read up to the brace that closes their block. -/
theorem itemSeq_of_itemList {opened : Nat} {ts rest : List Token} {items : List Item}
    (hread : itemList opened ts = .ok (items, rest)) :
    ∃ body closing, ts = body ++ closing :: rest ∧ closing.kind = .rightBrace ∧
      ItemSeq anyRun body items := by
  fun_induction itemList opened ts generalizing items with
  | case1 => simp at hread
  | case2 t ts hskip ih =>
    obtain ⟨body, closing, rfl, hclose, hitems⟩ := ih hread
    exact ⟨t :: body, closing, rfl, hclose, .skip (isSkipped_iff_mem.mp hskip) hitems⟩
  | case3 t ts hskip hkind =>
    simp only [Except.ok.injEq, Prod.mk.injEq] at hread
    obtain ⟨rfl, rfl⟩ := hread
    exact ⟨[], t, rfl, hkind, .nil⟩
  | case5 t ts hskip hkind items' rest' htail ih =>
    simp only [Except.ok.injEq, Prod.mk.injEq] at hread
    obtain ⟨rfl, rfl⟩ := hread
    obtain ⟨body, closing, rfl, hclose, hitems⟩ := ih htail
    rw [← commentBody_eq]
    exact ⟨t :: body, closing, rfl, hclose, .comment hkind hitems⟩
  | case10 t ts hskip item behind hfirst _ items' rest' htail hbrace hcomment hkeyword _ ih =>
    simp only [Except.ok.injEq, Prod.mk.injEq] at hread
    obtain ⟨rfl, rfl⟩ := hread
    obtain ⟨rfl, -⟩ | ⟨us, hdeclares, hend⟩ := declares_of_declaration
      (leadsEntry_cons.mpr ⟨Bool.eq_false_iff.mpr hskip, hcomment⟩)
      (leadsPlain_cons.mpr hkeyword) hfirst
    · simp [itemList] at htail
    rcases hend with ⟨semicolon, hsplit, hkind⟩ | ⟨hsplit, brace, behind, rfl, hkind⟩
    · obtain ⟨body, closing, rfl, hclose, hitems⟩ := ih htail
      exact ⟨us ++ semicolon :: body, closing, by simp [hsplit], hclose,
        .declaration hdeclares hkind hitems⟩
    · -- The closing brace is left for the block, which it ends.
      rw [itemList] at htail
      simp only [hkind, TokenKind.isSkipped, Bool.false_eq_true, if_false, Except.ok.injEq,
        Prod.mk.injEq] at htail
      obtain ⟨rfl, rfl⟩ := htail
      exact ⟨us, brace, hsplit, hkind, .last hdeclares⟩
  | _ => simp at hread

/-! ## Blocks and keyframes -/

/-- The first token of a block with its selectors. -/
theorem Qualifies.head {demand : Demand} {us : List Token} {block : Block}
    (hblock : Qualifies demand us block) :
    ∃ t tail, us = t :: tail ∧ t.kind.isSkipped = false ∧ t.kind ≠ .comment ∧
      t.kind ≠ .rightBrace := by
  obtain ⟨hlead, hpre, hparts, htext, -, -, -, -⟩ := hblock
  rename_i pre _ _ _ _ _
  rw [hparts.textsOf_eq] at htext
  obtain _ | ⟨t, pre⟩ := pre
  · exact absurd (by decide) htext
  · obtain ⟨hskip, hcomment⟩ := leadsEntry_cons.mp hlead
    have hguards := (guards_cons.mp hpre.guards).1 rfl
    refine ⟨t, _, rfl, hskip, hcomment, fun hclose => ?_⟩
    simp [preludeStops, hclose] at hguards

theorem block_qualifies {demand : Demand} {t : Token} {us : List Token} {b : Block}
    (hblock : Qualifies demand (t :: us) b) (eof : Nat) (rest : List Token) :
    block eof t (us ++ rest) = .ok (b, rest) := by
  generalize hrun : t :: us = run at hblock
  obtain ⟨hlead, hpre, hparts, htext, -, hopen, hitems, hclose⟩ := hblock
  rename_i pre body parts opening closing items
  rw [hparts.textsOf_eq] at htext ⊢
  have hprelude : prelude eof (t :: (us ++ rest)) =
      .ok (withoutComments pre, opening.offset, body ++ closing :: rest) := by
    rw [← List.cons_append, hrun]
    simpa using prelude_isPrelude hpre hopen eof (body ++ closing :: rest)
  rw [block, hprelude]
  simp only [selectorsOf_withoutComments, htext, if_false, itemList_itemSeq hitems hclose]

/-- A block is read with its selectors and its closing brace. -/
theorem qualifies_of_block {eof : Nat} {t : Token} {ts rest : List Token} {b : Block}
    (hlead : LeadsEntry [t]) (hread : block eof t ts = .ok (b, rest)) :
    ∃ us, ts = us ++ rest ∧ Qualifies anyRun (t :: us) b := by
  rw [block] at hread
  split at hread
  · simp at hread
  rename_i pre opened body hprelude
  dsimp only at hread
  split at hread
  · simp at hread
  rename_i htext
  split at hread
  · simp at hread
  rename_i items rest' hitems
  simp only [Except.ok.injEq, Prod.mk.injEq] at hread
  obtain ⟨rfl, rfl⟩ := hread
  obtain ⟨run, opening, hsplit, hpre, hopen, rfl, rfl⟩ := prelude_eq_ok_iff.mp hprelude
  obtain ⟨inner, closing, rfl, hclose, hseq⟩ := itemSeq_of_itemList hitems
  rw [selectorsOf_withoutComments] at htext ⊢
  obtain _ | ⟨u, run⟩ := run
  · exact absurd (by decide) htext
  simp only [List.cons_append, List.cons.injEq] at hsplit
  obtain ⟨rfl, rfl⟩ := hsplit
  refine ⟨run ++ opening :: (inner ++ [closing]), by simp, ?_⟩
  rw [← List.cons_append]
  exact .of_selectorsOf (leadsEntry_cons.mpr (leadsEntry_cons.mp hlead)) hpre htext trivial hopen
    hseq hclose

/-- How keyframes are read where one starts. -/
theorem keyframeList_keyframe {eof opened : Nat} {t : Token} {ts : List Token}
    (hskip : t.kind.isSkipped = false) (hcomment : t.kind ≠ .comment)
    (hclose : t.kind ≠ .rightBrace) :
    keyframeList eof opened (t :: ts) =
      match block eof t ts with
      | .error fault => .error fault
      | .ok (frame, behind) =>
        match keyframeList eof opened behind with
        | .error fault => .error fault
        | .ok (rules, rest) => .ok (.keyframe frame :: rules, rest) := by
  rw [keyframeList]
  simp only [hskip, Bool.false_eq_true, if_false]
  split
  · rename_i hread
    rw [hread]
  · rename_i behind hread
    rcases hrest : keyframeList eof opened behind with fault | ⟨rules, rest⟩ <;>
      simp only [hread, hrest]

theorem keyframeList_keyframeSeq {demand : Demand} {body : List Token} {rules : List Rule}
    (hrules : KeyframeSeq demand body rules) {closing : Token}
    (hclose : closing.kind = .rightBrace) (eof opened : Nat) (rest : List Token) :
    keyframeList eof opened (body ++ closing :: rest) = .ok (rules, rest) := by
  induction hrules with
  | nil => simp [keyframeList, hclose, TokenKind.isSkipped]
  | skip hskip _ ih =>
    rw [List.cons_append, keyframeList, if_pos (isSkipped_iff_mem.mpr hskip), ih]
  | comment hkind _ ih =>
    rw [List.cons_append, keyframeList]
    simp [hkind, TokenKind.isSkipped, ih, commentBody_eq]
  | @keyframe us ts _ _ first _ ih =>
    obtain ⟨t, tail, rfl, hskip, hcomment, hbrace⟩ := first.head
    have hread := block_qualifies first eof (ts ++ closing :: rest)
    rw [List.append_assoc, List.cons_append, keyframeList_keyframe hskip hcomment hbrace, hread]
    simp only [ih]

/-- Keyframes are read up to the brace that closes their animation. -/
theorem keyframeSeq_of_keyframeList {eof opened : Nat} {ts rest : List Token} {rules : List Rule}
    (hread : keyframeList eof opened ts = .ok (rules, rest)) :
    ∃ body closing, ts = body ++ closing :: rest ∧ closing.kind = .rightBrace ∧
      KeyframeSeq anyRun body rules := by
  fun_induction keyframeList eof opened ts generalizing rules with
  | case2 t ts hskip ih =>
    obtain ⟨body, closing, rfl, hclose, hrules⟩ := ih hread
    exact ⟨t :: body, closing, rfl, hclose, .skip (isSkipped_iff_mem.mp hskip) hrules⟩
  | case3 t ts hskip hkind =>
    simp only [Except.ok.injEq, Prod.mk.injEq] at hread
    obtain ⟨rfl, rfl⟩ := hread
    exact ⟨[], t, rfl, hkind, .nil⟩
  | case5 t ts hskip hkind rules' rest' htail ih =>
    simp only [Except.ok.injEq, Prod.mk.injEq] at hread
    obtain ⟨rfl, rfl⟩ := hread
    obtain ⟨body, closing, rfl, hclose, hrules⟩ := ih htail
    rw [← commentBody_eq]
    exact ⟨t :: body, closing, rfl, hclose, .comment hkind hrules⟩
  | case8 t ts hskip frame behind hfirst _ rules' rest' htail _ hcomment ih =>
    simp only [Except.ok.injEq, Prod.mk.injEq] at hread
    obtain ⟨rfl, rfl⟩ := hread
    obtain ⟨us, rfl, hblock⟩ := qualifies_of_block
      (leadsEntry_cons.mpr ⟨Bool.eq_false_iff.mpr hskip, hcomment⟩) hfirst
    obtain ⟨body, closing, rfl, hclose, hrules⟩ := ih htail
    exact ⟨t :: us ++ body, closing, by simp, hclose, .keyframe hblock hrules⟩
  | _ => simp at hread

end PixelRem.Css
