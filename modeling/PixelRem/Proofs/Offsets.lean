import Mathlib
import PixelRem.Proofs.Lexer
import PixelRem.Proofs.Parse

/-!
# Readers and offsets

The readers pass the offsets of tokens on to faults and never compute with them.  So a reader
of tokens whose offsets are all moved by `f` gives the fault it gave, moved by `f`, or what it
read and the moved tokens behind it.  There is one equation for each reader: `prelude_move`,
`rawFrom_move`, `declaration_move`, `itemList_move`, `block_move`, `keyframeList_move` and
`readRules_move`.

`parseTokens_move` says so of a whole token list, and `tokenize_append` that the tokens of the
second of two texts are moved by the length of the first.
-/

namespace PixelRem.Css

/-- A token at another offset. -/
def Token.move (f : Nat → Nat) (t : Token) : Token :=
  { t with offset := f t.offset }

/-- A fault that points at another offset. -/
def Fault.move (f : Nat → Nat) (fault : Fault) : Fault :=
  { fault with offset := f fault.offset }

/-- A reading whose fault is moved by `f` and whose result is mapped by `g`. -/
def moved {α β : Type} (f : Nat → Nat) (g : α → β) (read : Except Fault α) : Except Fault β :=
  (read.map g).mapError (Fault.move f)

section Moved

variable {α β : Type} (f : Nat → Nat)

@[simp] theorem moved_error (g : α → β) (fault : Fault) :
    moved f g (.error fault) = .error (fault.move f) := rfl

@[simp] theorem moved_ok (g : α → β) (a : α) : moved f g (.ok a) = .ok (g a) := rfl

@[simp] theorem kind_move (t : Token) : (t.move f).kind = t.kind := rfl

@[simp] theorem text_move (t : Token) : (t.move f).text = t.text := rfl

@[simp] theorem offset_move (t : Token) : (t.move f).offset = f t.offset := rfl

/-- What a reader of parts gives for moved tokens. -/
abbrev moveParts : List Token × List Token → List Token × List Token :=
  Prod.map (List.map (Token.move f)) (List.map (Token.move f))

/-- What a reader of anything without offsets gives for moved tokens. -/
abbrev moveRest : α × List Token → α × List Token :=
  Prod.map id (List.map (Token.move f))

end Moved

/-! ## Texts -/

section Text

variable (f : Nat → Nat) (ts : List Token)

theorem joinFrom_move (started blank : Bool) :
    joinFrom started blank (ts.map (Token.move f)) = joinFrom started blank ts := by
  induction ts generalizing started blank with
  | nil => rfl
  | cons t ts ih => simp only [List.map_cons, joinFrom, kind_move, text_move, ih]

theorem joinTokens_move : joinTokens (ts.map (Token.move f)) = joinTokens ts :=
  joinFrom_move f ts false false

theorem splitFrom_move (depth : Nat) :
    splitFrom depth (ts.map (Token.move f)) =
      Prod.map (List.map (Token.move f)) (List.map (List.map (Token.move f)))
        (splitFrom depth ts) := by
  induction ts generalizing depth with
  | nil => rfl
  | cons t ts ih =>
    simp only [List.map_cons, splitFrom, kind_move, ih]
    split_ifs <;> rfl

theorem selectorsOf_move : selectorsOf (ts.map (Token.move f)) = selectorsOf ts := by
  have hjoin : joinTokens ∘ List.map (Token.move f) = joinTokens := funext (joinTokens_move f)
  unfold selectorsOf splitTopLevel
  rw [splitFrom_move]
  simp only [Prod.map_fst, Prod.map_snd, List.map_cons, List.map_map, joinTokens_move, hjoin]

theorem rawText_move (t : Token) : rawText (t.move f) (ts.map (Token.move f)) = rawText t ts := by
  unfold rawText
  rw [List.flatMap_map]
  rfl

end Text

/-! ## Readers of runs -/

section Runs

variable (f : Nat → Nat)

theorem preludeFrom_move (start depth : Nat) (ts : List Token) :
    preludeFrom (f start) depth (ts.map (Token.move f)) =
      moved f (Prod.map (List.map (Token.move f)) (Prod.map f (List.map (Token.move f))))
        (preludeFrom start depth ts) := by
  induction ts generalizing depth with
  | nil => rfl
  | cons t ts ih =>
    rw [List.map_cons, preludeFrom, preludeFrom, kind_move, offset_move, ih]
    by_cases hopen : depth = 0 ∧ t.kind = .leftBrace
    · rw [if_pos hopen, if_pos hopen]
      rfl
    rw [if_neg hopen, if_neg hopen]
    by_cases hstop : depth = 0 ∧ (t.kind = .semicolon ∨ t.kind = .rightBrace)
    · rw [if_pos hstop, if_pos hstop]
      rfl
    rw [if_neg hstop, if_neg hstop]
    cases preludeFrom start (t.kind.depthAfter depth) ts with
    | error fault => rfl
    | ok read =>
      obtain ⟨pre, opened, rest⟩ := read
      by_cases hcomment : t.kind = .comment <;> simp [hcomment]

theorem startOf_move (eof : Nat) (ts : List Token) :
    startOf (f eof) (ts.map (Token.move f)) = f (startOf eof ts) := by
  cases ts <;> rfl

theorem prelude_move (eof : Nat) (ts : List Token) :
    prelude (f eof) (ts.map (Token.move f)) =
      moved f (Prod.map (List.map (Token.move f)) (Prod.map f (List.map (Token.move f))))
        (prelude eof ts) := by
  rw [prelude, startOf_move, preludeFrom_move, prelude]

theorem rawFrom_move (depth opened : Nat) (ts : List Token) :
    rawFrom depth (f opened) (ts.map (Token.move f)) =
      moved f (moveParts f) (rawFrom depth opened ts) := by
  induction ts generalizing depth opened with
  | nil =>
    simp only [List.map_nil, rawFrom]
    split_ifs <;> rfl
  | cons t ts ih =>
    rw [List.map_cons, rawFrom, rawFrom, kind_move, offset_move]
    by_cases hsemicolon : depth = 0 ∧ t.kind = .semicolon
    · rw [if_pos hsemicolon, if_pos hsemicolon]
      rfl
    rw [if_neg hsemicolon, if_neg hsemicolon]
    by_cases hbrace : depth = 0 ∧ t.kind = .rightBrace
    · rw [if_pos hbrace, if_pos hbrace]
      rfl
    rw [if_neg hbrace, if_neg hbrace]
    by_cases hclose : depth = 1 ∧ t.kind = .rightBrace
    · rw [if_pos hclose, if_pos hclose]
      rfl
    rw [if_neg hclose, if_neg hclose, ← apply_ite f]
    dsimp only
    rw [ih]
    cases rawFrom (t.kind.braceDepthAfter depth) _ ts <;> rfl

/-- Outside braces no brace is open, so none is reported. -/
theorem rawFrom_zero (opened opened' : Nat) (ts : List Token) :
    rawFrom 0 opened ts = rawFrom 0 opened' ts := by
  induction ts with
  | nil => rfl
  | cons t ts ih =>
    simp only [rawFrom]
    split_ifs with _ _ _ hopen
    · rfl
    · rfl
    · rfl
    · rfl
    · have hdepth : t.kind.braceDepthAfter 0 = 0 := by
        unfold TokenKind.braceDepthAfter
        split
        · rename_i hkind
          exact absurd ⟨trivial, hkind⟩ hopen
        · rfl
        · rfl
      rw [hdepth, ih]

theorem propertyFrom_move (start : Nat) (ts : List Token) :
    propertyFrom (f start) (ts.map (Token.move f)) =
      moved f (moveParts f) (propertyFrom start ts) := by
  induction ts with
  | nil => rfl
  | cons t ts ih =>
    simp only [List.map_cons, propertyFrom, kind_move, ih]
    split
    all_goals first
      | rfl
      | cases propertyFrom start ts <;> rfl

theorem valueFrom_move (property : Text) (depth : Nat) (ts : List Token) :
    valueFrom property depth (ts.map (Token.move f)) =
      moved f (moveParts f) (valueFrom property depth ts) := by
  induction ts generalizing depth with
  | nil => rfl
  | cons t ts ih =>
    simp only [List.map_cons, valueFrom, kind_move, offset_move, ih]
    split_ifs
    · rfl
    · rfl
    · rfl
    all_goals cases valueFrom property (t.kind.depthAfter depth) ts <;> rfl

theorem declaration_move (t : Token) (ts : List Token) :
    declaration (t.move f) (ts.map (Token.move f)) = moved f (moveRest f) (declaration t ts) := by
  have hproperty := propertyFrom_move f t.offset (t :: ts)
  rw [declaration, offset_move, ← List.map_cons, hproperty, declaration]
  cases propertyFrom t.offset (t :: ts) with
  | error fault => rfl
  | ok read =>
    obtain ⟨name, behind⟩ := read
    simp only [moved_ok, Prod.map_apply, joinTokens_move, valueFrom_move]
    split_ifs
    · rfl
    · cases valueFrom (joinTokens name) 0 behind with
      | error fault => rfl
      | ok read =>
        simp only [moved_ok, Prod.map_fst, Prod.map_snd, joinTokens_move]
        rfl

theorem itemList_move (opened : Nat) (ts : List Token) :
    itemList (f opened) (ts.map (Token.move f)) = moved f (moveRest f) (itemList opened ts) := by
  induction hlength : ts.length using Nat.strong_induction_on generalizing ts with
  | _ n ih =>
    subst hlength
    cases ts with
    | nil =>
      rw [List.map_nil, itemList, itemList]
      rfl
    | cons t ts =>
      have htail := ih ts.length (by simp) ts rfl
      by_cases hskip : t.kind.isSkipped = true
      · rw [List.map_cons, itemList, itemList, kind_move, if_pos hskip, if_pos hskip, htail]
      rw [Bool.not_eq_true] at hskip
      by_cases hclose : t.kind = .rightBrace
      · simp [itemList, hclose, TokenKind.isSkipped]
      by_cases hcomment : t.kind = .comment
      · simp only [List.map_cons, itemList, kind_move, text_move, hcomment, htail]
        cases itemList opened ts <;> rfl
      by_cases hkeyword : t.kind = .atKeyword
      · simp [itemList, hkeyword, TokenKind.isSkipped, Fault.move]
      by_cases hopen : t.kind = .leftBrace
      · simp [itemList, hopen, TokenKind.isSkipped, Fault.move]
      rw [List.map_cons, itemList_declaration hskip hcomment hkeyword hopen hclose,
        itemList_declaration (t := t.move f) hskip hcomment hkeyword hopen hclose,
        declaration_move]
      cases hread : declaration t ts with
      | error fault => rfl
      | ok read =>
        obtain ⟨item, behind⟩ := read
        have hbehind := declaration_length hread
        have hrest := ih behind.length (by rw [List.length_cons]; omega) behind rfl
        simp only [moved_ok, Prod.map_apply, id, hrest]
        cases itemList opened behind <;> rfl

theorem block_move (eof : Nat) (t : Token) (ts : List Token) :
    block (f eof) (t.move f) (ts.map (Token.move f)) = moved f (moveRest f) (block eof t ts) := by
  have hprelude := prelude_move f eof (t :: ts)
  rw [block, offset_move, ← List.map_cons, hprelude, block]
  cases prelude eof (t :: ts) with
  | error fault => rfl
  | ok read =>
    obtain ⟨pre, opened, body⟩ := read
    simp only [moved_ok, Prod.map_apply, selectorsOf_move, itemList_move]
    split_ifs
    · rfl
    · cases itemList opened body <;> rfl

theorem keyframeList_move (eof opened : Nat) (ts : List Token) :
    keyframeList (f eof) (f opened) (ts.map (Token.move f)) =
      moved f (moveRest f) (keyframeList eof opened ts) := by
  induction hlength : ts.length using Nat.strong_induction_on generalizing ts with
  | _ n ih =>
    subst hlength
    cases ts with
    | nil =>
      rw [List.map_nil, keyframeList, keyframeList]
      rfl
    | cons t ts =>
      have htail := ih ts.length (by simp) ts rfl
      by_cases hskip : t.kind.isSkipped = true
      · rw [List.map_cons, keyframeList, keyframeList, kind_move, if_pos hskip, if_pos hskip, htail]
      rw [Bool.not_eq_true] at hskip
      by_cases hclose : t.kind = .rightBrace
      · simp [keyframeList, hclose, TokenKind.isSkipped]
      by_cases hcomment : t.kind = .comment
      · simp only [List.map_cons, keyframeList, kind_move, text_move, hcomment, htail]
        cases keyframeList eof opened ts <;> rfl
      rw [List.map_cons, keyframeList_keyframe hskip hcomment hclose,
        keyframeList_keyframe (t := t.move f) hskip hcomment hclose, block_move]
      cases hread : block eof t ts with
      | error fault => rfl
      | ok read =>
        obtain ⟨frame, behind⟩ := read
        have hbehind := block_length hread
        have hrest := ih behind.length (by rw [List.length_cons]; omega) behind rfl
        simp only [moved_ok, Prod.map_apply, id, hrest]
        cases keyframeList eof opened behind <;> rfl

end Runs

/-! ## Readers of rules -/

section Rules

variable (f : Nat → Nat)

/-- A rule whose block is read by moved tokens.  The blocks of media queries are moved by
`hblocks`. -/
theorem readRule_move {eof : Nat} {t : Token} {ts : List Token}
    (hblocks : ∀ opened us, us.length ≤ ts.length →
      readRules (f eof) (some (f opened)) (us.map (Token.move f)) =
        moved f (moveRest f) (readRules eof (some opened) us)) :
    readRule (f eof) (t.move f) (ts.map (Token.move f)) =
      moved f (moveRest f) (readRule eof t ts) := by
  by_cases hcomment : t.kind = .comment
  · rw [readRule_comment hcomment, readRule_comment (t := t.move f) hcomment]
    rfl
  by_cases hkeyword : t.kind = .atKeyword
  · obtain ⟨hname, -⟩ | ⟨hname, -⟩ | ⟨hname, -⟩ := atRuleOf_cases hkeyword
    · rw [readRule_media hname, readRule_media (t := t.move f) hname, prelude_move]
      cases hread : prelude eof ts with
      | error fault => rfl
      | ok read =>
        obtain ⟨pre, opened, body⟩ := read
        have hbody := prelude_length hread
        simp only [moved_ok, Prod.map_apply, joinTokens_move, hblocks opened body (by omega)]
        cases readRules eof (some opened) body <;> rfl
    · rw [readRule_keyframes hname, readRule_keyframes (t := t.move f) hname, prelude_move]
      cases prelude eof ts with
      | error fault => rfl
      | ok read =>
        obtain ⟨pre, opened, body⟩ := read
        simp only [moved_ok, Prod.map_apply, joinTokens_move, keyframeList_move, text_move]
        cases keyframeList eof opened body <;> rfl
    · rw [readRule_other hname, readRule_other (t := t.move f) hname, rawFrom_zero 0 (f 0),
        rawFrom_move]
      cases rawFrom 0 0 ts with
      | error fault => rfl
      | ok read =>
        simp only [moved_ok, Except.map, rawText_move, Prod.map_fst, Prod.map_snd]
        rfl
  · rw [readRule_style hcomment hkeyword, readRule_style (t := t.move f) hcomment hkeyword,
      block_move]
    cases block eof t ts <;> rfl

omit f in
theorem readRule_length {eof : Nat} {t : Token} {ts rest : List Token} {first : Rule}
    (hread : readRule eof t ts = .ok (first, rest)) : rest.length ≤ ts.length := by
  obtain ⟨⟨first', rest'⟩, -, hrest⟩ := map_eq_ok_iff.mp hread
  obtain ⟨-, rfl⟩ := Prod.mk.inj hrest
  exact rest'.2

theorem readRules_move (eof : Nat) (opened : Option Nat) (ts : List Token) :
    readRules (f eof) (opened.map f) (ts.map (Token.move f)) =
      moved f (moveRest f) (readRules eof opened ts) := by
  -- The rule behind a first one and the block of a media query are both shorter than `ts`.
  induction hlength : ts.length using Nat.strong_induction_on generalizing opened ts with
  | _ n ih =>
    subst hlength
    cases ts with
    | nil =>
      cases opened with
      | none =>
        rw [List.map_nil, Option.map_none, readRules_nil_none, readRules_nil_none]
        rfl
      | some opened =>
        rw [List.map_nil, Option.map_some, readRules_nil_some, readRules_nil_some]
        rfl
    | cons t ts =>
      rw [List.map_cons]
      by_cases hskip : t.kind.isSkipped = true
      · rw [readRules_skip hskip, readRules_skip (t := t.move f) hskip,
          ih ts.length (by simp) opened ts rfl]
      rw [Bool.not_eq_true] at hskip
      by_cases hclose : t.kind = .rightBrace
      · cases opened with
        | none =>
          rw [Option.map_none, readRules_close_none hclose,
            readRules_close_none (t := t.move f) hclose]
          rfl
        | some opened =>
          rw [Option.map_some, readRules_close hclose, readRules_close (t := t.move f) hclose]
          rfl
      have hfirst : readRule (f eof) (t.move f) (ts.map (Token.move f)) =
          moved f (moveRest f) (readRule eof t ts) := by
        refine readRule_move f fun opened us hus => ?_
        exact ih us.length (by rw [List.length_cons]; omega) (some opened) us rfl
      rw [readRules_rule hskip hclose, readRules_rule (t := t.move f) hskip hclose, hfirst]
      cases hread : readRule eof t ts with
      | error fault => rfl
      | ok read =>
        obtain ⟨first, behind⟩ := read
        have hbehind := readRule_length hread
        have hrest := ih behind.length (by rw [List.length_cons]; omega) opened behind rfl
        simp only [moved_ok, Prod.map_apply, id, hrest]
        cases readRules eof opened behind <;> rfl

/-- Tokens that are moved, with the end of the source, have the same rules or the same fault
at its new place. -/
theorem parseTokens_move (eof : Nat) (ts : List Token) :
    parseTokens (f eof) (ts.map (Token.move f)) = moved f id (parseTokens eof ts) := by
  have hrules := readRules_move f eof none ts
  rw [Option.map_none] at hrules
  rw [parseTokens_eq, parseTokens_eq, hrules]
  cases readRules eof none ts <;> rfl

end Rules

/-! ## Tokens -/

theorem place_move (offset n : Nat) (ts : List Token) :
    place (offset + n) ts = (place offset ts).map (Token.move (· + n)) := by
  induction ts generalizing offset with
  | nil => rfl
  | cons t ts ih =>
    rw [place, place, List.map_cons, Nat.add_right_comm, ih]
    rfl

theorem tokenizeFrom_eq_place (offset : Nat) (t : Text) :
    tokenizeFrom offset t = place offset (tokenize t) := by
  have hcut := tokenizeFrom_cut (cut_tokenize t) offset
  rwa [textOf_tokenize, List.append_nil, tokenizeFrom_nil, List.append_nil] at hcut

/-- The tokens of two texts, if those of the first are cut before the second. -/
theorem tokenize_append {a b : Text} (hcut : Cut (tokenize a) b) :
    tokenize (a ++ b) = tokenize a ++ (tokenize b).map (Token.move (· + a.length)) := by
  have htokens := tokenizeFrom_cut hcut 0
  rw [textOf_tokenize, tokenizeFrom_eq_place (0 + a.length), place_move] at htokens
  rw [tokenize, htokens, ← tokenizeFrom_eq_place, ← tokenizeFrom_eq_place]
  rfl

end PixelRem.Css
