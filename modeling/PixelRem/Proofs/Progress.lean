import Mathlib
import PixelRem.Proofs.Lexer
import PixelRem.Proofs.Positions

/-!
# Reading always goes on

The lists of items, keyframes and rules, read by position.  Every routine that succeeds stands
behind where it started and not behind the last token, every turn of a list ends the list or
goes on, and no token is asked for behind the last one.

Rules can hold rules.  `rules` takes the number of lists that may be open at once.  A list opens
behind the opening brace of a media query, and the tokens left there have one opening brace less
(`braces_prelude`), so the opening braces of the source bound how deep the lists are nested.
-/

namespace PixelRem.Css

namespace Cursor

/-! ## Items -/

section Items

variable (ts : List Token)

/-- The end of the tokens in a block opened at `opened`. -/
def unclosed {β : Type} (opened : Nat) (_ : List β) (_ : Nat) :
    Except Stop (Turn (List β) (List β)) :=
  .error (.fault ⟨opened, .missingClose⟩)

/-- An item of a block, or its closing brace. -/
def itemEntry (items : List Item) (t : Token) (pos : Nat) :
    Except Stop (Turn (List Item) (List Item)) :=
  if t.kind = .rightBrace then .ok (.done items (pos + 1))
  else if t.kind = .atKeyword then .error (.fault ⟨t.offset, .atRuleInBlock t.text⟩)
  else if t.kind = .leftBrace then .error (.fault ⟨t.offset, .unexpectedOpen⟩)
  else declaration ts pos >>= fun r => .ok (.again (items ++ [r.1]) r.2)

/-- One turn of reading items. -/
def itemTurn (opened : Nat) : List Item → Nat → Except Stop (Turn (List Item) (List Item)) :=
  listTurn ts .comment (unclosed opened) (itemEntry ts)

/-- Reads items up to the closing brace of their block. -/
def items (opened pos : Nat) : Except Stop (List Item × Nat) :=
  loop (itemTurn ts opened) (ts.length + 1) [] pos

theorem readsEntries_itemList (opened : Nat) : ReadsEntries Item.comment (itemList opened) where
  skip t us hskip := by rw [itemList, if_pos hskip]
  comment t us hcomment := by
    rw [itemList, if_neg (by simp [hcomment, TokenKind.isSkipped])]
    simp only [hcomment]
    rcases itemList opened us with fault | ⟨items, rest⟩ <;> rfl

variable {ts}

theorem follows_itemTurn (opened : Nat) (items : List Item) {pos : Nat} (hpos : pos ≤ ts.length) :
    Follows ts (fun items us => after items (itemList opened us)) items pos
      (itemTurn ts opened items pos) := by
  refine follows_listTurn (readsEntries_itemList opened) hpos ?_ ?_
  · exact .fault (by rw [List.drop_length, itemList]; rfl)
  intro t us next _ hdrop hskip hcomment
  obtain ⟨hless, -, hbehind⟩ := peek_of_drop hdrop
  rw [itemEntry]
  by_cases hclose : t.kind = .rightBrace
  · rw [if_pos hclose]
    refine .done hless ?_
    rw [hdrop, hbehind, itemList, if_neg (by simp [hskip])]
    simp [hclose]
  by_cases hkeyword : t.kind = .atKeyword
  · rw [if_neg hclose, if_pos hkeyword]
    refine .fault ?_
    rw [hdrop, itemList, if_neg (by simp [hskip])]
    simp [hkeyword]
  by_cases hopen : t.kind = .leftBrace
  · rw [if_neg hclose, if_neg hkeyword, if_pos hopen]
    refine .fault ?_
    rw [hdrop, itemList, if_neg (by simp [hskip])]
    simp [hopen]
  rw [if_neg hclose, if_neg hkeyword, if_neg hopen]
  have hequation := @itemList_declaration opened t us hskip hcomment hkeyword hopen hclose
  refine follows_entry id (agrees_declaration ts hdrop) (fun fault hread => ?_)
    (fun item rest hread => ⟨?_, ?_⟩)
  · rw [hdrop, hequation, hread]
  · rw [hdrop]
    exact Nat.lt_succ_of_le (declaration_length hread)
  · rw [hdrop, hequation, hread]
    dsimp only
    rcases itemList opened rest with fault | ⟨items, rest⟩ <;> rfl

theorem agrees_items (opened : Nat) {pos : Nat} (hpos : pos ≤ ts.length) :
    Agrees ts (items ts opened pos) (itemList opened (ts.drop pos)) := by
  have hloop := agrees_loop_length
    (fun items _ _ hnext => follows_itemTurn opened items hnext) [] hpos
  rwa [after_nil] at hloop

end Items

/-! ## Blocks and keyframes -/

section Blocks

variable (eof : Nat) (ts : List Token)

/-- Reads selectors and the block behind them. -/
def block (pos : Nat) : Except Stop (Block × Nat) := do
  let t ← peek ts pos
  let pre ← prelude eof ts pos
  let selectors := selectorsOf pre.1.1
  if selectors = [] then .error (.fault ⟨t.offset, .selectorMissing⟩)
  else
    let body ← items ts pre.1.2 pre.2
    .ok (⟨selectors, body.1⟩, body.2)

/-- A keyframe of an animation, or its closing brace. -/
def keyframeEntry (rules : List Rule) (t : Token) (pos : Nat) :
    Except Stop (Turn (List Rule) (List Rule)) :=
  if t.kind = .rightBrace then .ok (.done rules (pos + 1))
  else block eof ts pos >>= fun r => .ok (.again (rules ++ [.keyframe r.1]) r.2)

/-- One turn of reading keyframes. -/
def keyframeTurn (opened : Nat) : List Rule → Nat → Except Stop (Turn (List Rule) (List Rule)) :=
  listTurn ts .comment (unclosed opened) (keyframeEntry eof ts)

/-- Reads keyframes up to the closing brace of their animation. -/
def keyframes (opened pos : Nat) : Except Stop (List Rule × Nat) :=
  loop (keyframeTurn eof ts opened) (ts.length + 1) [] pos

variable {ts}

theorem agrees_block {pos : Nat} {t : Token} {us : List Token} (hdrop : ts.drop pos = t :: us) :
    Agrees ts (block eof ts pos) (Css.block eof t us) := by
  obtain ⟨hless, hpeek, -⟩ := peek_of_drop hdrop
  have hprelude := prelude_cases eof ts hless.le
  rw [hdrop] at hprelude
  rw [block, hpeek, Css.block]
  show Agrees ts (prelude eof ts pos >>= _) _
  obtain ⟨fault, hread, hlist⟩ | ⟨pre, opened, body, hbody, hread, hlist⟩ := hprelude
  · rw [hread, hlist]
    exact .fault fault
  rw [hread, hlist]
  show Agrees ts (if selectorsOf pre = [] then _ else _) (if selectorsOf pre = [] then _ else _)
  by_cases hempty : selectorsOf pre = []
  · rw [if_pos hempty, if_pos hempty]
    exact .fault _
  rw [if_neg hempty, if_neg hempty]
  obtain ⟨fault, hitems, hlist⟩ | ⟨items, rest, hrest, hitems, hlist⟩ :=
    (agrees_items opened hbody).cases
  · rw [hitems, hlist]
    exact .fault fault
  · rw [hitems, hlist]
    exact .read _ hrest

theorem readsEntries_keyframeList (opened : Nat) :
    ReadsEntries Rule.comment (keyframeList eof opened) where
  skip t us hskip := by rw [keyframeList, if_pos hskip]
  comment t us hcomment := by
    rw [keyframeList, if_neg (by simp [hcomment, TokenKind.isSkipped])]
    simp only [hcomment]
    rcases keyframeList eof opened us with fault | ⟨rules, rest⟩ <;> rfl

theorem follows_keyframeTurn (opened : Nat) (rules : List Rule) {pos : Nat}
    (hpos : pos ≤ ts.length) :
    Follows ts (fun rules us => after rules (keyframeList eof opened us)) rules pos
      (keyframeTurn eof ts opened rules pos) := by
  refine follows_listTurn (readsEntries_keyframeList eof opened) hpos ?_ ?_
  · exact .fault (by rw [List.drop_length, keyframeList]; rfl)
  intro t us next _ hdrop hskip hcomment
  obtain ⟨hless, -, hbehind⟩ := peek_of_drop hdrop
  rw [keyframeEntry]
  by_cases hclose : t.kind = .rightBrace
  · rw [if_pos hclose]
    refine .done hless ?_
    rw [hdrop, hbehind, keyframeList, if_neg (by simp [hskip])]
    simp [hclose]
  rw [if_neg hclose]
  have hequation := @keyframeList_keyframe eof opened t us hskip hcomment hclose
  refine follows_entry Rule.keyframe (agrees_block eof hdrop) (fun fault hread => ?_)
    (fun frame rest hread => ⟨?_, ?_⟩)
  · rw [hdrop, hequation, hread]
  · rw [hdrop]
    exact Nat.lt_succ_of_lt (block_length hread)
  · rw [hdrop, hequation, hread]
    dsimp only
    rcases keyframeList eof opened rest with fault | ⟨rules, rest⟩ <;> rfl

theorem agrees_keyframes (opened : Nat) {pos : Nat} (hpos : pos ≤ ts.length) :
    Agrees ts (keyframes eof ts opened pos) (keyframeList eof opened (ts.drop pos)) := by
  have hloop := agrees_loop_length
    (fun rules _ _ hnext => follows_keyframeTurn eof opened rules hnext) [] hpos
  rwa [after_nil] at hloop

end Blocks

/-! ## Rules -/

section Rules

variable (eof : Nat) (ts : List Token)

/-- Reads the prelude of an at-rule and the rules in its braces. -/
def braced (inner : Nat → Nat → Except Stop (List Rule × Nat)) (make : Text → List Rule → Rule)
    (pos : Nat) : Except Stop (Rule × Nat) := do
  let pre ← prelude eof ts pos
  let body ← inner pre.1.2 pre.2
  .ok (make (joinTokens pre.1.1) body.1, body.2)

/-- Reads an at-rule.  `inner` reads the rules of a media query opened at an offset. -/
def atRule (inner : Nat → Nat → Except Stop (List Rule × Nat)) (pos : Nat) :
    Except Stop (Rule × Nat) := do
  let t ← peek ts pos
  match atRuleOf t.text with
  | .media => braced eof ts inner .media (pos + 1)
  | .keyframes vendor => braced eof ts (keyframes eof ts) (.keyframes vendor) (pos + 1)
  | .other =>
    let run ← raw ts pos
    .ok (.other (Text.trim (textOf run.1)), run.2)

/-- The end of the tokens in a list of rules. -/
def ruleEnd : Option Nat → List Rule → Nat → Except Stop (Turn (List Rule) (List Rule))
  | none, rules, pos => .ok (.done rules pos)
  | some opened, rules, pos => unclosed opened rules pos

/-- A rule, or the closing brace of the block around it. -/
def ruleEntry (inner : Nat → Nat → Except Stop (List Rule × Nat)) (opened : Option Nat)
    (rules : List Rule) (t : Token) (pos : Nat) : Except Stop (Turn (List Rule) (List Rule)) :=
  if t.kind = .rightBrace then
    if opened = none then .error (.fault ⟨t.offset, .unexpectedClose⟩)
    else .ok (.done rules (pos + 1))
  else if t.kind = .atKeyword then
    atRule eof ts inner pos >>= fun r => .ok (.again (rules ++ [r.1]) r.2)
  else block eof ts pos >>= fun r => .ok (.again (rules ++ [.style r.1]) r.2)

/-- One turn of reading rules. -/
def ruleTurn (inner : Nat → Nat → Except Stop (List Rule × Nat)) (opened : Option Nat) :
    List Rule → Nat → Except Stop (Turn (List Rule) (List Rule)) :=
  listTurn ts .comment (ruleEnd opened) (ruleEntry eof ts inner opened)

/-- Reads rules up to the closing brace of the block opened at `opened`, or to the end where no
block is open.  At most `lists` lists of rules are open at once. -/
def rules : (lists : Nat) → (opened : Option Nat) → Nat → Except Stop (List Rule × Nat)
  | 0, _, _ => .error .tooDeep
  | lists + 1, opened, pos =>
    loop (ruleTurn eof ts (fun opened pos => rules lists (some opened) pos) opened)
      (ts.length + 1) [] pos

/-- The number of opening braces. -/
def braces (ts : List Token) : Nat :=
  ts.countP (·.kind = .leftBrace)

/-- The rules of a token list, with one list of rules at the top and one for each opening brace
at most. -/
def parse : Except Stop (List Rule) :=
  (rules eof ts (braces ts + 1) none 0).map Prod.fst

variable {ts}

theorem braces_drop {low pos : Nat} (hlow : low ≤ pos) :
    braces (ts.drop pos) ≤ braces (ts.drop low) := by
  have hsuffix : ts.drop pos <:+ ts.drop low := List.drop_suffix_drop_left ts hlow
  exact hsuffix.sublist.countP_le

/-- Behind a prelude there is one opening brace less. -/
theorem braces_prelude {us pre rest : List Token} {opened : Nat}
    (hprelude : Css.prelude eof us = .ok (pre, opened, rest)) : braces rest < braces us := by
  obtain ⟨run, opening, rfl, -, hopen, -⟩ := prelude_eq_ok_iff.mp hprelude
  simp only [braces, List.countP_append, List.countP_cons, hopen, decide_true, if_true]
  omega

/-- Reads the prelude of an at-rule and the rules in its braces from a token list. -/
def readBraced (inner : Nat → List Token → Except Fault (List Rule × List Token))
    (make : Text → List Rule → Rule) (us : List Token) : Except Fault (Rule × List Token) :=
  match Css.prelude eof us with
  | .error fault => .error fault
  | .ok (pre, opened, body) => (inner opened body).map fun r => (make (joinTokens pre) r.1, r.2)

/-- Reads an at-rule that starts with a token, whatever the kind of the token. -/
def readAtRule (t : Token) (us : List Token) : Except Fault (Rule × List Token) :=
  match atRuleOf t.text with
  | .media => readBraced eof (fun opened body => readRules eof (some opened) body) .media us
  | .keyframes vendor => readBraced eof (keyframeList eof) (.keyframes vendor) us
  | .other => (rawFrom 0 0 (t :: us)).map fun r => (.other (Text.trim (textOf r.1)), r.2)

theorem readAtRule_eq {t : Token} (hkind : t.kind = .atKeyword) (us : List Token) :
    readAtRule eof t us = readRule eof t us := by
  rw [readAtRule]
  obtain ⟨hname, hrule⟩ | ⟨hname, hrule⟩ | ⟨hname, hrule⟩ := atRuleOf_cases hkind
  · rw [hrule, readRule_media hname]
    unfold readBraced
    rcases Css.prelude eof us with fault | ⟨pre, opened, body⟩ <;> rfl
  · rw [hrule, readRule_keyframes hname]
    unfold readBraced
    rcases Css.prelude eof us with fault | ⟨pre, opened, body⟩ <;> rfl
  · rw [hrule, readRule_other hname]
    simp only [rawFrom, hkind, reduceCtorEq, and_false, if_false, TokenKind.braceDepthAfter]
    rcases rawFrom 0 0 us with fault | ⟨raw, rest⟩ <;> rfl

/-- `inner` reads the rules behind every position with fewer opening braces behind it as `inner'`
does. -/
def ReadsInner (ts : List Token) (inner : Nat → Nat → Except Stop (List Rule × Nat))
    (inner' : Nat → List Token → Except Fault (List Rule × List Token)) (pos : Nat) : Prop :=
  ∀ opened next, next ≤ ts.length → braces (ts.drop next) < braces (ts.drop pos) →
    Agrees ts (inner opened next) (inner' opened (ts.drop next))

theorem agrees_braced {inner : Nat → Nat → Except Stop (List Rule × Nat)}
    {inner' : Nat → List Token → Except Fault (List Rule × List Token)} {pos : Nat}
    (hpos : pos ≤ ts.length) (hinner : ReadsInner ts inner inner' pos)
    (make : Text → List Rule → Rule) :
    Agrees ts (braced eof ts inner make pos) (readBraced eof inner' make (ts.drop pos)) := by
  rw [braced, readBraced]
  obtain ⟨fault, hread, hlist⟩ | ⟨pre, opened, body, hbody, hread, hlist⟩ :=
    prelude_cases eof ts hpos
  · rw [hread, hlist]
    exact .fault fault
  rw [hread, hlist]
  show Agrees ts (inner opened body >>= _) ((inner' opened (ts.drop body)).map _)
  obtain ⟨fault, hrules, hlist⟩ | ⟨rules, rest, hrest, hrules, hlist⟩ :=
    (hinner opened body hbody (braces_prelude eof hlist)).cases
  · rw [hrules, hlist]
    exact .fault fault
  · rw [hrules, hlist]
    exact .read _ hrest

theorem agrees_atRule {inner : Nat → Nat → Except Stop (List Rule × Nat)} {pos : Nat} {t : Token}
    {us : List Token} (hdrop : ts.drop pos = t :: us)
    (hinner : ReadsInner ts inner (fun opened body => readRules eof (some opened) body) pos) :
    Agrees ts (atRule eof ts inner pos) (readAtRule eof t us) := by
  obtain ⟨hless, hpeek, hbehind⟩ := peek_of_drop hdrop
  rw [atRule, hpeek, readAtRule]
  dsimp only [bind, Except.bind]
  cases atRuleOf t.text with
  | media =>
    rw [← hbehind]
    refine agrees_braced eof hless (fun opened next hnext hfewer => ?_) .media
    exact hinner opened next hnext (hfewer.trans_le (braces_drop (Nat.le_succ pos)))
  | keyframes vendor =>
    rw [← hbehind]
    exact agrees_braced eof hless (fun opened next hnext _ => agrees_keyframes eof opened hnext)
      (.keyframes vendor)
  | other =>
    have hraw := agrees_raw ts hless.le
    rw [hdrop] at hraw
    obtain ⟨fault, hread, hlist⟩ | ⟨run, rest, hrest, hread, hlist⟩ := hraw.cases
    · simp only [hread, hlist]
      exact .fault fault
    · simp only [hread, hlist]
      exact .read _ hrest

theorem readsEntries_readRules (opened : Option Nat) :
    ReadsEntries Rule.comment (readRules eof opened) where
  skip _ _ hskip := readRules_skip hskip
  comment t us hcomment := by
    rw [readRules_rule (by simp [hcomment, TokenKind.isSkipped]) (by simp [hcomment]),
      readRule_comment hcomment]
    rfl

theorem readRules_length {opened : Option Nat} {us rest : List Token} {rules : List Rule}
    (hread : readRules eof opened us = .ok (rules, rest)) : rest.length ≤ us.length := by
  obtain ⟨⟨rules', rest'⟩, -, hrest⟩ := map_eq_ok_iff.mp hread
  obtain ⟨-, rfl⟩ := Prod.mk.inj hrest
  exact rest'.2

theorem rawFrom_lt {t : Token} {us run rest : List Token}
    (hread : rawFrom 0 0 (t :: us) = .ok (run, rest)) : rest.length < (t :: us).length := by
  obtain ⟨hsplit, hraw | ⟨rfl, -⟩⟩ := raw_of_rawFrom hread
  · rw [hsplit, List.length_append]
    have hrun : 0 < run.length := by cases hraw <;> simp
    omega
  · exact Nat.succ_pos _

theorem readBraced_lt {inner : Nat → List Token → Except Fault (List Rule × List Token)}
    (hinner : ∀ opened body rules rest, inner opened body = .ok (rules, rest) →
      rest.length ≤ body.length)
    {make : Text → List Rule → Rule} {us rest : List Token} {first : Rule}
    (hread : readBraced eof inner make us = .ok (first, rest)) : rest.length < us.length := by
  rw [readBraced] at hread
  cases hprelude : Css.prelude eof us with
  | error fault => simp [hprelude] at hread
  | ok r =>
    obtain ⟨pre, opened, body⟩ := r
    simp only [hprelude] at hread
    obtain ⟨⟨rules, rest'⟩, hrules, hrest⟩ := map_eq_ok_iff.mp hread
    obtain ⟨-, rfl⟩ := Prod.mk.inj hrest
    exact (hinner opened body rules rest' hrules).trans_lt (prelude_length hprelude)

theorem readAtRule_lt {t : Token} {us rest : List Token} {first : Rule}
    (hread : readAtRule eof t us = .ok (first, rest)) : rest.length < (t :: us).length := by
  rw [readAtRule] at hread
  cases hname : atRuleOf t.text with
  | media =>
    simp only [hname] at hread
    exact Nat.lt_succ_of_lt
      (readBraced_lt eof (fun _ _ _ _ hrules => readRules_length eof hrules) hread)
  | keyframes vendor =>
    simp only [hname] at hread
    exact Nat.lt_succ_of_lt
      (readBraced_lt eof (fun _ _ _ _ hrules => (keyframeList_length hrules).le) hread)
  | other =>
    simp only [hname] at hread
    obtain ⟨⟨run, rest'⟩, hraw, hrest⟩ := map_eq_ok_iff.mp hread
    obtain ⟨-, rfl⟩ := Prod.mk.inj hrest
    exact rawFrom_lt hraw

theorem follows_ruleTurn {inner : Nat → Nat → Except Stop (List Rule × Nat)} (opened : Option Nat)
    (rules : List Rule) {pos : Nat} (hpos : pos ≤ ts.length)
    (hinner : ∀ next, pos ≤ next →
      ReadsInner ts inner (fun opened body => readRules eof (some opened) body) next) :
    Follows ts (fun rules us => after rules (readRules eof opened us)) rules pos
      (ruleTurn eof ts inner opened rules pos) := by
  refine follows_listTurn (readsEntries_readRules eof opened) hpos ?_ ?_
  · cases opened with
    | none => exact .done le_rfl (by simp [List.drop_length, readRules_nil_none])
    | some opened => exact .fault (by simp [List.drop_length, readRules_nil_some])
  intro t us next hle hdrop hskip hcomment
  obtain ⟨hless, -, hbehind⟩ := peek_of_drop hdrop
  rw [ruleEntry]
  by_cases hclose : t.kind = .rightBrace
  · rw [if_pos hclose]
    cases opened with
    | none =>
      rw [if_pos rfl]
      exact .fault (by rw [hdrop, readRules_close_none hclose]; rfl)
    | some opened =>
      rw [if_neg (by simp)]
      exact .done hless (by rw [hdrop, hbehind, readRules_close hclose, after_ok, List.append_nil])
  rw [if_neg hclose]
  have hequation := @readRules_rule eof opened t us hskip hclose
  have hfault (fault : Fault) (hread : readRule eof t us = .error fault) :
      readRules eof opened (ts.drop next) = .error fault := by
    rw [hdrop, hequation, hread]
  have hread (first : Rule) (rest : List Token) (hread : readRule eof t us = .ok (first, rest)) :
      readRules eof opened (ts.drop next) = after [first] (readRules eof opened rest) := by
    rw [hdrop, hequation, hread]
    rfl
  by_cases hkeyword : t.kind = .atKeyword
  · rw [if_pos hkeyword]
    have hagrees := agrees_atRule eof hdrop (hinner next hle)
    rw [readAtRule_eq eof hkeyword] at hagrees
    refine follows_entry id hagrees hfault (fun first rest hfirst => ⟨?_, hread first rest hfirst⟩)
    rw [← readAtRule_eq eof hkeyword] at hfirst
    rw [hdrop]
    exact readAtRule_lt eof hfirst
  · rw [if_neg hkeyword]
    have hstyle := @readRule_style eof t us hcomment hkeyword
    refine follows_entry Rule.style (agrees_block eof hdrop) (fun fault hblock => ?_)
      (fun style rest hblock => ⟨?_, ?_⟩)
    · exact hfault fault (by rw [hstyle, hblock]; rfl)
    · rw [hdrop]
      exact Nat.lt_succ_of_lt (block_length hblock)
    · exact hread _ rest (by rw [hstyle, hblock]; rfl)

/-- One list of rules more than there are opening braces left is enough. -/
theorem agrees_rules {lists : Nat} (opened : Option Nat) {pos : Nat} (hpos : pos ≤ ts.length)
    (hbraces : braces (ts.drop pos) < lists) :
    Agrees ts (rules eof ts lists opened pos) (readRules eof opened (ts.drop pos)) := by
  induction lists generalizing opened pos with
  | zero => exact absurd hbraces (Nat.not_lt_zero _)
  | succ lists ih =>
    -- a media query further on opens a list with fewer opening braces behind it
    have hinner (low : Nat) (hlow : pos ≤ low) :
        ReadsInner ts (fun opened next => rules eof ts lists (some opened) next)
          (fun opened body => readRules eof (some opened) body) low := by
      intro opened next hnext hfewer
      have hle : braces (ts.drop low) ≤ braces (ts.drop pos) := braces_drop hlow
      exact ih (some opened) hnext (by omega)
    have hloop := agrees_loop_length
      (fun rules next hle hnext => follows_ruleTurn eof opened rules hnext
        (fun low hlow => hinner low (hle.trans hlow))) [] hpos
    rwa [after_nil] at hloop

theorem readsInner_rules {lists pos : Nat} (hbraces : braces (ts.drop pos) ≤ lists) :
    ReadsInner ts (fun opened next => rules eof ts lists (some opened) next)
      (fun opened body => readRules eof (some opened) body) pos :=
  fun opened _ hnext hfewer => agrees_rules eof (some opened) hnext (hfewer.trans_le hbraces)

/-- The readers by position read what the parser reads. -/
theorem parse_eq (eof : Nat) (ts : List Token) :
    parse eof ts = (parseTokens eof ts).mapError Stop.fault := by
  have hagrees := agrees_rules eof none (Nat.zero_le ts.length)
    (show braces (ts.drop 0) < braces ts + 1 from Nat.lt_succ_self _)
  rw [parse, parseTokens_eq]
  rw [List.drop_zero] at hagrees
  obtain ⟨fault, hread, hlist⟩ | ⟨rules, next, -, hread, hlist⟩ := hagrees.cases
  · rw [hread, hlist]
    rfl
  · rw [hread, hlist]
    rfl

end Rules

/-! ## Progress -/

/-- A reader by position reads as a reader of lists does, and stands behind where it started and
not behind the end. -/
structure Progresses {α : Type} (ts : List Token) (pos : Nat) (read : Except Stop (α × Nat))
    (read' : Except Fault (α × List Token)) : Prop where
  agrees : Agrees ts read read'
  forward : ∀ a next, read = .ok (a, next) → pos < next ∧ next ≤ ts.length

/-- A reader that leaves fewer tokens has moved on. -/
theorem Agrees.progresses {α : Type} {ts : List Token} {pos : Nat} {read : Except Stop (α × Nat)}
    {read' : Except Fault (α × List Token)} (hagrees : Agrees ts read read')
    (hshorter : ∀ a rest, read' = .ok (a, rest) → rest.length < (ts.drop pos).length) :
    Progresses ts pos read read' where
  agrees := hagrees
  forward a next hread := by
    cases hagrees with
    | fault fault => cases hread
    | read a hnext =>
      cases hread
      exact ⟨lt_of_drop_length hnext (hshorter a _ rfl), hnext⟩

/-- Reading always goes on.  From every token of a list, a prelude, a declaration, a block and an
at-rule that are read end behind that token and not behind the last one.  Every turn of a list of
items, keyframes or rules ends the list or goes on.  No reader asks for a token behind the last
one, no loop takes more turns than there are tokens, and one list of rules at the top with one for
each opening brace is as deep as rules are nested: read by position within those bounds, a token
list gives what the parser gives. -/
theorem reading_advances (eof : Nat) (ts : List Token) :
    (∀ pos t us, ts.drop pos = t :: us →
      Progresses ts pos (prelude eof ts pos)
          ((Css.prelude eof (t :: us)).map fun r => ((r.1, r.2.1), r.2.2)) ∧
        Progresses ts pos (declaration ts pos) (Css.declaration t us) ∧
        Progresses ts pos (block eof ts pos) (Css.block eof t us) ∧
        (∀ lists, braces (t :: us) ≤ lists →
          Progresses ts pos
            (atRule eof ts (fun opened next => rules eof ts lists (some opened) next) pos)
            (readAtRule eof t us)) ∧
        (t.kind = .atKeyword → readAtRule eof t us = readRule eof t us)) ∧
      (∀ pos, pos ≤ ts.length →
        (∀ opened items, Follows ts (fun items us => after items (itemList opened us)) items pos
          (itemTurn ts opened items pos)) ∧
        (∀ opened frames,
          Follows ts (fun frames us => after frames (keyframeList eof opened us)) frames pos
            (keyframeTurn eof ts opened frames pos)) ∧
        ∀ lists, braces (ts.drop pos) ≤ lists → ∀ opened before,
          Follows ts (fun before us => after before (readRules eof opened us)) before pos
            (ruleTurn eof ts (fun opened next => rules eof ts lists (some opened) next) opened
              before pos)) ∧
      parse eof ts = (parseTokens eof ts).mapError Stop.fault := by
  refine ⟨fun pos t us hdrop => ⟨?_, ?_, ?_, fun lists hlists => ?_,
      fun hkeyword => readAtRule_eq eof hkeyword us⟩,
    fun pos hpos => ⟨fun opened items => follows_itemTurn opened items hpos,
      fun opened frames => follows_keyframeTurn eof opened frames hpos,
      fun lists hlists opened before => ?_⟩, parse_eq eof ts⟩
  · have hagrees := agrees_prelude eof ts (peek_of_drop hdrop).1.le
    rw [hdrop] at hagrees
    refine hagrees.progresses fun a rest hread => ?_
    obtain ⟨⟨pre, opened, rest'⟩, hprelude, hrest⟩ := map_eq_ok_iff.mp hread
    obtain ⟨-, rfl⟩ := Prod.mk.inj hrest
    rw [hdrop]
    exact prelude_length hprelude
  · refine (agrees_declaration ts hdrop).progresses fun item rest hread => ?_
    rw [hdrop]
    exact Nat.lt_succ_of_le (declaration_length hread)
  · refine (agrees_block eof hdrop).progresses fun style rest hread => ?_
    rw [hdrop]
    exact Nat.lt_succ_of_lt (block_length hread)
  · have hinner := readsInner_rules eof (hdrop ▸ hlists)
    refine (agrees_atRule eof hdrop hinner).progresses fun first rest hread => ?_
    rw [hdrop]
    exact readAtRule_lt eof hread
  · exact follows_ruleTurn eof opened before hpos fun next hle =>
      readsInner_rules eof ((braces_drop hle).trans hlists)

/-- The tokens of `@media p{a{b:c}}`. -/
def nestedTokens : List Token :=
  [⟨.atKeyword, utf8 "@media", 0⟩, ⟨.whitespace, utf8 " ", 6⟩, ⟨.ident, utf8 "p", 7⟩,
    ⟨.leftBrace, [0x7B], 8⟩, ⟨.ident, utf8 "a", 9⟩, ⟨.leftBrace, [0x7B], 10⟩,
    ⟨.ident, utf8 "b", 11⟩, ⟨.colon, utf8 ":", 12⟩, ⟨.ident, utf8 "c", 13⟩,
    ⟨.rightBrace, [0x7D], 14⟩, ⟨.rightBrace, [0x7D], 15⟩]

/-- A declaration that leaves the closing brace behind it to its block, which ends there, in a
media query that is read to the last token. -/
theorem reading_advances_nested :
    declaration nestedTokens 6 = .ok (.declaration (utf8 "b") (utf8 "c"), 9) ∧
      (6 < 9 ∧ 9 ≤ nestedTokens.length) ∧
      atRule 16 nestedTokens (fun opened next => rules 16 nestedTokens 2 (some opened) next) 0 =
        .ok (.media (utf8 "p") [.style ⟨[utf8 "a"], [.declaration (utf8 "b") (utf8 "c")]⟩], 11) ∧
      (0 < 11 ∧ 11 ≤ nestedTokens.length) ∧
      Follows nestedTokens (fun items us => after items (itemList 10 us))
        [.declaration (utf8 "b") (utf8 "c")] 9
        (itemTurn nestedTokens 10 [.declaration (utf8 "b") (utf8 "c")] 9) := by
  obtain ⟨hroutines, hturns, -⟩ := reading_advances 16 nestedTokens
  have hdeclaration : declaration nestedTokens 6 =
      .ok (.declaration (utf8 "b") (utf8 "c"), 9) := by decide +kernel
  have hmedia : atRule 16 nestedTokens
      (fun opened next => rules 16 nestedTokens 2 (some opened) next) 0 =
        .ok (.media (utf8 "p") [.style ⟨[utf8 "a"], [.declaration (utf8 "b") (utf8 "c")]⟩], 11) :=
    rfl
  obtain ⟨-, hdecl, -⟩ := hroutines 6 _ _ rfl
  obtain ⟨-, -, -, hrule, -⟩ := hroutines 0 _ _ rfl
  exact ⟨hdeclaration, hdecl.forward _ _ hdeclaration, hmedia,
    (hrule 2 (by decide +kernel)).forward _ _ hmedia, (hturns 9 (by decide)).1 10 _⟩

end Cursor

end PixelRem.Css
