import Mathlib
import PixelRem.Proofs.Parse

/-!
# Reading by position

The readers of a stylesheet hand on the tokens that are left.  Here they are written a second
time over a fixed token list and a position in it, as loops that look at one token a turn.
What a list cannot show can go wrong here: a token can be asked for behind the last one, a loop
can take more turns than there are tokens, and blocks can be nested deeper than allowed.

* `loop` runs a turn until it is done.  `Follows` says that a turn of a loop keeps to a reader
  of lists: it gives the reader's result, or it moves on and leaves what the reader gives from
  there.  `agrees_loop` is the run: a loop whose turns keep to a reader agrees with it, and one
  turn more than there are tokens left is enough.
* `Agrees` says that a reader by position gives what a reader of lists gives, and stands before
  the tokens that the other leaves.  No reader that agrees stops for a reason of its own.
-/

namespace PixelRem.Css

namespace Cursor

/-! ## Loops -/

/-- Why a reader by position stops. -/
inductive Stop where
  /-- The stylesheet is wrong. -/
  | fault (fault : Fault)
  /-- A token was asked for behind the last one. -/
  | pastEnd
  /-- A loop took more turns than allowed. -/
  | stalled
  /-- More blocks were open at once than allowed. -/
  | tooDeep
  deriving DecidableEq, Repr

/-- What one turn of a loop gives: a result, or a state to go on with. -/
inductive Turn (σ α : Type) where
  | done (result : α) (pos : Nat)
  | again (state : σ) (pos : Nat)

variable {σ α β : Type}

/-- Takes turns until one is done. -/
def loop (turn : σ → Nat → Except Stop (Turn σ α)) : (turns : Nat) → σ → Nat → Except Stop (α × Nat)
  | 0, _, _ => .error .stalled
  | turns + 1, s, pos =>
    match turn s pos with
    | .error stop => .error stop
    | .ok (.done a pos) => .ok (a, pos)
    | .ok (.again s pos) => loop turn turns s pos

/-- The token at a position. -/
def peek (ts : List Token) (pos : Nat) : Except Stop Token :=
  match ts[pos]? with
  | some t => .ok t
  | none => .error .pastEnd

/-- A reader by position gives what a reader of lists gives. -/
inductive Agrees (ts : List Token) :
    Except Stop (α × Nat) → Except Fault (α × List Token) → Prop where
  | fault (fault : Fault) : Agrees ts (.error (.fault fault)) (.error fault)
  | read (a : α) {pos : Nat} (hpos : pos ≤ ts.length) :
      Agrees ts (.ok (a, pos)) (.ok (a, ts.drop pos))

theorem Agrees.cases {ts : List Token} {read : Except Stop (α × Nat)}
    {read' : Except Fault (α × List Token)} (hagrees : Agrees ts read read') :
    (∃ fault, read = .error (.fault fault) ∧ read' = .error fault) ∨
      ∃ a next, next ≤ ts.length ∧ read = .ok (a, next) ∧ read' = .ok (a, ts.drop next) := by
  cases hagrees with
  | fault fault => exact .inl ⟨fault, rfl, rfl⟩
  | read a hnext => exact .inr ⟨a, _, hnext, rfl, rfl⟩

/-- A turn keeps to a reader of lists that starts from a state. -/
inductive Follows (ts : List Token) (spec : σ → List Token → Except Fault (α × List Token))
    (s : σ) (pos : Nat) : Except Stop (Turn σ α) → Prop where
  | fault {fault : Fault} (hspec : spec s (ts.drop pos) = .error fault) :
      Follows ts spec s pos (.error (.fault fault))
  | done {a : α} {next : Nat} (hnext : next ≤ ts.length)
      (hspec : spec s (ts.drop pos) = .ok (a, ts.drop next)) :
      Follows ts spec s pos (.ok (.done a next))
  | again {s' : σ} {next : Nat} (hless : pos < next) (hnext : next ≤ ts.length)
      (hspec : spec s (ts.drop pos) = spec s' (ts.drop next)) :
      Follows ts spec s pos (.ok (.again s' next))

section Run

variable {ts : List Token} {turn : σ → Nat → Except Stop (Turn σ α)}
  {spec : σ → List Token → Except Fault (α × List Token)} {low : Nat}

/-- A loop agrees with the reader that its turns keep to, and takes at most one turn more than
there are tokens left. -/
theorem agrees_loop
    (hturn : ∀ s pos, low ≤ pos → pos ≤ ts.length → Follows ts spec s pos (turn s pos))
    {turns : Nat} {s : σ} {pos : Nat} (hlow : low ≤ pos) (hpos : pos ≤ ts.length)
    (hturns : ts.length - pos < turns) :
    Agrees ts (loop turn turns s pos) (spec s (ts.drop pos)) := by
  induction turns generalizing s pos with
  | zero => exact absurd hturns (Nat.not_lt_zero _)
  | succ turns ih =>
    have hfollows := hturn s pos hlow hpos
    rw [loop]
    generalize turn s pos = result at hfollows
    cases hfollows with
    | fault hspec =>
      rw [hspec]
      exact .fault _
    | done hnext hspec =>
      rw [hspec]
      exact .read _ hnext
    | again hless hnext hspec =>
      -- a turn that goes on has passed a token, so one turn less is enough from there
      rw [hspec]
      exact ih (by omega) hnext (by omega)

/-- One turn more than there are tokens is enough from everywhere. -/
theorem agrees_loop_length {pos : Nat}
    (hturn : ∀ s next, pos ≤ next → next ≤ ts.length → Follows ts spec s next (turn s next))
    (s : σ) (hpos : pos ≤ ts.length) :
    Agrees ts (loop turn (ts.length + 1) s pos) (spec s (ts.drop pos)) :=
  agrees_loop hturn le_rfl hpos (by omega)

end Run

/-! ## Tokens at a position -/

section Tokens

variable (ts : List Token)

/-- Either no token is left, or one can be looked at. -/
theorem peek_cases (pos : Nat) :
    ts.length ≤ pos ∧ ts.drop pos = [] ∨
      pos < ts.length ∧ ∃ t us, peek ts pos = .ok t ∧ ts.drop pos = t :: us ∧
        ts.drop (pos + 1) = us := by
  rcases Nat.lt_or_ge pos ts.length with hless | hge
  · refine .inr ⟨hless, ts.get ⟨pos, hless⟩, ts.drop (pos + 1), ?_, ?_, rfl⟩
    · rw [peek, List.getElem?_eq_getElem hless]
      rfl
    · exact List.drop_eq_getElem_cons hless
  · exact .inl ⟨hge, List.drop_eq_nil_of_le hge⟩

variable {ts} in
theorem peek_of_drop {pos : Nat} {t : Token} {us : List Token} (hdrop : ts.drop pos = t :: us) :
    pos < ts.length ∧ peek ts pos = .ok t ∧ ts.drop (pos + 1) = us := by
  obtain ⟨-, hnil⟩ | ⟨hless, t', us', hpeek, hdrop', hbehind⟩ := peek_cases ts pos
  · simp [hnil] at hdrop
  · obtain ⟨rfl, rfl⟩ := List.cons.inj (hdrop.symm.trans hdrop')
    exact ⟨hless, hpeek, hbehind⟩

/-- The tokens passed over before anything is looked at. -/
def isPassed (t : Token) : Bool :=
  t.kind = .whitespace ∨ t.kind = .cdo ∨ t.kind = .cdc

/-- One turn of passing over white space. -/
def blankTurn (_ : Unit) (pos : Nat) : Except Stop (Turn Unit Unit) :=
  if ts.length ≤ pos then .ok (.done () pos)
  else do
    let t ← peek ts pos
    if isPassed t then .ok (.again () (pos + 1)) else .ok (.done () pos)

/-- The position behind white space. -/
def skipBlank (pos : Nat) : Except Stop Nat :=
  (loop (blankTurn ts) (ts.length + 1) () pos).map Prod.snd

theorem follows_blankTurn (s : Unit) {pos : Nat} (hpos : pos ≤ ts.length) :
    Follows ts (fun _ us => .ok ((), us.dropWhile isPassed)) s pos (blankTurn ts s pos) := by
  rw [blankTurn]
  obtain ⟨hend, hdrop⟩ | ⟨hless, t, us, hpeek, hdrop, hbehind⟩ := peek_cases ts pos
  · rw [if_pos hend]
    exact .done hpos (by rw [hdrop]; rfl)
  · rw [if_neg (Nat.not_le.mpr hless), hpeek]
    show Follows _ _ _ _ (if isPassed t then _ else _)
    split_ifs with hpassed
    · exact .again (Nat.lt_succ_self pos) hless (by
        rw [hdrop, hbehind, List.dropWhile_cons_of_pos hpassed])
    · exact .done hpos (by rw [hdrop, List.dropWhile_cons_of_neg hpassed])

/-- White space is passed over up to another token or the end. -/
theorem exists_skipBlank {pos : Nat} (hpos : pos ≤ ts.length) :
    ∃ next, skipBlank ts pos = .ok next ∧ pos ≤ next ∧ next ≤ ts.length ∧
      ts.drop next = (ts.drop pos).dropWhile isPassed := by
  have hagrees := agrees_loop_length (fun s _ _ hnext => follows_blankTurn ts s hnext) () hpos
  rw [skipBlank]
  generalize hloop : loop (blankTurn ts) (ts.length + 1) () pos = result at hagrees
  generalize hrest : (ts.drop pos).dropWhile isPassed = rest at hagrees
  cases hagrees with
  | read a hnext =>
    rename_i next
    refine ⟨next, rfl, ?_, hnext, rfl⟩
    have hlength := (List.dropWhile_sublist (p := isPassed) (l := ts.drop pos)).length_le
    rw [hrest, List.length_drop, List.length_drop] at hlength
    omega

end Tokens

/-! ## Preludes and raw at-rules -/

/-- What a reader gives behind what was read before. -/
def after (before : List β) (read : Except Fault (List β × List Token)) :
    Except Fault (List β × List Token) :=
  read.map fun r => (before ++ r.1, r.2)

@[simp] theorem after_error (before : List β) (fault : Fault) :
    after before (.error fault) = .error fault := rfl

@[simp] theorem after_ok (before items : List β) (rest : List Token) :
    after before (.ok (items, rest)) = .ok (before ++ items, rest) := rfl

@[simp] theorem after_after (before items : List β) (read : Except Fault (List β × List Token)) :
    after before (after items read) = after (before ++ items) read := by
  cases read with
  | error fault => rfl
  | ok r => simp [after, Except.map]

@[simp] theorem after_nil (read : Except Fault (List β × List Token)) : after [] read = read := by
  cases read <;> rfl

section Runs

variable (eof : Nat) (ts : List Token)

/-- One turn of reading a prelude: the tokens so far and the bracket depth. -/
def preludeTurn (start : Nat) (s : List Token × Nat) (pos : Nat) :
    Except Stop (Turn (List Token × Nat) (List Token × Nat)) :=
  if ts.length ≤ pos then .error (.fault ⟨start, .expectedOpen⟩)
  else do
    let t ← peek ts pos
    if s.2 = 0 ∧ t.kind = .leftBrace then .ok (.done (s.1, t.offset) (pos + 1))
    else if s.2 = 0 ∧ (t.kind = .semicolon ∨ t.kind = .rightBrace) then
      .error (.fault ⟨t.offset, .expectedOpen⟩)
    else
      .ok (.again (if t.kind = .comment then s.1 else s.1 ++ [t], t.kind.depthAfter s.2) (pos + 1))

/-- Reads the prelude of a block and its opening brace: the tokens before the brace and its
offset. -/
def prelude (pos : Nat) : Except Stop ((List Token × Nat) × Nat) := do
  let start ← if ts.length ≤ pos then .ok eof else (peek ts pos).map Token.offset
  loop (preludeTurn ts start) (ts.length + 1) ([], 0) pos

/-- A prelude behind the tokens of it that were read before. -/
def preludeAfter (start : Nat) (s : List Token × Nat) (us : List Token) :
    Except Fault ((List Token × Nat) × List Token) :=
  (preludeFrom start s.2 us).map fun r => ((s.1 ++ r.1, r.2.1), r.2.2)

theorem follows_preludeTurn (start : Nat) (s : List Token × Nat) (pos : Nat) :
    Follows ts (preludeAfter start) s pos (preludeTurn ts start s pos) := by
  rw [preludeTurn]
  obtain ⟨hend, hdrop⟩ | ⟨hless, t, us, hpeek, hdrop, hbehind⟩ := peek_cases ts pos
  · rw [if_pos hend]
    exact .fault (by rw [hdrop]; rfl)
  rw [if_neg (Nat.not_le.mpr hless), hpeek]
  show Follows _ _ _ _ (if _ then _ else _)
  by_cases hopen : s.2 = 0 ∧ t.kind = .leftBrace
  · rw [if_pos hopen]
    exact .done hless (by simp [preludeAfter, hdrop, preludeFrom, hopen, Except.map, hbehind])
  rw [if_neg hopen]
  by_cases hstop : s.2 = 0 ∧ (t.kind = .semicolon ∨ t.kind = .rightBrace)
  · rw [if_pos hstop]
    refine .fault ?_
    simp only [preludeAfter, hdrop, preludeFrom, if_neg hopen, if_pos hstop]
    rfl
  rw [if_neg hstop]
  refine .again (Nat.lt_succ_self pos) hless ?_
  simp only [preludeAfter, hdrop, hbehind, preludeFrom, if_neg hopen, if_neg hstop]
  rcases preludeFrom start (t.kind.depthAfter s.2) us with fault | ⟨pre, opened, rest⟩
  · rfl
  · by_cases hcomment : t.kind = .comment <;> simp [Except.map, hcomment]

theorem agrees_prelude {pos : Nat} (hpos : pos ≤ ts.length) :
    Agrees ts (prelude eof ts pos)
      ((Css.prelude eof (ts.drop pos)).map fun r => ((r.1, r.2.1), r.2.2)) := by
  have hloop (start : Nat) := agrees_loop_length
    (fun s next _ _ => follows_preludeTurn ts start s next) ([], 0) hpos
  rw [prelude, Css.prelude]
  obtain ⟨hend, hdrop⟩ | ⟨hless, t, us, hpeek, hdrop, hbehind⟩ := peek_cases ts pos
  · rw [if_pos hend, hdrop, startOf]
    rw [hdrop] at hloop
    exact hloop eof
  · rw [if_neg (Nat.not_le.mpr hless), hpeek, hdrop, startOf]
    rw [hdrop] at hloop
    exact hloop t.offset

/-- A prelude is read in both ways or in none. -/
theorem prelude_cases {pos : Nat} (hpos : pos ≤ ts.length) :
    (∃ fault, prelude eof ts pos = .error (.fault fault) ∧
        Css.prelude eof (ts.drop pos) = .error fault) ∨
      ∃ pre opened next, next ≤ ts.length ∧ prelude eof ts pos = .ok ((pre, opened), next) ∧
        Css.prelude eof (ts.drop pos) = .ok (pre, opened, ts.drop next) := by
  obtain ⟨fault, hread, hlist⟩ | ⟨⟨pre, opened⟩, next, hnext, hread, hlist⟩ :=
    (agrees_prelude eof ts hpos).cases
  · refine .inl ⟨fault, hread, ?_⟩
    cases hprelude : Css.prelude eof (ts.drop pos) with
    | error fault' => simpa [hprelude, Except.map] using hlist
    | ok r => simp [hprelude, Except.map] at hlist
  · obtain ⟨⟨pre', opened', rest⟩, hprelude, heq⟩ := map_eq_ok_iff.mp hlist
    simp only [Prod.mk.injEq] at heq
    obtain ⟨⟨rfl, rfl⟩, rfl⟩ := heq
    exact .inr ⟨pre', opened', next, hnext, hread, hprelude⟩

/-- One turn of reading an at-rule that is kept as written: its tokens so far, the depth of
braces and the offset of the outermost open one. -/
def rawTurn (s : List Token × Nat × Nat) (pos : Nat) :
    Except Stop (Turn (List Token × Nat × Nat) (List Token)) :=
  if ts.length ≤ pos then
    if s.2.1 = 0 then .ok (.done s.1 pos) else .error (.fault ⟨s.2.2, .missingClose⟩)
  else do
    let t ← peek ts pos
    if s.2.1 = 0 ∧ t.kind = .semicolon then .ok (.done (s.1 ++ [t]) (pos + 1))
    else if s.2.1 = 0 ∧ t.kind = .rightBrace then .error (.fault ⟨t.offset, .unexpectedClose⟩)
    else if s.2.1 = 1 ∧ t.kind = .rightBrace then .ok (.done (s.1 ++ [t]) (pos + 1))
    else
      .ok (.again (s.1 ++ [t], t.kind.braceDepthAfter s.2.1,
        if s.2.1 = 0 ∧ t.kind = .leftBrace then t.offset else s.2.2) (pos + 1))

/-- Reads an at-rule that is kept as written, from its first token on. -/
def raw (pos : Nat) : Except Stop (List Token × Nat) :=
  loop (rawTurn ts) (ts.length + 1) ([], 0, 0) pos

theorem follows_rawTurn (s : List Token × Nat × Nat) {pos : Nat} (hpos : pos ≤ ts.length) :
    Follows ts (fun s us => after s.1 (rawFrom s.2.1 s.2.2 us)) s pos (rawTurn ts s pos) := by
  rw [rawTurn]
  obtain ⟨hend, hdrop⟩ | ⟨hless, t, us, hpeek, hdrop, hbehind⟩ := peek_cases ts pos
  · rw [if_pos hend]
    split_ifs with hdepth
    · exact .done hpos (by simp [hdrop, rawFrom, hdepth])
    · exact .fault (by simp [hdrop, rawFrom, hdepth])
  rw [if_neg (Nat.not_le.mpr hless), hpeek]
  show Follows _ _ _ _ (if _ then _ else _)
  by_cases hsemicolon : s.2.1 = 0 ∧ t.kind = .semicolon
  · rw [if_pos hsemicolon]
    exact .done hless (by simp [hdrop, rawFrom, hsemicolon, hbehind])
  by_cases hclose : s.2.1 = 0 ∧ t.kind = .rightBrace
  · rw [if_neg hsemicolon, if_pos hclose]
    exact .fault (by simp [hdrop, rawFrom, hclose])
  by_cases hlast : s.2.1 = 1 ∧ t.kind = .rightBrace
  · rw [if_neg hsemicolon, if_neg hclose, if_pos hlast]
    exact .done hless (by simp [hdrop, rawFrom, hlast, hbehind])
  rw [if_neg hsemicolon, if_neg hclose, if_neg hlast]
  refine .again (Nat.lt_succ_self pos) hless ?_
  simp only [hdrop, hbehind, rawFrom, if_neg hsemicolon, if_neg hclose, if_neg hlast]
  rcases rawFrom (t.kind.braceDepthAfter s.2.1) _ us with fault | ⟨raw, rest⟩ <;> simp

theorem agrees_raw {pos : Nat} (hpos : pos ≤ ts.length) :
    Agrees ts (raw ts pos) (rawFrom 0 0 (ts.drop pos)) := by
  have hloop := agrees_loop_length (fun s _ _ hnext => follows_rawTurn ts s hnext) ([], 0, 0) hpos
  rwa [after_nil] at hloop

/-! ## Declarations -/

/-- One turn of reading a property up to its colon. -/
def propertyTurn (start : Nat) (name : List Token) (pos : Nat) :
    Except Stop (Turn (List Token) (List Token)) :=
  if ts.length ≤ pos then .error (.fault ⟨start, .colonMissing⟩)
  else do
    let t ← peek ts pos
    if t.kind = .colon then .ok (.done name (pos + 1))
    else if t.kind = .semicolon ∨ t.kind = .rightBrace ∨ t.kind = .leftBrace then
      .error (.fault ⟨start, .colonMissing⟩)
    else .ok (.again (name ++ [t]) (pos + 1))

theorem follows_propertyTurn (start : Nat) (name : List Token) (pos : Nat) :
    Follows ts (fun name us => after name (propertyFrom start us)) name pos
      (propertyTurn ts start name pos) := by
  rw [propertyTurn]
  obtain ⟨hend, hdrop⟩ | ⟨hless, t, us, hpeek, hdrop, hbehind⟩ := peek_cases ts pos
  · rw [if_pos hend]
    exact .fault (by simp [hdrop, propertyFrom])
  rw [if_neg (Nat.not_le.mpr hless), hpeek]
  show Follows _ _ _ _ (if _ then _ else _)
  split_ifs with hcolon hstop
  · exact .done hless (by simp [hdrop, propertyFrom, hcolon, hbehind])
  · refine .fault ?_
    rw [hdrop, propertyFrom]
    rcases hstop with hkind | hkind | hkind <;> simp [hkind]
  · refine .again (Nat.lt_succ_self pos) hless ?_
    simp only [hdrop, hbehind, propertyFrom]
    split
    · contradiction
    · simp_all
    · simp_all
    · simp_all
    · rcases propertyFrom start us with fault | ⟨name, rest⟩ <;> simp

/-- One turn of reading a value: its tokens so far and the bracket depth. -/
def valueTurn (property : Text) (s : List Token × Nat) (pos : Nat) :
    Except Stop (Turn (List Token × Nat) (List Token)) :=
  if ts.length ≤ pos then .ok (.done s.1 pos)
  else do
    let t ← peek ts pos
    if t.kind = .leftBrace then .error (.fault ⟨t.offset, .openInValue property⟩)
    else if s.2 = 0 ∧ t.kind = .semicolon then .ok (.done s.1 (pos + 1))
    else if s.2 = 0 ∧ t.kind = .rightBrace then .ok (.done s.1 pos)
    else .ok (.again (s.1 ++ [t], t.kind.depthAfter s.2) (pos + 1))

theorem follows_valueTurn (property : Text) (s : List Token × Nat) {pos : Nat}
    (hpos : pos ≤ ts.length) :
    Follows ts (fun s us => after s.1 (valueFrom property s.2 us)) s pos
      (valueTurn ts property s pos) := by
  rw [valueTurn]
  obtain ⟨hend, hdrop⟩ | ⟨hless, t, us, hpeek, hdrop, hbehind⟩ := peek_cases ts pos
  · rw [if_pos hend]
    exact .done hpos (by simp [hdrop, valueFrom])
  rw [if_neg (Nat.not_le.mpr hless), hpeek]
  show Follows _ _ _ _ (if _ then _ else _)
  split_ifs with hopen hsemicolon hclose
  · exact .fault (by simp [hdrop, valueFrom, hopen])
  · exact .done hless (by simp [hdrop, valueFrom, hsemicolon, hbehind])
  · -- the closing brace is left to the block
    exact .done hpos (by simp [hdrop, valueFrom, hclose])
  · refine .again (Nat.lt_succ_self pos) hless ?_
    simp only [hdrop, hbehind, valueFrom, if_neg hopen, if_neg hsemicolon, if_neg hclose]
    rcases valueFrom property (t.kind.depthAfter s.2) us with fault | ⟨value, rest⟩ <;> simp

/-- Reads a declaration. -/
def declaration (pos : Nat) : Except Stop (Item × Nat) := do
  let t ← peek ts pos
  let name ← loop (propertyTurn ts t.offset) (ts.length + 1) [] pos
  let property := joinTokens name.1
  if property = [] then .error (.fault ⟨t.offset, .propertyMissing⟩)
  else
    let value ← loop (valueTurn ts property) (ts.length + 1) ([], 0) name.2
    .ok (.declaration property (joinTokens value.1), value.2)

theorem agrees_declaration {pos : Nat} {t : Token} {us : List Token}
    (hdrop : ts.drop pos = t :: us) :
    Agrees ts (declaration ts pos) (Css.declaration t us) := by
  obtain ⟨hless, hpeek, -⟩ := peek_of_drop hdrop
  have hname := agrees_loop_length
    (fun name next _ _ => follows_propertyTurn ts t.offset name next) [] hless.le
  rw [hdrop, after_nil] at hname
  rw [declaration, hpeek, Css.declaration]
  show Agrees ts (loop (propertyTurn ts t.offset) (ts.length + 1) [] pos >>= _) _
  obtain ⟨fault, hread, hlist⟩ | ⟨name, behind, hbehind, hread, hlist⟩ := hname.cases
  · rw [hread, hlist]
    exact .fault fault
  rw [hread, hlist]
  show Agrees ts (if joinTokens name = [] then _ else _) (if joinTokens name = [] then _ else _)
  by_cases hempty : joinTokens name = []
  · rw [if_pos hempty, if_pos hempty]
    exact .fault _
  rw [if_neg hempty, if_neg hempty]
  have hvalue := agrees_loop_length
    (fun s _ _ hnext => follows_valueTurn ts (joinTokens name) s hnext) ([], 0) hbehind
  rw [after_nil] at hvalue
  obtain ⟨fault, hread, hlist⟩ | ⟨value, rest, hrest, hread, hlist⟩ := hvalue.cases
  · rw [hread, hlist]
    exact .fault fault
  · rw [hread, hlist]
    exact .read _ hrest

end Runs

/-! ## Lists of entries -/

section Lists

variable (ts : List Token) {γ : Type}

/-- One turn of reading a list of entries: white space is passed over, semicolons too, and
comments are entries in every list.  What ends the list and what other entries there are is
said by `atEnd` and `entry`. -/
def listTurn (comment : Text → β) (atEnd : List β → Nat → Except Stop (Turn (List β) (List β)))
    (entry : List β → Token → Nat → Except Stop (Turn (List β) (List β))) (items : List β)
    (pos : Nat) : Except Stop (Turn (List β) (List β)) := do
  let pos ← skipBlank ts pos
  if ts.length ≤ pos then atEnd items pos
  else
    let t ← peek ts pos
    if t.kind = .semicolon then .ok (.again items (pos + 1))
    else if t.kind = .comment then
      .ok (.again (items ++ [comment (commentText t.text)]) (pos + 1))
    else entry items t pos

variable {ts}

/-- A turn that keeps to a reader behind tokens that the reader passes over does so before
them. -/
theorem Follows.before {spec : σ → List Token → Except Fault (α × List Token)} {s : σ}
    {pos next : Nat} {turn : Except Stop (Turn σ α)} (hfollows : Follows ts spec s next turn)
    (hle : pos ≤ next) (hspec : spec s (ts.drop pos) = spec s (ts.drop next)) :
    Follows ts spec s pos turn := by
  cases hfollows with
  | fault h => exact .fault (hspec.trans h)
  | done hnext h => exact .done hnext (hspec.trans h)
  | again hless hnext h => exact .again (Nat.lt_of_le_of_lt hle hless) hnext (hspec.trans h)

theorem isSkipped_iff {t : Token} :
    t.kind.isSkipped = true ↔ isPassed t = true ∨ t.kind = .semicolon := by
  rw [isPassed]
  cases t.kind <;> simp [TokenKind.isSkipped]

theorem isPassed_head_dropWhile {us vs : List Token} {t : Token}
    (hdrop : us.dropWhile isPassed = t :: vs) : isPassed t = false := by
  have hhead := List.head?_dropWhile_not isPassed us
  rw [hdrop] at hhead
  exact hhead

/-- What a reader of a list of entries does with the tokens that all lists share. -/
structure ReadsEntries (comment : Text → β)
    (spec : List Token → Except Fault (List β × List Token)) : Prop where
  skip : ∀ t us, t.kind.isSkipped = true → spec (t :: us) = spec us
  comment : ∀ t us, t.kind = .comment →
    spec (t :: us) = after [comment (commentText t.text)] (spec us)

theorem ReadsEntries.dropWhile {comment : Text → β}
    {spec : List Token → Except Fault (List β × List Token)} (hspec : ReadsEntries comment spec)
    (us : List Token) : spec (us.dropWhile isPassed) = spec us := by
  induction us with
  | nil => rfl
  | cons t us ih =>
    by_cases hpassed : isPassed t = true
    · rw [List.dropWhile_cons_of_pos hpassed, ih,
        hspec.skip t us (isSkipped_iff.mpr (.inl hpassed))]
    · rw [List.dropWhile_cons_of_neg hpassed]

/-- A turn of reading a list keeps to a reader of lists if its end and its entries do. -/
theorem follows_listTurn {comment : Text → β}
    {atEnd : List β → Nat → Except Stop (Turn (List β) (List β))}
    {entry : List β → Token → Nat → Except Stop (Turn (List β) (List β))}
    {spec : List Token → Except Fault (List β × List Token)} (hspec : ReadsEntries comment spec)
    {items : List β} {pos : Nat} (hpos : pos ≤ ts.length)
    (hend : Follows ts (fun items us => after items (spec us)) items ts.length
      (atEnd items ts.length))
    (hentry : ∀ t us next, pos ≤ next → ts.drop next = t :: us → t.kind.isSkipped = false →
      t.kind ≠ .comment →
        Follows ts (fun items us => after items (spec us)) items next (entry items t next)) :
    Follows ts (fun items us => after items (spec us)) items pos
      (listTurn ts comment atEnd entry items pos) := by
  obtain ⟨next, hskip, hle, hnext, hblank⟩ := exists_skipBlank ts hpos
  have hpassed : after items (spec (ts.drop pos)) = after items (spec (ts.drop next)) := by
    rw [hblank, hspec.dropWhile]
  rw [listTurn, hskip]
  apply Follows.before _ hle hpassed
  show Follows _ _ _ _ (if ts.length ≤ next then _ else _)
  obtain ⟨hlast, hdrop⟩ | ⟨hless, t, us, hpeek, hdrop, hbehind⟩ := peek_cases ts next
  · rw [if_pos hlast]
    obtain rfl : next = ts.length := Nat.le_antisymm hnext hlast
    exact hend
  rw [if_neg (Nat.not_le.mpr hless), hpeek]
  show Follows _ _ _ _ (if t.kind = .semicolon then _ else _)
  have hnot : isPassed t = false := isPassed_head_dropWhile (hblank.symm.trans hdrop)
  by_cases hsemicolon : t.kind = .semicolon
  · rw [if_pos hsemicolon]
    refine .again (Nat.lt_succ_self next) hless ?_
    rw [hdrop, hbehind, hspec.skip t us (isSkipped_iff.mpr (.inr hsemicolon))]
  rw [if_neg hsemicolon]
  by_cases hcomment : t.kind = .comment
  · rw [if_pos hcomment]
    refine .again (Nat.lt_succ_self next) hless ?_
    rw [hdrop, hbehind, hspec.comment t us hcomment, after_after]
  rw [if_neg hcomment]
  refine hentry t us next hle hdrop ?_ hcomment
  rw [← Bool.not_eq_true, isSkipped_iff, hnot]
  simp [hsemicolon]

theorem lt_of_drop_length {pos next : Nat} (hnext : next ≤ ts.length)
    (hshorter : (ts.drop next).length < (ts.drop pos).length) : pos < next := by
  rw [List.length_drop, List.length_drop] at hshorter
  omega

/-- A turn that reads one entry and goes on behind it. -/
theorem follows_entry {spec : List Token → Except Fault (List β × List Token)} (make : γ → β)
    {read : Except Stop (γ × Nat)} {read' : Except Fault (γ × List Token)} {items : List β}
    {pos : Nat} (hagrees : Agrees ts read read')
    (hfault : ∀ fault, read' = .error fault → spec (ts.drop pos) = .error fault)
    (hread : ∀ c rest, read' = .ok (c, rest) → rest.length < (ts.drop pos).length ∧
      spec (ts.drop pos) = after [make c] (spec rest)) :
    Follows ts (fun items us => after items (spec us)) items pos
      (read >>= fun r => .ok (.again (items ++ [make r.1]) r.2)) := by
  cases hagrees with
  | fault fault => exact .fault (by rw [hfault fault rfl]; rfl)
  | read c hnext =>
    obtain ⟨hshorter, hspec⟩ := hread c _ rfl
    refine .again (lt_of_drop_length hnext hshorter) hnext ?_
    dsimp only
    rw [hspec, after_after]

end Lists

end Cursor

end PixelRem.Css
