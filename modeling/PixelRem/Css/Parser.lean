import PixelRem.Css.Lexer
import PixelRem.Css.Position
import PixelRem.Css.Rule
import PixelRem.Text.Blank
import PixelRem.Text.Case

/-!
# From tokens to rules

`parseTokens` reads a token list as a rule tree, and `parse` does so for a text.
Reading is by kind of token alone; token texts only become selectors, names,
properties and values.

A fault carries the offset it points at.  Each reader returns the tokens behind
what it read, and the lemmas `…_length` say that this list is shorter, which is
why the lists of rules, keyframes and items come to an end.
-/

namespace PixelRem.Css

/-! ## Faults -/

/-- What is wrong with a stylesheet. -/
inductive Problem where
  | missingClose
  | unexpectedClose
  | expectedOpen
  | selectorMissing
  | atRuleInBlock (keyword : Text)
  | unexpectedOpen
  | colonMissing
  | propertyMissing
  | openInValue (property : Text)
  deriving DecidableEq, Repr

/-- The wording of a problem. -/
def Problem.message : Problem → Text
  | .missingClose => utf8 "missing '\x7d'"
  | .unexpectedClose => utf8 "unexpected '\x7d'"
  | .expectedOpen => utf8 "expected '\x7b'"
  | .selectorMissing => utf8 "selector missing"
  | .atRuleInBlock keyword =>
    utf8 "at-rule " ++ keyword ++ utf8 " is not allowed in a declaration block"
  | .unexpectedOpen => utf8 "unexpected '\x7b'"
  | .colonMissing => utf8 "property missing ':'"
  | .propertyMissing => utf8 "property name missing"
  | .openInValue property => utf8 "unexpected '\x7b' in value of " ++ property

/-- A problem and the offset it points at. -/
structure Fault where
  offset : Nat
  problem : Problem
  deriving DecidableEq, Repr

/-- A problem and the place it is reported at. -/
structure ParseError where
  position : Position
  problem : Problem
  deriving DecidableEq, Repr

/-- The wording of a parse error. -/
def ParseError.message (e : ParseError) : Text :=
  utf8 "css parse error at " ++ Text.ofNat e.position.line ++ utf8 ":"
    ++ Text.ofNat e.position.column ++ utf8 ": " ++ e.problem.message

/-! ## Text of token lists -/

/-- Joins token texts.  `started` says that some text came before and `blank` that
white space did. -/
def joinFrom : (started blank : Bool) → List Token → Text
  | _, _, [] => []
  | started, blank, t :: ts =>
    match t.kind with
    | .comment => joinFrom started blank ts
    | .whitespace => joinFrom started true ts
    | _ => (if started && blank then [0x20] else []) ++ t.text ++ joinFrom true false ts

/-- The text of a token list without comments and outer white space, with one blank
for each inner run of white space. -/
def joinTokens (ts : List Token) : Text :=
  joinFrom false false ts

/-- Splits at commas outside brackets, from a bracket depth on: the first part and
the parts behind it. -/
def splitFrom : (depth : Nat) → List Token → List Token × List (List Token)
  | _, [] => ([], [])
  | depth, t :: ts =>
    let (part, parts) := splitFrom (t.kind.depthAfter depth) ts
    if t.kind = .comma ∧ depth = 0 then ([], part :: parts) else (t :: part, parts)

/-- The parts of a token list between commas that stand outside all brackets. -/
def splitTopLevel (ts : List Token) : List (List Token) :=
  let (part, parts) := splitFrom 0 ts
  part :: parts

/-- The text of a comment without its marks. -/
def commentText (raw : Text) : Text :=
  let body := ((utf8 "/*").dropPrefix? raw).getD raw
  ((utf8 "*/").dropSuffix? body).getD body

/-! ## At-keywords -/

/-- Whether a name is `keyframes`, alone or behind a vendor mark in hyphens. -/
def isKeyframesName (name : Text) : Bool :=
  match (utf8 "keyframes").dropSuffix? name with
  | some vendor =>
    vendor.isEmpty ||
      (2 < vendor.length && vendor.head? == some 0x2D && vendor.getLast? == some 0x2D)
  | none => false

/-- The at-rules that are told apart. -/
inductive AtRule where
  | media
  | keyframes (vendor : Text)
  | other
  deriving DecidableEq, Repr

/-- The at-rule of a keyword with its at sign.  Names are compared in lower case. -/
def atRuleOf (keyword : Text) : AtRule :=
  let name := Text.toLower (keyword.drop 1)
  if name = utf8 "media" then .media
  else if isKeyframesName name then .keyframes ((keyword.drop 1).take (keyword.length - 10))
  else .other

/-! ## Preludes and raw at-rules -/

/-- Reads up to the opening brace of a block: the tokens before it without comments,
the offset of the brace and the tokens behind it.  `start` is where the prelude
began. -/
def preludeFrom (start : Nat) :
    (depth : Nat) → List Token → Except Fault (List Token × Nat × List Token)
  | _, [] => .error ⟨start, .expectedOpen⟩
  | depth, t :: ts =>
    if depth = 0 ∧ t.kind = .leftBrace then .ok ([], t.offset, ts)
    else if depth = 0 ∧ (t.kind = .semicolon ∨ t.kind = .rightBrace) then
      .error ⟨t.offset, .expectedOpen⟩
    else
      match preludeFrom start (t.kind.depthAfter depth) ts with
      | .error fault => .error fault
      | .ok (prelude, opened, rest) =>
        .ok (if t.kind = .comment then prelude else t :: prelude, opened, rest)

theorem preludeFrom_length {start depth : Nat} {ts prelude rest : List Token} {opened : Nat}
    (hread : preludeFrom start depth ts = .ok (prelude, opened, rest)) :
    rest.length < ts.length := by
  induction ts generalizing depth prelude opened rest with
  | nil => simp [preludeFrom] at hread
  | cons t ts ih =>
    simp only [preludeFrom] at hread
    split at hread
    · simp only [Except.ok.injEq, Prod.mk.injEq] at hread
      simp [← hread.2.2]
    · split at hread
      · simp at hread
      · split at hread
        · simp at hread
        · rename_i hrest
          simp only [Except.ok.injEq, Prod.mk.injEq] at hread
          have := ih hrest
          simp only [List.length_cons, ← hread.2.2]
          omega

/-- Where a prelude begins: at its first token, or at the end of the source. -/
def startOf (eof : Nat) : List Token → Nat
  | [] => eof
  | t :: _ => t.offset

/-- Reads the prelude of a block in a source of `eof` bytes. -/
def prelude (eof : Nat) (ts : List Token) : Except Fault (List Token × Nat × List Token) :=
  preludeFrom (startOf eof ts) 0 ts

theorem prelude_length {eof opened : Nat} {ts pre rest : List Token}
    (hread : prelude eof ts = .ok (pre, opened, rest)) : rest.length < ts.length :=
  preludeFrom_length hread

/-- Reads an at-rule that is kept as written: its tokens, up to a semicolon outside
braces or the brace that closes its block, and the tokens behind it.  `opened` is
the offset of the outermost open brace. -/
def rawFrom : (depth opened : Nat) → List Token → Except Fault (List Token × List Token)
  | depth, opened, [] => if depth = 0 then .ok ([], []) else .error ⟨opened, .missingClose⟩
  | depth, opened, t :: ts =>
    if depth = 0 ∧ t.kind = .semicolon then .ok ([t], ts)
    else if depth = 0 ∧ t.kind = .rightBrace then .error ⟨t.offset, .unexpectedClose⟩
    else if depth = 1 ∧ t.kind = .rightBrace then .ok ([t], ts)
    else
      let opened := if depth = 0 ∧ t.kind = .leftBrace then t.offset else opened
      match rawFrom (t.kind.braceDepthAfter depth) opened ts with
      | .error fault => .error fault
      | .ok (raw, rest) => .ok (t :: raw, rest)

theorem rawFrom_length {depth opened : Nat} {ts raw rest : List Token}
    (hread : rawFrom depth opened ts = .ok (raw, rest)) : rest.length ≤ ts.length := by
  fun_induction rawFrom depth opened ts generalizing raw rest <;> grind

/-! ## Declarations -/

/-- Reads a property up to its colon: the tokens before the colon and those behind.
`start` is where the declaration began. -/
def propertyFrom (start : Nat) : List Token → Except Fault (List Token × List Token)
  | [] => .error ⟨start, .colonMissing⟩
  | t :: ts =>
    match t.kind with
    | .colon => .ok ([], ts)
    | .semicolon | .rightBrace | .leftBrace => .error ⟨start, .colonMissing⟩
    | _ =>
      match propertyFrom start ts with
      | .error fault => .error fault
      | .ok (property, rest) => .ok (t :: property, rest)

theorem propertyFrom_length {start : Nat} {ts property rest : List Token}
    (hread : propertyFrom start ts = .ok (property, rest)) : rest.length < ts.length := by
  fun_induction propertyFrom start ts generalizing property rest <;> grind

/-- Reads a value up to a semicolon or a closing brace outside brackets: its tokens
and those behind it.  The semicolon is read too and the brace is not.  The end of
the source ends the value; the block around it reports its missing brace. -/
def valueFrom (property : Text) :
    (depth : Nat) → List Token → Except Fault (List Token × List Token)
  | _, [] => .ok ([], [])
  | depth, t :: ts =>
    if t.kind = .leftBrace then .error ⟨t.offset, .openInValue property⟩
    else if depth = 0 ∧ t.kind = .semicolon then .ok ([], ts)
    else if depth = 0 ∧ t.kind = .rightBrace then .ok ([], t :: ts)
    else
      match valueFrom property (t.kind.depthAfter depth) ts with
      | .error fault => .error fault
      | .ok (value, rest) => .ok (t :: value, rest)

theorem valueFrom_length {property : Text} {depth : Nat} {ts value rest : List Token}
    (hread : valueFrom property depth ts = .ok (value, rest)) : rest.length ≤ ts.length := by
  fun_induction valueFrom property depth ts generalizing value rest <;> grind

/-- Reads the declaration that starts with `t`. -/
def declaration (t : Token) (ts : List Token) : Except Fault (Item × List Token) :=
  match propertyFrom t.offset (t :: ts) with
  | .error fault => .error fault
  | .ok (name, behind) =>
    let property := joinTokens name
    if property = [] then .error ⟨t.offset, .propertyMissing⟩
    else
      match valueFrom property 0 behind with
      | .error fault => .error fault
      | .ok (value, rest) => .ok (.declaration property (joinTokens value), rest)

theorem declaration_length {t : Token} {ts rest : List Token} {item : Item}
    (hread : declaration t ts = .ok (item, rest)) : rest.length ≤ ts.length := by
  simp only [declaration] at hread
  repeat' split at hread
  all_goals try simp at hread
  rename_i hproperty _ _ _ _ hvalue
  have hbehind := propertyFrom_length hproperty
  have hrest := valueFrom_length hvalue
  simp only [List.length_cons] at hbehind
  simp only [← hread.2]
  omega

/-- Reads items up to the closing brace of the block opened at `opened`. -/
def itemList (opened : Nat) (ts : List Token) : Except Fault (List Item × List Token) :=
  match ts with
  | [] => .error ⟨opened, .missingClose⟩
  | t :: ts =>
    if t.kind.isSkipped then itemList opened ts
    else match t.kind with
      | .rightBrace => .ok ([], ts)
      | .comment =>
        match itemList opened ts with
        | .error fault => .error fault
        | .ok (items, rest) => .ok (.comment (commentText t.text) :: items, rest)
      | .atKeyword => .error ⟨t.offset, .atRuleInBlock t.text⟩
      | .leftBrace => .error ⟨t.offset, .unexpectedOpen⟩
      | _ =>
        match hread : declaration t ts with
        | .error fault => .error fault
        | .ok (item, behind) =>
          have := declaration_length hread
          match itemList opened behind with
          | .error fault => .error fault
          | .ok (items, rest) => .ok (item :: items, rest)
termination_by ts.length

theorem itemList_length {opened : Nat} {ts rest : List Token} {items : List Item}
    (hread : itemList opened ts = .ok (items, rest)) : rest.length < ts.length := by
  fun_induction itemList opened ts generalizing items rest <;> grind

/-! ## Rules -/

/-- The selectors of a token list; members without text are dropped. -/
def selectorsOf (ts : List Token) : List Text :=
  ((splitTopLevel ts).map joinTokens).filter (· ≠ [])

/-- Reads the selectors and the items of the rule that starts with `t`. -/
def block (eof : Nat) (t : Token) (ts : List Token) : Except Fault (Block × List Token) :=
  match prelude eof (t :: ts) with
  | .error fault => .error fault
  | .ok (pre, opened, body) =>
    let selectors := selectorsOf pre
    if selectors = [] then .error ⟨t.offset, .selectorMissing⟩
    else
      match itemList opened body with
      | .error fault => .error fault
      | .ok (items, rest) => .ok (⟨selectors, items⟩, rest)

theorem block_length {eof : Nat} {t : Token} {ts rest : List Token} {b : Block}
    (hread : block eof t ts = .ok (b, rest)) : rest.length < ts.length := by
  simp only [block] at hread
  repeat' split at hread
  all_goals try simp at hread
  rename_i hprelude _ _ _ _ hitems
  have hbody := prelude_length hprelude
  have hrest := itemList_length hitems
  simp only [List.length_cons] at hbody
  simp only [← hread.2]
  omega

/-- Reads keyframes and comments up to the closing brace of the block opened at
`opened`. -/
def keyframeList (eof opened : Nat) (ts : List Token) :
    Except Fault (List Rule × List Token) :=
  match ts with
  | [] => .error ⟨opened, .missingClose⟩
  | t :: ts =>
    if t.kind.isSkipped then keyframeList eof opened ts
    else match t.kind with
      | .rightBrace => .ok ([], ts)
      | .comment =>
        match keyframeList eof opened ts with
        | .error fault => .error fault
        | .ok (rules, rest) => .ok (.comment (commentText t.text) :: rules, rest)
      | _ =>
        match hread : block eof t ts with
        | .error fault => .error fault
        | .ok (frame, behind) =>
          have := block_length hread
          match keyframeList eof opened behind with
          | .error fault => .error fault
          | .ok (rules, rest) => .ok (.keyframe frame :: rules, rest)
termination_by ts.length

theorem keyframeList_length {eof opened : Nat} {ts rest : List Token} {rules : List Rule}
    (hread : keyframeList eof opened ts = .ok (rules, rest)) : rest.length < ts.length := by
  fun_induction keyframeList eof opened ts generalizing rules rest <;> grind [block_length]

/-- Tokens left after reading some of `ts`. -/
abbrev Rest (ts : List Token) :=
  { rest : List Token // rest.length ≤ ts.length }

mutual

/-- Reads rules up to the closing brace of the block opened at `opened`, or to the
end of the source where no block is open. -/
def ruleList (eof : Nat) (opened : Option Nat) (ts : List Token) :
    Except Fault (List Rule × Rest ts) :=
  match ts with
  | [] =>
    match opened with
    | none => .ok ([], ⟨[], Nat.le_refl _⟩)
    | some opened => .error ⟨opened, .missingClose⟩
  | t :: ts =>
    if t.kind.isSkipped then
      match ruleList eof opened ts with
      | .error fault => .error fault
      | .ok (rules, ⟨rest, hrest⟩) => .ok (rules, ⟨rest, Nat.le_succ_of_le hrest⟩)
    else if t.kind = .rightBrace then
      match opened with
      | none => .error ⟨t.offset, .unexpectedClose⟩
      | some _ => .ok ([], ⟨ts, Nat.le_succ _⟩)
    else
      match rule eof t ts with
      | .error fault => .error fault
      | .ok (first, ⟨behind, hbehind⟩) =>
        match ruleList eof opened behind with
        | .error fault => .error fault
        | .ok (rules, ⟨rest, hrest⟩) =>
          .ok (first :: rules, ⟨rest, Nat.le_succ_of_le (Nat.le_trans hrest hbehind)⟩)
termination_by ts.length

/-- Reads the rule that starts with `t`. -/
def rule (eof : Nat) (t : Token) (ts : List Token) : Except Fault (Rule × Rest ts) :=
  match t.kind with
  | .comment => .ok (.comment (commentText t.text), ⟨ts, Nat.le_refl _⟩)
  | .atKeyword =>
    match atRuleOf t.text with
    | .media =>
      match hread : prelude eof ts with
      | .error fault => .error fault
      | .ok (pre, opened, body) =>
        have hbody := prelude_length hread
        match ruleList eof (some opened) body with
        | .error fault => .error fault
        | .ok (rules, ⟨rest, hrest⟩) =>
          .ok (.media (joinTokens pre) rules, ⟨rest, Nat.le_of_lt (Nat.lt_of_le_of_lt hrest hbody)⟩)
    | .keyframes vendor =>
      match hread : prelude eof ts with
      | .error fault => .error fault
      | .ok (pre, opened, body) =>
        match hframes : keyframeList eof opened body with
        | .error fault => .error fault
        | .ok (rules, rest) =>
          have hless := Nat.lt_trans (keyframeList_length hframes) (prelude_length hread)
          .ok (.keyframes vendor (joinTokens pre) rules, ⟨rest, Nat.le_of_lt hless⟩)
    | .other =>
      match hread : rawFrom 0 0 ts with
      | .error fault => .error fault
      | .ok (raw, rest) =>
        .ok (.other (Text.trim (t.text ++ raw.flatMap Token.text)), ⟨rest, rawFrom_length hread⟩)
  | _ =>
    match hread : block eof t ts with
    | .error fault => .error fault
    | .ok (style, rest) => .ok (.style style, ⟨rest, Nat.le_of_lt (block_length hread)⟩)
termination_by ts.length

end

/-- The rules of a token list that ends at `eof`. -/
def parseTokens (eof : Nat) (ts : List Token) : Except Fault (List Rule) :=
  (ruleList eof none ts).map Prod.fst

/-- The rules of a stylesheet, or what is wrong with it and where. -/
def parse (source : Text) : Except ParseError (List Rule) :=
  (parseTokens source.length (tokenize source)).mapError fun fault =>
    ⟨positionOf source fault.offset, fault.problem⟩

end PixelRem.Css
