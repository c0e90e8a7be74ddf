import Mathlib
import PixelRem.Css.Rule
import PixelRem.Css.Token
import PixelRem.Text.Blank
import PixelRem.Text.Case

/-!
# The token grammar of stylesheets

What a stylesheet is, said on its token list and without a reader.  A derivation
cuts the list into runs and gives each run its place in the rule tree.

* `Guards` and `depthBehind` speak of brackets: where a run stands outside all of
  them, and at which depth it ends.  `IsPrelude`, `IsValue` and `Parted` are built
  on them.
* `runText` and `commentBody` are the texts that the rule tree takes from a run and
  from a comment.
* `Balanced` and `IsRaw` are the runs of an at-rule that is kept as written.
* `Declares`, `ItemSeq` and `Qualifies` are the runs of one declaration, of the
  items in a block and of a block with its selectors.
* `KeyframeSeq` and `RuleSeq` are lists of entries, and `Sheet` is a whole
  stylesheet.

Every sequence takes a `Demand`, which can ask more of the runs that become text of
the tree; `anyRun` asks nothing.
-/

namespace PixelRem.Css

/-! ## Brackets -/

/-- The kinds that open a bracket. -/
def openings : List TokenKind :=
  [.function, .leftParenthesis, .leftBracket]

/-- The kinds that close a bracket. -/
def closings : List TokenKind :=
  [.rightParenthesis, .rightBracket]

/-- The bracket depth behind a token.  Where no bracket is open, none is closed. -/
def depthPast (kind : TokenKind) (depth : Nat) : Nat :=
  if kind ∈ openings then depth + 1 else if kind ∈ closings then depth - 1 else depth

/-- The reader counts brackets by the same rule. -/
theorem depthAfter_eq_depthPast (kind : TokenKind) (depth : Nat) :
    kind.depthAfter depth = depthPast kind depth := by
  cases kind <;> rfl

/-- The bracket depth behind a run that starts at `depth`. -/
def depthBehind (depth : Nat) (ts : List Token) : Nat :=
  ts.foldl (fun depth t => depthPast t.kind depth) depth

@[simp] theorem depthBehind_nil (depth : Nat) : depthBehind depth [] = depth := rfl

@[simp] theorem depthBehind_cons (depth : Nat) (t : Token) (ts : List Token) :
    depthBehind depth (t :: ts) = depthBehind (t.kind.depthAfter depth) ts := by
  rw [depthAfter_eq_depthPast]
  rfl

theorem depthBehind_append (depth : Nat) (ts us : List Token) :
    depthBehind depth (ts ++ us) = depthBehind (depthBehind depth ts) us :=
  List.foldl_append

/-- No token of a kind in `stops` stands outside all brackets in a run that starts at
`depth`. -/
def Guards (stops : List TokenKind) (depth : Nat) (ts : List Token) : Prop :=
  ∀ before t behind, ts = before ++ t :: behind → depthBehind depth before = 0 →
    t.kind ∉ stops

@[simp] theorem guards_nil (stops : List TokenKind) (depth : Nat) : Guards stops depth [] := by
  intro before t behind hsplit
  simp at hsplit

theorem guards_cons {stops : List TokenKind} {depth : Nat} {t : Token} {ts : List Token} :
    Guards stops depth (t :: ts) ↔
      (depth = 0 → t.kind ∉ stops) ∧ Guards stops (t.kind.depthAfter depth) ts := by
  constructor
  · intro hguards
    refine ⟨fun hdepth => hguards [] t ts rfl hdepth, ?_⟩
    intro before u behind hsplit hdepth
    exact hguards (t :: before) u behind (by rw [hsplit]; rfl) (by rwa [depthBehind_cons])
  · rintro ⟨hfirst, htail⟩ before u behind hsplit hdepth
    cases before with
    | nil =>
      simp only [List.nil_append, List.cons.injEq] at hsplit
      rw [← hsplit.1]
      exact hfirst hdepth
    | cons v before =>
      simp only [List.cons_append, List.cons.injEq] at hsplit
      rw [← hsplit.1, depthBehind_cons] at hdepth
      exact htail before u behind hsplit.2 hdepth

theorem guards_append {stops : List TokenKind} {depth : Nat} {ts us : List Token} :
    Guards stops depth (ts ++ us) ↔
      Guards stops depth ts ∧ Guards stops (depthBehind depth ts) us := by
  induction ts generalizing depth with
  | nil => simp
  | cons t ts ih => simp only [List.cons_append, guards_cons, ih, depthBehind_cons, and_assoc]

/-- Kinds that end a prelude where they stand outside brackets. -/
def preludeStops : List TokenKind :=
  [.leftBrace, .semicolon, .rightBrace]

/-- What may stand before the opening brace of a block. -/
structure IsPrelude (ts : List Token) : Prop where
  guards : Guards preludeStops 0 ts
  closed : depthBehind 0 ts = 0

/-- Kinds that end a value where they stand outside brackets. -/
def valueStops : List TokenKind :=
  [.semicolon, .rightBrace]

/-- What may stand behind the colon of a declaration. -/
structure IsValue (ts : List Token) : Prop where
  guards : Guards valueStops 0 ts
  noOpen : ∀ t ∈ ts, t.kind ≠ .leftBrace
  closed : depthBehind 0 ts = 0

/-- The parts of a run between its commas outside brackets. -/
inductive Parted : List Token → List (List Token) → Prop where
  | last {part : List Token} (hpart : Guards [.comma] 0 part) : Parted part [part]
  | comma {part ts : List Token} {comma : Token} {parts : List (List Token)}
      (hpart : Guards [.comma] 0 part) (hclosed : depthBehind 0 part = 0)
      (hcomma : comma.kind = .comma) (tail : Parted ts parts) :
      Parted (part ++ comma :: ts) (part :: parts)

/-! ## Texts -/

/-- The run without its comments. -/
def withoutComments (ts : List Token) : List Token :=
  ts.filter (·.kind ≠ .comment)

theorem withoutComments_cons (t : Token) (ts : List Token) :
    withoutComments (t :: ts) =
      if t.kind = .comment then withoutComments ts else t :: withoutComments ts := by
  by_cases hcomment : t.kind = .comment <;> simp [withoutComments, hcomment]

/-- The words of a run: what its white space separates, without comments. -/
def wordsOf (ts : List Token) : List (List Token) :=
  ((withoutComments ts).splitOnP (·.kind = .whitespace)).filter (· ≠ [])

/-- The text of a run: its words with one blank between them. -/
def runText (ts : List Token) : Text :=
  [0x20].intercalate ((wordsOf ts).map (List.flatMap Token.text))

/-- The texts of those runs that have one. -/
def textsOf (parts : List (List Token)) : List Text :=
  (parts.map runText).filter (· ≠ [])

/-- The text of a comment without its marks.  The mark at its end can be missing. -/
def commentBody (raw : Text) : Text :=
  let body := if utf8 "/*" <+: raw then raw.drop 2 else raw
  if utf8 "*/" <:+ body then body.take (body.length - 2) else body

/-! ## Runs that are kept as written -/

/-- A run in which every brace has its partner. -/
inductive Balanced : List Token → Prop where
  | nil : Balanced []
  | token {t : Token} {ts : List Token} (hopen : t.kind ≠ .leftBrace)
      (hclose : t.kind ≠ .rightBrace) (tail : Balanced ts) : Balanced (t :: ts)
  | braces {opening closing : Token} {inner ts : List Token}
      (hopen : opening.kind = .leftBrace) (block : Balanced inner)
      (hclose : closing.kind = .rightBrace) (tail : Balanced ts) :
      Balanced (opening :: (inner ++ closing :: ts))

/-- Neither a semicolon nor a brace stands in the run. -/
def IsStatement (ts : List Token) : Prop :=
  ∀ t ∈ ts, t.kind ≠ .semicolon ∧ t.kind ≠ .leftBrace ∧ t.kind ≠ .rightBrace

theorem isStatement_nil : IsStatement [] := by
  simp [IsStatement]

/-- What follows the keyword of an at-rule that is kept as written: a statement with
its semicolon, or a statement with a block behind it. -/
inductive IsRaw : List Token → Prop where
  | statement {ts : List Token} {semicolon : Token} (head : IsStatement ts)
      (hend : semicolon.kind = .semicolon) : IsRaw (ts ++ [semicolon])
  | block {ts inner : List Token} {opening closing : Token} (head : IsStatement ts)
      (hopen : opening.kind = .leftBrace) (body : Balanced inner)
      (hclose : closing.kind = .rightBrace) : IsRaw (ts ++ opening :: (inner ++ [closing]))

/-- The text of an at-rule that is kept as written. -/
def rawText (keyword : Token) (ts : List Token) : Text :=
  Text.trim (keyword.text ++ ts.flatMap Token.text)

/-! ## At-keywords -/

/-- An at-keyword with a given name in lower case. -/
def IsAtName (t : Token) (name : Text) : Prop :=
  t.kind = .atKeyword ∧ Text.toLower (t.text.drop 1) = name

/-- What may stand before `keyframes` in a name: nothing, or a word in hyphens. -/
def IsVendor (mark : Text) : Prop :=
  mark = [] ∨ ∃ word, word ≠ [] ∧ mark = 0x2D :: (word ++ [0x2D])

/-- The keyword of a media query. -/
def IsMedia (t : Token) : Prop :=
  IsAtName t (utf8 "media")

/-- The keyword of an animation. -/
def IsKeyframes (t : Token) : Prop :=
  ∃ mark, IsVendor mark ∧ IsAtName t (mark ++ utf8 "keyframes")

/-- The keyword of any other at-rule. -/
def IsOther (t : Token) : Prop :=
  t.kind = .atKeyword ∧ ¬ IsMedia t ∧ ¬ IsKeyframes t

/-- What stands in the keyword of an animation between the at sign and its last nine
bytes. -/
def vendorOf (keyword : Text) : Text :=
  (keyword.drop 1).take (keyword.length - 10)

/-! ## Blocks -/

/-- The runs whose text the rule tree holds. -/
inductive Part where
  | selectors
  | query
  | animation
  | property
  | value
  deriving DecidableEq, Repr

/-- What is asked of a run beyond the grammar. -/
abbrev Demand := Part → List Token → Prop

/-- Asks nothing. -/
def anyRun : Demand :=
  fun _ _ => True

/-- The kinds that can stand between entries. -/
def betweenEntries : List TokenKind :=
  [.whitespace, .cdo, .cdc, .semicolon]

/-- The reader passes over the same kinds. -/
theorem isSkipped_iff_mem {kind : TokenKind} :
    kind.isSkipped = true ↔ kind ∈ betweenEntries := by
  cases kind <;> decide

theorem isSkipped_eq_false_iff {kind : TokenKind} :
    kind.isSkipped = false ↔ kind ∉ betweenEntries := by
  rw [← isSkipped_iff_mem, Bool.not_eq_true]

/-- The first token of the run neither is passed over nor is a comment. -/
def LeadsEntry (ts : List Token) : Prop :=
  ∀ t ∈ ts.head?, t.kind ∉ betweenEntries ∧ t.kind ≠ .comment

/-- The first token of the run is no at-keyword. -/
def LeadsPlain (ts : List Token) : Prop :=
  ∀ t ∈ ts.head?, t.kind ≠ .atKeyword

theorem leadsEntry_cons {t : Token} {ts : List Token} :
    LeadsEntry (t :: ts) ↔ t.kind.isSkipped = false ∧ t.kind ≠ .comment := by
  simp [LeadsEntry, isSkipped_eq_false_iff]

theorem leadsPlain_cons {t : Token} {ts : List Token} :
    LeadsPlain (t :: ts) ↔ t.kind ≠ .atKeyword := by
  simp [LeadsPlain]

/-- No colon, semicolon or brace stands in the run. -/
def IsProperty (ts : List Token) : Prop :=
  ∀ t ∈ ts, t.kind ≠ .colon ∧ t.kind ≠ .semicolon ∧ t.kind ≠ .leftBrace ∧
    t.kind ≠ .rightBrace

/-- A run that is one declaration, without what ends it. -/
inductive Declares (demand : Demand) : List Token → Item → Prop where
  | intro {name value : List Token} {colon : Token} (hlead : LeadsEntry name)
      (hplain : LeadsPlain name) (hname : IsProperty name) (htext : runText name ≠ [])
      (hcolon : colon.kind = .colon) (hvalue : IsValue value)
      (hproperty : demand .property name) (hdemand : demand .value value) :
      Declares demand (name ++ colon :: value)
        (.declaration (runText name) (runText value))

/-- The items of a block.  Only the last declaration can go without its semicolon. -/
inductive ItemSeq (demand : Demand) : List Token → List Item → Prop where
  | nil : ItemSeq demand [] []
  | skip {t : Token} {ts : List Token} {items : List Item} (hskip : t.kind ∈ betweenEntries)
      (tail : ItemSeq demand ts items) : ItemSeq demand (t :: ts) items
  | comment {t : Token} {ts : List Token} {items : List Item} (hkind : t.kind = .comment)
      (tail : ItemSeq demand ts items) :
      ItemSeq demand (t :: ts) (.comment (commentBody t.text) :: items)
  | declaration {us ts : List Token} {semicolon : Token} {item : Item} {items : List Item}
      (first : Declares demand us item) (hend : semicolon.kind = .semicolon)
      (tail : ItemSeq demand ts items) :
      ItemSeq demand (us ++ semicolon :: ts) (item :: items)
  | last {us : List Token} {item : Item} (first : Declares demand us item) :
      ItemSeq demand us [item]

/-- A run that is a block with its selectors before it. -/
inductive Qualifies (demand : Demand) : List Token → Block → Prop where
  | intro {pre body : List Token} {parts : List (List Token)} {opening closing : Token}
      {items : List Item} (hlead : LeadsEntry pre) (hpre : IsPrelude pre)
      (hparts : Parted pre parts) (htext : textsOf parts ≠ [])
      (hdemand : demand .selectors pre) (hopen : opening.kind = .leftBrace)
      (block : ItemSeq demand body items) (hclose : closing.kind = .rightBrace) :
      Qualifies demand (pre ++ opening :: (body ++ [closing])) ⟨textsOf parts, items⟩

/-! ## Lists of rules -/

/-- The entries of an animation.  An at-keyword can start a keyframe. -/
inductive KeyframeSeq (demand : Demand) : List Token → List Rule → Prop where
  | nil : KeyframeSeq demand [] []
  | skip {t : Token} {ts : List Token} {rules : List Rule} (hskip : t.kind ∈ betweenEntries)
      (tail : KeyframeSeq demand ts rules) : KeyframeSeq demand (t :: ts) rules
  | comment {t : Token} {ts : List Token} {rules : List Rule} (hkind : t.kind = .comment)
      (tail : KeyframeSeq demand ts rules) :
      KeyframeSeq demand (t :: ts) (.comment (commentBody t.text) :: rules)
  | keyframe {us ts : List Token} {block : Block} {rules : List Rule}
      (first : Qualifies demand us block) (tail : KeyframeSeq demand ts rules) :
      KeyframeSeq demand (us ++ ts) (.keyframe block :: rules)

/-- The entries of a media query or a stylesheet, each with what ends it. -/
inductive RuleSeq (demand : Demand) : List Token → List Rule → Prop where
  | nil : RuleSeq demand [] []
  | skip {t : Token} {ts : List Token} {rules : List Rule} (hskip : t.kind ∈ betweenEntries)
      (tail : RuleSeq demand ts rules) : RuleSeq demand (t :: ts) rules
  | comment {t : Token} {ts : List Token} {rules : List Rule} (hkind : t.kind = .comment)
      (tail : RuleSeq demand ts rules) :
      RuleSeq demand (t :: ts) (.comment (commentBody t.text) :: rules)
  | media {t opening closing : Token} {pre body ts : List Token} {inner rules : List Rule}
      (hname : IsMedia t) (hpre : IsPrelude pre) (hdemand : demand .query pre)
      (hopen : opening.kind = .leftBrace) (block : RuleSeq demand body inner)
      (hclose : closing.kind = .rightBrace) (tail : RuleSeq demand ts rules) :
      RuleSeq demand (t :: (pre ++ opening :: (body ++ closing :: ts)))
        (.media (runText pre) inner :: rules)
  | keyframes {t opening closing : Token} {pre body ts : List Token} {inner rules : List Rule}
      (hname : IsKeyframes t) (hpre : IsPrelude pre) (hdemand : demand .animation pre)
      (hopen : opening.kind = .leftBrace) (block : KeyframeSeq demand body inner)
      (hclose : closing.kind = .rightBrace) (tail : RuleSeq demand ts rules) :
      RuleSeq demand (t :: (pre ++ opening :: (body ++ closing :: ts)))
        (.keyframes (vendorOf t.text) (runText pre) inner :: rules)
  | other {t : Token} {raw ts : List Token} {rules : List Rule} (hname : IsOther t)
      (hraw : IsRaw raw) (tail : RuleSeq demand ts rules) :
      RuleSeq demand (t :: (raw ++ ts)) (.other (rawText t raw) :: rules)
  | style {us ts : List Token} {block : Block} {rules : List Rule}
      (first : Qualifies demand us block) (hplain : LeadsPlain us)
      (tail : RuleSeq demand ts rules) :
      RuleSeq demand (us ++ ts) (.style block :: rules)

/-- A stylesheet.  The end of the source can end its last at-rule, if that is a
statement. -/
inductive Sheet (demand : Demand) : List Token → List Rule → Prop where
  | complete {ts : List Token} {rules : List Rule} (entries : RuleSeq demand ts rules) :
      Sheet demand ts rules
  | unended {t : Token} {ts raw : List Token} {rules : List Rule}
      (entries : RuleSeq demand ts rules) (hname : IsOther t) (hraw : IsStatement raw) :
      Sheet demand (ts ++ t :: raw) (rules ++ [.other (rawText t raw)])

/-! ## Demands -/

section Demand

variable {demand weaker : Demand} (hweaker : ∀ part ts, demand part ts → weaker part ts)

include hweaker

theorem Declares.mono {us : List Token} {item : Item} (hitem : Declares demand us item) :
    Declares weaker us item := by
  obtain ⟨hlead, hplain, hname, htext, hcolon, hvalue, hproperty, hdemand⟩ := hitem
  exact .intro hlead hplain hname htext hcolon hvalue (hweaker _ _ hproperty)
    (hweaker _ _ hdemand)

theorem ItemSeq.mono {ts : List Token} {items : List Item} (hitems : ItemSeq demand ts items) :
    ItemSeq weaker ts items := by
  induction hitems with
  | nil => exact .nil
  | skip hskip _ ih => exact .skip hskip ih
  | comment hkind _ ih => exact .comment hkind ih
  | declaration first hend _ ih => exact .declaration (first.mono hweaker) hend ih
  | last first => exact .last (first.mono hweaker)

theorem Qualifies.mono {us : List Token} {block : Block} (hblock : Qualifies demand us block) :
    Qualifies weaker us block := by
  obtain ⟨hlead, hpre, hparts, htext, hdemand, hopen, hitems, hclose⟩ := hblock
  exact .intro hlead hpre hparts htext (hweaker _ _ hdemand) hopen (hitems.mono hweaker) hclose

theorem KeyframeSeq.mono {ts : List Token} {rules : List Rule}
    (hrules : KeyframeSeq demand ts rules) : KeyframeSeq weaker ts rules := by
  induction hrules with
  | nil => exact .nil
  | skip hskip _ ih => exact .skip hskip ih
  | comment hkind _ ih => exact .comment hkind ih
  | keyframe first _ ih => exact .keyframe (first.mono hweaker) ih

/-- A derivation under a demand is one under any weaker demand. -/
theorem RuleSeq.mono {ts : List Token} {rules : List Rule} (hrules : RuleSeq demand ts rules) :
    RuleSeq weaker ts rules := by
  induction hrules with
  | nil => exact .nil
  | skip hskip _ ih => exact .skip hskip ih
  | comment hkind _ ih => exact .comment hkind ih
  | media hname hpre hdemand hopen _ hclose _ ihblock ihtail =>
    exact .media hname hpre (hweaker _ _ hdemand) hopen ihblock hclose ihtail
  | keyframes hname hpre hdemand hopen block hclose _ ihtail =>
    exact .keyframes hname hpre (hweaker _ _ hdemand) hopen (block.mono hweaker) hclose ihtail
  | other hname hraw _ ih => exact .other hname hraw ih
  | style first hplain _ ih => exact .style (first.mono hweaker) hplain ih

end Demand

/-! ## Single words -/

/-- A name or a number with its unit, which alone is a selector, a property or a value. -/
structure Token.IsWord (t : Token) : Prop where
  kind : t.kind ∈ [TokenKind.ident, .dimension]
  text : t.text ≠ []

instance (t : Token) : Decidable t.IsWord :=
  decidable_of_iff (t.kind ∈ [TokenKind.ident, .dimension] ∧ t.text ≠ [])
    ⟨fun h => ⟨h.1, h.2⟩, fun h => ⟨h.kind, h.text⟩⟩

section Words

variable {t : Token}

theorem Token.IsWord.notMem (ht : t.IsWord) {stops : List TokenKind}
    (hstops : ∀ kind ∈ [TokenKind.ident, .dimension], kind ∉ stops) : t.kind ∉ stops :=
  hstops t.kind ht.kind

theorem Token.IsWord.guards (ht : t.IsWord) {stops : List TokenKind}
    (hstops : ∀ kind ∈ [TokenKind.ident, .dimension], kind ∉ stops) : Guards stops 0 [t] :=
  guards_cons.mpr ⟨fun _ => ht.notMem hstops, guards_nil _ _⟩

theorem Token.IsWord.closed (ht : t.IsWord) : depthBehind 0 [t] = 0 := by
  show depthPast t.kind 0 = 0
  rw [depthPast, if_neg (ht.notMem (by decide)), if_neg (ht.notMem (by decide))]

theorem Token.IsWord.isPrelude (ht : t.IsWord) : IsPrelude [t] :=
  ⟨ht.guards (by decide), ht.closed⟩

theorem Token.IsWord.isValue (ht : t.IsWord) : IsValue [t] := by
  have hopen : t.kind ∉ [TokenKind.leftBrace] := ht.notMem (by decide)
  exact ⟨ht.guards (by decide), by simpa using hopen, ht.closed⟩

theorem Token.IsWord.leadsEntry (ht : t.IsWord) (ts : List Token) : LeadsEntry (t :: ts) := by
  have hbetween : t.kind ∉ betweenEntries := ht.notMem (by decide)
  have hcomment : t.kind ∉ [TokenKind.comment] := ht.notMem (by decide)
  simpa [LeadsEntry, hbetween] using hcomment

theorem Token.IsWord.leadsPlain (ht : t.IsWord) (ts : List Token) : LeadsPlain (t :: ts) := by
  have hkeyword : t.kind ∉ [TokenKind.atKeyword] := ht.notMem (by decide)
  simpa [LeadsPlain] using hkeyword

theorem Token.IsWord.isProperty (ht : t.IsWord) : IsProperty [t] := by
  have hstop : t.kind ∉ [TokenKind.colon, .semicolon, .leftBrace, .rightBrace] :=
    ht.notMem (by decide)
  simpa [IsProperty] using hstop

theorem Token.IsWord.runText_eq (ht : t.IsWord) : runText [t] = t.text := by
  have hblank : t.kind ∉ [TokenKind.comment, .whitespace] := ht.notMem (by decide)
  simp only [List.mem_cons, List.not_mem_nil, or_false, not_or] at hblank
  simp [runText, wordsOf, withoutComments, hblank.1, hblank.2,
    List.splitOnP_cons_eq_if_modifyHead, List.splitOnP_nil]

/-- White space before a word. -/
theorem Token.IsWord.isPrelude_blank (ht : t.IsWord) (blank : Text) (offset : Nat) :
    IsPrelude [⟨.whitespace, blank, offset⟩, t] :=
  ⟨guards_cons.mpr ⟨fun _ => show TokenKind.whitespace ∉ preludeStops by decide,
    ht.isPrelude.guards⟩, ht.closed⟩

variable {demand : Demand} {opening closing colon value semicolon comment : Token}

theorem Declares.word (ht : t.IsWord) {us : List Token} (hcolon : colon.kind = .colon)
    (hvalue : IsValue us) (hproperty : demand .property [t]) (hdemand : demand .value us) :
    Declares demand ([t] ++ colon :: us) (.declaration t.text (runText us)) := by
  rw [← ht.runText_eq]
  refine .intro (ht.leadsEntry []) (ht.leadsPlain []) ht.isProperty ?_ hcolon hvalue hproperty
    hdemand
  rw [ht.runText_eq]
  exact ht.text

/-- A word as the value of another, and a comment behind them. -/
theorem ItemSeq.words (ht : t.IsWord) (hvalue : value.IsWord) (hcolon : colon.kind = .colon)
    (hend : semicolon.kind = .semicolon) (hcomment : comment.kind = .comment)
    (hproperty : demand .property [t]) (hdemand : demand .value [value]) :
    ItemSeq demand (([t] ++ colon :: [value]) ++ semicolon :: [comment])
      [.declaration t.text value.text, .comment (commentBody comment.text)] := by
  rw [← hvalue.runText_eq]
  exact .declaration (.word ht hcolon hvalue.isValue hproperty hdemand) hend
    (.comment hcomment .nil)

theorem Qualifies.word (ht : t.IsWord) {body : List Token} {items : List Item}
    (hdemand : demand .selectors [t]) (hopen : opening.kind = .leftBrace)
    (block : ItemSeq demand body items) (hclose : closing.kind = .rightBrace) :
    Qualifies demand ([t] ++ opening :: (body ++ [closing])) ⟨[t.text], items⟩ := by
  have htexts : textsOf [[t]] = [t.text] := by simp [textsOf, ht.runText_eq, ht.text]
  rw [← htexts]
  refine .intro (ht.leadsEntry []) ht.isPrelude (.last (ht.guards (by decide))) ?_
    hdemand hopen block hclose
  rw [htexts]
  exact List.cons_ne_nil _ _

/-- A rule with a word as its selector, before other rules. -/
theorem RuleSeq.word (ht : t.IsWord) {body ts : List Token} {items : List Item}
    {rules : List Rule} (hdemand : demand .selectors [t]) (hopen : opening.kind = .leftBrace)
    (block : ItemSeq demand body items) (hclose : closing.kind = .rightBrace)
    (tail : RuleSeq demand ts rules) :
    RuleSeq demand (([t] ++ opening :: (body ++ [closing])) ++ ts)
      (.style ⟨[t.text], items⟩ :: rules) :=
  .style (.word ht hdemand hopen block hclose) (ht.leadsPlain _) tail

end Words

end PixelRem.Css
