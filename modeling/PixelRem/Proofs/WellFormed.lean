import Mathlib
import PixelRem.Proofs.RoundTrip
import PixelRem.Proofs.Visits

/-!
# Well-formed rule trees

A tree is well formed if its rules stand where a stylesheet can have them, if no selector and
no property is empty, if no comment holds its closing mark and if the at-rules that are kept
as written start with their at sign.

* A tree that is read from a text is well formed (`Sheet.wellFormed`).
* A walk that puts well-formed blocks in the place of well-formed blocks gives a well-formed
  tree (`Walked.wellFormed`), and both passes are such walks.
* The pass to root units puts at most one rule in the place of a rule of an animation, and it
  has the selectors of that rule.  So no animation gets more keyframes (`frameCounts`).
-/

namespace PixelRem

namespace Css

/-! ## Trees -/

/-- A property is not empty, and a comment does not hold its closing mark. -/
def Item.WellFormed : Item → Prop
  | .declaration property _ => property ≠ []
  | .comment text => ¬ utf8 "*/" <:+: text

/-- A block has selectors, and what it holds is well formed. -/
structure Block.WellFormed (block : Block) : Prop where
  selectors_ne_nil : block.selectors ≠ []
  selector_ne_nil : ∀ selector ∈ block.selectors, selector ≠ []
  items : ∀ item ∈ block.items, item.WellFormed

/-- A list of rules that can stand in an animation, if `inKeyframes`, or at the top level and
in a media query. -/
inductive WellFormed : (inKeyframes : Bool) → List Rule → Prop where
  | nil {inKeyframes : Bool} : WellFormed inKeyframes []
  | comment {inKeyframes : Bool} {text : Text} {rules : List Rule}
      (htext : ¬ utf8 "*/" <:+: text) (tail : WellFormed inKeyframes rules) :
      WellFormed inKeyframes (.comment text :: rules)
  | style {block : Block} {rules : List Rule} (hblock : block.WellFormed)
      (tail : WellFormed false rules) : WellFormed false (.style block :: rules)
  | keyframe {block : Block} {rules : List Rule} (hblock : block.WellFormed)
      (tail : WellFormed true rules) : WellFormed true (.keyframe block :: rules)
  | media {pre : Text} {inner rules : List Rule} (hinner : WellFormed false inner)
      (tail : WellFormed false rules) : WellFormed false (.media pre inner :: rules)
  | keyframes {vendor name : Text} {inner rules : List Rule} (hinner : WellFormed true inner)
      (tail : WellFormed false rules) :
      WellFormed false (.keyframes vendor name inner :: rules)
  | other {text : Text} {rules : List Rule} (htext : text.head? = some (ascii '@'))
      (tail : WellFormed false rules) : WellFormed false (.other text :: rules)

theorem WellFormed.append {inKeyframes : Bool} {xs ys : List Rule}
    (hxs : WellFormed inKeyframes xs) (hys : WellFormed inKeyframes ys) :
    WellFormed inKeyframes (xs ++ ys) := by
  induction hxs with
  | nil => exact hys
  | comment htext _ ih => exact .comment htext (ih hys)
  | style hblock _ ih => exact .style hblock (ih hys)
  | keyframe hblock _ ih => exact .keyframe hblock (ih hys)
  | media hinner _ _ ih => exact .media hinner (ih hys)
  | keyframes hinner _ _ ih => exact .keyframes hinner (ih hys)
  | other htext _ ih => exact .other htext (ih hys)

/-! ## Texts -/

theorem Unclosed.of_append {v w : Text} (hopen : Unclosed (v ++ w)) : Unclosed v := by
  induction v with
  | nil => trivial
  | cons a v ih =>
    cases v with
    | nil => trivial
    | cons b v => exact ⟨hopen.1, ih hopen.2⟩

theorem Unclosed.noMark {t : Text} (hopen : Unclosed t) : ¬ utf8 "*/" <:+: t := by
  rintro ⟨v, w, rfl⟩
  exact not_unclosed_append v hopen.of_append

/-- Trimming stops before a byte of no white space, also from behind. -/
theorem trimHeadFrom_append {table : List Text} {b : UInt8}
    (hb : table.all (fun blank => !blank.contains b) = true) (l : Text) (skip : Nat)
    (hskip : skip ≤ l.length) :
    ∃ l', Text.trimHeadFrom table skip (l ++ [b]) = l' ++ [b] := by
  have hhead (l : Text) : Text.blankHead table (l ++ [b]) ≤ l.length := by
    unfold Text.blankHead
    split
    · rename_i blank hfind
      have hprefix : blank <+: l ++ [b] := by
        simpa using List.find?_some hfind
      rcases List.prefix_concat_iff.mp hprefix with rfl | hblank
      · -- a character that reaches the byte would hold it
        have hmem := List.all_eq_true.mp hb _ (List.mem_of_find?_eq_some hfind)
        simp at hmem
      · exact hblank.length_le
    · exact Nat.zero_le _
  induction l generalizing skip with
  | nil =>
    obtain rfl : skip = 0 := Nat.le_zero.mp hskip
    have hzero : Text.blankHead table [b] = 0 := Nat.le_zero.mp (hhead [])
    exact ⟨[], by rw [List.nil_append, Text.trimHeadFrom, hzero]⟩
  | cons a l ih =>
    cases skip with
    | succ skip => exact ih skip (Nat.le_of_succ_le_succ hskip)
    | zero =>
      have hle := hhead (a :: l)
      rw [List.cons_append, Text.trimHeadFrom]
      rw [List.cons_append, List.length_cons] at hle
      split
      · exact ⟨a :: l, rfl⟩
      · rename_i k hk
        exact ih k (by omega)

/-- A trimmed text still starts with its at sign. -/
theorem head?_trim_at (t : Text) : (Text.trim (ascii '@' :: t)).head? = some (ascii '@') := by
  have hat :
      (Text.blanks.map List.reverse).all (fun blank => !blank.contains (ascii '@')) = true := by
    decide
  obtain ⟨l, hl⟩ := trimHeadFrom_append hat t.reverse 0 (Nat.zero_le _)
  unfold Text.trim Text.trimStart Text.trimEnd
  rw [trimHeadFrom_of_startsOther (by decide), List.reverse_cons, hl]
  simp

/-! ## Trees that are read -/

section Read

variable {demand : Demand} {ts : List Token} {rules : List Rule}

theorem Token.Heads.wellFormed {t : Token} (hheads : ∃ y, t.Heads y) (hkind : t.kind = .comment) :
    ¬ utf8 "*/" <:+: commentBody t.text := by
  obtain ⟨y, hy⟩ := hheads
  rw [commentBody_eq]
  exact (unclosed_commentText hy hkind).noMark

theorem Declares.wellFormed {item : Item} (hitem : Declares demand ts item) : item.WellFormed := by
  obtain ⟨-, -, -, htext, -, -, -, -⟩ := hitem
  exact htext

theorem ItemSeq.wellFormed {items : List Item} (hitems : ItemSeq demand ts items)
    (hheads : ∀ t ∈ ts, ∃ y, t.Heads y) : ∀ item ∈ items, item.WellFormed := by
  induction hitems with
  | nil => simp
  | skip _ _ ih => exact ih (List.forall_mem_cons.mp hheads).2
  | comment hkind _ ih =>
    obtain ⟨hcomment, htail⟩ := List.forall_mem_cons.mp hheads
    exact List.forall_mem_cons.mpr ⟨Token.Heads.wellFormed hcomment hkind, ih htail⟩
  | declaration first _ _ ih =>
    have htail := (List.forall_mem_cons.mp (List.forall_mem_append.mp hheads).2).2
    exact List.forall_mem_cons.mpr ⟨first.wellFormed, ih htail⟩
  | last first => exact List.forall_mem_singleton.mpr first.wellFormed

theorem Qualifies.wellFormed {block : Block} (hblock : Qualifies demand ts block)
    (hheads : ∀ t ∈ ts, ∃ y, t.Heads y) : block.WellFormed := by
  obtain ⟨-, -, -, htext, -, -, hitems, -⟩ := hblock
  refine ⟨htext, ?_, ?_⟩
  · intro selector hselector
    simpa using (List.mem_filter.mp hselector).2
  · have hbody := (List.forall_mem_cons.mp (List.forall_mem_append.mp hheads).2).2
    exact hitems.wellFormed (List.forall_mem_append.mp hbody).1

theorem KeyframeSeq.wellFormed (hrules : KeyframeSeq demand ts rules)
    (hheads : ∀ t ∈ ts, ∃ y, t.Heads y) : WellFormed true rules := by
  induction hrules with
  | nil => exact .nil
  | skip _ _ ih => exact ih (List.forall_mem_cons.mp hheads).2
  | comment hkind _ ih =>
    obtain ⟨hcomment, htail⟩ := List.forall_mem_cons.mp hheads
    exact .comment (Token.Heads.wellFormed hcomment hkind) (ih htail)
  | keyframe first _ ih =>
    obtain ⟨hfirst, htail⟩ := List.forall_mem_append.mp hheads
    exact .keyframe (first.wellFormed hfirst) (ih htail)

theorem IsOther.head? {t : Token} (hname : IsOther t) (hheads : ∃ y, t.Heads y) (raw : List Token) :
    (rawText t raw).head? = some (ascii '@') := by
  obtain ⟨y, hy⟩ := hheads
  obtain ⟨name, htext, -⟩ := hy.keyword hname.1
  rw [rawText, htext]
  exact head?_trim_at _

theorem RuleSeq.wellFormed (hrules : RuleSeq demand ts rules)
    (hheads : ∀ t ∈ ts, ∃ y, t.Heads y) : WellFormed false rules := by
  have hparts {t opening closing : Token} {pre body ts : List Token}
      (hheads : ∀ u ∈ t :: (pre ++ opening :: (body ++ closing :: ts)), ∃ y, u.Heads y) :
      (∀ u ∈ body, ∃ y, u.Heads y) ∧ ∀ u ∈ ts, ∃ y, u.Heads y := by
    simp only [List.forall_mem_cons, List.forall_mem_append] at hheads
    exact ⟨hheads.2.2.2.1, hheads.2.2.2.2.2⟩
  induction hrules with
  | nil => exact .nil
  | skip _ _ ih => exact ih (List.forall_mem_cons.mp hheads).2
  | comment hkind _ ih =>
    obtain ⟨hcomment, htail⟩ := List.forall_mem_cons.mp hheads
    exact .comment (Token.Heads.wellFormed hcomment hkind) (ih htail)
  | media _ _ _ _ _ _ _ ihblock ih =>
    exact .media (ihblock (hparts hheads).1) (ih (hparts hheads).2)
  | keyframes _ _ _ _ block _ _ ih =>
    exact .keyframes (block.wellFormed (hparts hheads).1) (ih (hparts hheads).2)
  | other hname _ _ ih =>
    obtain ⟨hkeyword, hrest⟩ := List.forall_mem_cons.mp hheads
    exact .other (hname.head? hkeyword _) (ih (List.forall_mem_append.mp hrest).2)
  | style first _ _ ih =>
    obtain ⟨hfirst, htail⟩ := List.forall_mem_append.mp hheads
    exact .style (first.wellFormed hfirst) (ih htail)

/-- The tree of a stylesheet whose tokens are cut as the lexer cuts them is well formed. -/
theorem Sheet.wellFormed (hsheet : Sheet demand ts rules) (hheads : ∀ t ∈ ts, ∃ y, t.Heads y) :
    WellFormed false rules := by
  cases hsheet with
  | complete entries => exact entries.wellFormed hheads
  | unended entries hname _ =>
    obtain ⟨hentries, hrest⟩ := List.forall_mem_append.mp hheads
    have hkeyword := (List.forall_mem_cons.mp hrest).1
    exact (entries.wellFormed hentries).append (.other (hname.head? hkeyword _) .nil)

theorem wellFormed_of_parse {source : Text} (hparse : parse source = .ok rules) :
    WellFormed false rules := by
  rw [parse_eq_ok, parseTokens_eq_ok_iff] at hparse
  exact hparse.wellFormed fun t ht => (cut_tokenize source).mem ht

end Read

/-! ## Trees that are walked -/

section Walk

variable {R : BlockKind → Block → Bool → List Rule → Prop} {inKeyframes : Bool}
  {rules out : List Rule}

theorem WellFormed.map_style {blocks : List Block} (hblocks : ∀ block ∈ blocks, block.WellFormed) :
    WellFormed false (blocks.map BlockKind.style.rule) := by
  induction blocks with
  | nil => exact .nil
  | cons block blocks ih =>
    obtain ⟨hblock, htail⟩ := List.forall_mem_cons.mp hblocks
    exact .style hblock (ih htail)

theorem WellFormed.map_keyframe {blocks : List Block}
    (hblocks : ∀ block ∈ blocks, block.WellFormed) :
    WellFormed true (blocks.map BlockKind.keyframe.rule) := by
  induction blocks with
  | nil => exact .nil
  | cons block blocks ih =>
    obtain ⟨hblock, htail⟩ := List.forall_mem_cons.mp hblocks
    exact .keyframe hblock (ih htail)

/-- A walk that replaces well-formed blocks by well-formed blocks of their kind keeps a tree
well formed. -/
theorem Walked.wellFormed (hwalked : Walked R inKeyframes rules out)
    (hvisit : ∀ kind block inKeyframes first, R kind block inKeyframes first →
      block.WellFormed →
        ∃ blocks : List Block, first = blocks.map kind.rule ∧ ∀ b ∈ blocks, b.WellFormed)
    (hrules : WellFormed inKeyframes rules) : WellFormed inKeyframes out := by
  induction hwalked with
  | nil => exact .nil
  | @block inKeyframes kind block first rules out hfirst _ ih =>
    cases kind with
    | style =>
      cases hrules with
      | style hblock htail =>
        obtain ⟨blocks, rfl, hblocks⟩ := hvisit _ _ _ _ hfirst hblock
        exact (WellFormed.map_style hblocks).append (ih htail)
    | keyframe =>
      cases hrules with
      | keyframe hblock htail =>
        obtain ⟨blocks, rfl, hblocks⟩ := hvisit _ _ _ _ hfirst hblock
        exact (WellFormed.map_keyframe hblocks).append (ih htail)
  | media _ _ ihinner ih =>
    cases hrules with
    | media hinner htail => exact .media (ihinner hinner) (ih htail)
  | keyframes _ _ ihinner ih =>
    cases hrules with
    | keyframes hinner htail => exact .keyframes (ihinner hinner) (ih htail)
  | leaf hleaf _ ih =>
    cases hrules with
    | comment htext htail => exact .comment htext (ih htail)
    | other htext htail => exact .other htext (ih htail)
    | style | keyframe | media | keyframes => exact absurd hleaf Bool.false_ne_true

end Walk

/-! ## Keyframes of animations -/

/-- Whether a rule is a keyframe. -/
def Rule.isKeyframe : Rule → Bool
  | .keyframe _ => true
  | _ => false

mutual

/-- How many keyframes each animation in a rule has. -/
def Rule.frameCounts : Rule → List Nat
  | .media _ rules => Css.frameCounts rules
  | .keyframes _ _ rules => rules.countP Rule.isKeyframe :: Css.frameCounts rules
  | .style _ => []
  | .keyframe _ => []
  | .comment _ => []
  | .other _ => []
  | .unknown _ _ => []

/-- How many keyframes each animation in a tree has, in document order. -/
def frameCounts : List Rule → List Nat
  | [] => []
  | rule :: rules => rule.frameCounts ++ frameCounts rules

end

/-- What a visit may put in the place of a block: rules of its kind, and in an animation no
more than one, with the selectors of the block. -/
def Unvaried (kind : BlockKind) (block : Block) (inKeyframes : Bool) (first : List Rule) : Prop :=
  (∃ blocks : List Block, first = blocks.map kind.rule) ∧
    (inKeyframes = true → ∀ rule ∈ first, ∃ items, rule = kind.rule ⟨block.selectors, items⟩) ∧
    (inKeyframes = true → first.length ≤ 1)

section Frames

variable {inKeyframes : Bool} {rules out : List Rule}

theorem frameCounts_append (xs ys : List Rule) :
    frameCounts (xs ++ ys) = frameCounts xs ++ frameCounts ys := by
  induction xs with
  | nil => rfl
  | cons rule xs ih => rw [List.cons_append, frameCounts, frameCounts, ih, List.append_assoc]

theorem frameCounts_map (kind : BlockKind) (blocks : List Block) :
    frameCounts (blocks.map kind.rule) = [] := by
  induction blocks with
  | nil => rfl
  | cons block blocks ih =>
    rw [List.map_cons, frameCounts, ih]
    cases kind <;> rfl

theorem countP_isKeyframe_map (kind : BlockKind) (block : Block) (blocks : List Block)
    (hlength : (blocks.map kind.rule).length ≤ 1) :
    (blocks.map kind.rule).countP Rule.isKeyframe ≤ [kind.rule block].countP Rule.isKeyframe := by
  cases kind with
  | style =>
    have hnone : (blocks.map BlockKind.style.rule).countP Rule.isKeyframe = 0 := by
      rw [List.countP_map, List.countP_eq_zero]
      exact fun _ _ => Bool.false_ne_true
    rw [hnone]
    exact Nat.zero_le _
  | keyframe => exact Nat.le_trans List.countP_le_length hlength

theorem Walked.countP_isKeyframe (hwalked : Walked Unvaried inKeyframes rules out)
    (hin : inKeyframes = true) : out.countP Rule.isKeyframe ≤ rules.countP Rule.isKeyframe := by
  induction hwalked with
  | nil => exact Nat.le_refl _
  | @block inKeyframes kind block first rules out hfirst _ ih =>
    obtain ⟨⟨blocks, rfl⟩, -, hlength⟩ := hfirst
    rw [← List.singleton_append, List.countP_append, List.countP_append]
    exact Nat.add_le_add (countP_isKeyframe_map kind block blocks (hlength hin)) (ih hin)
  | media _ _ _ ih => exact ih hin
  | keyframes _ _ _ ih => exact ih hin
  | leaf hleaf _ ih =>
    rw [List.countP_cons, List.countP_cons]
    exact Nat.add_le_add_right (ih hin) _

theorem Walked.frameCounts (hwalked : Walked Unvaried inKeyframes rules out) :
    List.Forall₂ (· ≤ ·) (frameCounts out) (frameCounts rules) := by
  induction hwalked with
  | nil => exact .nil
  | @block inKeyframes kind block first rules out hfirst _ ih =>
    obtain ⟨⟨blocks, rfl⟩, -, -⟩ := hfirst
    have hsingle : Css.frameCounts [kind.rule block] = [] := frameCounts_map kind [block]
    rw [← List.singleton_append, frameCounts_append, frameCounts_append, frameCounts_map, hsingle]
    exact ih
  | media _ _ ihinner ih => exact List.rel_append ihinner ih
  | keyframes hinner _ ihinner ih =>
    exact .cons (hinner.countP_isKeyframe rfl) (List.rel_append ihinner ih)
  | leaf hleaf _ ih =>
    refine List.rel_append ?_ ih
    exact List.forall₂_same.mpr fun _ _ => Nat.le_refl _

end Frames

end Css

open Css

/-! ## The passes -/

/-- What an entry holds is well formed. -/
def Entry.WellFormed : Entry → Prop
  | .plain item => item.WellFormed
  | .length property _ _ => property ≠ []

section Passes

variable {c : Converter} {dpr : Decimal} {block : Block} {inKeyframes : Bool}

theorem wellFormed_entriesFrom {directed : Bool} {items : List Item}
    (hitems : ∀ item ∈ items, item.WellFormed) :
    ∀ entry ∈ c.entriesFrom directed items, entry.WellFormed := by
  fun_induction Converter.entriesFrom c directed items with
  | case1 => simp
  | case2 _ _ ih => exact ih (List.forall_mem_cons.mp hitems).2
  | case3 _ _ ih =>
    obtain ⟨hcomment, htail⟩ := List.forall_mem_cons.mp hitems
    exact List.forall_mem_cons.mpr ⟨hcomment, ih htail⟩
  | case4 _ _ _ _ _ ih =>
    obtain ⟨hproperty, htail⟩ := List.forall_mem_cons.mp hitems
    exact List.forall_mem_cons.mpr ⟨hproperty, ih htail⟩
  | case5 _ _ _ _ ih =>
    obtain ⟨hproperty, htail⟩ := List.forall_mem_cons.mp hitems
    exact List.forall_mem_cons.mpr ⟨hproperty, ih htail⟩

theorem wellFormed_remItem {entry : Entry} (hentry : entry.WellFormed) :
    (c.remItem entry).WellFormed := by
  cases entry with
  | plain item => exact hentry
  | length property value directive => cases directive <;> exact hentry

theorem wellFormed_variantItem {entry : Entry} (hentry : entry.WellFormed) (ratio : Nat) :
    (c.variantItem ratio entry).WellFormed := by
  cases entry <;> exact hentry

theorem wellFormed_scaledItem {entry : Entry} (hentry : entry.WellFormed) :
    (c.scaledItem dpr entry).WellFormed := by
  cases entry with
  | plain item => exact hentry
  | length property value directive => cases directive <;> exact hentry

theorem wellFormed_variantBlocks {selectors : List Text} {forced : List Entry}
    (hselectors : selectors ≠ []) (hforced : ∀ entry ∈ forced, entry.WellFormed) :
    ∀ block ∈ c.variantBlocks selectors forced, block.WellFormed := by
  intro block hblock
  rw [Converter.variantBlocks] at hblock
  split_ifs at hblock
  · exact absurd hblock List.not_mem_nil
  obtain ⟨ratio, -, rfl⟩ := List.mem_map.mp hblock
  refine ⟨?_, ?_, ?_⟩
  · rwa [ne_eq, List.map_eq_nil_iff]
  · intro selector hselector
    obtain ⟨inner, -, rfl⟩ := List.mem_map.mp hselector
    exact List.append_ne_nil_of_left_ne_nil (List.append_ne_nil_of_right_ne_nil _ (by decide)) _
  · intro item hitem
    obtain ⟨entry, hentry, rfl⟩ := List.mem_map.mp hitem
    exact wellFormed_variantItem (hforced entry hentry) ratio

/-- What is left of a well-formed block and its variants are well formed. -/
theorem wellFormed_remBlocks (hblock : block.WellFormed) :
    ∀ b ∈ (c.remBlocks block inKeyframes).toList, b.WellFormed := by
  have hentries : ∀ entry ∈ c.entries block.items, entry.WellFormed :=
    wellFormed_entriesFrom hblock.items
  intro b hb
  rcases List.mem_append.mp hb with hbase | hvariant
  · simp only [Converter.remBlocks, Option.mem_toList, Option.ite_none_left_eq_some] at hbase
    obtain ⟨-, hbase⟩ := hbase
    obtain rfl := Option.some.inj hbase
    refine ⟨hblock.selectors_ne_nil, hblock.selector_ne_nil, fun item hitem => ?_⟩
    obtain ⟨entry, hentry, rfl⟩ := List.mem_map.mp hitem
    exact wellFormed_remItem (hentries entry (List.mem_of_mem_filter hentry))
  · exact wellFormed_variantBlocks hblock.selectors_ne_nil
      (fun entry hentry => hentries entry (List.mem_of_mem_filter hentry)) b hvariant

theorem wellFormed_scaleBlock (hblock : block.WellFormed) :
    Block.WellFormed ⟨block.selectors, (c.scaleItems dpr block.items).1⟩ := by
  refine ⟨hblock.selectors_ne_nil, hblock.selector_ne_nil, fun item hitem => ?_⟩
  obtain ⟨entry, hentry, rfl⟩ := List.mem_map.mp hitem
  exact wellFormed_scaledItem (wellFormed_entriesFrom hblock.items entry hentry)

/-- In an animation no entry goes into variants. -/
theorem hasVariants_inKeyframes (entry : Entry) : entry.hasVariants true = false := by
  cases entry with
  | plain => rfl
  | length property value directive => cases directive <;> rfl

theorem variants_inKeyframes : (c.remBlocks block true).variants = [] := by
  have hnone : (c.entries block.items).filter (·.hasVariants true) = [] := by
    rw [List.filter_eq_nil_iff]
    intro entry _
    rw [hasVariants_inKeyframes]
    exact Bool.false_ne_true
  simp only [Converter.remBlocks, hnone]
  rfl

/-- The pass to root units synthesizes no rule in an animation. -/
theorem unvaried_remBlocks (kind : BlockKind) :
    Unvaried kind block inKeyframes ((c.remBlocks block inKeyframes).toList.map kind.rule) := by
  have hbase (hin : inKeyframes = true) :
      (c.remBlocks block inKeyframes).toList = (c.remBlocks block inKeyframes).base.toList := by
    subst hin
    rw [RemBlocks.toList, variants_inKeyframes, List.append_nil]
  refine ⟨⟨_, rfl⟩, fun hin rule hrule => ?_, fun hin => ?_⟩
  · rw [hbase hin] at hrule
    obtain ⟨b, hb, rfl⟩ := List.mem_map.mp hrule
    simp only [Converter.remBlocks, Option.mem_toList, Option.ite_none_left_eq_some] at hb
    obtain ⟨-, hb⟩ := hb
    obtain rfl := Option.some.inj hb
    exact ⟨_, rfl⟩
  · rw [hbase hin, List.length_map]
    exact Option.length_toList_le

theorem unvaried_remRules (rules : List Rule) :
    Walked Unvaried false rules (c.remRules rules).1 := by
  rw [Converter.remRules]
  apply walked_walkRules
  intro kind block inKeyframes s
  exact unvaried_remBlocks kind

end Passes

/-! ## Sources -/

/-- The tree of an accepted source and the trees that both passes make of it are well formed.
In the tree in root units each rule of an animation is a rule of the source with its selectors,
and no animation has more keyframes than in the source. -/
theorem parse_wellFormed (c : Converter) (source : Text) (rules : List Rule)
    (hparse : parse source = .ok rules) :
    WellFormed false rules ∧ WellFormed false (c.remRules rules).1 ∧
      (∀ dpr, WellFormed false (c.scaleRules dpr rules).1) ∧
      Walked Unvaried false rules (c.remRules rules).1 ∧
      List.Forall₂ (· ≤ ·) (frameCounts (c.remRules rules).1) (frameCounts rules) := by
  have hrules := wellFormed_of_parse hparse
  refine ⟨hrules, ?_, fun dpr => ?_, unvaried_remRules rules, (unvaried_remRules rules).frameCounts⟩
  · refine (walked_remRules c rules).wellFormed ?_ hrules
    rintro kind block inKeyframes first rfl hblock
    exact ⟨_, rfl, wellFormed_remBlocks hblock⟩
  · refine (walked_scaleRules c dpr rules).wellFormed ?_ hrules
    rintro kind block inKeyframes first rfl hblock
    exact ⟨[_], rfl, List.forall_mem_singleton.mpr (wellFormed_scaleBlock hblock)⟩

/-- An animation with a declaration that is forced to pixels, a comment and another at-rule. -/
theorem parse_wellFormed_animation :
    ∃ c rules, Settings.default.toConverter = .ok c ∧
      parse (utf8 "@keyframes k\x7bto\x7bb:1px;/*px*/\x7d\x7d/**/@x;") = .ok rules ∧
      WellFormed false rules ∧ WellFormed false (c.remRules rules).1 ∧
      (∀ dpr, WellFormed false (c.scaleRules dpr rules).1) ∧
      Walked Unvaried false rules (c.remRules rules).1 ∧
      List.Forall₂ (· ≤ ·) (frameCounts (c.remRules rules).1) (frameCounts rules) := by
  have htokens : tokenize (utf8 "@keyframes k\x7bto\x7bb:1px;/*px*/\x7d\x7d/**/@x;") =
      ⟨.atKeyword, utf8 "@keyframes", 0⟩ ::
        ([⟨.whitespace, utf8 " ", 10⟩, ⟨.ident, utf8 "k", 11⟩] ++ ⟨.leftBrace, [0x7B], 12⟩ ::
          (([⟨.ident, utf8 "to", 13⟩] ++ ⟨.leftBrace, [0x7B], 15⟩ ::
              ((([⟨.ident, utf8 "b", 16⟩] ++ ⟨.colon, utf8 ":", 17⟩ ::
                  [⟨.dimension, utf8 "1px", 18⟩]) ++
                ⟨.semicolon, utf8 ";", 21⟩ :: [⟨.comment, utf8 "/*px*/", 22⟩]) ++
              [⟨.rightBrace, [0x7D], 28⟩]) ++ []) ++ ⟨.rightBrace, [0x7D], 29⟩ ::
            ⟨.comment, utf8 "/**/", 30⟩ :: ⟨.atKeyword, utf8 "@x", 34⟩ ::
              (([] ++ [⟨.semicolon, utf8 ";", 36⟩]) ++ []))) := by
    decide +kernel
  have hname : Token.IsWord ⟨.ident, utf8 "k", 11⟩ := by decide
  have hother : IsOther ⟨.atKeyword, utf8 "@x", 34⟩ := by
    obtain ⟨-, hrule⟩ | ⟨-, hrule⟩ | ⟨hother, -⟩ := atRuleOf_cases
      (t := ⟨.atKeyword, utf8 "@x", 34⟩) rfl
    · exact absurd hrule (by decide)
    · exact absurd hrule (by decide)
    · exact hother
  have hparse : parse (utf8 "@keyframes k\x7bto\x7bb:1px;/*px*/\x7d\x7d/**/@x;") =
      .ok [.keyframes [] (utf8 "k") [.keyframe
        ⟨[utf8 "to"], [.declaration (utf8 "b") (utf8 "1px"), .comment (utf8 "px")]⟩],
        .comment [], .other (utf8 "@x;")] := by
    apply @parse_of_ruleSeq anyRun
    rw [htokens]
    exact .keyframes ⟨[], .inl rfl, rfl, rfl⟩ (hname.isPrelude_blank _ _) trivial rfl
      (.keyframe (.word (by decide) trivial rfl
        (.words (by decide) (by decide) rfl rfl rfl trivial trivial) rfl) .nil) rfl
      (.comment rfl (.other hother (.statement isStatement_nil rfl) .nil))
  exact ⟨_, _, rfl, hparse, parse_wellFormed _ _ _ hparse⟩

end PixelRem
