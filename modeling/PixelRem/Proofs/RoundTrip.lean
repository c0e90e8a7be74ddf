import Mathlib
import PixelRem.Css.Printer
import PixelRem.Proofs.Parse
import PixelRem.Proofs.Place
import PixelRem.Proofs.Reprint

/-!
# Printing and parsing again

A printed rule tree is read back as the tree without its empty rules.  This holds of
every tree that comes from a source whose tokens the printer can take over: no
escapes, ASCII at-keywords, no comment inside a run whose text the tree holds, no
selector list that starts with a comma, and no at-rule that the end of the source ends.

For each list of the grammar there is a lemma that goes from a derivation over the
tokens of the source to a derivation over tokens that make up the printed text:
`exists_items` for the items of a block, `exists_block` for a block with its selectors
and `exists_rules` for lists of rules.  What they share is the white space: the blank
before an entry belongs to the layout around it, so the lemmas take the white space
that stands before and behind a list.
-/

namespace PixelRem.Css

/-! ## Rules without items -/

/-- A style rule or keyframe without items. -/
def Rule.isBare : Rule → Bool
  | .style block => block.items.isEmpty
  | .keyframe block => block.items.isEmpty
  | _ => false

mutual

/-- A rule without the empty style rules and keyframes inside it. -/
def Rule.pruned : Rule → Rule
  | .media prelude rules => .media prelude (prune rules)
  | .keyframes vendor name rules => .keyframes vendor name (prune rules)
  | rule => rule

/-- The rules without empty style rules and keyframes, at every level. -/
def prune : List Rule → List Rule
  | [] => []
  | rule :: rules => if rule.isBare then prune rules else rule.pruned :: prune rules

end

theorem Rule.print_isBare {rule : Rule} (hbare : rule.isBare = true) (depth : Nat) :
    rule.print depth = [] := by
  cases rule with
  | style block =>
    have hitems : block.items = [] := List.isEmpty_iff.mp hbare
    rw [Rule.print, Block.printItems, hitems]
  | keyframe block =>
    have hitems : block.items = [] := List.isEmpty_iff.mp hbare
    rw [Rule.print, Block.printItems, hitems]
  | _ => simp [Rule.isBare] at hbare

theorem printParts_of_isBare {rule : Rule} (hbare : rule.isBare = true) (depth : Nat)
    (rules : List Rule) : printParts depth (rule :: rules) = printParts depth rules := by
  rw [printParts, Rule.print_isBare hbare]

mutual

theorem Rule.print_pruned (depth : Nat) : (rule : Rule) → rule.pruned.print depth = rule.print depth
  | .media prelude rules => by
    rw [Rule.pruned, Rule.print, Rule.print, printParts_prune (depth + 1) rules]
  | .keyframes vendor name rules => by
    rw [Rule.pruned, Rule.print, Rule.print, printParts_prune (depth + 1) rules]
  | .style _ => rfl
  | .keyframe _ => rfl
  | .comment _ => rfl
  | .other _ => rfl
  | .unknown _ _ => rfl

theorem printParts_prune (depth : Nat) : (rules : List Rule) →
    printParts depth (prune rules) = printParts depth rules
  | [] => rfl
  | rule :: rules => by
    rw [prune]
    split_ifs with hbare
    · rw [printParts_of_isBare hbare, printParts_prune depth rules]
    · rw [printParts, printParts, Rule.print_pruned depth rule, printParts_prune depth rules]

end

/-- Empty rules leave no trace in the printed text. -/
theorem print_prune (rules : List Rule) : print (prune rules) = print rules := by
  rw [print, print, printParts_prune]

/-! ## What the printer can take over -/

/-- The run holds no comment, and a selector list does not start with a comma. -/
def inline : Demand := fun part ts =>
  Uncommented ts ∧ (part = .selectors → ∀ t ∈ ts.head?, t.kind ≠ .comma)

/-- A token that is one given byte. -/
def markToken (kind : TokenKind) (b : UInt8) : Token :=
  ⟨kind, [b], 0⟩

theorem blank_indent (depth : Nat) : Blank (indent depth) := by
  intro b hb
  rw [List.eq_of_mem_replicate hb]
  rfl

theorem startsSolid_cons {b : UInt8} (hb : Byte.isSpace b = false) (s : Text) :
    StartsSolid (b :: s) := by
  intro c hc
  obtain rfl : b = c := Option.some.inj hc
  exact hb

/-- A run that starts with a solid token still does with white space behind it. -/
theorem framed_solid {t : Token} (ht : t.isSolid = true) (us : List Token) (after : Text) :
    framed [] (t :: us) after = t :: (respace true false us ++ skips after) := by
  have hrespace : respace false false (t :: us) = t :: respace true false us :=
    respace_solid false false ht
  rw [framed, hrespace, if_neg (List.cons_ne_nil _ _)]
  rfl

theorem LeadsEntry.isSolid {t : Token} {ts : List Token} (hlead : LeadsEntry (t :: ts)) :
    t.isSolid = true := by
  obtain ⟨hskip, hcomment⟩ := leadsEntry_cons.mp hlead
  refine Token.isSolid_iff.mpr ⟨fun hkind => ?_, hcomment⟩
  rw [hkind] at hskip
  exact absurd hskip (by decide)

/-- A text that starts with a token other than white space starts solid. -/
theorem Token.Heads.startsSolid_text {t : Token} {y : Text} (hheads : t.Heads y)
    (ht : t.isSolid = true) (s : Text) : StartsSolid (t.text ++ s) := by
  obtain ⟨b, tail, htext, hb⟩ := hheads.solid (Token.isSolid_iff.mp ht).1
  rw [htext]
  exact startsSolid_cons hb _

/-! ## Declarations and items -/

/-- A declaration is printed as tokens that declare it. -/
theorem exists_declaration {us : List Token} {item : Item} {s : Text}
    (hitem : Declares inline us item) (hclean : Clean us s) (hs : Ends s) (hne : s ≠ []) :
    ∃ ws, textOf ws ++ [0x3B] = item.print ∧ (∀ y, Cut ws (0x3B :: y)) ∧
      Declares anyRun ws item ∧ ∀ y, StartsSolid (textOf ws ++ y) := by
  obtain @⟨name, value, colon, hlead, hplain, hname, htext, hcolon, hvalue, hproperty, hdemand⟩ :=
    hitem
  obtain ⟨hclean, hrest⟩ := clean_append.mp hclean
  obtain ⟨b, hb, hmark, -, -⟩ := hrest.heads.mark (by rw [hcolon]; decide)
  have hbehind : textOf (colon :: value) ++ s = b :: (textOf value ++ s) := by
    rw [textOf_cons, hmark]
    rfl
  rw [hbehind] at hclean
  obtain ⟨t, name, rfl⟩ := List.exists_cons_of_ne_nil (l := name) (by
    rintro rfl
    exact htext rfl)
  rw [runText_eq] at htext
  rw [runText_eq, runText_eq]
  have hsolid := hlead.isSolid
  have hframed := framed_solid hsolid name []
  refine ⟨framed [] (t :: name) [] ++ markToken .colon 0x3A :: framed [0x20] value [], ?_, ?_, ?_,
    ?_⟩
  · rw [textOf_append, textOf_cons, textOf_framed, textOf_framed, Item.print,
      show utf8 ": " = [0x3A, 0x20] from rfl, show utf8 ";" = [0x3B] from rfl]
    simp [markToken]
  · intro y
    rw [cut_append]
    refine ⟨?_, ⟨0x3A, [], rfl, rfl⟩, ?_⟩
    · refine cut_framed hclean hproperty.1 (ends_cons.mpr hb) (by simp) ?_ ?_ blank_nil blank_nil
      · exact ends_cons.mpr (by decide)
      · exact startsSolid_cons rfl _
    · have hblank : Blank [0x20] := by simp [Blank, Byte.isSpace]
      refine cut_framed (clean_cons.mp hrest).2 hdemand.1 hs hne ?_ ?_ hblank blank_nil
      · exact ends_cons.mpr (by decide)
      · exact startsSolid_cons rfl _
  · rw [← joinTokens_framed [] (t :: name) [], ← joinTokens_framed [0x20] value [], ← runText_eq,
      ← runText_eq]
    refine .intro ?_ ?_ ?_ ?_ rfl ?_ trivial trivial
    · rw [hframed]
      exact leadsEntry_cons.mpr (leadsEntry_cons.mp hlead)
    · rw [hframed]
      exact leadsPlain_cons.mpr (leadsPlain_cons.mp hplain)
    · rwa [← isProperty_solid, solid_framed, isProperty_solid]
    · rwa [runText_eq, joinTokens_framed]
    · rwa [← isValue_solid, solid_framed, isValue_solid]
  · intro y
    rw [hframed, List.cons_append, textOf_cons, List.append_assoc]
    exact hclean.heads.startsSolid_text hsolid _

theorem ItemSeq.skips {demand : Demand} {ts : List Token} {items : List Item}
    (hitems : ItemSeq demand ts items) (w : Text) : ItemSeq demand (Css.skips w ++ ts) items := by
  by_cases hw : w = []
  · rw [hw]
    exact hitems
  · rw [skips_of_ne hw]
    exact .skip List.mem_cons_self hitems

/-- The items of a block as they are printed at a level. -/
def itemLines (depth : Nat) (items : List Item) : Text :=
  items.flatMap fun item => indent (depth + 1) ++ item.print ++ utf8 "\n"

theorem itemLines_cons (depth : Nat) (item : Item) (items : List Item) :
    itemLines depth (item :: items) =
      indent (depth + 1) ++ (item.print ++ (utf8 "\n" ++ itemLines depth items)) := by
  simp [itemLines]

theorem blank_newline : Blank (utf8 "\n") := by
  show Blank [0x0A]
  simp [Blank, Byte.isSpace]

/-- Tokens that are printed for the items of a block, with `lead` before them and `tail`
behind. -/
structure PrintsItems (depth : Nat) (lead tail : Text) (ws : List Token) (items : List Item) :
    Prop where
  text : textOf ws = lead ++ (itemLines depth items ++ tail)
  cut : ∀ y, StartsSolid y → Cut ws y
  derives : ItemSeq anyRun ws items

/-- A declaration before printed items. -/
theorem PrintsItems.declaration {depth : Nat} {lead tail : Text} {ds ws : List Token} {item : Item}
    {items : List Item} (hlead : Blank lead) (htext : textOf ds ++ [0x3B] = item.print)
    (hcut : ∀ y, Cut ds (0x3B :: y)) (hitem : Declares anyRun ds item)
    (hstart : ∀ y, StartsSolid (textOf ds ++ y))
    (hitems : PrintsItems depth (utf8 "\n") tail ws items) :
    PrintsItems depth lead tail
      (skips (lead ++ indent (depth + 1)) ++ (ds ++ markToken .semicolon 0x3B :: ws))
      (item :: items) := by
  refine ⟨?_, fun y hy => ?_, (ItemSeq.declaration hitem rfl hitems.derives).skips _⟩
  · rw [textOf_append, textOf_skips, textOf_append, textOf_cons, hitems.text, itemLines_cons,
      ← htext]
    simp [markToken]
  · rw [cut_append, cut_append]
    refine ⟨cut_skips (hlead.append (blank_indent _)) ?_, hcut _, ⟨0x3B, [], rfl, rfl⟩,
      hitems.cut y hy⟩
    rw [textOf_append, List.append_assoc]
    exact hstart _

/-- The items of a block are printed as tokens that derive them. -/
theorem exists_items {ts : List Token} {items : List Item} (hitems : ItemSeq inline ts items)
    {s : Text} (hclean : Clean ts s) (hs : Ends s) (hne : s ≠ []) (depth : Nat) {lead tail : Text}
    (hlead : Blank lead) (htail : Blank tail) : ∃ ws, PrintsItems depth lead tail ws items := by
  have hnil {lead : Text} (hlead : Blank lead) :
      PrintsItems depth lead tail (skips (lead ++ tail)) [] := by
    refine ⟨textOf_skips _, fun y hy => cut_skips (hlead.append htail) hy, ?_⟩
    have hskip : ItemSeq anyRun (skips (lead ++ tail) ++ []) [] := ItemSeq.nil.skips _
    rwa [List.append_nil] at hskip
  induction hitems generalizing lead with
  | nil => exact ⟨_, hnil hlead⟩
  | skip _ _ ih => exact ih (clean_cons.mp hclean).2 hlead
  | @comment t ts items hkind _ ih =>
    obtain ⟨ht, hrest⟩ := clean_cons.mp hclean
    obtain ⟨ws, hws⟩ := ih hrest blank_newline
    have hopen := unclosed_commentText ht.heads hkind
    rw [commentBody_eq]
    refine ⟨skips (lead ++ indent (depth + 1)) ++ commentToken (commentText t.text) :: ws, ?_,
      fun y hy => ?_, ?_⟩
    · rw [textOf_append, textOf_skips, textOf_cons, hws.text, itemLines_cons, Item.print]
      simp [commentToken]
    · rw [cut_append]
      refine ⟨cut_skips (hlead.append (blank_indent _)) ?_, heads_comment hopen _, hws.cut y hy⟩
      exact startsSolid_cons rfl _
    · have hcomment := (ItemSeq.comment (t := commentToken (commentText t.text)) rfl
        hws.derives).skips (lead ++ indent (depth + 1))
      rwa [commentBody_eq, commentText_commentToken] at hcomment
  | @declaration us ts semicolon item items first hend _ ih =>
    obtain ⟨hfirst, hrest⟩ := clean_append.mp hclean
    obtain ⟨b, hb, hmark, -, -⟩ := hrest.heads.mark (by rw [hend]; decide)
    rw [textOf_cons, hmark] at hfirst
    obtain ⟨ws, hws⟩ := ih (clean_cons.mp hrest).2 blank_newline
    obtain ⟨ds, htext, hcut, hitem, hstart⟩ :=
      exists_declaration first hfirst (ends_cons.mpr hb) (by simp)
    exact ⟨_, hws.declaration hlead htext hcut hitem hstart⟩
  | last first =>
    obtain ⟨ds, htext, hcut, hitem, hstart⟩ := exists_declaration first hclean hs hne
    exact ⟨_, (hnil blank_newline).declaration hlead htext hcut hitem hstart⟩

/-! ## Blocks -/

/-- A block at a level, with `gap` behind each comma of its selector list. -/
def blockText (depth : Nat) (gap : Text) (block : Block) : Text :=
  List.intercalate (0x2C :: gap) block.selectors ++
    (utf8 " \x7b\n" ++ (itemLines depth block.items ++ (indent depth ++ utf8 "\x7d")))

/-- The members of a selector list that have a text. -/
def membersOf (ts : List Token) : List (List Token) :=
  (splitTopLevel ts).filter fun part => joinTokens part ≠ []

theorem selectorsOf_eq (ts : List Token) : selectorsOf ts = (membersOf ts).map joinTokens := by
  unfold selectorsOf membersOf
  rw [List.filter_map]
  rfl

/-- A selector list that starts with a solid token other than a comma has its first
member start there. -/
theorem membersOf_cons {t : Token} (ht : t.isSolid = true) (hcomma : t.kind ≠ .comma)
    (htext : t.text ≠ []) (ts : List Token) :
    ∃ part parts, membersOf (t :: ts) = (t :: part) :: parts := by
  refine ⟨(splitFrom (t.kind.depthAfter 0) ts).1,
    (splitFrom (t.kind.depthAfter 0) ts).2.filter fun part => joinTokens part ≠ [], ?_⟩
  unfold membersOf splitTopLevel
  rw [splitFrom]
  dsimp only
  rw [if_neg fun h => hcomma h.1, List.filter_cons_of_pos]
  rw [decide_eq_true_eq, joinTokens, joinFrom_solid _ _ ht]
  simp [htext]

theorem isMember_membersOf {pre : List Token} {s : Text} (hclean : Clean pre s) (hs : Ends s)
    (hne : s ≠ []) (hcomment : Uncommented pre) (hpre : IsPrelude pre) :
    ∀ part ∈ membersOf pre, ∃ behind, IsMember 0 part behind := by
  obtain ⟨⟨behind, -, hfirst⟩, hothers⟩ :=
    isMember_splitFrom hclean hs hne hcomment hpre.guards hpre.closed
  intro part hpart
  have hmem := (List.mem_filter.mp hpart).1
  unfold splitTopLevel at hmem
  rcases List.mem_cons.mp hmem with rfl | hmem
  · exact ⟨behind, hfirst⟩
  · exact hothers part hmem

/-- A selector list is printed as a list of the same selectors that starts with the same
token. -/
theorem exists_selectors {pre : List Token} {s gap : Text} (hlead : LeadsEntry pre)
    (hpre : IsPrelude pre) (htext : selectorsOf pre ≠ []) (hdemand : inline .selectors pre)
    (hclean : Clean pre s) (hs : Ends s) (hne : s ≠ []) (hgap : Blank gap) :
    ∃ ws, textOf ws = List.intercalate (0x2C :: gap) (selectorsOf pre) ++ [0x20] ∧
      (∀ y, Cut ws (0x7B :: y)) ∧ IsPrelude ws ∧ selectorsOf ws = selectorsOf pre ∧
      ws.head? = pre.head? ∧ ∀ y, StartsSolid (textOf ws ++ y) := by
  obtain ⟨t, pre, rfl⟩ := List.exists_cons_of_ne_nil (l := pre) (by
    rintro rfl
    exact htext rfl)
  have hsolid := hlead.isSolid
  have hmembers := isMember_membersOf hclean hs hne hdemand.1 hpre
  obtain ⟨b, tail, htail, -⟩ := hclean.heads.solid (Token.isSolid_iff.mp hsolid).1
  obtain ⟨part, parts, hparts⟩ := membersOf_cons hsolid (hdemand.2 rfl t rfl) (by simp [htail]) pre
  -- the first token of the list is the first token of its first member
  obtain ⟨vs, hvs⟩ : ∃ vs, listed [] gap (membersOf (t :: pre)) = t :: vs := by
    rw [hparts]
    cases parts with
    | nil => exact ⟨_, framed_solid hsolid part [0x20]⟩
    | cons next parts => exact ⟨_, by rw [listed, framed_solid hsolid]; rfl⟩
  refine ⟨listed [] gap (membersOf (t :: pre)), ?_, fun y => ?_, isPrelude_listed hmembers [] gap,
    ?_, by rw [hvs]; rfl, fun y => ?_⟩
  · rw [selectorsOf_eq, hparts, textOf_listed]
    rfl
  · exact cut_listed hmembers blank_nil hgap (ends_cons.mpr (by decide)) (startsSolid_cons rfl _)
  · have hsplit := splitTopLevel_listed hmembers [] gap (by rw [hparts]; simp)
    unfold selectorsOf
    rw [hsplit, ← selectorsOf_eq]
    unfold selectorsOf
    rw [List.filter_filter]
    simp
  · rw [hvs, textOf_cons, List.append_assoc]
    exact hclean.heads.startsSolid_text hsolid _

/-- A block is printed as tokens that derive it. -/
theorem exists_block {us : List Token} {block : Block} {s : Text}
    (hblock : Qualifies inline us block) (hclean : Clean us s) (depth : Nat) {gap : Text}
    (hgap : Blank gap) :
    ∃ ws, textOf ws = blockText depth gap block ∧ (∀ y, Cut ws y) ∧ Qualifies anyRun ws block ∧
      (LeadsPlain us → LeadsPlain ws) ∧ ∀ y, StartsSolid (textOf ws ++ y) := by
  obtain @⟨pre, body, parts, opening, closing, items, hlead, hpre, hparts, htext, hdemand, hopen,
    hitems, hclose⟩ := hblock
  rw [hparts.textsOf_eq] at htext ⊢
  obtain ⟨hclean, hrest⟩ := clean_append.mp hclean
  obtain ⟨b, hb, hmark, -, -⟩ := hrest.heads.mark (by rw [hopen]; decide)
  obtain ⟨hbody, hlast⟩ := clean_append.mp (clean_cons.mp hrest).2
  obtain ⟨c, hc, hmark', -, -⟩ := hlast.heads.mark (by rw [hclose]; decide)
  rw [textOf_cons, hmark] at hclean
  rw [textOf_cons, hmark'] at hbody
  obtain ⟨ls, hls, hcut, hprelude, hselectors, hhead, hstart⟩ :=
    exists_selectors hlead hpre htext hdemand hclean (ends_cons.mpr hb) (by simp) hgap
  obtain ⟨ws, hws⟩ := exists_items hitems hbody (ends_cons.mpr hc) (by simp) depth blank_newline
    (blank_indent depth)
  refine ⟨ls ++ markToken .leftBrace 0x7B :: (ws ++ [markToken .rightBrace 0x7D]), ?_,
    fun y => ?_, ?_, fun hplain => ?_, fun y => ?_⟩
  · rw [textOf_append, textOf_cons, textOf_append, hws.text, hls, blockText,
      show utf8 " \x7b\n" = [0x20, 0x7B, 0x0A] from rfl, show utf8 "\x7d" = [0x7D] from rfl,
      show utf8 "\n" = [0x0A] from rfl]
    simp [markToken]
  · rw [cut_append]
    refine ⟨hcut _, ⟨0x7B, [], rfl, rfl⟩, ?_⟩
    rw [cut_append]
    exact ⟨hws.cut _ (startsSolid_cons rfl _), ⟨0x7D, [], rfl, rfl⟩, trivial⟩
  · rw [← hselectors] at htext ⊢
    refine .of_selectorsOf ?_ hprelude htext trivial rfl hws.derives rfl
    unfold LeadsEntry
    rwa [hhead]
  · obtain ⟨t, pre, rfl⟩ := List.exists_cons_of_ne_nil (l := pre) (by
      rintro rfl
      exact htext rfl)
    obtain ⟨vs, rfl⟩ := List.head?_eq_some_iff.mp hhead
    exact leadsPlain_cons.mpr (leadsPlain_cons.mp hplain)
  · rw [textOf_append, List.append_assoc]
    exact hstart _

/-! ## Lists of rules -/

/-- A judgement on lists of rules that passes over white space. -/
structure IsListing (L : List Token → List Rule → Prop) : Prop where
  nil : L [] []
  skip : ∀ t ts rules, t.kind ∈ betweenEntries → L ts rules → L (t :: ts) rules

theorem isListing_ruleSeq : IsListing (RuleSeq anyRun) :=
  ⟨.nil, fun _ _ _ hskip tail => .skip hskip tail⟩

theorem isListing_keyframeSeq : IsListing (KeyframeSeq anyRun) :=
  ⟨.nil, fun _ _ _ hskip tail => .skip hskip tail⟩

theorem IsListing.skips {L : List Token → List Rule → Prop} (hL : IsListing L) {ts : List Token}
    {rules : List Rule} (hts : L ts rules) (w : Text) : L (Css.skips w ++ ts) rules := by
  by_cases hw : w = []
  · rw [hw]
    exact hts
  · rw [skips_of_ne hw]
    exact hL.skip _ _ _ List.mem_cons_self hts

/-- Tokens that are printed for a rule at a level and read as an entry of a listing. -/
structure PrintsRule (L : List Token → List Rule → Prop) (depth : Nat) (us : List Token)
    (rule : Rule) : Prop where
  text : rule.print depth = indent depth ++ textOf us
  starts : ∀ y, StartsSolid (textOf us ++ y)
  cut : ∀ y, Cut us y
  enters : ∀ ts rules, L ts rules → L (us ++ ts) (rule.pruned :: rules)

/-- The rule is empty, or it is printed as an entry. -/
def Prints (L : List Token → List Rule → Prop) (depth : Nat) (rule : Rule) : Prop :=
  rule.isBare = true ∨ rule.isBare = false ∧ ∃ us, PrintsRule L depth us rule

theorem PrintsRule.ne_nil {L : List Token → List Rule → Prop} {depth : Nat} {us : List Token}
    {rule : Rule} (hrule : PrintsRule L depth us rule) : rule.print depth ≠ [] := by
  intro hnil
  rw [hrule.text, List.append_eq_nil_iff] at hnil
  have hstart := hrule.starts [0x20]
  rw [hnil.2] at hstart
  exact absurd (hstart 0x20 rfl) (by decide)

theorem intercalate_cons (sep a : Text) (l : List Text) :
    List.intercalate sep (a :: l) =
      a ++ ((if l = [] then [] else sep) ++ List.intercalate sep l) := by
  cases l with
  | nil => simp [List.intercalate]
  | cons b l => simp [List.intercalate]

/-- Rules that are printed one by one are printed as a list, with `lead` before it and
`tail` behind. -/
theorem exists_rules {L : List Token → List Rule → Prop} (hL : IsListing L) {depth : Nat}
    {rules : List Rule} (hrules : ∀ rule ∈ rules, Prints L depth rule) {sep lead tail : Text}
    (hsep : Blank sep) (hlead : Blank lead) (htail : Blank tail) :
    ∃ ws, textOf ws = lead ++ (List.intercalate sep (printParts depth rules) ++ tail) ∧
      (∀ y, StartsSolid y → Cut ws y) ∧ L ws (prune rules) := by
  induction rules generalizing lead with
  | nil =>
    refine ⟨skips (lead ++ tail), textOf_skips _, fun y hy => cut_skips (hlead.append htail) hy, ?_⟩
    have hskip := hL.skips hL.nil (lead ++ tail)
    rwa [List.append_nil] at hskip
  | cons rule rules ih =>
    have htails : ∀ rule ∈ rules, Prints L depth rule := fun r hr =>
      hrules r (List.mem_cons_of_mem rule hr)
    rcases hrules rule List.mem_cons_self with hbare | ⟨hsome, us, hus⟩
    · obtain ⟨ws, hws⟩ := ih htails hlead
      rw [printParts_of_isBare hbare, prune, if_pos hbare]
      exact ⟨ws, hws⟩
    · have hgap : Blank (if printParts depth rules = [] then [] else sep) := by
        split_ifs
        · exact blank_nil
        · exact hsep
      obtain ⟨ws, htext, hcut, hderives⟩ := ih htails hgap
      have hparts :
          printParts depth (rule :: rules) = rule.print depth :: printParts depth rules := by
        rw [printParts]
        split
        · rename_i hnil
          exact absurd hnil hus.ne_nil
        · rfl
      refine ⟨skips (lead ++ indent depth) ++ (us ++ ws), ?_, fun y hy => ?_, ?_⟩
      · rw [textOf_append, textOf_skips, textOf_append, htext, hparts, intercalate_cons, hus.text]
        simp only [List.append_assoc]
      · rw [cut_append, cut_append]
        refine ⟨cut_skips (hlead.append (blank_indent _)) ?_, hus.cut _, hcut y hy⟩
        rw [textOf_append, List.append_assoc]
        exact hus.starts _
      · rw [prune, hsome]
        exact hL.skips (hus.enters ws (prune rules) hderives) _

/-! ## Entries -/

theorem intercalate_indent (depth : Nat) (a : Text) (l : List Text) :
    List.intercalate (utf8 ",\n") ((a :: l).map (indent depth ++ ·)) =
      indent depth ++ List.intercalate (0x2C :: (utf8 "\n" ++ indent depth)) (a :: l) := by
  rw [show utf8 ",\n" = [0x2C, 0x0A] from rfl, show utf8 "\n" = [0x0A] from rfl]
  induction l generalizing a with
  | nil => simp [List.intercalate]
  | cons b l ih =>
    rw [List.map_cons, intercalate_cons, ih, intercalate_cons _ a]
    simp

theorem print_style {block : Block} (hselectors : block.selectors ≠ []) (hitems : block.items ≠ [])
    (depth : Nat) : (Rule.style block).print depth =
      indent depth ++ blockText depth (utf8 "\n" ++ indent depth) block := by
  obtain ⟨selectors, items⟩ := block
  obtain ⟨a, l, rfl⟩ := List.exists_cons_of_ne_nil hselectors
  obtain ⟨item, items, rfl⟩ := List.exists_cons_of_ne_nil hitems
  rw [Rule.print, Block.printItems, intercalate_indent, blockText, itemLines]
  simp only [List.append_assoc]

theorem print_keyframe {block : Block} (hitems : block.items ≠ []) (depth : Nat) :
    (Rule.keyframe block).print depth = indent depth ++ blockText depth [0x20] block := by
  obtain ⟨selectors, items⟩ := block
  obtain ⟨item, items, rfl⟩ := List.exists_cons_of_ne_nil hitems
  rw [Rule.print, Block.printItems, blockText, itemLines,
    show utf8 ", " = [0x2C, 0x20] from rfl]
  simp only [List.append_assoc]

theorem Qualifies.selectors_ne_nil {demand : Demand} {us : List Token} {block : Block}
    (hblock : Qualifies demand us block) : block.selectors ≠ [] := by
  obtain ⟨-, -, -, htext, -, -, -, -⟩ := hblock
  exact htext

/-- A comment is printed as an entry. -/
theorem prints_comment {L : List Token → List Rule → Prop}
    (hcomment : ∀ t ts rules, t.kind = .comment → L ts rules →
      L (t :: ts) (.comment (commentBody t.text) :: rules))
    {t : Token} {s : Text} (hheads : t.Heads s) (hkind : t.kind = .comment) (depth : Nat) :
    Prints L depth (.comment (commentBody t.text)) := by
  have hopen := unclosed_commentText hheads hkind
  rw [commentBody_eq]
  refine .inr ⟨rfl, [commentToken (commentText t.text)], ?_, fun y => startsSolid_cons rfl _,
    fun y => ⟨heads_comment hopen y, trivial⟩, fun ts rules hts => ?_⟩
  · rw [Rule.print]
    simp [commentToken]
  · have hentry := hcomment (commentToken (commentText t.text)) ts rules rfl hts
    rwa [commentBody_eq, commentText_commentToken] at hentry

/-- The tokens of a list in braces behind its keyword and prelude. -/
def nestedTokens (keyword : Token) (pre ws : List Token) : List Token :=
  keyword :: (framed [0x20] pre [0x20] ++ markToken .leftBrace 0x7B ::
    (ws ++ [markToken .rightBrace 0x7D]))

theorem nestedTokens_append (keyword : Token) (pre ws ts : List Token) :
    nestedTokens keyword pre ws ++ ts = keyword :: (framed [0x20] pre [0x20] ++
      markToken .leftBrace 0x7B :: (ws ++ markToken .rightBrace 0x7D :: ts)) := by
  simp [nestedTokens]

theorem cut_nestedTokens {keyword : Token} (hkeyword : ∀ y, Ends y → keyword.Heads y)
    {pre ws : List Token} {s : Text} (hclean : Clean pre s) (hcomment : Uncommented pre)
    (hs : Ends s) (hne : s ≠ []) (hcut : ∀ y, StartsSolid y → Cut ws y) (y : Text) :
    Cut (nestedTokens keyword pre ws) y := by
  have hblank : Blank [0x20] := by simp [Blank, Byte.isSpace]
  refine ⟨hkeyword _ ?_, ?_⟩
  · rw [textOf_append, textOf_framed]
    exact ends_cons.mpr (by decide)
  · rw [cut_append]
    refine ⟨?_, ⟨0x7B, [], rfl, rfl⟩, ?_⟩
    · exact cut_framed hclean hcomment hs hne (ends_cons.mpr (by decide)) (startsSolid_cons rfl _)
        hblank hblank
    · rw [cut_append]
      exact ⟨hcut _ (startsSolid_cons rfl _), ⟨0x7D, [], rfl, rfl⟩, trivial⟩

theorem printNested_eq (depth : Nat) (name : Text) (pre ws : List Token) (body : Text)
    (hws : textOf ws = utf8 "\n" ++ (body ++ (utf8 "\n" ++ indent depth))) :
    printNested depth (ascii '@' :: (name ++ (0x20 :: joinTokens pre))) body =
      indent depth ++ textOf (nestedTokens (keywordToken name) pre ws) := by
  rw [printNested, nestedTokens, textOf_cons, textOf_append, textOf_framed, textOf_cons,
    textOf_append, hws, show utf8 " \x7b\n" = [0x20, 0x7B, 0x0A] from rfl,
    show utf8 "\x7d" = [0x7D] from rfl, show utf8 "\n" = [0x0A] from rfl]
  simp [keywordToken, markToken]

/-- The parts of a list in braces with its keyword, as they stand in the source. -/
theorem Clean.nested {t opening closing : Token} {pre body ts : List Token} {s : Text}
    (hclean : Clean (t :: (pre ++ opening :: (body ++ closing :: ts))) s)
    (hopen : opening.kind = .leftBrace) :
    (∃ y, Clean [t] y) ∧ (∃ y, Clean pre y ∧ Ends y ∧ y ≠ []) ∧ (∃ y, Clean body y) ∧
      Clean ts s := by
  obtain ⟨ht, hrest⟩ := clean_cons.mp hclean
  obtain ⟨hpre, hrest⟩ := clean_append.mp hrest
  obtain ⟨b, hb, hmark, -, -⟩ := hrest.heads.mark (by rw [hopen]; decide)
  obtain ⟨hbody, hrest⟩ := clean_append.mp (clean_cons.mp hrest).2
  refine ⟨⟨_, ht⟩, ⟨_, hpre, ?_, ?_⟩, ⟨_, hbody⟩, (clean_cons.mp hrest).2⟩
  · rw [textOf_cons, hmark]
    exact ends_cons.mpr hb
  · rw [textOf_cons, hmark]
    exact List.cons_ne_nil _ _

theorem isPrelude_framed {pre : List Token} (hpre : IsPrelude pre) (before after : Text) :
    IsPrelude (framed before pre after) := by
  rwa [← isPrelude_solid, solid_framed, isPrelude_solid]

section Rules

variable {ts : List Token} {rules : List Rule} {s : Text} (hclean : Clean ts s)

include hclean

/-- The entries of an animation are printed as entries of one. -/
theorem prints_keyframes (hrules : KeyframeSeq inline ts rules) (depth : Nat) :
    ∀ rule ∈ rules, Prints (KeyframeSeq anyRun) depth rule := by
  induction hrules with
  | nil => simp
  | skip _ _ ih => exact ih (clean_cons.mp hclean).2
  | comment hkind _ ih =>
    obtain ⟨ht, hrest⟩ := clean_cons.mp hclean
    exact List.forall_mem_cons.mpr
      ⟨prints_comment (fun _ _ _ hkind tail => .comment hkind tail) ht.heads hkind depth, ih hrest⟩
  | @keyframe us ts block rules first _ ih =>
    obtain ⟨hfirst, hrest⟩ := clean_append.mp hclean
    refine List.forall_mem_cons.mpr ⟨?_, ih hrest⟩
    by_cases hitems : block.items = []
    · exact .inl (List.isEmpty_iff.mpr hitems)
    · have hblank : Blank [0x20] := by simp [Blank, Byte.isSpace]
      obtain ⟨ws, htext, hcut, hblock, -, hstart⟩ := exists_block first hfirst depth hblank
      refine .inr ⟨by simpa [Rule.isBare] using hitems, ws, ?_, hstart, hcut,
        fun ts rules hts => .keyframe hblock hts⟩
      rw [htext, print_keyframe hitems]

/-- The entries of a stylesheet or a media query are printed as entries of one. -/
theorem prints_rules (hrules : RuleSeq inline ts rules) (depth : Nat) :
    ∀ rule ∈ rules, Prints (RuleSeq anyRun) depth rule := by
  induction hrules generalizing s depth with
  | nil => simp
  | skip _ _ ih => exact ih (clean_cons.mp hclean).2 depth
  | comment hkind _ ih =>
    obtain ⟨ht, hrest⟩ := clean_cons.mp hclean
    exact List.forall_mem_cons.mpr
      ⟨prints_comment (fun _ _ _ hkind tail => .comment hkind tail) ht.heads hkind depth,
        ih hrest depth⟩
  | @media t opening closing pre body ts inner rules hname hpre hdemand hopen _ hclose _ ihblock
      ihtail =>
    obtain ⟨-, ⟨y, hprelude, hy, hne⟩, ⟨z, hbody⟩, hrest⟩ := hclean.nested hopen
    obtain ⟨ws, htext, hcut, hderives⟩ := exists_rules isListing_ruleSeq (ihblock hbody (depth + 1))
      (show Blank (utf8 "\n\n") from blank_newline.append blank_newline) blank_newline
      (blank_newline.append (blank_indent depth))
    refine List.forall_mem_cons.mpr ⟨.inr ⟨rfl, nestedTokens (keywordToken (utf8 "media")) pre ws,
      ?_, fun y => startsSolid_cons rfl _, ?_, fun ts rules hts => ?_⟩, ihtail hrest depth⟩
    · rw [← printNested_eq depth _ pre ws _ htext, Rule.print, runText_eq]
      rfl
    · exact cut_nestedTokens (fun y => heads_media) hprelude hdemand.1 hy hne hcut
    · rw [nestedTokens_append, Rule.pruned, runText_eq, ← joinTokens_framed [0x20] pre [0x20],
        ← runText_eq]
      exact .media isMedia_keywordToken (isPrelude_framed hpre _ _) trivial rfl hderives rfl hts
  | @keyframes t opening closing pre body ts inner rules hname hpre hdemand hopen block hclose _
      ihtail =>
    obtain ⟨⟨x, hkeyword⟩, ⟨y, hprelude, hy, hne⟩, ⟨z, hbody⟩, hrest⟩ := hclean.nested hopen
    obtain ⟨ws, htext, hcut, hderives⟩ := exists_rules isListing_keyframeSeq
      (prints_keyframes hbody block (depth + 1)) blank_newline blank_newline
      (blank_newline.append (blank_indent depth))
    refine List.forall_mem_cons.mpr ⟨.inr ⟨rfl,
      nestedTokens (keyframesToken (vendorOf t.text)) pre ws,
      ?_, fun y => startsSolid_cons rfl _, ?_, fun ts rules hts => ?_⟩, ihtail hrest depth⟩
    · rw [keyframesToken, ← printNested_eq depth _ pre ws _ htext, Rule.print, runText_eq,
        show utf8 "keyframes " = utf8 "keyframes" ++ [0x20] from rfl,
        show utf8 "@" = [ascii '@'] from rfl]
      simp
    · exact cut_nestedTokens (fun y => heads_keyframes hkeyword hname) hprelude hdemand.1 hy hne
        hcut
    · rw [nestedTokens_append, Rule.pruned, runText_eq, ← joinTokens_framed [0x20] pre [0x20],
        ← runText_eq]
      nth_rewrite 2 [← vendorOf_keyframesToken (vendorOf t.text)]
      exact .keyframes (isKeyframes_keyframesToken hkeyword hname) (isPrelude_framed hpre _ _)
        trivial rfl hderives rfl hts
  | @other t raw ts rules hname hraw _ ih =>
    rw [← List.cons_append] at hclean
    obtain ⟨hfirst, hrest⟩ := clean_append.mp hclean
    refine List.forall_mem_cons.mpr ⟨.inr ⟨rfl, t :: raw, ?_, fun y => ?_, cut_raw hfirst hraw,
      fun ts rules hts => .other hname hraw hts⟩, ih hrest depth⟩
    · rw [Rule.print, rawText_eq hfirst hname.1 hraw]
    · obtain ⟨name, htext, -⟩ := hfirst.heads.keyword hname.1
      rw [textOf_cons, htext]
      exact startsSolid_cons rfl _
  | @style us ts block rules first hplain _ ih =>
    obtain ⟨hfirst, hrest⟩ := clean_append.mp hclean
    refine List.forall_mem_cons.mpr ⟨?_, ih hrest depth⟩
    by_cases hitems : block.items = []
    · exact .inl (List.isEmpty_iff.mpr hitems)
    · obtain ⟨ws, htext, hcut, hblock, hlead, hstart⟩ :=
        exists_block first hfirst depth (blank_newline.append (blank_indent depth))
      refine .inr ⟨by simpa [Rule.isBare] using hitems, ws, ?_, hstart, hcut,
        fun ts rules hts => .style hblock (hlead hplain) hts⟩
      rw [htext, print_style first.selectors_ne_nil hitems]

end Rules

/-! ## Printing and parsing again -/

theorem clean_tokenize {source : Text} (hescape : ascii '\\' ∉ source)
    (hascii : ∀ t ∈ tokenize source, t.kind = .atKeyword → ∀ b ∈ t.text, b < 0x80) :
    Clean (tokenize source) [] :=
  ⟨cut_tokenize source, by rwa [textOf_tokenize], hascii⟩

theorem parse_of_ruleSeq {demand : Demand} {source : Text} {rules : List Rule}
    (hrules : RuleSeq demand (tokenize source) rules) : parse source = .ok rules := by
  rw [parse_eq_ok, parseTokens_eq_ok_iff]
  exact .complete (hrules.mono fun _ _ _ => trivial)

/-- Tokens that are put together as they are cut are read as they derive. -/
theorem parse_textOf {ts : List Token} {rules : List Rule} (hcut : Cut ts [])
    (hrules : RuleSeq anyRun ts rules) : parse (textOf ts) = .ok rules := by
  have hplaced := hrules.placed 0
  rw [← tokenize_cut hcut] at hplaced
  exact parse_of_ruleSeq hplaced

/-- A rule with one declaration. -/
theorem parse_declaration {source : Text} {name property opening closing colon : Token}
    {value : List Token}
    (htokens : tokenize source =
      ([name] ++ opening :: (([property] ++ colon :: value) ++ [closing])) ++ [])
    (hname : name.IsWord) (hproperty : property.IsWord) (hvalue : IsValue value)
    (hopen : opening.kind = .leftBrace) (hcolon : colon.kind = .colon)
    (hclose : closing.kind = .rightBrace) :
    parse source = .ok [.style ⟨[name.text], [.declaration property.text (runText value)]⟩] := by
  apply @parse_of_ruleSeq anyRun
  rw [htokens]
  exact .word hname trivial hopen (.last (.word hproperty hcolon hvalue trivial trivial)) hclose
    .nil

theorem parse_print_of_clean {source : Text} {rules : List Rule}
    (hclean : Clean (tokenize source) []) (hrules : RuleSeq inline (tokenize source) rules) :
    parse (print rules) = .ok (prune rules) := by
  obtain ⟨ws, htext, hcut, hderives⟩ := exists_rules isListing_ruleSeq
    (prints_rules hclean hrules 0)
    (show Blank (utf8 "\n\n") from blank_newline.append blank_newline) blank_nil blank_nil
  rw [List.nil_append, List.append_nil] at htext
  rw [print, ← htext]
  exact parse_textOf (hcut [] (by simp [StartsSolid])) hderives

/-- A tree from a source without escapes, whose at-keywords are ASCII and whose kept runs
hold no comment and start no selector list with a comma, is read back from its print
without its empty rules, and a second print is the same. -/
theorem parse_print_eq_prune (source : Text) (rules : List Rule) (hescape : ascii '\\' ∉ source)
    (hascii : ∀ t ∈ tokenize source, t.kind = .atKeyword → ∀ b ∈ t.text, b < 0x80)
    (hrules : RuleSeq inline (tokenize source) rules) :
    parse source = .ok rules ∧ parse (print rules) = .ok (prune rules) ∧
      (parse (print rules)).map print = .ok (print rules) := by
  have hprint := parse_print_of_clean (clean_tokenize hescape hascii) hrules
  refine ⟨parse_of_ruleSeq hrules, hprint, ?_⟩
  rw [hprint, Except.map, print_prune]

theorem parse_print_nested :
    parse (print [.media (utf8 "print") [.style ⟨[utf8 "d"], []⟩,
      .style ⟨[utf8 "a"], [.declaration (utf8 "b") (utf8 "-1px"), .comment (utf8 "keep")]⟩]]) =
    .ok [.media (utf8 "print") [.style
      ⟨[utf8 "a"], [.declaration (utf8 "b") (utf8 "-1px"), .comment (utf8 "keep")]⟩]] := by
  have htokens : tokenize (utf8 "@media print\x7bd\x7b\x7da\x7bb:-1px;/*keep*/\x7d\x7d") =
      ⟨.atKeyword, utf8 "@media", 0⟩ :: ([⟨.whitespace, utf8 " ", 6⟩, ⟨.ident, utf8 "print", 7⟩] ++
        ⟨.leftBrace, [0x7B], 12⟩ ::
          (([⟨.ident, utf8 "d", 13⟩] ++ ⟨.leftBrace, [0x7B], 14⟩ ::
              ([] ++ [⟨.rightBrace, [0x7D], 15⟩])) ++
            (([⟨.ident, utf8 "a", 16⟩] ++ ⟨.leftBrace, [0x7B], 17⟩ ::
              ((([⟨.ident, utf8 "b", 18⟩] ++ ⟨.colon, utf8 ":", 19⟩ ::
                  [⟨.dimension, utf8 "-1px", 20⟩]) ++
                ⟨.semicolon, utf8 ";", 24⟩ :: [⟨.comment, utf8 "/*keep*/", 25⟩]) ++
              [⟨.rightBrace, [0x7D], 33⟩])) ++ []) ++ ⟨.rightBrace, [0x7D], 34⟩ :: [])) := by
    decide +kernel
  have hquery : Token.IsWord ⟨.ident, utf8 "print", 7⟩ := by decide
  refine (parse_print_eq_prune (utf8 "@media print\x7bd\x7b\x7da\x7bb:-1px;/*keep*/\x7d\x7d") _
    (by decide) (by decide +kernel) ?_).2.1
  rw [htokens]
  refine .media ⟨rfl, rfl⟩ (hquery.isPrelude_blank _ _) ?_ rfl
    (.word (by decide) ?_ rfl .nil rfl
      (.word (by decide) ?_ rfl (.words (by decide) (by decide) rfl rfl rfl ?_ ?_) rfl .nil))
    rfl .nil
  all_goals simp [inline, Uncommented]

end PixelRem.Css
