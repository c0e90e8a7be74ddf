import Mathlib
import PixelRem.Proofs.RoundTrip
import PixelRem.Proofs.Visits
import PixelRem.Sheet.Generate

/-!
# Stylesheets without pixel lengths

If no declaration of a stylesheet has a pixel length, all its sheets are the stylesheet
itself as the printer writes it.  The trees are not the same: the pass to root units drops
rules without items and the pass to a ratio keeps them.  But a comment directs a declaration
with a pixel length only, so both passes leave the items of each block as they are, and a
block without items has no printed text in either tree.
-/

namespace PixelRem

open Css

/-- A comment, or a declaration without a pixel length. -/
def Css.Item.isPixelFree : Item → Bool
  | .declaration _ value => !hasPixels value
  | .comment _ => true

/-- No declaration in a style rule or keyframe of the tree has a pixel length. -/
def pixelFree (rules : List Rule) : Bool :=
  (visits false rules).all fun v => v.block.items.all Item.isPixelFree

/-! ## One block -/

section Block

variable {c : Converter} {items : List Item}

/-- Without pixel lengths nothing is converted and no comment directs. -/
theorem entries_of_isPixelFree (hfree : items.all Item.isPixelFree = true) :
    c.entries items = items.map .plain := by
  rw [Converter.entries]
  induction items with
  | nil => rfl
  | cons item items ih =>
    rw [List.all_cons, Bool.and_eq_true] at hfree
    obtain ⟨hitem, hitems⟩ := hfree
    cases item with
    | comment text => rw [Converter.entriesFrom, ih hitems, List.map_cons]
    | declaration property value =>
      have hpixels : ¬ hasPixels value = true := by simpa [Item.isPixelFree] using hitem
      rw [Converter.entriesFrom, if_neg hpixels, ih hitems, List.map_cons]

theorem scaleItems_of_isPixelFree (hfree : items.all Item.isPixelFree = true) (dpr : Decimal) :
    (c.scaleItems dpr items).1 = items := by
  have hitem : c.scaledItem dpr ∘ Entry.plain = id := rfl
  rw [Converter.scaleItems, entries_of_isPixelFree hfree, List.map_map, hitem, List.map_id]

theorem remBlocks_of_isPixelFree {block : Block}
    (hfree : block.items.all Item.isPixelFree = true) (inKeyframes : Bool) :
    (c.remBlocks block inKeyframes).toList = if block.items.isEmpty then [] else [block] := by
  have hforced : (block.items.map Entry.plain).filter (·.hasVariants inKeyframes) = [] := by
    simp [Entry.hasVariants]
  have hleft : ((block.items.map Entry.plain).filter (!·.hasVariants inKeyframes)).map c.remItem =
      block.items := by
    rw [List.filter_eq_self.mpr (by simp [Entry.hasVariants]), List.map_map,
      show c.remItem ∘ Entry.plain = id from rfl, List.map_id]
  simp only [Converter.remBlocks, entries_of_isPixelFree hfree, hforced, hleft, RemBlocks.toList]
  split_ifs <;> rfl

end Block

/-! ## The tree -/

section Tree

variable {c : Converter} {rules : List Rule}

theorem isPixelFree_of_mem_visits (hfree : pixelFree rules = true) {v : Visit}
    (hv : v ∈ visits false rules) : v.block.items.all Item.isPixelFree = true :=
  List.all_eq_true.mp hfree v hv

theorem print_remRules_of_pixelFree (hfree : pixelFree rules = true) :
    print (c.remRules rules).1 = print rules := by
  apply (walked_remRules c rules).print_eq
  rintro v hv first rfl depth
  rw [remBlocks_of_isPixelFree (isPixelFree_of_mem_visits hfree hv)]
  split_ifs with hempty
  · exact (printParts_of_isBare (by cases v.kind <;> exact hempty) depth []).symm
  · rfl

theorem print_scaleRules_of_pixelFree (hfree : pixelFree rules = true) (dpr : Decimal) :
    print (c.scaleRules dpr rules).1 = print rules := by
  apply (walked_scaleRules c dpr rules).print_eq
  rintro v hv first rfl depth
  rw [scaleItems_of_isPixelFree (isPixelFree_of_mem_visits hfree hv)]

end Tree

/-! ## The sheets -/

/-- A ratio that is zero, or positive and finite, is not refused. -/
theorem exists_ratio {dpr : Binary64} (hdpr : dpr.isZero = true ∨ dpr.positive?.isSome = true) :
    ∃ ratio, (if dpr.isZero then .ofNat defaultRatio else dpr).positive? = some ratio := by
  split_ifs with hzero
  · exact ⟨.ofNat defaultRatio, by decide +kernel⟩
  · exact Option.isSome_iff_exists.mp (hdpr.resolve_left hzero)

/-- The sheets of a stylesheet without pixel lengths, the one in root units and the one for
any ratio that is zero or positive and finite, are what the printer writes for it. -/
theorem generate_of_pixelFree (c : Converter) (css : Text) (rules : List Rule) (dpr : Binary64)
    (hparse : parse css = .ok rules) (hfree : pixelFree rules = true)
    (hdpr : dpr.isZero = true ∨ dpr.positive?.isSome = true) :
    (c.generateRem css).map RemSheet.css = .ok (print rules) ∧
      (c.generatePixel css dpr).map PixelSheet.css = .ok (print rules) := by
  obtain ⟨ratio, hratio⟩ := exists_ratio hdpr
  have hrem : c.generateRem css = .ok ⟨print (c.remRules rules).1, (c.remRules rules).2⟩ := by
    rw [Converter.generateRem, hparse]
  have hpixel : (c.generatePixel css dpr).map PixelSheet.css =
      .ok (print (c.scaleRules ratio rules).1) := by
    simp only [Converter.generatePixel, hratio, hparse]
    rfl
  rw [hrem, hpixel, print_scaleRules_of_pixelFree hfree]
  exact ⟨congrArg Except.ok (print_remRules_of_pixelFree hfree), rfl⟩

/-- An empty rule and a directing word inside a media query. -/
theorem generate_of_pixelFree_nested :
    ∃ c css rules, Settings.default.toConverter = .ok c ∧ parse css = .ok rules ∧
      pixelFree rules = true ∧ (Binary64.ofNat 3).positive?.isSome = true ∧
      (c.generateRem css).map RemSheet.css = .ok (print rules) ∧
      (c.generatePixel css (.ofNat 3)).map PixelSheet.css = .ok (print rules) := by
  have htokens : tokenize (utf8 "@media print\x7bd\x7b\x7da\x7bb:1em;/*no*/\x7d\x7d") =
      ⟨.atKeyword, utf8 "@media", 0⟩ :: ([⟨.whitespace, utf8 " ", 6⟩, ⟨.ident, utf8 "print", 7⟩] ++
        ⟨.leftBrace, [0x7B], 12⟩ ::
          (([⟨.ident, utf8 "d", 13⟩] ++ ⟨.leftBrace, [0x7B], 14⟩ ::
              ([] ++ [⟨.rightBrace, [0x7D], 15⟩])) ++
            (([⟨.ident, utf8 "a", 16⟩] ++ ⟨.leftBrace, [0x7B], 17⟩ ::
              ((([⟨.ident, utf8 "b", 18⟩] ++ ⟨.colon, utf8 ":", 19⟩ ::
                  [⟨.dimension, utf8 "1em", 20⟩]) ++
                ⟨.semicolon, utf8 ";", 23⟩ :: [⟨.comment, utf8 "/*no*/", 24⟩]) ++
              [⟨.rightBrace, [0x7D], 30⟩])) ++ []) ++ ⟨.rightBrace, [0x7D], 31⟩ :: [])) := by
    decide +kernel
  have hquery : Token.IsWord ⟨.ident, utf8 "print", 7⟩ := by decide
  have hparse : parse (utf8 "@media print\x7bd\x7b\x7da\x7bb:1em;/*no*/\x7d\x7d") =
      .ok [.media (utf8 "print") [.style ⟨[utf8 "d"], []⟩, .style
        ⟨[utf8 "a"], [.declaration (utf8 "b") (utf8 "1em"), .comment (utf8 "no")]⟩]] := by
    apply @parse_of_ruleSeq anyRun
    rw [htokens]
    exact .media ⟨rfl, rfl⟩ (hquery.isPrelude_blank _ _) trivial rfl
      (.word (by decide) trivial rfl .nil rfl
        (.word (by decide) trivial rfl
          (.words (by decide) (by decide) rfl rfl rfl trivial trivial) rfl .nil))
      rfl .nil
  have hfree : pixelFree [.media (utf8 "print") [.style ⟨[utf8 "d"], []⟩, .style
      ⟨[utf8 "a"], [.declaration (utf8 "b") (utf8 "1em"), .comment (utf8 "no")]⟩]] = true := by
    decide +kernel
  have hratio : (Binary64.ofNat 3).positive?.isSome = true := by decide +kernel
  exact ⟨_, _, _, rfl, hparse, hfree, hratio,
    generate_of_pixelFree _ _ _ _ hparse hfree (.inr hratio)⟩

end PixelRem
