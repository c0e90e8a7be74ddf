import Mathlib
import PixelRem.Proofs.Entries
import PixelRem.Proofs.RemPass

/-!
# How a block is split into its rule and its variants

The pass to root units takes the declarations of a block apart: those that are forced to
pixels go into the variants, all others stay in the rule.  Each declaration ends up in one
of the two places, in the order of the source and under its property.  The comments of the
source stay in the rule, apart from those that direct a declaration.

The three lemmas `forced_entries`, `declarations_remItems` and `comments_remItems` say this
of the forced entries and of the items that are left, and `remVisit_splits` puts the rules
together.
-/

namespace PixelRem

open Css

namespace Converter

/-- Whether a declaration goes into the variants of its rule: it has a pixel length, the force
comment follows it, its value is not `0px`, and it is not in a keyframe. -/
def isForced (c : Converter) (inKeyframes : Bool) (d : Declared) : Bool :=
  !inKeyframes && hasPixels d.value && c.directiveOf d.behind == .forcePx &&
    d.value != utf8 "0px"

/-- The value of a declaration that stays in its rule. -/
def remValue (c : Converter) (d : Declared) : Text :=
  if hasPixels d.value then
    match c.directiveOf d.behind with
    | .keep => d.value
    | .forcePx => if d.value = utf8 "0px" then utf8 "0" else c.convertValue .rem d.value
    | .none => c.convertValue .rem d.value
  else d.value

/-- What an item leaves in its rule, by its place: a declaration that is not forced, with its
value, or a comment that directs nothing. -/
def leftAt (c : Converter) (inKeyframes : Bool) (p : Placed) : Option Item :=
  ((p.declared?.filter (!c.isForced inKeyframes ·)).map fun d =>
    .declaration d.property (c.remValue d)).or ((c.undirected? p).map .comment)

/-- The declaration that stands for a forced one in the variant for a ratio. -/
def variantDeclaration (c : Converter) (dpr : Nat) (d : Declared) : Item :=
  .declaration d.property (c.convertValue (.pixels (.ofNat dpr)) d.value)

end Converter

/-! ## The entry of one declaration -/

section Entry

variable {c : Converter} {inKeyframes : Bool}

theorem hasVariants_entryOf (d : Declared) :
    (c.entryOf d).hasVariants inKeyframes = c.isForced inKeyframes d := by
  rw [Converter.entryOf, Converter.isForced]
  cases hasPixels d.value with
  | false => simp [Entry.hasVariants]
  | true => cases c.directiveOf d.behind <;> simp [Entry.hasVariants]

theorem remItem_entryOf (d : Declared) :
    c.remItem (c.entryOf d) = .declaration d.property (c.remValue d) := by
  rw [Converter.entryOf, Converter.remValue]
  cases hasPixels d.value with
  | false => rfl
  | true => cases c.directiveOf d.behind <;> rfl

theorem variantItem_entryOf {d : Declared} (hforced : c.isForced inKeyframes d = true)
    (dpr : Nat) : c.variantItem dpr (c.entryOf d) = c.variantDeclaration dpr d := by
  have hpixels : hasPixels d.value = true := by
    simp only [Converter.isForced, Bool.and_eq_true] at hforced
    exact hforced.1.1.2
  rw [Converter.entryOf, if_pos hpixels]
  rfl

end Entry

/-! ## The entries of a block -/

section Block

variable {c : Converter} {inKeyframes : Bool}

/-- The items that are left of a block are found item by item, each in its place. -/
theorem remItems_eq_filterMap (items : List Item) :
    c.remItems inKeyframes items = (placed items).filterMap (c.leftAt inKeyframes) := by
  rw [Converter.remItems, entries_eq_filterMap, List.filter_filterMap, List.map_filterMap]
  congr 1
  funext p
  obtain ⟨before, item, behind⟩ := p
  cases item with
  | declaration property value =>
    rw [entryAt_declaration, Converter.leftAt, undirected?_declaration, Option.map_none,
      Option.or_none, Placed.declared?, Option.filter_some, Option.filter_some,
      hasVariants_entryOf]
    split_ifs
    · rw [Option.map_some, Option.map_some, remItem_entryOf]
    · rfl
  | comment text =>
    simp only [Converter.entryAt, Converter.leftAt, Placed.declared?, Converter.undirected?]
    split_ifs <;> rfl

theorem forced_entries (items : List Item) :
    (c.entries items).filter (·.hasVariants inKeyframes) =
      ((declared items).filter (c.isForced inKeyframes)).map c.entryOf := by
  rw [filter_entries_declared fun _ => rfl, List.filter_map]
  congr 2
  funext d
  exact hasVariants_entryOf d

theorem map_variantItem_forced (items : List Item) (dpr : Nat) :
    ((c.entries items).filter (·.hasVariants inKeyframes)).map (c.variantItem dpr) =
      ((declared items).filter (c.isForced inKeyframes)).map (c.variantDeclaration dpr) := by
  rw [forced_entries, List.map_map]
  apply List.map_congr_left
  intro d hd
  exact variantItem_entryOf (List.mem_filter.mp hd).2 dpr

theorem variantBlocks_forced (selectors : List Text) (items : List Item) :
    c.variantBlocks selectors ((c.entries items).filter (·.hasVariants inKeyframes)) =
      if ((declared items).filter (c.isForced inKeyframes)).isEmpty then []
      else ratios.map fun dpr => ⟨selectors.map (variantSelector dpr),
        ((declared items).filter (c.isForced inKeyframes)).map (c.variantDeclaration dpr)⟩ := by
  simp only [Converter.variantBlocks, map_variantItem_forced]
  rw [forced_entries, List.isEmpty_map]

theorem declarations_remItems (items : List Item) :
    (c.remItems inKeyframes items).filterMap Item.declaration? =
      ((declared items).filter (!c.isForced inKeyframes ·)).map
        fun d => (d.property, c.remValue d) := by
  rw [Converter.remItems, List.filterMap_map, List.filterMap_filter,
    filterMap_entries_declared (fun _ => by simp [Entry.hasVariants, Converter.remItem,
      Item.declaration?]), ← List.filterMap_eq_map, List.filterMap_filter]
  congr 1
  funext d
  rw [hasVariants_entryOf, Function.comp_apply, remItem_entryOf]
  rfl

theorem comments_remItems (items : List Item) :
    (c.remItems inKeyframes items).filterMap Item.comment? = c.undirected items := by
  rw [Converter.remItems, List.filterMap_map, List.filterMap_filter,
    filterMap_entries_undirected]
  · exact List.filterMap_some
  · intro d
    rw [Function.comp_apply, remItem_entryOf]
    exact ite_self none

end Block

/-- A block is split without loss: its declarations go, each in order and under its property,
into the rule that is left or into all variants, and of its comments those that direct nothing
stay in the rule.  A rule of which nothing is left is dropped, and the variants follow it if
any declaration is forced. -/
theorem remVisit_splits (c : Converter) (kind : BlockKind) (block : Block) (inKeyframes : Bool)
    (stats : Stats) :
    ∃ base forced left,
      (declared block.items).partition (c.isForced inKeyframes) = (forced, base) ∧
      (inKeyframes = true → forced = []) ∧
      left = (placed block.items).filterMap (c.leftAt inKeyframes) ∧
      left.filterMap Item.declaration? = base.map (fun d => (d.property, c.remValue d)) ∧
      left.filterMap Item.comment? = c.undirected block.items ∧
      ((c.remVisit kind block inKeyframes).run stats).1 =
        (if left.isEmpty then [] else [kind.rule ⟨block.selectors, left⟩]) ++
          if forced.isEmpty then []
          else ratios.map fun dpr => kind.rule
            ⟨block.selectors.map (variantSelector dpr), forced.map (c.variantDeclaration dpr)⟩ := by
  refine ⟨_, _, c.remItems inKeyframes block.items, List.partition_eq_filter_filter, ?_,
    remItems_eq_filterMap block.items, declarations_remItems block.items,
    comments_remItems block.items, ?_⟩
  · rintro rfl
    simp [Converter.isForced]
  · have hrules : ((c.remVisit kind block inKeyframes).run stats).1 =
        ((if (c.remItems inKeyframes block.items).isEmpty then none
          else some ⟨block.selectors, c.remItems inKeyframes block.items⟩ : Option Block).toList ++
          c.variantBlocks block.selectors
            ((c.entries block.items).filter (·.hasVariants inKeyframes))).map kind.rule := rfl
    rw [hrules, List.map_append, variantBlocks_forced]
    congr 1
    · split_ifs <;> rfl
    · split_ifs
      · rfl
      · rw [List.map_map]
        rfl

end PixelRem
