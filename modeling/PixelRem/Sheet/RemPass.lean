import PixelRem.Sheet.Directive
import PixelRem.Sheet.Stats
import PixelRem.Sheet.Walk

/-!
# The pass to root units

Lengths become multiples of the root unit.  A declaration that is forced to
pixels leaves its rule and goes, scaled, into one variant of the rule per device
pixel ratio; the selectors of a variant ask for a root element with that ratio.
Keyframes have no variants, so there a forced declaration is converted like any
other.  A forced `0px` is the same at every ratio and stays in its rule as `0`.
-/

namespace PixelRem

open Css

/-- The device pixel ratios that have sheets and variants of their own. -/
def ratios : List Nat :=
  [1, 2, 3]

/-- Whether an entry goes into the variants of its rule. -/
def Entry.hasVariants (inKeyframes : Bool) : Entry → Bool
  | .length _ value .forcePx => !inKeyframes && value != utf8 "0px"
  | _ => false

/-- The selector of a rule's variant for a ratio. -/
def variantSelector (dpr : Nat) (selector : Text) : Text :=
  utf8 "[data-dpr=\"" ++ Text.ofNat dpr ++ utf8 "\"] " ++ selector

/-- A block after the pass: what is left of it, its variants and the counts. -/
structure RemBlocks where
  base : Option Block
  variants : List Block
  stats : Stats
  deriving DecidableEq, Repr

/-- The blocks in the order they are written. -/
def RemBlocks.toList (r : RemBlocks) : List Block :=
  r.base.toList ++ r.variants

namespace Converter

/-- The item that an entry leaves in its rule. -/
def remItem (c : Converter) : Entry → Item
  | .plain item => item
  | .length property value .keep => .declaration property value
  | .length property value .forcePx =>
    .declaration property (if value = utf8 "0px" then utf8 "0" else c.convertValue .rem value)
  | .length property value .none => .declaration property (c.convertValue .rem value)

/-- What an entry counts for. -/
def remStats (inKeyframes : Bool) : Entry → Stats
  | .plain _ => {}
  | .length _ _ .keep => { kept := 1 }
  | .length _ value .forcePx =>
    if value = utf8 "0px" ∨ inKeyframes = false then { forced := 1 } else { converted := 1 }
  | .length _ _ .none => { converted := 1 }

/-- The item that a forced entry puts into the variant for a ratio. -/
def variantItem (c : Converter) (dpr : Nat) : Entry → Item
  | .plain item => item
  | .length property value _ =>
    .declaration property (c.convertValue (.pixels (.ofNat dpr)) value)

/-- The variants of a block for its forced entries. -/
def variantBlocks (c : Converter) (selectors : List Text) (forced : List Entry) : List Block :=
  if forced.isEmpty then []
  else ratios.map fun dpr =>
    ⟨selectors.map (variantSelector dpr), forced.map (c.variantItem dpr)⟩

/-- Converts a block.  A block of which nothing is left is pruned. -/
def remBlocks (c : Converter) (block : Block) (inKeyframes : Bool) : RemBlocks :=
  let entries := c.entries block.items
  let items := (entries.filter (!·.hasVariants inKeyframes)).map c.remItem
  let variants := c.variantBlocks block.selectors (entries.filter (·.hasVariants inKeyframes))
  { base := if items.isEmpty then none else some { block with items }
    variants
    stats :=
      Stats.total (entries.map (remStats inKeyframes))
        + { variantRules := variants.length, pruned := if items.isEmpty then 1 else 0 } }

/-- Converts one rule of a tree and counts. -/
def remVisit (c : Converter) (kind : BlockKind) (block : Block) (inKeyframes : Bool) :
    StateM Stats (List Rule) := do
  let blocks := c.remBlocks block inKeyframes
  modify (· + { rules := 1 } + blocks.stats)
  return blocks.toList.map kind.rule

/-- Converts a rule tree to root units. -/
def remRules (c : Converter) (rules : List Rule) : List Rule × Stats :=
  (walkRules c.remVisit false rules).run {}

end Converter

end PixelRem
