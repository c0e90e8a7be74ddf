import PixelRem.Sheet.Directive
import PixelRem.Sheet.Stats
import PixelRem.Sheet.Walk

/-!
# The pass to another device pixel ratio

Every pixel length is scaled, whether its declaration is forced to pixels or
not; only the keep directive spares it.  Rules keep their number and order.
-/

namespace PixelRem

open Css

namespace Converter

/-- The item of an entry at a ratio. -/
def scaledItem (c : Converter) (dpr : Decimal) : Entry → Item
  | .plain item => item
  | .length property value .keep => .declaration property value
  | .length property value _ => .declaration property (c.convertValue (.pixels dpr) value)

/-- What an entry counts for. -/
def scaledStats : Entry → Stats
  | .plain _ => {}
  | .length _ _ .keep => { kept := 1 }
  | .length _ _ .forcePx => { forced := 1, converted := 1 }
  | .length _ _ .none => { converted := 1 }

/-- Scales the items of a block and counts. -/
def scaleItems (c : Converter) (dpr : Decimal) (items : List Item) : List Item × Stats :=
  let entries := c.entries items
  (entries.map (c.scaledItem dpr), Stats.total (entries.map scaledStats))

/-- Scales one rule of a tree and counts. -/
def scaleVisit (c : Converter) (dpr : Decimal) (kind : BlockKind) (block : Block) (_ : Bool) :
    StateM Stats (List Rule) := do
  let (items, stats) := c.scaleItems dpr block.items
  modify (· + { rules := 1 } + stats)
  return [kind.rule { block with items }]

/-- Scales a rule tree to a ratio. -/
def scaleRules (c : Converter) (dpr : Decimal) (rules : List Rule) : List Rule × Stats :=
  (walkRules (c.scaleVisit dpr) false rules).run {}

end Converter

end PixelRem
