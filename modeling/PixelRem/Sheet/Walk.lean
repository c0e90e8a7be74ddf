import PixelRem.Css.Rule

/-!
# Walking a rule tree

A walk visits the style rules and keyframes of a tree in document order and puts
the rules that the visitor returns in their place.  The visitor also learns
whether the nearest block around the rule is an animation.  Media queries and
animations keep their place with walked children; all other rules stay.
-/

namespace PixelRem.Css

/-- The rules that have a block of items. -/
inductive BlockKind where
  | style
  | keyframe
  deriving DecidableEq, Repr

/-- The rule of a kind with a given block. -/
def BlockKind.rule : BlockKind → Block → Rule
  | .style, b => .style b
  | .keyframe, b => .keyframe b

variable {m : Type → Type} [Monad m]

mutual

/-- Walks one rule. -/
def walkRule (visit : BlockKind → Block → Bool → m (List Rule)) (inKeyframes : Bool) :
    Rule → m (List Rule)
  | .style b => visit .style b inKeyframes
  | .keyframe b => visit .keyframe b inKeyframes
  | .media pre rules => do
    let rules ← walkRules visit false rules
    pure [.media pre rules]
  | .keyframes vendor name rules => do
    let rules ← walkRules visit true rules
    pure [.keyframes vendor name rules]
  | .comment text => pure [.comment text]
  | .other text => pure [.other text]
  | .unknown code text => pure [.unknown code text]

/-- Walks rules in order. -/
def walkRules (visit : BlockKind → Block → Bool → m (List Rule)) (inKeyframes : Bool) :
    List Rule → m (List Rule)
  | [] => pure []
  | rule :: rules => do
    let first ← walkRule visit inKeyframes rule
    let rest ← walkRules visit inKeyframes rules
    pure (first ++ rest)

end

end PixelRem.Css
