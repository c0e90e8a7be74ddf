import PixelRem.Text

/-!
# The rule tree

A stylesheet is a list of rules.  The tree keeps what the length passes need:
style rules and keyframes with their selectors and items, the two at-rules whose
blocks hold rules, and the text of every other at-rule.  Comments stand in the
tree wherever they can, because a comment behind a declaration can direct its
conversion.
-/

namespace PixelRem.Css

/-- An entry of a declaration block. -/
inductive Item where
  /-- A property with its value; `!important` is part of the value. -/
  | declaration (property value : Text)
  /-- The text between the comment marks, as written. -/
  | comment (text : Text)
  deriving DecidableEq, Repr

/-- Selectors and the items they apply to. -/
structure Block where
  selectors : List Text
  items : List Item
  deriving DecidableEq, Repr

/-- A node of the rule tree. -/
inductive Rule where
  /-- A style rule. -/
  | style (block : Block)
  /-- A media query with the rules it guards. -/
  | media (prelude : Text) (rules : List Rule)
  /-- An animation with its keyframes.  `vendor` is what stands before `keyframes`
  in the at-keyword. -/
  | keyframes (vendor name : Text) (rules : List Rule)
  /-- One keyframe of an animation. -/
  | keyframe (block : Block)
  /-- A comment between rules. -/
  | comment (text : Text)
  /-- Any other at-rule, as written. -/
  | other (text : Text)
  /-- A node of a kind that no stylesheet has.  Passes carry it along and the
  printer leaves it out. -/
  | unknown (code : Int) (text : Text)
  deriving Inhabited, Repr

/-! ## Kinds -/

/-- What a node of the rule tree is. -/
inductive Kind where
  | style
  | media
  | keyframes
  | keyframe
  | comment
  | other
  | unknown (code : Int)
  deriving DecidableEq, Repr

/-- The kind with a given number.  The six known kinds are numbered from zero. -/
def Kind.ofCode : Int → Kind
  | 0 => .style
  | 1 => .media
  | 2 => .keyframes
  | 3 => .keyframe
  | 4 => .comment
  | 5 => .other
  | code => .unknown code

/-- The name of a kind; an unknown kind shows its number. -/
def Kind.name : Kind → String
  | .style => "style"
  | .media => "media"
  | .keyframes => "keyframes"
  | .keyframe => "keyframe"
  | .comment => "comment"
  | .other => "other"
  | .unknown code => s!"Kind({code})"

/-- The kind of a rule. -/
def Rule.kind : Rule → Kind
  | .style _ => .style
  | .media .. => .media
  | .keyframes .. => .keyframes
  | .keyframe _ => .keyframe
  | .comment _ => .comment
  | .other _ => .other
  | .unknown code _ => .unknown code

/-! ## Nodes -/

/-- A node with all the fields that some kind has.  A tree that is not read from a stylesheet
can hold rules below a node of any kind. -/
inductive RuleNode where
  | mk (kind : Kind) (block : Block) (prelude vendor name text : Text) (rules : List RuleNode)
  deriving Repr

mutual

/-- The rule that a node stands for: the fields that its kind has. -/
def RuleNode.rule : RuleNode → Rule
  | .mk .style block _ _ _ _ _ => .style block
  | .mk .media _ pre _ _ _ rules => .media pre (rulesOf rules)
  | .mk .keyframes _ _ vendor name _ rules => .keyframes vendor name (rulesOf rules)
  | .mk .keyframe block _ _ _ _ _ => .keyframe block
  | .mk .comment _ _ _ _ text _ => .comment text
  | .mk .other _ _ _ _ text _ => .other text
  | .mk (.unknown code) _ _ _ _ text _ => .unknown code text

/-- The rules that nodes stand for. -/
def rulesOf : List RuleNode → List Rule
  | [] => []
  | node :: nodes => node.rule :: rulesOf nodes

end

end PixelRem.Css
