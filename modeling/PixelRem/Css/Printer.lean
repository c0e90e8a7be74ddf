import PixelRem.Css.Rule

/-!
# Printing a rule tree

Two blanks indent each level.  Rules of a stylesheet and of a media block are
parted by an empty line, keyframes by a line end; selectors of a style rule
stand on lines of their own and those of a keyframe on one.  A style rule or
keyframe without items is left out, and so is a node of an unknown kind.  The
printed text ends without a line end.
-/

namespace PixelRem.Css

/-- The white space before a line at a level. -/
def indent (depth : Nat) : Text :=
  List.replicate (2 * depth) 0x20

/-- An item on its line, without indentation. -/
def Item.print : Item → Text
  | .declaration property value => property ++ utf8 ": " ++ value ++ utf8 ";"
  | .comment text => utf8 "/*" ++ text ++ utf8 "*/"

/-- A block behind its printed selectors.  A block without items has no text. -/
def Block.printItems (block : Block) (depth : Nat) (selectors : Text) : Text :=
  match block.items with
  | [] => []
  | items =>
    selectors ++ utf8 " \x7b\n"
      ++ items.flatMap (fun item => indent (depth + 1) ++ item.print ++ utf8 "\n")
      ++ indent depth ++ utf8 "\x7d"

/-- A block of rules in braces behind its head. -/
def printNested (depth : Nat) (head body : Text) : Text :=
  indent depth ++ head ++ utf8 " \x7b\n" ++ body ++ utf8 "\n" ++ indent depth ++ utf8 "\x7d"

mutual

/-- The text of a rule at a level; empty for a rule that is left out. -/
def Rule.print (depth : Nat) : Rule → Text
  | .comment text => indent depth ++ utf8 "/*" ++ text ++ utf8 "*/"
  | .other text => indent depth ++ text
  | .media prelude rules =>
    printNested depth (utf8 "@media " ++ prelude)
      (List.intercalate (utf8 "\n\n") (printParts (depth + 1) rules))
  | .keyframes vendor name rules =>
    printNested depth (utf8 "@" ++ vendor ++ utf8 "keyframes " ++ name)
      (List.intercalate (utf8 "\n") (printParts (depth + 1) rules))
  | .style block =>
    block.printItems depth
      (List.intercalate (utf8 ",\n") (block.selectors.map (indent depth ++ ·)))
  | .keyframe block =>
    block.printItems depth (indent depth ++ List.intercalate (utf8 ", ") block.selectors)
  | .unknown _ _ => []

/-- The texts of the rules at a level that are not left out. -/
def printParts (depth : Nat) : List Rule → List Text
  | [] => []
  | rule :: rules =>
    match rule.print depth with
    | [] => printParts depth rules
    | text => text :: printParts depth rules

end

/-- The text of a stylesheet. -/
def print (rules : List Rule) : Text :=
  List.intercalate (utf8 "\n\n") (printParts 0 rules)

end PixelRem.Css
