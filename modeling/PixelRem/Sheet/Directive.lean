import PixelRem.Css.Rule
import PixelRem.Length.Convert
import PixelRem.Text.Blank

/-!
# Directives

A comment directly behind a declaration can direct its conversion: the keep
comment leaves the value alone and the force comment keeps it in pixels.  White
space around the text of the comment does not count.

`entries` reads a block once for both passes.  It marks each declaration that has
a pixel length with its directive and takes the directing comments out, so that
the passes work entry by entry.
-/

namespace PixelRem

open Css

/-- How a declaration is to be converted. -/
inductive Directive where
  | none
  | keep
  | forcePx
  deriving DecidableEq, Repr

/-- The name of a directive. -/
def Directive.name : Directive → String
  | .none => "none"
  | .keep => "keep"
  | .forcePx => "force-px"

/-- The directive with a given number; a number without one stands for none. -/
def Directive.ofCode : Int → Directive
  | 1 => .keep
  | 2 => .forcePx
  | _ => .none

/-- An entry of a block as the passes see it. -/
inductive Entry where
  /-- An item that no pass changes. -/
  | plain (item : Item)
  /-- A declaration with a pixel length and its directive. -/
  | length (property value : Text) (directive : Directive)
  deriving DecidableEq, Repr

namespace Converter

/-- The directive that an item gives to the declaration before it. -/
def directiveOf (c : Converter) : Option Item → Directive
  | some (.comment text) =>
    let word := Text.trim text
    if word = c.settings.keepComment then .keep
    else if word = c.settings.forcePxComment then .forcePx
    else .none
  | _ => .none

/-- The entries of a list of items.  `directed` says that the first item is a comment
that directs the declaration before it. -/
def entriesFrom (c : Converter) : (directed : Bool) → List Item → List Entry
  | _, [] => []
  | true, _ :: items => c.entriesFrom false items
  | false, .comment text :: items => .plain (.comment text) :: c.entriesFrom false items
  | false, .declaration property value :: items =>
    if hasPixels value then
      let directive := c.directiveOf items.head?
      .length property value directive :: c.entriesFrom (directive != .none) items
    else .plain (.declaration property value) :: c.entriesFrom false items

/-- The entries of a list of items. -/
def entries (c : Converter) (items : List Item) : List Entry :=
  c.entriesFrom false items

end Converter

end PixelRem
