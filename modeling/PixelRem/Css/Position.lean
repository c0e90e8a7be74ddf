import PixelRem.Text

/-!
# Positions in a source

Lines and columns are counted from one.  A column counts the bytes since the
last line feed; no other byte ends a line.
-/

namespace PixelRem.Css

/-- A place in a source. -/
structure Position where
  line : Nat
  column : Nat
  deriving DecidableEq, Repr

/-- The place of an offset; an offset behind the end stands for the end. -/
def positionOf (source : Text) (offset : Nat) : Position :=
  let before := source.take offset
  { line := before.count 0x0A + 1
    column := (before.reverse.takeWhile (· != 0x0A)).length + 1 }

end PixelRem.Css
