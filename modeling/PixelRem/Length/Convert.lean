import PixelRem.Length.Span
import PixelRem.Settings

/-!
# Converting the lengths of a value

A length becomes a multiple of the root unit, or a pixel length for another
device pixel ratio.  The quotient is taken to sixteen guard digits more than the
precision and then rounded to the precision.  Zero loses its unit.

Of the configured precision only the low 32 bits count, as a signed number.
-/

namespace PixelRem

/-- What lengths are converted to. -/
inductive Target where
  /-- Multiples of the root unit. -/
  | rem
  /-- Pixels at a device pixel ratio. -/
  | pixels (dpr : Decimal)
  deriving DecidableEq, Repr

/-- The unit of a converted length. -/
def Target.unit : Target → Text
  | .rem => utf8 "rem"
  | .pixels _ => utf8 "px"

/-- The digits of a quotient beyond the precision. -/
def guardDigits : Int := 16

/-- A whole number held in 32 bits with a sign. -/
def wrap32 (n : Int) : Int :=
  n.bmod (pow2 32)

namespace Converter

/-- The precision that is used. -/
def places (c : Converter) : Int :=
  wrap32 c.settings.remPrecision

/-- The number of a converted length. -/
def convertMagnitude (c : Converter) (target : Target) (px : Decimal) : Decimal :=
  let guarded := wrap32 (c.places + guardDigits)
  let quotient := match target with
    | .rem => px.divRound c.remUnit guarded
    | .pixels dpr => (px.mul dpr).divRound c.baseDpr guarded
  quotient.round c.places

/-- The text of a converted length. -/
def formatLength (c : Converter) (target : Target) (px : Decimal) : Text :=
  let n := c.convertMagnitude target px
  if n.isZero then utf8 "0" else n.toText ++ target.unit

/-- Replaces the spans of a value from byte `start` on. -/
def replaceSpans (c : Converter) (target : Target) (value : Text) (start : Nat) :
    List PixelSpan → Text
  | [] => value.drop start
  | span :: spans =>
    (value.drop start).take (span.start - start) ++ c.formatLength target span.magnitude
      ++ c.replaceSpans target value span.stop spans

/-- The value with every pixel length converted. -/
def convertValue (c : Converter) (target : Target) (value : Text) : Text :=
  c.replaceSpans target value 0 (pixelSpans value)

/-- The value with its pixel lengths scaled to a ratio that need not be positive.  A
ratio without a decimal is given back, unless there is nothing to scale. -/
def scaleValue (c : Converter) (dpr : Binary64) (value : Text) : Except Binary64 Text :=
  if hasPixels value then
    match dpr.toDecimal? with
    | some ratio => .ok (c.convertValue (.pixels ratio) value)
    | none => .error dpr
  else .ok value

end Converter

end PixelRem
