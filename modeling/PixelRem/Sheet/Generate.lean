import PixelRem.Css.Parser
import PixelRem.Css.Printer
import PixelRem.Sheet.PixelPass
import PixelRem.Sheet.RemPass

/-!
# Generated stylesheets

From the text of a stylesheet to the text of its converted forms: the sheet in
root units, the sheet for one device pixel ratio, and all four sheets at once.
-/

namespace PixelRem

open Css

/-- Why no sheet is generated. -/
inductive GenerateError where
  | parse (e : ParseError)
  | ratio (got : Binary64)
  /-- The sheet for one of several ratios failed. -/
  | sheet (dpr : Nat) (cause : GenerateError)
  deriving DecidableEq, Repr

/-- The wording of a failure. -/
def GenerateError.message : GenerateError → Text
  | .parse e => e.message
  | .ratio got =>
    utf8 "device pixel ratio must be a positive finite number: got " ++ got.toGeneral
  | .sheet dpr cause => utf8 "generate " ++ Text.ofNat dpr ++ utf8 "x: " ++ cause.message

/-- A sheet in root units. -/
structure RemSheet where
  css : Text
  stats : Stats
  deriving DecidableEq, Repr

/-- A sheet for a device pixel ratio. -/
structure PixelSheet where
  css : Text
  stats : Stats
  dpr : Binary64
  deriving DecidableEq, Repr

/-- The sheet in root units and the sheets for the fixed ratios. -/
structure SheetSet where
  rem : RemSheet
  pixel : List (Nat × PixelSheet)
  deriving DecidableEq, Repr

/-- The ratio that stands for zero. -/
def defaultRatio : Nat := 2

namespace Converter

/-- The sheet in root units. -/
def generateRem (c : Converter) (css : Text) : Except GenerateError RemSheet :=
  match parse css with
  | .error e => .error (.parse e)
  | .ok rules =>
    let (rules, stats) := c.remRules rules
    .ok ⟨print rules, stats⟩

/-- The sheet for a ratio.  A ratio that is not positive and finite is refused before
the stylesheet is read, except zero, which stands for the default ratio. -/
def generatePixel (c : Converter) (css : Text) (dpr : Binary64) :
    Except GenerateError PixelSheet :=
  let dpr := if dpr.isZero then .ofNat defaultRatio else dpr
  match dpr.positive? with
  | none => .error (.ratio dpr)
  | some ratio =>
    match parse css with
    | .error e => .error (.parse e)
    | .ok rules =>
      let (rules, stats) := c.scaleRules ratio rules
      .ok ⟨print rules, stats, dpr⟩

/-- All sheets of a stylesheet. -/
def generateAll (c : Converter) (css : Text) : Except GenerateError SheetSet := do
  let rem ← c.generateRem css
  let pixel ← ratios.mapM fun dpr =>
    match c.generatePixel css (.ofNat dpr) with
    | .ok sheet => .ok (dpr, sheet)
    | .error e => .error (.sheet dpr e)
  return ⟨rem, pixel⟩

end Converter

/-! ## Reports -/

/-- The name that passes report under. -/
def converterLogger : String := "px2rem"

/-- What the pass to root units reports. -/
def RemSheet.logEntry (s : RemSheet) : LogEntry :=
  ⟨converterLogger, "Generated rem stylesheet", s.stats.logFields⟩

/-- What the pass to a ratio reports. -/
def PixelSheet.logEntry (s : PixelSheet) : LogEntry :=
  ⟨converterLogger, "Generated pixel stylesheet", s.stats.logFields ++ [("dpr", .real s.dpr)]⟩

/-- What the passes of a set of sheets report. -/
def SheetSet.logEntries (s : SheetSet) : List LogEntry :=
  s.rem.logEntry :: s.pixel.map fun (_, sheet) => sheet.logEntry

end PixelRem
