import PixelRem.Report.Width

/-!
# Colours

When reports are coloured and how a coloured text is written for a terminal.
-/

namespace PixelRem

/-- A way to set off a part of a report. -/
inductive Accent where
  | cyan
  | red
  | green
  | gray
  deriving DecidableEq, Repr

/-- The display codes of an accent. -/
def Accent.codes : Accent → String
  | .cyan => "1;36"
  | .red => "1;31"
  | .green => "1;32"
  | .gray => "90"

/-- A control sequence that sets display codes. -/
def displaySequence (codes : String) : Text :=
  utf8 ("\x1b[" ++ codes ++ "m")

/-- A text between the codes of a display and the code that ends it. -/
def displayed (codes : String) (t : Text) : Text :=
  displaySequence codes ++ t ++ displaySequence "0"

/-- A tab as four blanks; other bytes stay. -/
def expandTab (b : UInt8) : Text :=
  if b = ascii '\t' then utf8 "    " else [b]

/-- A text with line feeds in the place of the pairs that also end a line. -/
def joinLineEnds : Text → Text
  | [] => []
  | b :: t =>
    if b = ascii '\r' && t.head? == some (ascii '\n') then joinLineEnds t else b :: joinLineEnds t

/-- A text with an accent, if there are colours.  Every line has the accent for itself,
and the lines are made equally wide. -/
def Accent.render (accent : Accent) (colors : Bool) (t : Text) : Text :=
  if colors then
    let lines := Text.splitOn (ascii '\n') (joinLineEnds (t.flatMap expandTab))
    [ascii '\n'].intercalate (alignLines (lines.map (displayed accent.codes)))
  else t

/-- Variables of an environment, by name. -/
abbrev Environment := List (String × String)

/-- Whether a run that does not write to a terminal uses colours: when it is told to, by
a setting or by the environment. -/
def usesColors (force : Bool) (env : Environment) : Bool :=
  force || (env.lookup "FORCE_COLOR").getD "" != "" || env.lookup "GITHUB_ACTIONS" == some "true"

end PixelRem
