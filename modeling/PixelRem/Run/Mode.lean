import PixelRem.Text.Quoted

/-!
# Modes

Which stylesheets a run writes for each source file.
-/

namespace PixelRem

/-- Which sheets are written. -/
inductive Mode where
  /-- The sheet in root units. -/
  | rem
  /-- The sheet for one device pixel ratio. -/
  | three
  /-- The sheet in root units and those for the fixed ratios. -/
  | all
  deriving DecidableEq, Repr

/-- The name of a mode in settings. -/
def Mode.name : Mode → String
  | .rem => "rem"
  | .three => "three"
  | .all => "all"

/-- A name that no mode has. -/
structure ModeError where
  got : String
  deriving DecidableEq, Repr

/-- The wording of an unknown mode. -/
def ModeError.message (e : ModeError) : Text :=
  utf8 "unknown mode " ++ Text.quotedString e.got ++ utf8 " (want rem, three or all)"

/-- The mode of a name. -/
def Mode.ofName (name : String) : Except ModeError Mode :=
  match name with
  | "rem" => .ok .rem
  | "three" => .ok .three
  | "all" => .ok .all
  | _ => .error ⟨name⟩

/-- The mode of a name, where no name stands for all sheets. -/
def Mode.ofNameOrAll (name : String) : Except ModeError Mode :=
  if name.isEmpty then .ok .all else Mode.ofName name

end PixelRem
