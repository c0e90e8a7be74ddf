import PixelRem.Number.Binary64
import PixelRem.Text.Quoted

/-!
# Settings of a conversion

The ratio a stylesheet was written for, the size of the root unit, the precision
of the results and the two comments that direct a declaration.  `toConverter`
accepts settings that make sense and keeps the two sizes as decimals; of several
faults it reports the first in the order of the fields.
-/

namespace PixelRem

/-- How lengths are converted. -/
structure Settings where
  /-- The device pixel ratio that the source was written for. -/
  baseDpr : Binary64
  /-- The number of pixels in one root unit. -/
  remUnit : Binary64
  /-- The number of fraction digits that are kept. -/
  remPrecision : Int
  /-- The comment that keeps a declaration in pixels. -/
  forcePxComment : Text
  /-- The comment that leaves a declaration as it is. -/
  keepComment : Text
  deriving DecidableEq, Repr

/-- The settings that hold where nothing else is said. -/
def Settings.default : Settings where
  baseDpr := .ofNat 2
  remUnit := .ofNat 75
  remPrecision := 6
  forcePxComment := utf8 "px"
  keepComment := utf8 "no"

/-- What is wrong with settings. -/
inductive SettingsError where
  | baseDpr (got : Binary64)
  | remUnit (got : Binary64)
  | precision (got : Int)
  | emptyComment
  | equalComments (comment : Text)
  deriving DecidableEq, Repr

/-- The wording of a fault in settings. -/
def SettingsError.message (e : SettingsError) : Text :=
  utf8 "invalid px2rem configuration: " ++
    match e with
    | .baseDpr got =>
      utf8 "base DPR must be a positive finite number, got " ++ got.toGeneral
    | .remUnit got =>
      utf8 "rem unit must be a positive finite number, got " ++ got.toGeneral
    | .precision got => utf8 "rem precision must not be negative, got " ++ Text.ofInt got
    | .emptyComment => utf8 "directive comments must not be empty"
    | .equalComments comment =>
      utf8 "force-px and keep comments are both " ++ Text.quoted comment

/-- Accepted settings, with the two sizes as decimals. -/
structure Converter where
  settings : Settings
  baseDpr : Decimal
  remUnit : Decimal
  baseDpr_eq : settings.baseDpr.positive? = some baseDpr
  remUnit_eq : settings.remUnit.positive? = some remUnit
  precision_nonneg : 0 ≤ settings.remPrecision
  force_ne_nil : settings.forcePxComment ≠ []
  keep_ne_nil : settings.keepComment ≠ []
  force_ne_keep : settings.forcePxComment ≠ settings.keepComment

/-- The converter of settings, or the first fault in them. -/
def Settings.toConverter (s : Settings) : Except SettingsError Converter :=
  match hbase : s.baseDpr.positive? with
  | none => .error (.baseDpr s.baseDpr)
  | some baseDpr =>
    match hunit : s.remUnit.positive? with
    | none => .error (.remUnit s.remUnit)
    | some remUnit =>
      if hprecision : s.remPrecision < 0 then .error (.precision s.remPrecision)
      else if hempty : s.forcePxComment = [] ∨ s.keepComment = [] then .error .emptyComment
      else if hequal : s.forcePxComment = s.keepComment then
        .error (.equalComments s.keepComment)
      else
        .ok
          { settings := s
            baseDpr := baseDpr
            remUnit := remUnit
            baseDpr_eq := hbase
            remUnit_eq := hunit
            precision_nonneg := Int.not_lt.mp hprecision
            force_ne_nil := fun h => hempty (.inl h)
            keep_ne_nil := fun h => hempty (.inr h)
            force_ne_keep := hequal }

end PixelRem
