import PixelRem.Files.Path
import PixelRem.Run.Mode
import PixelRem.Sheet.Generate

/-!
# Output files

Where the sheets of a source file go and what they are called.  A sheet is named
after its source with a suffix for its kind, as in `page.rem.css` or
`page.1.5x.css`.
-/

namespace PixelRem

/-! ## Places -/

/-- What a run is told. -/
structure RunConfig where
  /-- The directory that is scanned. -/
  source : String
  /-- The patterns of the files to convert, below the source directory. -/
  includes : List String
  /-- The directory that the sheets go to; if empty they go beside their sources. -/
  outputDir : String
  mode : Mode
  /-- The ratio for the mode that writes one. -/
  dpr : Binary64
  deriving DecidableEq, Repr

/-- A source file that does not lie below the source directory. -/
structure PlaceError where
  path : String
  source : String
  deriving DecidableEq, Repr

/-- The wording of a source file in an unrelated place. -/
def PlaceError.message (e : PlaceError) : String :=
  "relative path of " ++ e.path ++ ": Rel: can't make " ++ Path.directory e.path
    ++ " relative to " ++ e.source

/-- The directory for the sheets of a file: beside it, or at the same place below the
output directory as the file has below the source directory. -/
def outputDirectory (path source outputDir : String) : Except PlaceError String :=
  if outputDir.isEmpty then .ok (Path.directory path)
  else
    match Path.relative? source (Path.directory path) with
    | some place => .ok (Path.join outputDir place)
    | none => .error ⟨path, source⟩

/-! ## Sheets -/

/-- The suffix of a sheet for a ratio. -/
def ratioSuffix (dpr : Binary64) : String :=
  dpr.toPlain.asciiString ++ "x"

/-- The suffix of a sheet in root units. -/
def remSuffix : String := "rem"

/-- A sheet to be written. -/
structure NamedSheet where
  suffix : String
  css : Text
  deriving DecidableEq, Repr

/-- Names in order, each once. -/
def sortedNames (names : List String) : List String :=
  (names.mergeSort fun a b => decide (a ≤ b)).eraseDups

/-- Sheets in the order of their suffixes. -/
def sortedSheets (sheets : List NamedSheet) : List NamedSheet :=
  (sortedNames (sheets.map (·.suffix))).filterMap fun suffix =>
    sheets.find? (·.suffix == suffix)

/-- The file that a sheet is written to. -/
def sheetPath (directory stem suffix : String) : String :=
  Path.join directory (stem ++ "." ++ suffix ++ ".css")

/-- The sheets of a stylesheet in the order they are written, and what generating them
reports. -/
def Converter.sheets (c : Converter) (mode : Mode) (dpr : Binary64) (css : Text) :
    Except GenerateError (List NamedSheet × List LogEntry) :=
  match mode with
  | .rem => do
    let sheet ← c.generateRem css
    return ([⟨remSuffix, sheet.css⟩], [sheet.logEntry])
  | .three => do
    let sheet ← c.generatePixel css dpr
    return ([⟨ratioSuffix sheet.dpr, sheet.css⟩], [sheet.logEntry])
  | .all => do
    let set ← c.generateAll css
    let pixel := set.pixel.map fun (_, sheet) => ⟨ratioSuffix sheet.dpr, sheet.css⟩
    return (sortedSheets (⟨remSuffix, set.rem.css⟩ :: pixel), set.logEntries)

end PixelRem
