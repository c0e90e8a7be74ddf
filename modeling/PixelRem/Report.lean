import PixelRem.Report.Color
import PixelRem.Report.Json
import PixelRem.Run.Batch

/-!
# Reports

What a run tells about its files, as text for a reader or in JSON for a program.
-/

namespace PixelRem

/-- What a report says about a source file. -/
structure ReportedFile where
  source : String
  outputs : List String
  /-- The wording of a failure. -/
  failure : Option Text
  deriving DecidableEq, Repr

/-- A report of a run. -/
structure Report where
  discovered : Int
  skipped : Int
  files : List ReportedFile
  deriving DecidableEq, Repr

/-- The form of a report. -/
inductive ReportFormat where
  | text
  | json
  deriving DecidableEq, Repr

/-- The name of a form in settings. -/
def ReportFormat.name : ReportFormat → String
  | .text => "text"
  | .json => "json"

/-- The form of a name.  An unknown name stands for text. -/
def ReportFormat.ofName (name : String) : ReportFormat :=
  if name = "json" then .json else .text

/-- The report of a run. -/
def RunResult.report (r : RunResult) : Report where
  discovered := r.discovered
  skipped := r.skipped
  files := r.files.map fun f => ⟨f.source, f.outputs, f.failure.map FileError.message⟩

namespace Report

/-- The number of files without a failure. -/
def converted (r : Report) : Nat :=
  (r.files.filter (·.failure.isNone)).length

/-- The number of files with a failure. -/
def failed (r : Report) : Nat :=
  r.files.length - r.converted

/-! ## Text -/

/-- A number with what it counts. -/
def counted (count : Int) (singular plural : String) : Text :=
  Text.ofInt count ++ utf8 (" " ++ if count = 1 then singular else plural)

/-- The lines about a file. -/
def fileLines (colors : Bool) (f : ReportedFile) : List Text :=
  match f.failure with
  | some e => [Accent.red.render colors (utf8 "✗") ++ utf8 (" " ++ f.source ++ ": ") ++ e]
  | none =>
    (Accent.green.render colors (utf8 "✓") ++ utf8 (" " ++ f.source))
      :: f.outputs.map fun output => utf8 "    -> " ++ Accent.cyan.render colors (utf8 output)

/-- The line that counts the files. -/
def countLine (colors : Bool) (r : Report) : Text :=
  let converted := counted r.converted "file converted" "files converted"
  if r.failed = 0 then converted
  else
    converted ++ utf8 ", " ++
      Accent.red.render colors (counted r.failed "file failed" "files failed")

/-- The lines at the end. -/
def summaryLines (colors : Bool) (r : Report) : List Text :=
  let skipped :=
    utf8 "(" ++ counted r.skipped "file" "files" ++ utf8 " skipped: generated or gitignored)"
  let hint := utf8 "Hint: no CSS files matched; check --source and --include"
  [[], countLine colors r]
    ++ (if 0 < r.skipped then [Accent.gray.render colors skipped] else [])
    ++ (if r.discovered = 0 then [Accent.gray.render colors hint] else [])

/-- The report as text. -/
def text (colors : Bool) (r : Report) : Text :=
  (r.files.flatMap (fileLines colors) ++ summaryLines colors r).flatMap (· ++ [ascii '\n'])

/-! ## JSON -/

/-- Strings in reports can stand inside of markup and scripts. -/
def jsonStyle : JsonStyle where
  letters := [('\x08', 'b'), ('\x0c', 'f'), ('\n', 'n'), ('\r', 'r'), ('\t', 't')]
  numbered := ['<', '>', '&', '\u2028', '\u2029']

/-- A number in a report. -/
def jsonInt (n : Int) : JsonValue :=
  .literal (Text.ofInt n)

/-- A file in a report.  An empty failure is not shown. -/
def jsonFile (f : ReportedFile) : JsonValue :=
  let failure := f.failure.getD []
  .object
    ([("source", .string (utf8 f.source)), ("outputs", .list (f.outputs.map (.string ∘ utf8)))]
      ++ if failure.isEmpty then [] else [("error", .string failure)])

/-- The report as a value, with the time it is made. -/
def toJson (time : String) (r : Report) : JsonValue :=
  .object
    [("version", .string (utf8 "1.0")),
      ("timestamp", .literal (utf8 ("\"" ++ time ++ "\""))),
      ("summary", .object
        [("files_discovered", jsonInt r.discovered),
          ("files_skipped", jsonInt r.skipped),
          ("converted", jsonInt r.converted),
          ("failed", jsonInt r.failed)]),
      ("files", .list (r.files.map jsonFile))]

/-- The report in JSON. -/
def json (time : String) (r : Report) : Text :=
  (r.toJson time).indented jsonStyle 0 ++ [ascii '\n']

/-- The report in a form. -/
def render (r : Report) (format : ReportFormat) (colors : Bool) (time : String) : Text :=
  match format with
  | .text => r.text colors
  | .json => r.json time

end Report

end PixelRem
