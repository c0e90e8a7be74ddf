import PixelRem.Run.Output
import PixelRem.Run.Scan

/-!
# Runs

A run scans for source files, converts each and writes its sheets.  A file that
fails does not stop the others; nothing is written for it unless writing itself
is what failed.
-/

namespace PixelRem

/-! ## One file -/

/-- Why a file is not converted. -/
inductive FileError where
  | read (path : String) (cause : AccessError)
  | generate (cause : GenerateError)
  | place (cause : PlaceError)
  | directory (path : String) (cause : AccessError)
  | write (path : String) (cause : AccessError)
  deriving DecidableEq, Repr

/-- The wording of a failed file. -/
def FileError.message : FileError → Text
  | .read path cause => utf8 ("read file: open " ++ path ++ ": " ++ cause.message)
  | .generate cause => cause.message
  | .place cause => utf8 cause.message
  | .directory path cause =>
    utf8 ("create output dir: mkdir " ++ path ++ ": " ++ cause.message)
  | .write path cause => utf8 ("write " ++ path ++ ": open " ++ path ++ ": " ++ cause.message)

/-- What became of a source file. -/
structure FileResult where
  source : String
  /-- The files that were written. -/
  outputs : List String
  failure : Option FileError
  deriving DecidableEq, Repr

/-- Writes sheets until one fails.  Gives the files written and the failure. -/
def writeSheets (m : Mount) (directory stem : String) :
    FileTree → List NamedSheet → FileTree × List String × Option FileError
  | t, [] => (t, [], none)
  | t, sheet :: sheets =>
    let target := sheetPath directory stem sheet.suffix
    match m.write t target (sheet.css ++ [ascii '\n']) with
    | .error e => (t, [], some (.write target e))
    | .ok t =>
      let (t, outputs, failure) := writeSheets m directory stem t sheets
      (t, target :: outputs, failure)

/-- Writes the sheets of a file to their directory. -/
def placeSheets (m : Mount) (config : RunConfig) (t : FileTree) (path : String)
    (sheets : List NamedSheet) : FileTree × List String × Option FileError :=
  match outputDirectory path config.source config.outputDir with
  | .error e => (t, [], some (.place e))
  | .ok directory =>
    match m.makeDirectories t directory with
    | .error (obstacle, e) => (t, [], some (.directory obstacle e))
    | .ok t => writeSheets m directory (Path.stem path) t sheets

/-- The name that runs report under. -/
def runLogger : String := "runner"

/-- What a run reports about a file. -/
def FileResult.logEntry (r : FileResult) : LogEntry :=
  let source := ("source", LogValue.text (utf8 r.source))
  match r.failure with
  | none => ⟨runLogger, "Converted", [source, ("outputs", .texts (r.outputs.map utf8))]⟩
  | some e => ⟨runLogger, "Conversion failed", [source, ("error", .text e.message)]⟩

/-- Converts a file and writes its sheets. -/
def convertFile (m : Mount) (c : Converter) (config : RunConfig) (t : FileTree) (path : String) :
    FileTree × FileResult × List LogEntry :=
  match m.read t path with
  | .error e => (t, ⟨path, [], some (.read path e)⟩, [])
  | .ok content =>
    match c.sheets config.mode config.dpr content with
    | .error e => (t, ⟨path, [], some (.generate e)⟩, [])
    | .ok (sheets, log) =>
      let (t, outputs, failure) := placeSheets m config t path sheets
      (t, ⟨path, outputs, failure⟩, log)

/-! ## All files -/

/-- Converts files one after the other. -/
def convertFiles (m : Mount) (c : Converter) (config : RunConfig) :
    FileTree → List String → FileTree × List FileResult × List LogEntry
  | t, [] => (t, [], [])
  | t, path :: paths =>
    let (t, result, log) := convertFile m c config t path
    let (t, results, logs) := convertFiles m c config t paths
    (t, result :: results, log ++ result.logEntry :: logs)

/-- What a run found and did. -/
structure RunResult where
  discovered : Nat
  skipped : Nat
  files : List FileResult
  log : List LogEntry
  deriving DecidableEq, Repr

/-- The number of converted files. -/
def RunResult.converted (r : RunResult) : Nat :=
  (r.files.filter (·.failure.isNone)).length

/-- The number of failed files. -/
def RunResult.failed (r : RunResult) : Nat :=
  r.files.length - r.converted

/-- The failures of a run, each behind its file. -/
def RunResult.failures (r : RunResult) : List Text :=
  r.files.filterMap fun f => f.failure.map fun e => utf8 f.source ++ utf8 ": " ++ e.message

/-- What a run reports about its scan. -/
def Scan.logEntry (s : Scan) : LogEntry :=
  ⟨runLogger, "Found CSS files",
    [("discovered", .int s.discovered), ("skipped", .int s.skipped),
      ("to_convert", .int s.files.length)]⟩

/-- The pattern that holds where none is given. -/
def defaultInclude : String := "**/*.css"

/-- The patterns of a run. -/
def RunConfig.patterns (config : RunConfig) : List String :=
  if config.includes.isEmpty then [defaultInclude] else config.includes

/-- Scans with a way to match patterns, converts and writes. -/
def Workspace.runIn (m : Mount) (glob : Globber) (w : Workspace) (c : Converter)
    (config : RunConfig) : Except PatternError RunResult × Workspace :=
  match w.scanIn m glob config.source config.patterns with
  | (.error e, w) => (.error e, w)
  | (.ok scan, w) =>
    let (files, results, log) := convertFiles m c config w.files scan.files
    let result := ⟨scan.discovered, scan.skipped, results, scan.logEntry :: log⟩
    (.ok result, { w with files := files })

/-- Scans, converts and writes where there are no links. -/
def Workspace.run (w : Workspace) (c : Converter) (config : RunConfig) :
    Except PatternError RunResult × Workspace :=
  w.runIn .plain FileTree.glob? c config

/-- The wording of a run that comes to nothing. -/
def PatternError.runMessage (e : PatternError) : Text :=
  utf8 "scan failed: " ++ e.message

end PixelRem
