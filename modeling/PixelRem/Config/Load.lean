import PixelRem.Config.Flag
import PixelRem.Report.Color
import PixelRem.Run.Batch
import PixelRem.Text.Case
import PixelRem.Yaml.Value

/-!
# Loading a configuration

A configuration is put together from layers.  The file is the lowest, the
environment lies over it and the flags that are set lie on top; a flag that is
not set only fills a key that no layer has.  The settings of a run are read from
the merged map.
-/

namespace PixelRem

/-! ## Layers -/

/-- Why a configuration file is not loaded. -/
inductive ConfigError where
  | unreadable (path : String) (cause : AccessError)
  | malformed (path : String) (cause : Yaml.Error)
  deriving DecidableEq, Repr

/-- The wording of an error, for a given wording of what is wrong inside of the file. -/
def ConfigError.messageWith (wording : Yaml.Error → String) : ConfigError → String
  | .unreadable path cause =>
    "loading config file " ++ path ++ ": read " ++ Path.clean path ++ ": " ++ cause.message
  | .malformed path cause => "loading config file " ++ path ++ ": yaml: " ++ wording cause

/-- The wording of an error. -/
def ConfigError.message : ConfigError → String :=
  messageWith Yaml.Error.message

/-- The layer of a configuration file.  A missing file is an empty layer. -/
def fileLayer (t : FileTree) (path : String) : Except ConfigError ConfigMap :=
  match t.find? path with
  | none => .ok []
  | some .directory => .error (.unreadable path .isDirectory)
  | some (.file content) =>
    match Yaml.read content with
    | .ok fields => .ok fields
    | .error e => .error (.malformed path e)

/-- What the names of variables for settings start with. -/
def variableMark : String := "PX2REM_"

/-- A name without the mark of variables for settings, if it has it. -/
def withoutMark (name : String) : List Char :=
  if variableMark.toList.isPrefixOf name.toList then name.toList.drop variableMark.length
  else name.toList

/-- The key that a variable sets: its name without the mark, in lower case and with
dashes. -/
def variableKey (name : String) : String :=
  (Text.lowerString (String.ofList (withoutMark name))).map fun c => if c = '_' then '-' else c

/-- Splits a key at its dots. -/
def keyPath (key : String) : List String :=
  (go [] key.toList).map String.ofList
where
  /-- Splits with the characters of the first part in reverse. -/
  go : List Char → List Char → List (List Char)
    | part, [] => [part.reverse]
    | part, c :: s => if c = '.' then part.reverse :: go [] s else go (c :: part) s

/-- The layer of the environment.  A dot in a key leads into a map. -/
def environmentLayer (env : Environment) : ConfigMap :=
  (env.filter fun (name, _) => variableMark.toList.isPrefixOf name.toList).foldl
    (fun layer (name, value) =>
      let key := variableKey name
      if key.isEmpty then layer else ConfigMap.putPath layer (.text value) (keyPath key))
    []

/-- The layer of flags over a map: those that are set, and the values of others for keys
that the map does not have. -/
def flagLayer (flags : List Flag) (set below : ConfigMap) : ConfigMap :=
  flags.filterMap fun flag =>
    match set.lookup flag.name with
    | some value => some (flag.name, keptValue value)
    | none => if (below.lookup flag.name).isSome then none else some (flag.name, flag.default)

/-- The layers of a file and the environment. -/
def loadBase (t : FileTree) (path : String) (env : Environment) : Except ConfigError ConfigMap := do
  let file ← fileLayer t path
  return ConfigMap.merge (environmentLayer env) (ConfigMap.merge file [])

/-- The configuration file that is read where no other is named. -/
def defaultConfigFile : String := ".px2rem.yaml"

/-- Lays flags over a map. -/
def addFlags (flags : List Flag) (set below : ConfigMap) : ConfigMap :=
  ConfigMap.merge (flagLayer flags set below) below

/-- All layers.  The flags also name the file. -/
def loadConfig (t : FileTree) (env : Environment) (flags : List Flag) (set : ConfigMap) :
    Except ConfigError ConfigMap := do
  let below ← loadBase t (set.textOr "config" defaultConfigFile) env
  return addFlags flags set below

/-! ## Flags of the program -/

/-- The flags of every command. -/
def sharedFlags : List Flag :=
  [ { name := "verbose", letter := some 'v', kind := .bool, default := .bool false },
    { name := "quiet", kind := .bool, default := .bool false },
    { name := "color", kind := .bool, default := .bool false },
    { name := "config", kind := .text, default := .text defaultConfigFile },
    { name := "base-dpr", kind := .real, default := .real Settings.default.baseDpr },
    { name := "rem-unit", kind := .real, default := .real Settings.default.remUnit },
    { name := "rem-precision", kind := .whole, default := .int Settings.default.remPrecision },
    { name := "force-px-comment", kind := .text, default := .text "px" },
    { name := "keep-comment", kind := .text, default := .text "no" } ]

/-- The flags of a conversion. -/
def generateFlags : List Flag :=
  sharedFlags ++
    [ { name := "source", kind := .text, default := .text "." },
      { name := "include", kind := .texts, default := .list [] },
      { name := "output-dir", kind := .text, default := .text "" },
      { name := "mode", kind := .text, default := .text Mode.all.name },
      { name := "dpr", kind := .real, default := .real (.ofNat defaultRatio) },
      { name := "output-format", kind := .text, default := .text "text" } ]

/-! ## Settings -/

namespace ConfigMap

/-- How lengths are converted. -/
def settings (m : ConfigMap) : Settings where
  baseDpr := m.realOr "base-dpr" Settings.default.baseDpr
  remUnit := m.realOr "rem-unit" Settings.default.remUnit
  remPrecision := m.wholeOr "rem-precision" Settings.default.remPrecision
  forcePxComment := utf8 (m.textOr "force-px-comment" "px")
  keepComment := utf8 (m.textOr "keep-comment" "no")

/-- What is converted. -/
def runConfig (m : ConfigMap) : Except ModeError RunConfig := do
  let mode ← Mode.ofName (m.textOr "mode" Mode.all.name)
  return {
    source := m.textOr "source" "."
    includes := m.textsOr "include" [defaultInclude]
    outputDir := m.textOr "output-dir" ""
    mode := mode
    dpr := m.realOr "dpr" (.ofNat defaultRatio) }

/-- Whether nothing is reported. -/
def quiet (m : ConfigMap) : Bool :=
  m.boolOr "quiet" false

/-- Whether colours are asked for. -/
def color (m : ConfigMap) : Bool :=
  m.boolOr "color" false

/-- Whether log lines are shown. -/
def verbose (m : ConfigMap) : Bool :=
  m.boolOr "verbose" false

/-- The name of the form of the report. -/
def outputFormat (m : ConfigMap) : String :=
  m.textOr "output-format" "text"

end ConfigMap

end PixelRem
