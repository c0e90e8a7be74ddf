import PixelRem.Command.Route
import PixelRem.Report
import PixelRem.Report.LogLine

/-!
# The program

One run of the program on a file tree, from its arguments and environment to
what it prints and the tree it leaves.
-/

namespace PixelRem

/-! ## Outcomes -/

/-- Why the program fails. -/
inductive CommandError where
  | unknownCommand (word : String)
  | flags (cause : FlagError)
  | config (cause : ConfigError)
  | settings (cause : SettingsError)
  | mode (cause : ModeError)
  | run (cause : PatternError)
  | files (failed total : Nat)
  | configExists
  | configWrite (cause : AccessError)
  /-- There is not exactly one argument. -/
  | shellCount (count : Nat)
  | unknownShell (name : String)
  deriving Repr

/-- The wording of a failure, for a given wording of what is wrong inside of a
configuration file. -/
def CommandError.messageWith (wording : Yaml.Error → String) : CommandError → Text
  | .unknownCommand word => unknownCommandMessage word
  | .flags cause => cause.message
  | .config cause => utf8 (cause.messageWith wording)
  | .settings cause => cause.message
  | .mode cause => cause.message
  | .run cause => utf8 "conversion failed: " ++ cause.runMessage
  | .files failed total =>
    Text.ofNat failed ++ utf8 " of " ++ Text.ofNat total ++ utf8 " files failed"
  | .configExists => utf8 (defaultConfigFile ++ " already exists (use --force to overwrite)")
  | .configWrite cause =>
    utf8 ("writing config file: open " ++ defaultConfigFile ++ ": " ++ cause.message)
  | .shellCount count => utf8 "accepts 1 arg(s), received " ++ Text.ofNat count
  | .unknownShell name =>
    utf8 "invalid argument " ++ Text.quotedString name ++ utf8 " for "
      ++ Text.quotedString (programName ++ " completion")

/-- The wording of a failure. -/
def CommandError.message : CommandError → Text :=
  messageWith Yaml.Error.message

/-- What a run of the program prints and why it fails. -/
structure Outcome where
  stdout : Text := []
  stderr : Text := []
  error : Option CommandError := none
  deriving Repr

/-- What the program finds: files, variables and the times that reports and log lines
show. -/
structure Surroundings where
  files : FileTree
  env : Environment
  reportTime : String
  logTime : String
  deriving Repr

/-- A run that fails and prints nothing. -/
def Outcome.failure (e : CommandError) : Outcome :=
  { error := some e }

/-! ## Converting -/

/-- What a finished run of conversions prints. -/
def RunResult.outcome (r : RunResult) (m : ConfigMap) (colors : Bool) (s : Surroundings) :
    Outcome where
  stdout :=
    if m.quiet then []
    else r.report.render (.ofName m.outputFormat) colors s.reportTime
  stderr :=
    if m.verbose && !m.quiet then r.log.flatMap (LogEntry.line colors s.logTime) else []
  error := if r.failures.isEmpty then none else some (.files r.failed r.files.length)

/-- Converts with a configuration. -/
def convertIn (mount : Mount) (glob : Globber) (m : ConfigMap) (s : Surroundings) :
    Outcome × FileTree :=
  let colors := usesColors m.color s.env
  match m.settings.toConverter with
  | .error e => (.failure (.settings e), s.files)
  | .ok c =>
    match m.runConfig with
    | .error e => (.failure (.mode e), s.files)
    | .ok config =>
      match Workspace.runIn mount glob ⟨s.files, none⟩ c config with
      | (.error e, w) => (.failure (.run e), w.files)
      | (.ok r, w) => (r.outcome m colors s, w.files)

/-- Loads the configuration and converts where there are no links. -/
def runGenerate (flags : List Flag) (a : Arguments) (s : Surroundings) : Outcome × FileTree :=
  match loadConfig s.files s.env flags a.flags with
  | .error e => (.failure (.config e), s.files)
  | .ok m => convertIn .plain FileTree.glob? m s

/-! ## Other commands -/

/-- The configuration file that is written to start with. -/
def initialConfig : String :=
  "\n".intercalate
    ["# px2rem configuration",
      "# Every key can also be set as a flag (--rem-unit) or env var (PX2REM_REM_UNIT).",
      "",
      "# Conversion settings",
      "base-dpr: 2              # DPR the source CSS was written for",
      "rem-unit: 75             # pixels per rem",
      "rem-precision: 6",
      "force-px-comment: \"px\"   # /* px */ emits per-DPR pixel variants",
      "keep-comment: \"no\"       # /* no */ leaves the declaration untouched",
      "",
      "# Files",
      "source: .",
      "include:",
      "  - \"**/*.css\"",
      "output-dir: \"\"           # empty writes next to each source file",
      "mode: all                # rem | three | all",
      "dpr: 2                   # target DPR for mode three",
      "output-format: text      # text | json",
      ""]

/-- Writes the first configuration file.  One that exists is kept unless told
otherwise. -/
def runInit (a : Arguments) (t : FileTree) : Outcome × FileTree :=
  if (t.nodeAt? (t.placeOf defaultConfigFile)).isSome && !a.flags.boolOr "force" false then
    (.failure .configExists, t)
  else
    match t.write defaultConfigFile (utf8 initialConfig) with
    | .error e => (.failure (.configWrite e), t)
    | .ok t => ({ stdout := utf8 ("Created " ++ defaultConfigFile ++ "\n") }, t)

/-- The version and the settings that hold where nothing else is said. -/
def versionText : Text :=
  let d := Settings.default
  utf8 (programName ++ " dev\ndefaults: base-dpr ") ++ d.baseDpr.toGeneral ++ utf8 ", rem-unit "
    ++ d.remUnit.toGeneral ++ utf8 ", rem-precision " ++ Text.ofInt d.remPrecision ++ utf8 "\n"

/-- The first line of the completion script for a shell. -/
def completionHeader? (shell : String) : Option String :=
  let script := String.ofList (List.replicate 31 ' ') ++ "-*- shell-script -*-"
  match shell with
  | "bash" => some ("# bash completion V2 for " ++ programName ++ script)
  | "zsh" => some ("#compdef " ++ programName)
  | "fish" => some ("# fish completion for " ++ programName ++ script)
  | "powershell" => some ("# powershell completion for " ++ programName ++ script)
  | _ => none

/-- Prints the head of a completion script. -/
def runCompletion (args : List String) : Outcome :=
  match args with
  | [shell] =>
    match completionHeader? shell with
    | some header => { stdout := utf8 (header ++ "\n") }
    | none => .failure (.unknownShell shell)
  | args => .failure (.shellCount args.length)

/-- What the program is for. -/
def helpText : String :=
  "\n".intercalate
    ["Convert CSS written against a reference device pixel ratio.",
      "Pixel lengths become rem units, or are rescaled for 1x, 2x and 3x screens.",
      "Comments after a declaration control it: /* no */ keeps the value as is,",
      "/* px */ emits per-DPR pixel variants under [data-dpr=\"N\"] selectors.",
      ""]

/-! ## Running -/

/-- Runs a command with its arguments. -/
def Command.run (command : Command) (a : Arguments) (s : Surroundings) : Outcome × FileTree :=
  if a.flags.boolOr helpFlag.name false then ({ stdout := utf8 helpText }, s.files)
  else
    match command with
    | .root | .generate => runGenerate command.flags a s
    | .init => runInit a s.files
    | .completion => (runCompletion a.rest, s.files)
    | .version => ({ stdout := versionText }, s.files)
    | .help => ({ stdout := utf8 helpText }, s.files)

/-- Runs the program. -/
def runProgram (args : List String) (s : Surroundings) : Outcome × FileTree :=
  match route args with
  | .error word => (.failure (.unknownCommand word), s.files)
  | .ok (command, args) =>
    match readArguments (helpFlag :: command.flags) args with
    | .error e => (.failure (.flags e), s.files)
    | .ok a => command.run a s

end PixelRem
