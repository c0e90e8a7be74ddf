import PixelRem.Command

/-!
# What a run looks at

A run of the program works on a file tree.  The functions here tell which part
of a file system this tree has to hold for given arguments, and what has changed
in it afterwards.
-/

namespace PixelRem

/-- The flags and arguments of a conversion, if arguments call for one. -/
def conversionArguments? (args : List String) : Option (List Flag × Arguments) :=
  match route args with
  | .ok (.root, args) => read Command.root.flags args
  | .ok (.generate, args) => read Command.generate.flags args
  | _ => none
where
  read (flags : List Flag) (args : List String) : Option (List Flag × Arguments) :=
    match readArguments (helpFlag :: flags) args with
    | .ok a => some (flags, a)
    | .error _ => none

/-- The files that are read before anything else. -/
def settingFiles (args : List String) : List String :=
  let config := match conversionArguments? args with
    | some (_, a) => a.flags.textOr "config" defaultConfigFile
    | none => defaultConfigFile
  [config, ignoreFile]

/-- What is converted according to arguments, files and environment. -/
def conversion? (args : List String) (t : FileTree) (env : Environment) : Option RunConfig := do
  let (flags, a) ← conversionArguments? args
  let m ← (loadConfig t env flags a.flags).toOption
  m.runConfig.toOption

/-- The directories that a conversion looks into. -/
def RunConfig.directories (config : RunConfig) : List String :=
  [config.source] ++ if config.outputDir.isEmpty then [] else [config.outputDir]

/-- The files that a conversion reads. -/
def RunConfig.sources (config : RunConfig) (t : FileTree) : List String :=
  match Workspace.scan ⟨t, none⟩ config.source config.patterns with
  | (.ok scan, _) => scan.files
  | (.error _, _) => []

/-- The nodes that are new or different in a later tree. -/
def FileTree.changedSince (after before : FileTree) : List (Place × Node) :=
  after.nodes.filter fun (place, node) => before.nodeAt? place != some node

end PixelRem
