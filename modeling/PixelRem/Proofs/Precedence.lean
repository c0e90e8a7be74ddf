import Mathlib
import PixelRem.Command.Route
import PixelRem.Proofs.FlagValues
import PixelRem.Proofs.YamlKeys

/-!
# Which layer a setting comes from

A setting has the value of the highest layer that has its key: the flags that are set, then the
environment, then the file.  Lower layers do not matter for it (`Layers.value?`).  A key that no
layer has leaves the default, and so does a text that the highest layer gives as empty.

The merged map never lacks the key of a flag, since a flag that is not set fills it.  This makes no
difference because every flag fills in the default of its setting (`scalars_of_filled`).
-/

namespace PixelRem

/-! ## Readings of one value -/

/-- The text of a value.  One that is missing or empty leaves the default. -/
def textReading (value? : Option ConfigValue) (default : String) : String :=
  let s := value?.elim "" ConfigValue.toText
  if s.isEmpty then default else s

/-- The real number of a value. -/
def realReading (value? : Option ConfigValue) (default : Binary64) : Binary64 :=
  value?.elim default ConfigValue.toReal

/-- The whole number of a value. -/
def wholeReading (value? : Option ConfigValue) (default : Int) : Int :=
  value?.elim default ConfigValue.toWhole

/-- The truth value of a value. -/
def boolReading (value? : Option ConfigValue) (default : Bool) : Bool :=
  value?.elim default ConfigValue.toBool

/-! ## Scalar settings -/

/-- The settings that are no lists. -/
structure Scalars where
  settings : Settings
  /-- The source, the directory for sheets, the mode and the ratio. -/
  run : Except ModeError (String × String × Mode × Binary64)
  outputFormat : String
  verbose : Bool
  quiet : Bool
  color : Bool

/-- What the program reads from a map. -/
def ConfigMap.scalars (m : ConfigMap) : Scalars where
  settings := m.settings
  run := m.runConfig.map fun config => (config.source, config.outputDir, config.mode, config.dpr)
  outputFormat := m.outputFormat
  verbose := m.verbose
  quiet := m.quiet
  color := m.color

/-- The settings for given values of their keys, with their defaults. -/
def scalarsOf (value? : String → Option ConfigValue) : Scalars where
  settings :=
    { baseDpr := realReading (value? "base-dpr") (.ofNat 2)
      remUnit := realReading (value? "rem-unit") (.ofNat 75)
      remPrecision := wholeReading (value? "rem-precision") 6
      forcePxComment := utf8 (textReading (value? "force-px-comment") "px")
      keepComment := utf8 (textReading (value? "keep-comment") "no") }
  run := (Mode.ofName (textReading (value? "mode") "all")).map fun mode =>
    (textReading (value? "source") ".", textReading (value? "output-dir") "", mode,
      realReading (value? "dpr") (.ofNat 2))
  outputFormat := textReading (value? "output-format") "text"
  verbose := boolReading (value? "verbose") false
  quiet := boolReading (value? "quiet") false
  color := boolReading (value? "color") false

theorem scalars_eq (m : ConfigMap) : m.scalars = scalarsOf (m.lookup ·) := by
  have hrun : m.runConfig.map (fun config =>
      (config.source, config.outputDir, config.mode, config.dpr)) =
      (scalarsOf (m.lookup ·)).run := by
    show _ = (Mode.ofName (m.textOr "mode" Mode.all.name)).map _
    unfold ConfigMap.runConfig
    cases Mode.ofName (m.textOr "mode" Mode.all.name) <;> rfl
  unfold ConfigMap.scalars
  rw [hrun]
  rfl

/-! ## Flags that fill in -/

section Filled

variable {value? : Option ConfigValue}

theorem textReading_filled (s : String) :
    textReading (some (value?.getD (.text s))) s = textReading value? s := by
  cases value? with
  | some value => rfl
  | none =>
    show (if s.isEmpty then s else s) = if "".isEmpty then s else ""
    rw [ite_self]
    rfl

theorem realReading_filled (x : Binary64) :
    realReading (some (value?.getD (.real x))) x = realReading value? x := by
  cases value? <;> rfl

theorem wholeReading_filled (n : Int) (hn : ConfigValue.isWhole n = true) :
    wholeReading (some (value?.getD (.int n))) n = wholeReading value? n := by
  cases value? with
  | some value => rfl
  | none => exact if_pos hn

theorem boolReading_filled :
    boolReading (some (value?.getD (.bool false))) false = boolReading value? false := by
  cases value? with
  | some value => rfl
  | none => decide

end Filled

/-- A map in which the flags of a conversion only fill in what is missing has the settings of the
values that are there. -/
theorem scalars_of_filled {m : ConfigMap} {value? : String → Option ConfigValue}
    (hfilled : ∀ flag ∈ Command.generate.flags, flag.kind ≠ .texts →
      m.lookup flag.name = some ((value? flag.name).getD flag.default)) :
    m.scalars = scalarsOf value? := by
  have hkey (key : String) (letter : Option Char) (kind : FlagKind) (default : ConfigValue)
      (hkind : kind ≠ .texts)
      (hfind : Command.generate.flags.find? (·.name == key) = some ⟨key, letter, kind, default⟩) :
      m.lookup key = some ((value? key).getD default) :=
    hfilled _ (List.mem_of_find?_eq_some hfind) hkind
  have hreal (key : String) (x : Binary64)
      (hfind : Command.generate.flags.find? (·.name == key) = some ⟨key, none, .real, .real x⟩) :
      realReading (m.lookup key) x = realReading (value? key) x := by
    rw [hkey key none .real (.real x) (by decide) hfind, realReading_filled]
  have htext (key s : String)
      (hfind : Command.generate.flags.find? (·.name == key) = some ⟨key, none, .text, .text s⟩) :
      textReading (m.lookup key) s = textReading (value? key) s := by
    rw [hkey key none .text (.text s) (by decide) hfind, textReading_filled]
  have hbool (key : String) (letter : Option Char)
      (hfind : Command.generate.flags.find? (·.name == key) =
        some ⟨key, letter, .bool, .bool false⟩) :
      boolReading (m.lookup key) false = boolReading (value? key) false := by
    rw [hkey key letter .bool (.bool false) (by decide) hfind, boolReading_filled]
  have hprecision : wholeReading (m.lookup "rem-precision") 6 =
      wholeReading (value? "rem-precision") 6 := by
    rw [hkey "rem-precision" none .whole (.int 6) (by decide) rfl,
      wholeReading_filled 6 (by decide)]
  rw [scalars_eq]
  unfold scalarsOf
  rw [hreal "base-dpr" (.ofNat 2) rfl, hreal "rem-unit" (.ofNat 75) rfl, hprecision,
    htext "force-px-comment" "px" rfl, htext "keep-comment" "no" rfl, htext "mode" "all" rfl,
    htext "source" "." rfl, htext "output-dir" "" rfl, hreal "dpr" (.ofNat 2) rfl,
    htext "output-format" "text" rfl, hbool "verbose" (some 'v') rfl, hbool "quiet" none rfl,
    hbool "color" none rfl]

/-! ## Layers -/

/-- The layers of a configuration: the flags that are set, the environment and the file. -/
structure Layers where
  flags : ConfigMap
  env : Environment
  file : ConfigMap

/-- The value of a key in the highest layer that has it. -/
def Layers.value? (l : Layers) (key : String) : Option ConfigValue :=
  (l.flags.lookup key).or
    ((((settingVariables l.env).lookup key).map ConfigValue.text).or (l.file.lookup key))

section Loading

open ConfigMap

variable {t : FileTree} {env : Environment} {a : Arguments} {file : ConfigMap}

/-- The map of a file and the environment. -/
def baseMap (env : Environment) (file : ConfigMap) : ConfigMap :=
  merge (environmentLayer env) (merge file [])

theorem loadBase_of_fileLayer {path : String} (hfile : fileLayer t path = .ok file) :
    loadBase t path env = .ok (baseMap env file) := by
  unfold loadBase
  rw [hfile]
  rfl

theorem loadConfig_of_fileLayer {flags : List Flag} {set : ConfigMap}
    (hfile : fileLayer t (set.textOr "config" defaultConfigFile) = .ok file) :
    loadConfig t env flags set = .ok (addFlags flags set (baseMap env file)) := by
  unfold loadConfig
  rw [loadBase_of_fileLayer hfile]
  rfl

theorem lookup_baseMap (henv : SingleKeys env) (hfile : file.keys.Nodup) {key : String}
    (hkey : key ≠ "") :
    (baseMap env file).lookup key =
      (((settingVariables env).lookup key).map ConfigValue.text).or (file.lookup key) := by
  unfold baseMap
  rw [lookup_merge_of_isFlat (isFlat_environmentLayer henv), lookup_merge_nil hfile,
    lookup_environmentLayer henv hkey]

theorem nodup_flagNames : ((helpFlag :: Command.generate.flags).map Flag.name).Nodup := by
  decide

theorem isMap_default : ∀ flag ∈ Command.generate.flags, flag.default.isMap = false := by
  decide

/-- The flag that takes patterns. -/
theorem includeFlag_mem :
    (⟨"include", none, .texts, .list []⟩ : Flag) ∈ Command.generate.flags :=
  List.mem_of_find?_eq_some (p := (·.name == "include")) rfl

theorem flagName_ne_empty : ∀ flag ∈ Command.generate.flags, flag.name ≠ "" := by
  decide

/-- What the flags of a conversion leave in a map. -/
theorem lookup_conversionFlags {set : ConfigMap} (hset : ∀ field ∈ set, field.2.isMap = false)
    {flag : Flag} (hflag : flag ∈ Command.generate.flags) (below : ConfigMap) :
    (addFlags Command.generate.flags set below).lookup flag.name =
      some ((((set.lookup flag.name).map keptValue).or (below.lookup flag.name)).getD
        flag.default) :=
  lookup_addFlags (List.nodup_cons.mp nodup_flagNames).2 isMap_default hset hflag below

/-- A flag of a conversion that is no list is kept as it is set. -/
theorem lookup_keptValue (hkinds : HasKinds (helpFlag :: Command.generate.flags) a.flags)
    {flag : Flag} (hflag : flag ∈ Command.generate.flags) (hkind : flag.kind ≠ .texts) :
    (a.flags.lookup flag.name).map keptValue = a.flags.lookup flag.name := by
  cases hvalue : a.flags.lookup flag.name with
  | none => rfl
  | some value =>
    obtain ⟨other, hother, hname, hadmits⟩ := hkinds _ (mem_of_lookup_eq_some hvalue)
    have hsame : other = flag := List.inj_on_of_nodup_map nodup_flagNames hother
      (List.mem_cons_of_mem helpFlag hflag) hname
    subst hsame
    exact congrArg some (hadmits.keptValue_eq hkind)

theorem lookup_loaded (hkinds : HasKinds (helpFlag :: Command.generate.flags) a.flags)
    (henv : SingleKeys env) (hfile : file.keys.Nodup) {flag : Flag}
    (hflag : flag ∈ Command.generate.flags) (hkind : flag.kind ≠ .texts) :
    (addFlags Command.generate.flags a.flags (baseMap env file)).lookup flag.name =
      some ((Layers.value? ⟨a.flags, env, file⟩ flag.name).getD flag.default) := by
  rw [lookup_conversionFlags hkinds.isMap hflag, lookup_keptValue hkinds hflag hkind,
    lookup_baseMap henv hfile (flagName_ne_empty flag hflag)]
  rfl

end Loading

/-! ## Flags that are not set -/

theorem runConfig_eq (m : ConfigMap) :
    m.runConfig = m.scalars.run.map fun run =>
      { source := run.1
        includes := m.textsOr "include" [defaultInclude]
        outputDir := run.2.1
        mode := run.2.2.1
        dpr := run.2.2.2 } := by
  unfold ConfigMap.scalars ConfigMap.runConfig
  cases Mode.ofName (m.textOr "mode" Mode.all.name) <;> rfl

/-- Everything that is read from a map. -/
def ConfigMap.readings (m : ConfigMap) : Scalars × Except ModeError RunConfig :=
  (m.scalars, m.runConfig)

/-- Flags of which none is set make no difference. -/
theorem readings_addFlags_nil (below : ConfigMap) :
    (addFlags Command.generate.flags [] below).readings = below.readings := by
  have hnone : ∀ field ∈ ([] : ConfigMap), field.2.isMap = false := by simp
  have hscalars : (addFlags Command.generate.flags [] below).scalars = below.scalars := by
    rw [scalars_eq below]
    exact scalars_of_filled fun flag hflag _ => lookup_conversionFlags hnone hflag below
  have hincludes : (addFlags Command.generate.flags [] below).textsOr "include" [defaultInclude] =
      below.textsOr "include" [defaultInclude] := by
    unfold ConfigMap.textsOr
    rw [lookup_conversionFlags hnone includeFlag_mem below]
    cases below.lookup "include" <;> rfl
  unfold ConfigMap.readings
  rw [runConfig_eq, runConfig_eq below, hscalars, hincludes]

/-! ## The precedence of layers -/

/-- A scalar setting is read from the highest layer that has its key, or is its default.  Flags
that are known but not set change nothing. -/
theorem scalars_precedence (t : FileTree) (env : Environment) :
    (∀ args a file, readArguments (helpFlag :: Command.generate.flags) args = .ok a →
      fileLayer t (a.flags.textOr "config" defaultConfigFile) = .ok file → SingleKeys env →
      ∃ m, loadConfig t env Command.generate.flags a.flags = .ok m ∧
        m.scalars = scalarsOf (Layers.value? ⟨a.flags, env, file⟩)) ∧
    (loadConfig t env Command.generate.flags []).map ConfigMap.readings =
      (loadBase t defaultConfigFile env).map ConfigMap.readings := by
  constructor
  · intro args a file hargs hfile henv
    refine ⟨_, loadConfig_of_fileLayer hfile, ?_⟩
    apply scalars_of_filled
    intro flag hflag hkind
    exact lookup_loaded (hasKinds_readArguments hargs) henv (nodup_fileLayer hfile) hflag hkind
  · show (loadBase t defaultConfigFile env >>= fun below =>
      .ok (addFlags Command.generate.flags [] below)).map ConfigMap.readings = _
    cases loadBase t defaultConfigFile env with
    | error e => rfl
    | ok below => exact congrArg Except.ok (readings_addFlags_nil below)

/-- A tree with a configuration file. -/
def configuredTree : FileTree :=
  ⟨[([defaultConfigFile], .file (utf8 "dpr: 3\nquiet: true"))], [], by decide +kernel⟩

/-- The mode from a flag, the ratio from the environment over that of the file, and a truth value
from the file. -/
theorem scalars_precedence_layered :
    ∃ args a env file, readArguments (helpFlag :: Command.generate.flags) args = .ok a ∧
      fileLayer configuredTree (a.flags.textOr "config" defaultConfigFile) = .ok file ∧
      SingleKeys env ∧ (file.lookup "dpr").map ConfigValue.toText = some "3" ∧
      ∃ m, loadConfig configuredTree env Command.generate.flags a.flags = .ok m ∧
        m.scalars = scalarsOf (Layers.value? ⟨a.flags, env, file⟩) ∧
        m.scalars.run.toOption = some (".", "", .rem, .ofNat 4) ∧ m.scalars.quiet = true := by
  have hargs : readArguments (helpFlag :: Command.generate.flags) ["--mode", "rem"] =
      .ok ⟨[("mode", .text "rem")], []⟩ := rfl
  have hhidden : (fileLayer configuredTree defaultConfigFile).toOption.map (fun file =>
      (file.lookup "dpr").map ConfigValue.toText) = some (some "3") := by
    decide +kernel
  have hrun : (fileLayer configuredTree defaultConfigFile).toOption.map (fun file =>
      (scalarsOf
        (Layers.value? ⟨[("mode", .text "rem")], [("PX2REM_DPR", "4")], file⟩)).run.toOption) =
      some (some (".", "", .rem, .ofNat 4)) := by
    decide +kernel
  have hquiet : (fileLayer configuredTree defaultConfigFile).toOption.map (fun file =>
      (scalarsOf (Layers.value? ⟨[("mode", .text "rem")], [("PX2REM_DPR", "4")], file⟩)).quiet) =
      some true := by
    decide +kernel
  have henv : SingleKeys [("PX2REM_DPR", "4")] :=
    ⟨by decide +kernel, by decide +kernel⟩
  cases hfile : fileLayer configuredTree defaultConfigFile with
  | error e =>
    rw [hfile] at hquiet
    exact absurd hquiet (by simp [Except.toOption])
  | ok file =>
    rw [hfile] at hhidden hrun hquiet
    obtain ⟨m, hload, hscalars⟩ := (scalars_precedence configuredTree [("PX2REM_DPR", "4")]).1
      _ _ file hargs hfile henv
    refine ⟨_, _, _, file, hargs, hfile, henv, Option.some.inj hhidden, m, hload, hscalars, ?_, ?_⟩
    · rw [hscalars]
      exact Option.some.inj hrun
    · rw [hscalars]
      exact Option.some.inj hquiet

end PixelRem
