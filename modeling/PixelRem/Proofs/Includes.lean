import Mathlib
import PixelRem.Proofs.Precedence
import PixelRem.Proofs.Records

/-!
# The patterns of a run

Flags that give patterns decide which files a run looks for.  They are kept as a record, which
gives them back except for one empty pattern alone (`keptValue_texts`).

A variable of the environment has a text and no list.  It hides the patterns of the file as any
variable hides a value of the file, but no patterns are read from it, so the default holds
(`includes_of_environment`).  Without such a variable the patterns of the file hold.
-/

namespace PixelRem

open ConfigMap

/-! ## Patterns of flags -/

section Patterns

theorem toString?_utf8 (s : String) : (utf8 s).toString? = some s := by
  have hvalid : (⟨s.toUTF8.data.toList.toArray⟩ : ByteArray) = s.toByteArray := by
    rw [Array.toArray_toList]
    rfl
  unfold Text.toString? utf8
  rw [hvalid, String.fromUTF8?, dif_pos s.isValidUTF8]
  rfl

theorem utf8_injective {s s' : String} (h : utf8 s = utf8 s') : s = s' := by
  have htext := congrArg Text.toString? h
  rw [toString?_utf8, toString?_utf8] at htext
  exact Option.some.inj htext

/-- Patterns as a flag keeps them.  One empty pattern alone is lost, and a carriage return before
a line end goes. -/
def keptPatterns (patterns : List String) : List String :=
  if patterns = [""] then []
  else patterns.map fun s => ((Record.joinLines (utf8 s)).toString?).getD ""

theorem keptPatterns_eq_self {patterns : List String} (hempty : patterns ≠ [""])
    (hlines : ∀ s ∈ patterns, ¬[Record.carriage, Record.newline] <:+: utf8 s) :
    keptPatterns patterns = patterns := by
  rw [keptPatterns, if_neg hempty]
  conv_rhs => rw [← List.map_id patterns]
  apply List.map_congr_left
  intro s hs
  rw [Record.joinLines_eq_self (hlines s hs), toString?_utf8]
  rfl

theorem keptValue_texts (patterns : List String) :
    keptValue (.list (patterns.map .text)) = .list ((keptPatterns patterns).map .text) := by
  have hfields : (patterns.map ConfigValue.text).map (fun item => utf8 item.render) =
      patterns.map utf8 := by
    rw [List.map_map]
    rfl
  unfold keptValue
  dsimp only
  rw [hfields]
  by_cases hempty : patterns = [""]
  · subst hempty
    rfl
  · have hone : patterns.map utf8 ≠ [[]] := by
      intro h
      obtain ⟨s, hs, hnil⟩ := List.map_eq_singleton_iff.mp h
      have hblank : s = "" := utf8_injective hnil
      exact hempty (hblank ▸ hs)
    rw [Record.readBack_eq hone, keptPatterns, if_neg hempty, List.map_map, List.map_map,
      List.map_map]
    rfl

theorem toTexts_map_text (texts : List String) :
    ConfigValue.toTexts (.list (texts.map .text)) = texts := by
  show ConfigValue.renderItems (texts.map .text) = texts
  induction texts with
  | nil => rfl
  | cons s texts ih =>
    rw [List.map_cons, ConfigValue.renderItems, ih]
    rfl

end Patterns

/-! ## Variables -/

section Variables

theorem lookup_putPath_of_not_mem {key : String} {path : List String} (hkey : key ∉ path)
    (m : ConfigMap) (value : ConfigValue) :
    (putPath m value path).lookup key = m.lookup key := by
  rcases putPath_cases m value path with hsame | ⟨other, hother, v, hput, -⟩
  · rw [hsame]
  · have hne : key ≠ other := fun h => hkey (h ▸ hother)
    rw [hput, lookup_put, if_neg hne]

theorem isSome_lookup_putPath {m : ConfigMap} {key : String}
    (hkey : (m.lookup key).isSome = true) (value : ConfigValue) (path : List String) :
    ((putPath m value path).lookup key).isSome = true := by
  rcases putPath_cases m value path with hsame | ⟨other, -, v, hput, -⟩
  · rw [hsame]
    exact hkey
  · rw [hput, lookup_put]
    split_ifs
    · rfl
    · exact hkey

theorem toTexts_of_isMap {value : ConfigValue} (hvalue : value.isMap = true) :
    value.toTexts = [] := by
  cases value with
  | map fields => rfl
  | _ => exact absurd hvalue (by simp [ConfigValue.isMap])

theorem mem_putPath {m : ConfigMap} {s : String} {path : List String}
    {field : String × ConfigValue} (hfield : field ∈ putPath m (.text s) path) :
    field ∈ m ∨ field.2.toTexts = [] := by
  rcases putPath_cases m (.text s) path with hsame | ⟨key, -, v, hput, hv⟩
  · exact .inl (hsame ▸ hfield)
  · rw [hput] at hfield
    rcases mem_put hfield with rfl | hfield
    · rcases hv with rfl | hv
      · exact .inr rfl
      · exact .inr (toTexts_of_isMap hv)
    · exact .inl hfield

/-- A variable gives no list. -/
theorem toTexts_environmentLayer (env : Environment) :
    ∀ field ∈ environmentLayer env, field.2.toTexts = [] := by
  rw [environmentLayer_eq]
  have hempty : ∀ field ∈ ([] : ConfigMap), field.2.toTexts = [] := by simp
  refine List.foldlRecOn (motive := fun layer => ∀ field ∈ layer, field.2.toTexts = [])
    (settingVariables env) putVariable hempty ?_
  intro layer hlayer entry _ field hfield
  unfold putVariable at hfield
  split_ifs at hfield
  · exact hlayer field hfield
  · exact (mem_putPath hfield).elim (hlayer field) id

theorem toTexts_mergeValue {value : ConfigValue} (hvalue : value.toTexts = [])
    (old : ConfigValue) : (mergeValue value old).toTexts = [] := by
  cases hmap : value.isMap with
  | false =>
    rw [mergeValue_of_isMap_eq_false hmap]
    exact hvalue
  | true =>
    -- a map over a map is a map, and over anything else it stays
    cases value with
    | map fields => cases old <;> simp [mergeValue, ConfigValue.toTexts]
    | _ => exact absurd hmap (by simp [ConfigValue.isMap])

/-- A variable of the key makes the layer of the environment have it, whatever comes behind. -/
theorem isSome_lookup_foldl {vs : List (String × String)} {layer : ConfigMap} {key : String}
    (hkey : (layer.lookup key).isSome = true) :
    ((vs.foldl putVariable layer).lookup key).isSome = true := by
  refine List.foldlRecOn (motive := fun layer => (List.lookup key layer).isSome = true) vs
    putVariable hkey ?_
  intro layer hlayer entry _
  unfold putVariable
  split_ifs
  · exact hlayer
  · exact isSome_lookup_putPath hlayer _ _

theorem isSome_lookup_environmentLayer {env : Environment} {entry : String × String}
    (hentry : entry ∈ settingVariables env) (hdot : '.' ∉ entry.1.toList) (hkey : entry.1 ≠ "") :
    ((environmentLayer env).lookup entry.1).isSome = true := by
  obtain ⟨before, behind, hsplit⟩ := List.append_of_mem hentry
  rw [environmentLayer_eq, hsplit, List.foldl_append, List.foldl_cons]
  apply isSome_lookup_foldl
  rw [putVariable_of_not_mem _ hdot, if_neg hkey, lookup_put, if_pos rfl]
  rfl

theorem lookup_environmentLayer_eq_none {env : Environment} {key : String}
    (hkey : ∀ entry ∈ settingVariables env, key ∉ keyPath entry.1) :
    (environmentLayer env).lookup key = none := by
  rw [environmentLayer_eq]
  refine List.foldlRecOn (motive := fun layer => List.lookup key layer = none)
    (settingVariables env) putVariable rfl ?_
  intro layer hlayer entry hentry
  unfold putVariable
  split_ifs
  · exact hlayer
  · rw [lookup_putPath_of_not_mem (hkey entry hentry)]
    exact hlayer

end Variables

/-! ## Patterns of a configuration -/

section Loading

/-- Patterns, or the default where there are none. -/
def patternsOr (patterns : List String) : List String :=
  if patterns.isEmpty then [defaultInclude] else patterns

/-- Whether a configuration is loaded whose run looks for the given patterns.  Only an unknown mode
keeps it from a run. -/
def Includes (t : FileTree) (env : Environment) (set : ConfigMap) (patterns : List String) : Prop :=
  ∃ m, loadConfig t env Command.generate.flags set = .ok m ∧
    m.runConfig.map RunConfig.includes =
      (Mode.ofName (m.textOr "mode" Mode.all.name)).map fun _ => patterns

variable {t : FileTree} {env : Environment} {set file : ConfigMap}

theorem includes_of_lookup (env : Environment) (hset : ∀ field ∈ set, field.2.isMap = false)
    (hfile : fileLayer t (set.textOr "config" defaultConfigFile) = .ok file)
    {value : ConfigValue} (hvalue : (((set.lookup "include").map keptValue).or
      ((baseMap env file).lookup "include")).getD (.list []) = value) :
    Includes t env set (patternsOr value.toTexts) := by
  refine ⟨_, loadConfig_of_fileLayer hfile, ?_⟩
  have hlookup := lookup_conversionFlags hset includeFlag_mem (baseMap env file)
  have htexts : (addFlags Command.generate.flags set (baseMap env file)).textsOr "include"
      [defaultInclude] = patternsOr value.toTexts := by
    unfold ConfigMap.textsOr
    rw [hlookup, hvalue]
    rfl
  unfold ConfigMap.runConfig
  rw [htexts]
  cases Mode.ofName _ <;> rfl

theorem toTexts_baseMap (env : Environment) (file : ConfigMap) (key : String)
    (hkey : ((environmentLayer env).lookup key).isSome = true) :
    (((baseMap env file).lookup key).getD (.list [])).toTexts = [] := by
  obtain ⟨value, hvalue⟩ := Option.isSome_iff_exists.mp hkey
  have htexts := toTexts_environmentLayer env _ (mem_of_lookup_eq_some hvalue)
  unfold baseMap
  rw [lookup_merge (nodup_environmentLayer env), hvalue]
  cases (merge file []).lookup key with
  | none => exact htexts
  | some old => exact toTexts_mergeValue htexts old

theorem lookup_baseMap_of_none {key : String} (hfile : file.keys.Nodup)
    (hkey : (environmentLayer env).lookup key = none) :
    (baseMap env file).lookup key = file.lookup key := by
  unfold baseMap
  rw [lookup_merge (nodup_environmentLayer env), hkey, lookup_merge_nil hfile]
  rfl

/-- The patterns of a flag hold over everything else. -/
theorem includes_of_flag (hset : ∀ field ∈ set, field.2.isMap = false)
    (hfile : fileLayer t (set.textOr "config" defaultConfigFile) = .ok file)
    {patterns : List String}
    (hflag : set.lookup "include" = some (.list (patterns.map .text))) :
    Includes t env set (patternsOr (keptPatterns patterns)) := by
  rw [← toTexts_map_text (keptPatterns patterns), ← keptValue_texts]
  apply includes_of_lookup env hset hfile
  rw [hflag]
  rfl

/-- A variable hides the patterns of the file, and the default holds. -/
theorem includes_of_environment (hset : ∀ field ∈ set, field.2.isMap = false)
    (hfile : fileLayer t (set.textOr "config" defaultConfigFile) = .ok file)
    (hflag : set.lookup "include" = none)
    (henv : ((environmentLayer env).lookup "include").isSome = true) :
    Includes t env set [defaultInclude] := by
  have hincludes := includes_of_lookup env hset hfile rfl
  rw [hflag, Option.map_none, Option.none_or, toTexts_baseMap env file "include" henv] at hincludes
  exact hincludes

/-- Without a flag and a variable the patterns of the file hold. -/
theorem includes_of_file (hset : ∀ field ∈ set, field.2.isMap = false)
    (hfile : fileLayer t (set.textOr "config" defaultConfigFile) = .ok file)
    (hflag : set.lookup "include" = none)
    (henv : (environmentLayer env).lookup "include" = none) :
    Includes t env set (patternsOr ((file.lookup "include").elim [] ConfigValue.toTexts)) := by
  have hincludes := includes_of_lookup env hset hfile rfl
  rw [hflag, Option.map_none, Option.none_or,
    lookup_baseMap_of_none (nodup_fileLayer hfile) henv] at hincludes
  cases hvalue : file.lookup "include" with
  | none =>
    rw [hvalue] at hincludes
    exact hincludes
  | some value =>
    rw [hvalue] at hincludes
    exact hincludes

end Loading

/-- The patterns of a run are those of the flag if it is set.  If it is not, a variable of the
environment leaves the default, whatever its text and whatever the file says; and without such a
variable the patterns of the file hold, or the default if it has none. -/
theorem includes_precedence (t : FileTree) (env : Environment) (args : List String) (a : Arguments)
    (file : ConfigMap) (hargs : readArguments (helpFlag :: Command.generate.flags) args = .ok a)
    (hfile : fileLayer t (a.flags.textOr "config" defaultConfigFile) = .ok file) :
    (∀ patterns, a.flags.lookup "include" = some (.list (patterns.map .text)) →
      Includes t env a.flags (patternsOr (keptPatterns patterns)) ∧
        (patterns ≠ [""] → (∀ s ∈ patterns, ¬[Record.carriage, Record.newline] <:+: utf8 s) →
          keptPatterns patterns = patterns)) ∧
    (a.flags.lookup "include" = none →
      (((environmentLayer env).lookup "include").isSome = true →
        Includes t env a.flags [defaultInclude]) ∧
      ((environmentLayer env).lookup "include" = none →
        Includes t env a.flags
          (patternsOr ((file.lookup "include").elim [] ConfigValue.toTexts)))) ∧
    (∀ entry ∈ settingVariables env, entry.1 = "include" →
      ((environmentLayer env).lookup "include").isSome = true) ∧
    ((∀ entry ∈ settingVariables env, "include" ∉ keyPath entry.1) →
      (environmentLayer env).lookup "include" = none) := by
  have hset := (hasKinds_readArguments hargs).isMap
  refine ⟨?_, ?_, ?_, lookup_environmentLayer_eq_none⟩
  · intro patterns hflag
    exact ⟨includes_of_flag hset hfile hflag, keptPatterns_eq_self⟩
  · intro hflag
    exact ⟨includes_of_environment hset hfile hflag, includes_of_file hset hfile hflag⟩
  · intro entry hentry hkey
    have hdot : '.' ∉ entry.1.toList := by
      rw [hkey]
      decide
    have hsome := isSome_lookup_environmentLayer hentry hdot (by simp [hkey])
    rwa [hkey] at hsome

/-- A tree with a configuration file that lists a pattern. -/
def listedTree : FileTree :=
  ⟨[([defaultConfigFile], .file (utf8 "include: [z.css]"))], [], by decide +kernel⟩

/-- A flag over a variable over the file, the variable over the file, and the file alone. -/
theorem includes_precedence_listed :
    ∃ file a b, fileLayer listedTree defaultConfigFile = .ok file ∧
      (file.lookup "include").elim [] ConfigValue.toTexts = ["z.css"] ∧
      readArguments (helpFlag :: Command.generate.flags) ["--include", "b.css,c.css"] = .ok a ∧
      readArguments (helpFlag :: Command.generate.flags) [] = .ok b ∧
      Includes listedTree [("PX2REM_INCLUDE", "a.css")] a.flags ["b.css", "c.css"] ∧
      Includes listedTree [("PX2REM_INCLUDE", "a.css")] b.flags [defaultInclude] ∧
      Includes listedTree [] b.flags ["z.css"] := by
  have hargs : readArguments (helpFlag :: Command.generate.flags) ["--include", "b.css,c.css"] =
      .ok ⟨[("include", .list (["b.css", "c.css"].map .text))], []⟩ := rfl
  have hnone : readArguments (helpFlag :: Command.generate.flags) [] = .ok ⟨[], []⟩ := rfl
  have hlisted : (fileLayer listedTree defaultConfigFile).toOption.map (fun file =>
      (file.lookup "include").elim [] ConfigValue.toTexts) = some ["z.css"] := by
    decide +kernel
  cases hfile : fileLayer listedTree defaultConfigFile with
  | error e =>
    rw [hfile] at hlisted
    exact absurd hlisted (by simp [Except.toOption])
  | ok file =>
    rw [hfile] at hlisted
    have hpatterns : (file.lookup "include").elim [] ConfigValue.toTexts = ["z.css"] :=
      Option.some.inj hlisted
    have hflag := (includes_precedence listedTree [("PX2REM_INCLUDE", "a.css")] _ _ file hargs
      hfile).1 ["b.css", "c.css"] rfl
    rw [hflag.2 (by decide) (by decide +kernel)] at hflag
    have hhidden := includes_precedence listedTree [("PX2REM_INCLUDE", "a.css")] _ _ file hnone
      hfile
    have hplain := includes_precedence listedTree [] _ _ file hnone hfile
    refine ⟨file, _, _, rfl, hpatterns, hargs, hnone, hflag.1, ?_, ?_⟩
    · exact (hhidden.2.1 rfl).1 (hhidden.2.2.1 ("include", "a.css") (by decide +kernel) rfl)
    · have hfromFile := (hplain.2.1 rfl).2 rfl
      rw [hpatterns] at hfromFile
      exact hfromFile

/-- The pattern of a variable is not looked for, and neither is the one of the file. -/
theorem variable_hides_patterns :
    (loadConfig listedTree [("PX2REM_INCLUDE", "a.css")] Command.generate.flags []).toOption.bind
      (fun m => m.runConfig.toOption.map RunConfig.includes) = some ["**/*.css"] := by
  decide +kernel

end PixelRem
