import Mathlib
import PixelRem.Config.Load

/-!
# Lookups in configuration maps

What a key gives in a map that was put together:

* `lookup_put`, `lookup_merge`: one key set, and one map laid over another.  A map is merged into a
  map below it, so only a flat layer hides what is below its keys (`lookup_merge_of_isFlat`).
* `lookup_addFlags`: the value of a flag that is set, else what the map has, else the value that
  the flag brings along.
* `lookup_environmentLayer`: where every variable has its own key and no key has a dot, the
  variable of the key.
-/

namespace PixelRem

/-- Whether a value is a map. -/
def ConfigValue.isMap : ConfigValue → Bool
  | .map _ => true
  | _ => false

namespace ConfigMap

/-- The keys of a map. -/
def keys (m : ConfigMap) : List String :=
  m.map Prod.fst

/-- Whether a map has every key once and no map below a key. -/
structure IsFlat (m : ConfigMap) : Prop where
  nodup : m.keys.Nodup
  values : ∀ field ∈ m, field.2.isMap = false

/-! ## Single keys -/

section Put

variable {m : ConfigMap}

theorem lookup_eq_none_of_not_mem {key : String} (hkey : key ∉ m.keys) : m.lookup key = none := by
  rw [List.lookup_eq_none_iff]
  intro field hfield
  have hne : key ≠ field.1 := fun heq => hkey (heq ▸ List.mem_map_of_mem hfield)
  simpa using hne

theorem mem_of_lookup_eq_some {key : String} {value : ConfigValue}
    (hvalue : m.lookup key = some value) : (key, value) ∈ m := by
  obtain ⟨before, after, rfl, -⟩ := List.lookup_eq_some_iff.mp hvalue
  simp

theorem lookup_cons (field : String × ConfigValue) (m : ConfigMap) (key : String) :
    List.lookup key (field :: m) = if key = field.1 then some field.2 else m.lookup key := by
  rw [List.lookup_cons]
  by_cases hkey : key = field.1
  · simp [hkey]
  · rw [if_neg hkey, beq_false_of_ne hkey]

theorem lookup_put (m : ConfigMap) (key : String) (value : ConfigValue) (k : String) :
    (m.put key value).lookup k = if k = key then some value else m.lookup k := by
  induction m with
  | nil => exact lookup_cons (key, value) [] k
  | cons field m ih =>
    rw [put, lookup_cons]
    by_cases hfield : field.1 = key
    · rw [if_pos hfield, lookup_cons, hfield]
      split_ifs <;> rfl
    · rw [if_neg hfield, lookup_cons, ih]
      by_cases hk : k = field.1
      · rw [if_pos hk, if_neg (hk ▸ hfield), if_pos hk]
      · rw [if_neg hk, if_neg hk]

theorem mem_put {key : String} {value : ConfigValue} {field : String × ConfigValue}
    (hfield : field ∈ m.put key value) : field = (key, value) ∨ field ∈ m := by
  induction m with
  | nil => exact .inl (List.mem_singleton.mp hfield)
  | cons first m ih =>
    rw [put] at hfield
    split_ifs at hfield with hkey
    · rcases List.mem_cons.mp hfield with hfirst | hrest
      · exact .inl hfirst
      · exact .inr (List.mem_cons_of_mem first hrest)
    · rcases List.mem_cons.mp hfield with hfirst | hrest
      · exact .inr (hfirst ▸ List.mem_cons_self)
      · exact (ih hrest).imp_right (List.mem_cons_of_mem first)

theorem mem_keys_put {key k : String} {value : ConfigValue} (hk : k ∈ (m.put key value).keys) :
    k = key ∨ k ∈ m.keys := by
  obtain ⟨field, hfield, rfl⟩ := List.mem_map.mp hk
  exact (mem_put hfield).imp (congrArg Prod.fst) fun hmem => List.mem_map_of_mem hmem

theorem nodup_put (hm : m.keys.Nodup) (key : String) (value : ConfigValue) :
    (m.put key value).keys.Nodup := by
  induction m with
  | nil => exact List.nodup_singleton key
  | cons field m ih =>
    obtain ⟨hfield, hrest⟩ := List.nodup_cons.mp hm
    rw [put]
    split_ifs with hkey
    · exact List.nodup_cons.mpr ⟨hkey ▸ hfield, hrest⟩
    · refine List.nodup_cons.mpr ⟨?_, ih hrest⟩
      intro hmem
      exact (mem_keys_put hmem).elim hkey hfield

end Put

/-! ## Merged maps -/

section Merge

variable {upper below : ConfigMap}

theorem mergeValue_of_isMap_eq_false {value : ConfigValue} (hvalue : value.isMap = false)
    (old : ConfigValue) : mergeValue value old = value := by
  cases value with
  | map fields => exact absurd hvalue (by simp [ConfigValue.isMap])
  | _ => rw [mergeValue]; simp

theorem lookup_merge (hkeys : upper.keys.Nodup) (below : ConfigMap) (key : String) :
    (merge upper below).lookup key =
      ((upper.lookup key).map fun value => (below.lookup key).elim value (mergeValue value)).or
        (below.lookup key) := by
  unfold merge
  induction upper generalizing below with
  | nil => simp [mergeFields]
  | cons field upper ih =>
    obtain ⟨hfield, hrest⟩ := List.nodup_cons.mp hkeys
    have hlaid : mergeFields (field :: upper) below = mergeFields upper
        (put below field.1 ((below.lookup field.1).elim field.2 (mergeValue field.2))) := by
      rw [mergeFields]
      cases below.lookup field.1 <;> rfl
    rw [hlaid, ih hrest, lookup_put, lookup_cons]
    by_cases hkey : key = field.1
    · subst hkey
      rw [lookup_eq_none_of_not_mem hfield]
      simp
    · simp only [if_neg hkey]

/-- A map with every key once is not changed by laying it over nothing. -/
theorem lookup_merge_nil (hkeys : upper.keys.Nodup) (key : String) :
    (merge upper []).lookup key = upper.lookup key := by
  rw [lookup_merge hkeys]
  simp

/-- A flat map hides what is below its keys. -/
theorem lookup_merge_of_isFlat (hupper : upper.IsFlat) (below : ConfigMap) (key : String) :
    (merge upper below).lookup key = (upper.lookup key).or (below.lookup key) := by
  rw [lookup_merge hupper.nodup]
  cases hvalue : upper.lookup key with
  | none => rfl
  | some value =>
    have hplain := hupper.values _ (mem_of_lookup_eq_some hvalue)
    cases below.lookup key with
    | none => rfl
    | some old => simp [mergeValue_of_isMap_eq_false hplain]

end Merge

end ConfigMap

/-! ## Flags -/

section Flags

open ConfigMap

variable {flags : List Flag} {set : ConfigMap}

/-- The value that a flag brings into a map. -/
def flagValue? (set below : ConfigMap) (flag : Flag) : Option ConfigValue :=
  ((set.lookup flag.name).map keptValue).or
    (if (below.lookup flag.name).isSome then none else some flag.default)

theorem flagLayer_eq (flags : List Flag) (set below : ConfigMap) :
    flagLayer flags set below =
      flags.filterMap fun flag => (flagValue? set below flag).map (flag.name, ·) := by
  unfold flagLayer
  congr 1
  funext flag
  unfold flagValue?
  cases set.lookup flag.name with
  | some value => rfl
  | none =>
    simp only [Option.map_none, Option.none_or]
    split_ifs <;> rfl

theorem isMap_keptValue {value : ConfigValue} (hvalue : value.isMap = false) :
    (keptValue value).isMap = false := by
  cases value <;> exact hvalue

theorem keys_flagLayer_sublist (flags : List Flag) (set below : ConfigMap) :
    (flagLayer flags set below).keys.Sublist (flags.map Flag.name) := by
  rw [flagLayer_eq]
  induction flags with
  | nil => exact List.Sublist.slnil
  | cons flag flags ih =>
    rw [List.filterMap_cons, List.map_cons]
    cases flagValue? set below flag with
    | none => exact ih.cons flag.name
    | some value => exact ih.cons_cons flag.name

theorem isFlat_flagLayer (hnames : (flags.map Flag.name).Nodup)
    (hdefaults : ∀ flag ∈ flags, flag.default.isMap = false)
    (hset : ∀ field ∈ set, field.2.isMap = false) (below : ConfigMap) :
    (flagLayer flags set below).IsFlat := by
  refine ⟨hnames.sublist (keys_flagLayer_sublist flags set below), ?_⟩
  intro field hfield
  rw [flagLayer_eq, List.mem_filterMap] at hfield
  obtain ⟨flag, hflag, hentry⟩ := hfield
  obtain ⟨value, hvalue, rfl⟩ := Option.map_eq_some_iff.mp hentry
  unfold flagValue? at hvalue
  cases hlookup : set.lookup flag.name with
  | some given =>
    rw [hlookup] at hvalue
    rw [← Option.some.inj hvalue]
    exact isMap_keptValue (hset _ (mem_of_lookup_eq_some hlookup))
  | none =>
    rw [hlookup, Option.map_none, Option.none_or] at hvalue
    split_ifs at hvalue
    rw [← Option.some.inj hvalue]
    exact hdefaults flag hflag

theorem lookup_flagLayer (hnames : (flags.map Flag.name).Nodup) {flag : Flag}
    (hflag : flag ∈ flags) (below : ConfigMap) :
    (flagLayer flags set below).lookup flag.name = flagValue? set below flag := by
  induction flags with
  | nil => exact absurd hflag List.not_mem_nil
  | cons first flags ih =>
    obtain ⟨hfirst, hrest⟩ := List.nodup_cons.mp hnames
    have htail : flagLayer (first :: flags) set below =
        ((flagValue? set below first).map (first.name, ·)).toList ++ flagLayer flags set below := by
      rw [flagLayer_eq, flagLayer_eq, List.filterMap_cons]
      cases flagValue? set below first <;> rfl
    rw [htail]
    rcases List.mem_cons.mp hflag with rfl | hflag
    · have hkey : flag.name ∉ (flagLayer flags set below).keys := fun hmem =>
        hfirst ((keys_flagLayer_sublist flags set below).subset hmem)
      cases flagValue? set below flag with
      | none => exact lookup_eq_none_of_not_mem hkey
      | some value => exact (lookup_cons _ _ _).trans (if_pos rfl)
    · have hne : flag.name ≠ first.name := fun heq => hfirst (heq ▸ List.mem_map_of_mem hflag)
      cases flagValue? set below first with
      | none => exact ih hrest hflag
      | some value => exact ((lookup_cons _ _ _).trans (if_neg hne)).trans (ih hrest hflag)

/-- A flag that is set gives its value, whatever the map has.  One that is not leaves the value
of the map, and gives its own only where there is none. -/
theorem lookup_addFlags (hnames : (flags.map Flag.name).Nodup)
    (hdefaults : ∀ flag ∈ flags, flag.default.isMap = false)
    (hset : ∀ field ∈ set, field.2.isMap = false) {flag : Flag} (hflag : flag ∈ flags)
    (below : ConfigMap) :
    (addFlags flags set below).lookup flag.name =
      some ((((set.lookup flag.name).map keptValue).or (below.lookup flag.name)).getD
        flag.default) := by
  unfold addFlags
  rw [lookup_merge_of_isFlat (isFlat_flagLayer hnames hdefaults hset below),
    lookup_flagLayer hnames hflag]
  unfold flagValue?
  cases set.lookup flag.name with
  | some value => rfl
  | none => cases below.lookup flag.name <;> rfl

end Flags

/-! ## The environment -/

section Environment

open ConfigMap

/-- The keys and values of the variables for settings. -/
def settingVariables (env : Environment) : List (String × String) :=
  (env.filter fun entry => variableMark.toList.isPrefixOf entry.1.toList).map
    fun entry => (variableKey entry.1, entry.2)

/-- Whether every variable for a setting has a key of its own, without a dot. -/
structure SingleKeys (env : Environment) : Prop where
  nodup : ((settingVariables env).map Prod.fst).Nodup
  plain : ∀ entry ∈ settingVariables env, '.' ∉ entry.1.toList

/-- Adds a variable to the layer of the environment. -/
def putVariable (layer : ConfigMap) (entry : String × String) : ConfigMap :=
  if entry.1.isEmpty then layer else putPath layer (.text entry.2) (keyPath entry.1)

theorem environmentLayer_eq (env : Environment) :
    environmentLayer env = (settingVariables env).foldl putVariable [] := by
  unfold environmentLayer settingVariables
  rw [List.foldl_map]
  rfl

theorem keyPath_go_of_not_mem (part s : List Char) (hs : '.' ∉ s) :
    keyPath.go part s = [part.reverse ++ s] := by
  induction s generalizing part with
  | nil => rw [keyPath.go, List.append_nil]
  | cons c s ih =>
    obtain ⟨hc, hs⟩ := not_or.mp (mt List.mem_cons.mpr hs)
    rw [keyPath.go, if_neg (Ne.symm hc), ih (c :: part) hs, List.reverse_cons, List.append_assoc]
    rfl

/-- A key without a dot leads nowhere. -/
theorem keyPath_of_not_mem {key : String} (hkey : '.' ∉ key.toList) : keyPath key = [key] := by
  rw [keyPath, keyPath_go_of_not_mem [] key.toList hkey]
  simp

/-- A variable without a dot in its key sets the key. -/
theorem putVariable_of_not_mem (layer : ConfigMap) {entry : String × String}
    (hentry : '.' ∉ entry.1.toList) :
    putVariable layer entry =
      if entry.1 = "" then layer else put layer entry.1 (.text entry.2) := by
  unfold putVariable
  rw [keyPath_of_not_mem hentry]
  simp only [String.isEmpty_iff]
  rfl

/-- A path of keys sets one of its keys at most, to the value or to a map that leads to it. -/
theorem putPath_cases (m : ConfigMap) (value : ConfigValue) (path : List String) :
    putPath m value path = m ∨ ∃ key ∈ path, ∃ v, putPath m value path = put m key v ∧
      (v = value ∨ v.isMap = true) := by
  induction path with
  | nil => exact .inl rfl
  | cons key path ih =>
    cases path with
    | nil => exact .inr ⟨key, List.mem_cons_self, value, rfl, .inl rfl⟩
    | cons next path =>
      rw [putPath]
      split
      · exact .inr ⟨key, List.mem_cons_self, _, rfl, .inr rfl⟩
      · exact .inr ⟨key, List.mem_cons_self, _, rfl, .inr rfl⟩
      · -- the key holds something else and is passed over
        rcases ih with hsame | ⟨other, hother, v, hput, hv⟩
        · exact .inl hsame
        · exact .inr ⟨other, List.mem_cons_of_mem key hother, v, hput, hv⟩
      · simp

theorem nodup_putPath {m : ConfigMap} (hm : m.keys.Nodup) (value : ConfigValue)
    (path : List String) : (putPath m value path).keys.Nodup := by
  rcases putPath_cases m value path with hsame | ⟨key, -, v, hput, -⟩
  · rw [hsame]
    exact hm
  · rw [hput]
    exact nodup_put hm key v

theorem nodup_putVariable {layer : ConfigMap} (hlayer : layer.keys.Nodup)
    (entry : String × String) : (putVariable layer entry).keys.Nodup := by
  unfold putVariable
  split_ifs
  · exact hlayer
  · exact nodup_putPath hlayer _ _

/-- The layer of the environment has every key once. -/
theorem nodup_environmentLayer (env : Environment) : (environmentLayer env).keys.Nodup := by
  rw [environmentLayer_eq]
  have hempty : (keys []).Nodup := List.nodup_nil
  exact List.foldlRecOn (motive := fun layer => (keys layer).Nodup) (settingVariables env)
    putVariable hempty fun layer hlayer entry _ => nodup_putVariable hlayer entry

theorem isFlat_foldl_putVariable {vs : List (String × String)}
    (hplain : ∀ entry ∈ vs, '.' ∉ entry.1.toList) :
    (vs.foldl putVariable []).IsFlat := by
  refine List.foldlRecOn vs putVariable ⟨List.nodup_nil, by simp⟩ ?_
  intro layer hlayer entry hentry
  refine ⟨nodup_putVariable hlayer.nodup entry, ?_⟩
  intro field hfield
  rw [putVariable_of_not_mem layer (hplain entry hentry)] at hfield
  split_ifs at hfield
  · exact hlayer.values field hfield
  · rcases mem_put hfield with rfl | hfield
    · rfl
    · exact hlayer.values field hfield

theorem lookup_foldl_putVariable {vs : List (String × String)} (hnodup : (vs.map Prod.fst).Nodup)
    (hplain : ∀ entry ∈ vs, '.' ∉ entry.1.toList) (layer : ConfigMap) {key : String}
    (hkey : key ≠ "") :
    (vs.foldl putVariable layer).lookup key =
      ((vs.lookup key).map ConfigValue.text).or (layer.lookup key) := by
  induction vs generalizing layer with
  | nil => rfl
  | cons entry vs ih =>
    obtain ⟨hfirst, hrest⟩ := List.nodup_cons.mp hnodup
    have htail := fun v hv => hplain v (List.mem_cons_of_mem entry hv)
    rw [List.foldl_cons, ih hrest htail, List.lookup_cons,
      putVariable_of_not_mem layer (hplain entry List.mem_cons_self)]
    by_cases hname : key = entry.1
    · subst hname
      have hnone : vs.lookup entry.1 = none := by
        rw [List.lookup_eq_none_iff]
        intro v hv
        have hne : entry.1 ≠ v.1 := fun heq => hfirst (heq ▸ List.mem_map_of_mem hv)
        simpa using hne
      rw [hnone, if_neg hkey, lookup_put]
      simp
    · rw [beq_false_of_ne hname]
      split_ifs
      · rfl
      · rw [lookup_put, if_neg hname]

/-- Where every variable has a key of its own without a dot, a key has the text of its variable. -/
theorem lookup_environmentLayer {env : Environment} (henv : SingleKeys env) {key : String}
    (hkey : key ≠ "") :
    (environmentLayer env).lookup key =
      ((settingVariables env).lookup key).map ConfigValue.text := by
  rw [environmentLayer_eq, lookup_foldl_putVariable henv.nodup henv.plain [] hkey]
  simp

theorem isFlat_environmentLayer {env : Environment} (henv : SingleKeys env) :
    (environmentLayer env).IsFlat := by
  rw [environmentLayer_eq]
  exact isFlat_foldl_putVariable henv.plain

end Environment

end PixelRem
