import Mathlib
import PixelRem.Proofs.ConfigMaps

/-!
# The values of flags

Whatever the arguments are, a flag that they set has a value of its kind.  This is kept by setting
one flag (`HasKinds.set`), and so by every reader of arguments up to `hasKinds_readArguments`.
-/

namespace PixelRem

/-- Whether a value is of a kind. -/
def FlagKind.Admits : FlagKind → ConfigValue → Prop
  | .bool, value => ∃ b, value = .bool b
  | .text, value => ∃ s, value = .text s
  | .real, value => ∃ x, value = .real x
  | .whole, value => ∃ n, value = .int n
  | .texts, value => ∃ texts : List String, value = .list (texts.map .text)

/-- Whether every value is of the kind of its flag. -/
def HasKinds (flags : List Flag) (set : ConfigMap) : Prop :=
  ∀ field ∈ set, ∃ flag ∈ flags, flag.name = field.1 ∧ flag.kind.Admits field.2

section Values

variable {kind : FlagKind} {value : ConfigValue}

theorem FlagKind.admits_of_read {s : String} (hread : kind.read s = .ok value) :
    kind.Admits value := by
  cases kind with
  | bool =>
    simp only [FlagKind.read] at hread
    split_ifs at hread
    · exact ⟨true, (Except.ok.inj hread).symm⟩
    · exact ⟨false, (Except.ok.inj hread).symm⟩
  | text => exact ⟨s, (Except.ok.inj hread).symm⟩
  | real =>
    simp only [FlagKind.read] at hread
    split at hread
    · exact ⟨_, (Except.ok.inj hread).symm⟩
    · exact absurd hread (by simp)
  | whole =>
    simp only [FlagKind.read] at hread
    split at hread
    · exact ⟨_, (Except.ok.inj hread).symm⟩
    · exact absurd hread (by simp)
  | texts =>
    simp only [FlagKind.read] at hread
    split_ifs at hread
    · exact ⟨[], (Except.ok.inj hread).symm⟩
    · split at hread
      · rename_i fields hfields
        refine ⟨fields.map fun t => t.toString?.getD "", ?_⟩
        rw [← Except.ok.inj hread, List.map_map]
        rfl
      · exact absurd hread (by simp)

theorem FlagKind.Admits.isMap (hvalue : kind.Admits value) : value.isMap = false := by
  cases kind <;> obtain ⟨_, rfl⟩ := hvalue <;> rfl

/-- Only lists are not kept as they are. -/
theorem FlagKind.Admits.keptValue_eq (hvalue : kind.Admits value) (hkind : kind ≠ .texts) :
    keptValue value = value := by
  cases kind with
  | texts => exact absurd rfl hkind
  | bool | text | real | whole =>
    obtain ⟨_, rfl⟩ := hvalue
    rfl

/-- A list is a value of the one kind that has lists. -/
theorem FlagKind.Admits.texts_of_list {items : List ConfigValue}
    (hvalue : kind.Admits (.list items)) :
    kind = .texts ∧ ∃ texts : List String, items = texts.map .text := by
  cases kind with
  | texts =>
    obtain ⟨texts, htexts⟩ := hvalue
    exact ⟨rfl, texts, ConfigValue.list.inj htexts⟩
  | bool | text | real | whole =>
    obtain ⟨_, hother⟩ := hvalue
    exact absurd hother (by simp)

end Values

/-! ## Reading arguments -/

section Reading

variable {flags : List Flag} {a : Arguments}

theorem HasKinds.isMap {set : ConfigMap} (hset : HasKinds flags set) :
    ∀ field ∈ set, field.2.isMap = false := by
  intro field hfield
  obtain ⟨_, _, _, hadmits⟩ := hset field hfield
  exact hadmits.isMap

theorem HasKinds.set {b : Arguments} {flag : Flag} {s : String} (ha : HasKinds flags a.flags)
    (hflag : flag ∈ flags) (hset : a.set flag s = .ok b) : HasKinds flags b.flags := by
  unfold Arguments.set at hset
  split at hset
  · exact absurd hset (by simp)
  · rename_i new hread
    have hnew := FlagKind.admits_of_read hread
    rw [← Except.ok.inj hset]
    intro field hfield
    rcases ConfigMap.mem_put hfield with rfl | hfield
    · refine ⟨flag, hflag, rfl, ?_⟩
      dsimp only
      split
      · -- a list is put behind the one that was there
        rename_i items before hbefore
        obtain ⟨hkind, texts, rfl⟩ := hnew.texts_of_list
        obtain ⟨other, -, -, hother⟩ := ha _ (ConfigMap.mem_of_lookup_eq_some hbefore)
        obtain ⟨-, earlier, rfl⟩ := hother.texts_of_list
        rw [hkind, ← List.map_append]
        exact ⟨_, rfl⟩
      · exact hnew
    · exact ha field hfield

/-- What a reader of one argument keeps: the values are of their kinds, and a flag that waits for
its value is known. -/
def KeepsKinds (flags : List Flag) (result : Except FlagError (Arguments × Option Flag)) : Prop :=
  ∀ b waiting, result = .ok (b, waiting) →
    HasKinds flags b.flags ∧ ∀ flag ∈ waiting, flag ∈ flags

theorem keepsKinds_set (ha : HasKinds flags a.flags) {flag : Flag} (hflag : flag ∈ flags)
    (s : String) :
    KeepsKinds flags (do return (← a.set flag s, none)) := by
  intro b waiting hread
  cases hset : a.set flag s with
  | error e =>
    rw [hset] at hread
    exact absurd hread (by simp [bind, Except.bind])
  | ok c =>
    rw [hset] at hread
    cases hread
    exact ⟨ha.set hflag hset, by simp⟩

theorem keepsKinds_readName (ha : HasKinds flags a.flags) (arg : String) (text : List Char) :
    KeepsKinds flags (readName flags a arg text) := by
  unfold readName
  dsimp only
  split_ifs
  · intro b waiting hread
    exact absurd hread (by simp)
  · split
    · intro b waiting hread
      exact absurd hread (by simp)
    · rename_i flag _ value hflag _
      exact keepsKinds_set ha (List.mem_of_find?_eq_some hflag) _
    · rename_i flag hflag _
      have hmem := List.mem_of_find?_eq_some hflag
      split_ifs
      · exact keepsKinds_set ha hmem _
      · intro b waiting hread
        cases hread
        exact ⟨ha, by simpa using hmem⟩

theorem keepsKinds_readLetters (ha : HasKinds flags a.flags) (letters : List Char) :
    KeepsKinds flags (readLetters flags a letters) := by
  fun_induction readLetters flags a letters with
  | case1 a =>
    intro b waiting hread
    cases hread
    exact ⟨ha, by simp⟩
  | case2 a c s hflag =>
    intro b waiting hread
    exact absurd hread (by simp)
  | case3 a c flag hflag d value =>
    exact keepsKinds_set ha (List.mem_of_find?_eq_some hflag) _
  | case4 a c flag hflag s hs hkind b hset ih =>
    exact ih (ha.set (List.mem_of_find?_eq_some hflag) hset)
  | case5 =>
    intro b waiting hread
    exact absurd hread (by simp)
  | case6 a c flag hflag s hs hkind hempty =>
    intro b waiting hread
    cases hread
    exact ⟨ha, by simpa using List.mem_of_find?_eq_some hflag⟩
  | case7 a c flag hflag s hs hkind hempty =>
    exact keepsKinds_set ha (List.mem_of_find?_eq_some hflag) _

theorem hasKinds_readFrom {b : Arguments} {waiting : Option Flag} {args : List String}
    (ha : HasKinds flags a.flags) (hwaiting : ∀ flag ∈ waiting, flag ∈ flags)
    (hread : readFrom flags a waiting args = .ok b) : HasKinds flags b.flags := by
  fun_induction readFrom flags a waiting args with
  | case1 a =>
    cases hread
    exact ha
  | case2 a flag => exact absurd hread (by simp)
  | case3 a flag value args c hset ih =>
    exact ih (ha.set (hwaiting flag rfl) hset) (by simp) hread
  | case4 => exact absurd hread (by simp)
  | case5 a arg args =>
    cases hread
    exact ha
  | case6 a arg args text htext hne c waiting hname ih =>
    obtain ⟨hc, hwaits⟩ := keepsKinds_readName ha arg text c waiting hname
    exact ih hc hwaits hread
  | case7 => exact absurd hread (by simp)
  | case8 a arg args c letters hletters _ _ d waiting hread' ih =>
    obtain ⟨hc, hwaits⟩ := keepsKinds_readLetters ha (c :: letters) d waiting hread'
    exact ih hc hwaits hread
  | case9 => exact absurd hread (by simp)
  | case10 a arg args _ _ _ ih => exact ih ha (by simp) hread

/-- A flag that arguments set has a value of its kind. -/
theorem hasKinds_readArguments {args : List String} (hread : readArguments flags args = .ok a) :
    HasKinds flags a.flags := by
  have hempty : HasKinds flags [] := by
    intro field hfield
    exact absurd hfield List.not_mem_nil
  exact hasKinds_readFrom hempty (by simp) hread

end Reading

end PixelRem
