import Mathlib
import PixelRem.Files.Path

/-!
# Clean paths

A path is read as the list of its names, and a clean path is written from such a list.  The
names of a clean path are parent steps, none if the path starts at the root, and then names
that stand for themselves (`cleanNames_isClean`).  Such a list is read back from the path
written from it (`cleanNames_ofNames`), so a clean path and its names say the same.

A name behind a slash is one more name (`cleanNames_append_name`, `join_name`), and the text
of a path ends in its last name (`endsIn_ofNames`, `endsIn_of_names`).
-/

namespace PixelRem.Path

/-! ## Names -/

theorem isPart_parent : IsPart ".." := by decide

theorem namesFrom_nil (name : List Char) :
    namesFrom name [] = if name.isEmpty then [] else [String.ofList name.reverse] := by
  rw [namesFrom]

theorem namesFrom_cons (name : List Char) (c : Char) (s : List Char) :
    namesFrom name (c :: s) =
      if c = '/' then
        if name.isEmpty then namesFrom [] s else String.ofList name.reverse :: namesFrom [] s
      else namesFrom (c :: name) s := by
  rw [namesFrom]

/-- A name that has begun is in the list. -/
theorem namesFrom_ne_nil {name : List Char} (hname : name ≠ []) (s : List Char) :
    namesFrom name s ≠ [] := by
  induction s generalizing name with
  | nil =>
    rw [namesFrom_nil, if_neg (by simpa using hname)]
    exact List.cons_ne_nil _ _
  | cons c s ih =>
    rw [namesFrom_cons]
    split_ifs with hc hempty
    · exact absurd (List.isEmpty_iff.mp hempty) hname
    · exact List.cons_ne_nil _ _
    · exact ih (List.cons_ne_nil c name)

theorem namesFrom_append_slash (name s r : List Char) :
    namesFrom name (s ++ '/' :: r) = namesFrom name s ++ namesFrom [] r := by
  induction s generalizing name with
  | nil =>
    rw [List.nil_append, namesFrom_cons, if_pos rfl, namesFrom_nil]
    split_ifs <;> rfl
  | cons c s ih =>
    rw [List.cons_append, namesFrom_cons, namesFrom_cons]
    split_ifs
    · exact ih []
    · rw [ih, List.cons_append]
    · exact ih (c :: name)

theorem namesFrom_of_not_mem {s : List Char} (hs : '/' ∉ s) (name : List Char)
    (hne : name.reverse ++ s ≠ []) : namesFrom name s = [String.ofList (name.reverse ++ s)] := by
  induction s generalizing name with
  | nil =>
    have hname : name ≠ [] := by simpa using hne
    rw [namesFrom_nil, if_neg (by simpa using hname), List.append_nil]
  | cons c s ih =>
    have hc : c ≠ '/' := fun h => hs (h ▸ List.mem_cons_self)
    have hrest : '/' ∉ s := fun h => hs (List.mem_cons_of_mem c h)
    rw [namesFrom_cons, if_neg hc, ih hrest (c :: name) (by simp), List.reverse_cons,
      List.append_assoc, List.singleton_append]

theorem isPart_of_mem_namesFrom {name s : List Char} (hname : '/' ∉ name) {part : String}
    (hpart : part ∈ namesFrom name s) : IsPart part := by
  have hlast {run : List Char} (hrun : '/' ∉ run) (hne : ¬run.isEmpty = true) :
      IsPart (String.ofList run.reverse) := by
    constructor
    · intro hempty
      rw [String.ofList_eq, String.toList_empty, List.reverse_eq_nil_iff] at hempty
      exact hne (List.isEmpty_iff.mpr hempty)
    · rwa [String.toList_ofList, List.mem_reverse]
  induction s generalizing name with
  | nil =>
    rw [namesFrom_nil] at hpart
    split_ifs at hpart with hempty
    · exact absurd hpart List.not_mem_nil
    · rw [List.mem_singleton.mp hpart]
      exact hlast hname hempty
  | cons c s ih =>
    rw [namesFrom_cons] at hpart
    split_ifs at hpart with hc hempty
    · exact ih List.not_mem_nil hpart
    · rcases List.mem_cons.mp hpart with rfl | hpart
      · exact hlast hname hempty
      · exact ih List.not_mem_nil hpart
    · refine ih ?_ hpart
      intro hmem
      rcases List.mem_cons.mp hmem with h | h
      · exact hc h.symm
      · exact hname h

theorem isPart_of_mem_names {p name : String} (hname : name ∈ names p) : IsPart name :=
  isPart_of_mem_namesFrom List.not_mem_nil hname

@[simp] theorem names_empty : names "" = [] := rfl

theorem names_append_slash (a b : String) : names (a ++ "/" ++ b) = names a ++ names b := by
  have hlist : (a ++ "/" ++ b).toList = a.toList ++ '/' :: b.toList := by
    rw [String.toList_append, String.toList_append, List.append_assoc]
    rfl
  rw [names, hlist, namesFrom_append_slash, names, names]

theorem names_of_isPart {name : String} (hname : IsPart name) : names name = [name] := by
  have hne : [].reverse ++ name.toList ≠ [] := fun h => hname.1 (String.toList_eq_nil_iff.mp h)
  rw [names, namesFrom_of_not_mem hname.2 [] hne, List.reverse_nil, List.nil_append,
    String.ofList_toList]

theorem names_intercalate {ns : List String} (hns : ∀ n ∈ ns, IsPart n) :
    names ("/".intercalate ns) = ns := by
  induction ns with
  | nil => rfl
  | cons n ns ih =>
    have hn := hns n List.mem_cons_self
    have hrest : ∀ m ∈ ns, IsPart m := fun m hm => hns m (List.mem_cons_of_mem n hm)
    cases ns with
    | nil => rw [String.intercalate_singleton, names_of_isPart hn]
    | cons m ns =>
      rw [String.intercalate_cons_cons, names_append_slash, names_of_isPart hn, ih hrest]
      rfl

/-- A path that has text starts at the root or not, whatever stands behind a slash. -/
theorem isRooted_append {a : String} (ha : a ≠ "") (b : String) :
    isRooted (a ++ b) = isRooted a := by
  have hne : a.toList ≠ [] := fun h => ha (String.toList_eq_nil_iff.mp h)
  rw [isRooted, isRooted, String.toList_append, List.head?_append_of_ne_nil _ hne]

/-- A path without a name that has text is a row of slashes. -/
theorem isRooted_of_names_eq_nil {p : String} (hp : p ≠ "") (hnames : names p = []) :
    isRooted p = true := by
  rw [names] at hnames
  cases hlist : p.toList with
  | nil => exact absurd (String.toList_eq_nil_iff.mp hlist) hp
  | cons c s =>
    by_cases hc : c = '/'
    · rw [isRooted, hlist, hc]
      rfl
    · rw [hlist, namesFrom_cons, if_neg hc] at hnames
      exact absurd hnames (namesFrom_ne_nil (List.cons_ne_nil c []) s)

/-! ## Clean names -/

/-- The names of a clean path: parent steps, none behind the root, and then names. -/
def IsClean (rooted : Bool) (ns : List String) : Prop :=
  ∃ ups rest, ns = List.replicate ups ".." ++ rest ∧ (∀ n ∈ rest, IsName n) ∧
    (rooted = true → ups = 0)

theorem IsClean.isPart {rooted : Bool} {ns : List String} (hns : IsClean rooted ns) :
    ∀ n ∈ ns, IsPart n := by
  obtain ⟨ups, rest, rfl, hrest, -⟩ := hns
  intro n hn
  rcases List.mem_append.mp hn with hup | hn
  · rw [List.eq_of_mem_replicate hup]
    exact isPart_parent
  · exact (hrest n hn).isPart

theorem IsClean.concat {rooted : Bool} {ns : List String} {name : String}
    (hns : IsClean rooted ns) (hname : IsName name) : IsClean rooted (ns ++ [name]) := by
  obtain ⟨ups, rest, rfl, hrest, hups⟩ := hns
  refine ⟨ups, rest ++ [name], List.append_assoc _ _ _, ?_, hups⟩
  intro n hn
  rcases List.mem_append.mp hn with hn | hn
  · exact hrest n hn
  · rw [List.mem_singleton.mp hn]
    exact hname

theorem step_dot (rooted : Bool) (up : List String) : step rooted up "." = up := rfl

theorem step_name (rooted : Bool) (up : List String) {name : String} (hname : IsName name) :
    step rooted up name = name :: up := by
  rw [step.eq_def, if_neg hname.ne_dot, if_neg hname.ne_parent]

/-- A parent step takes back the last name, or stands behind other parent steps. -/
theorem step_parent_concat (rooted : Bool) (up : List String) {name : String}
    (hname : IsName name) : step rooted (name :: up) ".." = up := by
  rw [step.eq_def, if_neg (by decide), if_pos rfl]
  exact if_neg hname.ne_parent

theorem step_parent_ups (ups : Nat) :
    step false (List.replicate ups "..") ".." = List.replicate (ups + 1) ".." := by
  cases ups <;> rfl

theorem isClean_step {rooted : Bool} {up : List String} (hup : IsClean rooted up.reverse)
    {name : String} (hname : IsPart name) : IsClean rooted (step rooted up name).reverse := by
  by_cases hdot : name = "."
  · rw [hdot, step_dot]
    exact hup
  by_cases hparent : name = ".."
  · subst hparent
    obtain ⟨ups, rest, hsplit, hrest, hups⟩ := hup
    rcases List.eq_nil_or_concat rest with rfl | ⟨before, last, rfl⟩
    · -- only parent steps so far
      have hup : up = List.replicate ups ".." := by
        rw [List.append_nil] at hsplit
        rw [← List.reverse_reverse up, hsplit, List.reverse_replicate]
      cases rooted with
      | true =>
        rw [hup, hups rfl]
        exact ⟨0, [], rfl, fun n hn => absurd hn List.not_mem_nil, fun _ => rfl⟩
      | false =>
        rw [hup, step_parent_ups, List.reverse_replicate]
        exact ⟨ups + 1, [], by rw [List.append_nil], fun n hn => absurd hn List.not_mem_nil,
          fun h => absurd h (by decide)⟩
    · -- the last name is taken back
      have hlast : IsName last := hrest last (by simp)
      have hup : up = last :: (List.replicate ups ".." ++ before).reverse := by
        rw [← List.reverse_reverse up, hsplit]
        simp
      rw [hup, step_parent_concat _ _ hlast, List.reverse_reverse]
      exact ⟨ups, before, rfl, fun n hn => hrest n (by simp [hn]), hups⟩
  · have hproper : IsName name := ⟨hname, hdot, hparent⟩
    rw [step_name _ _ hproper, List.reverse_cons]
    exact hup.concat hproper

theorem isClean_foldl_step {rooted : Bool} {ns : List String} (hns : ∀ n ∈ ns, IsPart n)
    {up : List String} (hup : IsClean rooted up.reverse) :
    IsClean rooted (ns.foldl (step rooted) up).reverse := by
  induction ns generalizing up with
  | nil => exact hup
  | cons n ns ih =>
    rw [List.foldl_cons]
    exact ih (fun m hm => hns m (List.mem_cons_of_mem n hm))
      (isClean_step hup (hns n List.mem_cons_self))

theorem isClean_nil (rooted : Bool) : IsClean rooted [] :=
  ⟨0, [], rfl, fun _ hn => absurd hn List.not_mem_nil, fun _ => rfl⟩

theorem cleanNames_isClean (p : String) : IsClean (isRooted p) (cleanNames p) :=
  isClean_foldl_step (fun _ hn => isPart_of_mem_names hn) (isClean_nil _)

/-! ## Clean paths -/

/-- Resolving the dots of clean names changes nothing. -/
theorem foldl_step_of_isClean {rooted : Bool} {ns : List String} (hns : IsClean rooted ns) :
    ns.foldl (step rooted) [] = ns.reverse := by
  obtain ⟨ups, rest, rfl, hrest, hups⟩ := hns
  have hparents : (List.replicate ups "..").foldl (step rooted) [] = List.replicate ups ".." := by
    cases rooted with
    | true => rw [hups rfl]; rfl
    | false =>
      clear hups
      induction ups with
      | zero => rfl
      | succ ups ih =>
        rw [List.replicate_succ', List.foldl_append, ih, List.foldl_cons, List.foldl_nil,
          step_parent_ups, List.replicate_succ']
  have hnames : ∀ up, rest.foldl (step rooted) up = rest.reverse ++ up := by
    induction rest with
    | nil => intro up; rfl
    | cons n rest ih =>
      intro up
      rw [List.foldl_cons, step_name _ _ (hrest n List.mem_cons_self),
        ih (fun m hm => hrest m (List.mem_cons_of_mem n hm)), List.reverse_cons,
        List.append_assoc, List.singleton_append]
  rw [List.foldl_append, hparents, hnames, List.reverse_append, List.reverse_replicate]

theorem head?_intercalate {n : String} (hn : IsPart n) (ns : List String) :
    ("/".intercalate (n :: ns)).toList.head? = n.toList.head? := by
  have hne : n.toList ≠ [] := fun h => hn.1 (String.toList_eq_nil_iff.mp h)
  cases ns with
  | nil => rw [String.intercalate_singleton]
  | cons m ns =>
    rw [String.intercalate_cons_cons, String.toList_append, String.toList_append,
      List.append_assoc, List.head?_append_of_ne_nil _ hne]

theorem isRooted_ofNames {rooted : Bool} {ns : List String} (hns : ∀ n ∈ ns, IsPart n) :
    isRooted (ofNames rooted ns) = rooted := by
  cases rooted with
  | true =>
    rw [ofNames, isRooted_append (by decide)]
    decide
  | false =>
    cases ns with
    | nil => decide
    | cons n ns =>
      have hn := hns n List.mem_cons_self
      rw [isRooted]
      change (("/".intercalate (n :: ns)).toList.head? == some '/') = false
      rw [head?_intercalate hn]
      cases hlist : n.toList with
      | nil => rfl
      | cons c s =>
        have hc : c ≠ '/' := fun h => hn.2 (by rw [hlist, h]; exact List.mem_cons_self)
        simpa using hc

/-- A path written from names is read as these names; the current directory, written for no
names, is read as itself. -/
theorem names_ofNames {rooted : Bool} {ns : List String} (hns : ∀ n ∈ ns, IsPart n) :
    names (ofNames rooted ns) = ns ∨
      rooted = false ∧ ns = [] ∧ names (ofNames rooted ns) = ["."] := by
  cases rooted with
  | true =>
    left
    have hslash : "/" ++ "/".intercalate ns = "" ++ "/" ++ "/".intercalate ns := by
      rw [String.empty_append]
    rw [ofNames, hslash, names_append_slash, names_empty, List.nil_append, names_intercalate hns]
  | false =>
    cases ns with
    | nil => exact .inr ⟨rfl, rfl, by decide⟩
    | cons n ns => exact .inl (names_intercalate hns)

theorem cleanNames_ofNames {rooted : Bool} {ns : List String} (hns : IsClean rooted ns) :
    cleanNames (ofNames rooted ns) = ns := by
  rw [cleanNames, isRooted_ofNames hns.isPart]
  rcases @names_ofNames rooted ns hns.isPart with hnames | ⟨rfl, rfl, hnames⟩
  · rw [hnames, foldl_step_of_isClean hns, List.reverse_reverse]
  · rw [hnames]
    rfl

@[simp] theorem isRooted_clean (p : String) : isRooted (clean p) = isRooted p :=
  isRooted_ofNames (cleanNames_isClean p).isPart

@[simp] theorem cleanNames_clean (p : String) : cleanNames (clean p) = cleanNames p :=
  cleanNames_ofNames (cleanNames_isClean p)

/-- The names of a clean path. -/
theorem names_clean (p : String) :
    names (clean p) = cleanNames p ∨ cleanNames p = [] ∧ names (clean p) = ["."] := by
  rcases @names_ofNames (isRooted p) _ (cleanNames_isClean p).isPart with h | ⟨-, hnil, h⟩
  · exact .inl h
  · exact .inr ⟨hnil, h⟩

theorem clean_ne_empty (p : String) : clean p ≠ "" := by
  intro hempty
  have hrooted : isRooted p = false := by
    rw [← isRooted_clean, hempty]
    rfl
  rcases names_clean p with hnames | ⟨-, hnames⟩
  · rw [hempty, names_empty] at hnames
    rw [clean, hrooted, ← hnames] at hempty
    exact absurd hempty (by decide)
  · rw [hempty] at hnames
    exact absurd hnames (by decide)

/-! ## One more name -/

theorem cleanNames_append_name {dir name : String} (hdir : dir ≠ "") (hname : IsName name) :
    cleanNames (dir ++ "/" ++ name) = cleanNames dir ++ [name] := by
  have hrooted : isRooted (dir ++ "/" ++ name) = isRooted dir := by
    rw [String.append_assoc, isRooted_append hdir]
  rw [cleanNames, hrooted, names_append_slash, names_of_isPart hname.isPart, List.foldl_append,
    List.foldl_cons, List.foldl_nil, step_name _ _ hname, List.reverse_cons, cleanNames]

theorem join_of_ne_empty {dir : String} (hdir : dir ≠ "") (name : String) :
    join dir name = clean (dir ++ "/" ++ name) := by
  rw [join, if_neg (by simpa using hdir)]

/-- A name joined to a directory is its last name. -/
theorem join_name {dir name : String} (hdir : dir ≠ "") (hname : IsName name) :
    join dir name = ofNames (isRooted dir) (cleanNames dir ++ [name]) := by
  rw [join_of_ne_empty hdir, clean, cleanNames_append_name hdir hname, String.append_assoc,
    isRooted_append hdir]

/-! ## The last name -/

/-- The last piece of a path is a name, with no slash behind it. -/
def EndsIn (p name : String) : Prop :=
  p = name ∨ ∃ before, p = before ++ "/" ++ name

theorem endsIn_intercalate (ns : List String) (name : String) :
    EndsIn ("/".intercalate (ns ++ [name])) name := by
  induction ns with
  | nil => exact .inl String.intercalate_singleton
  | cons n ns ih =>
    right
    rw [List.cons_append, String.intercalate_cons_of_ne_nil (by simp)]
    rcases ih with heq | ⟨before, heq⟩
    · exact ⟨n, by rw [heq]⟩
    · exact ⟨n ++ "/" ++ before, by rw [heq]; simp only [String.append_assoc]⟩

theorem endsIn_ofNames (rooted : Bool) (ns : List String) (name : String) :
    EndsIn (ofNames rooted (ns ++ [name])) name := by
  cases rooted with
  | true =>
    right
    rcases endsIn_intercalate ns name with heq | ⟨before, heq⟩
    · exact ⟨"", by rw [ofNames, heq, String.empty_append]⟩
    · exact ⟨"/" ++ before, by rw [ofNames, heq]; simp only [String.append_assoc]⟩
  | false =>
    have hcons : ofNames false (ns ++ [name]) = "/".intercalate (ns ++ [name]) := by
      cases ns <;> rfl
    rw [hcons]
    exact endsIn_intercalate ns name

theorem EndsIn.names {p name : String} (hend : EndsIn p name) (hname : IsPart name) :
    ∃ before, names p = before ++ [name] := by
  rcases hend with rfl | ⟨before, rfl⟩
  · exact ⟨[], names_of_isPart hname⟩
  · exact ⟨Path.names before, by rw [names_append_slash, names_of_isPart hname]⟩

theorem EndsIn.getLast? {p name : String} (hend : EndsIn p name) (hname : IsPart name) :
    p.toList.getLast? ≠ some '/' := by
  have hne : name.toList ≠ [] := fun h => hname.1 (String.toList_eq_nil_iff.mp h)
  have hlast : p.toList.getLast? = name.toList.getLast? := by
    rcases hend with rfl | ⟨before, rfl⟩
    · rfl
    · rw [String.toList_append, List.getLast?_append_of_ne_nil _ hne]
  rw [hlast]
  exact fun h => hname.2 (List.mem_of_getLast? h)

/-- A text is without a slash, or has a last one. -/
theorem exists_lastSlash (s : List Char) : '/' ∉ s ∨ ∃ a b, s = a ++ '/' :: b ∧ '/' ∉ b := by
  induction s with
  | nil => exact .inl List.not_mem_nil
  | cons c s ih =>
    rcases ih with hs | ⟨a, b, rfl, hb⟩
    · by_cases hc : c = '/'
      · exact .inr ⟨[], s, by rw [hc]; rfl, hs⟩
      · left
        intro hmem
        rcases List.mem_cons.mp hmem with h | h
        · exact hc h.symm
        · exact hs h
    · exact .inr ⟨c :: a, b, rfl, hb⟩

theorem endsIn_of_names {p name : String} {before : List String}
    (hnames : names p = before ++ [name]) (hslash : p.toList.getLast? ≠ some '/') :
    EndsIn p name := by
  rcases exists_lastSlash p.toList with hnone | ⟨a, b, hsplit, hb⟩
  · have hne : p ≠ "" := by
      rintro rfl
      exact absurd hnames (by simp)
    rw [names_of_isPart ⟨hne, hnone⟩] at hnames
    left
    have hlast := congrArg List.getLast? hnames
    rw [List.getLast?_concat] at hlast
    exact Option.some.inj hlast
  · have hp : p = String.ofList a ++ "/" ++ String.ofList b := by
      rw [← String.toList_inj, hsplit]
      simp
    have hbne : b ≠ [] := by
      rintro rfl
      exact hslash (by rw [hsplit, List.getLast?_concat])
    have hpart : IsPart (String.ofList b) :=
      ⟨fun h => hbne (by rw [String.ofList_eq] at h; exact h), by rwa [String.toList_ofList]⟩
    rw [hp, names_append_slash, names_of_isPart hpart] at hnames
    right
    have hlast := congrArg List.getLast? hnames
    rw [List.getLast?_concat, List.getLast?_concat] at hlast
    exact ⟨String.ofList a, by rw [← Option.some.inj hlast]; exact hp⟩

end PixelRem.Path
