import Mathlib
import PixelRem.Files.Mount
import PixelRem.Proofs.Tree

/-!
# Access by paths

What a path leads to, through the links on its way, and what reading, writing and making
directories do to a tree:

* a file is written at the place of its path and nowhere else (`write_writes`);
* making directories only adds directories, up to the one asked for (`makeDirectories_ok`).

`Writes` says where files have been written between an earlier and a later tree.  A tree has then
grown, and nothing has come into a directory that denies it (`GrowsUnder`).  If no link leads
nowhere, an access to a tree that has grown meets what it met before: directories are there or
stand in the way as they did (`makeDirectories_again`, `makeDirectories_error_again`), and a file
that could not be written cannot be written (`write_error_again`).

A path exists if every step of it does.  One that leads to a file ends in the name of the file or
of a link to it (`exists_name_of_find?`).
-/

namespace PixelRem

open FileTree
open PixelRem.Path (IsName IsPart IsClean)

namespace Mount

variable {m : Mount} {t t' : FileTree} {place q : Place} {node : Node} {name path : String}
  {content : Text}

/-! ## Places of paths -/

theorem step_dot (m : Mount) (place : Place) : m.step place "." = place := rfl

theorem step_parent (m : Mount) (place : Place) : m.step place ".." = place.dropLast := rfl

theorem step_name (m : Mount) (place : Place) (hname : IsName name) :
    m.step place name = (m.linkAt? (place ++ [name])).getD (place ++ [name]) := by
  rw [step, if_neg hname.ne_dot, if_neg hname.ne_parent]

theorem mem_links_of_linkAt? (hlink : m.linkAt? place = some q) : (place, q) ∈ m.links := by
  obtain ⟨before, behind, hlinks, -⟩ := List.lookup_eq_some_iff.mp hlink
  rw [hlinks]
  exact List.mem_append_right _ List.mem_cons_self

theorem placeOf_eq (m : Mount) (t : FileTree) (path : String) :
    m.placeOf t path = (Path.names path).foldl m.step (t.startOf path) := rfl

@[simp] theorem placeOf_plain (t : FileTree) (path : String) :
    plain.placeOf t path = t.placeOf path := rfl

theorem placeOf_congr (m : Mount) (hworkDir : t'.workDir = t.workDir) (path : String) :
    m.placeOf t' path = m.placeOf t path := by
  rw [placeOf_eq, placeOf_eq, startOf_congr hworkDir]

theorem isName_step (m : Mount) (hplace : ∀ n ∈ place, IsName n) (hname : IsPart name) :
    ∀ n ∈ m.step place name, IsName n := by
  by_cases hdot : name = "."
  · rw [hdot, step_dot]
    exact hplace
  by_cases hparent : name = ".."
  · rw [hparent, step_parent]
    exact fun n hn => hplace n (List.mem_of_mem_dropLast hn)
  have hproper : IsName name := ⟨hname, hdot, hparent⟩
  rw [step_name m place hproper]
  cases hlink : m.linkAt? (place ++ [name]) with
  | some target => exact m.named _ (mem_links_of_linkAt? hlink)
  | none =>
    intro n hn
    rcases List.mem_append.mp hn with hn | hn
    · exact hplace n hn
    · rw [List.mem_singleton.mp hn]
      exact hproper

theorem isName_placeOf (m : Mount) (t : FileTree) (path : String) :
    ∀ n ∈ m.placeOf t path, IsName n := by
  have hnames : ∀ (ns : List String) (place : Place), (∀ n ∈ ns, IsPart n) →
      (∀ n ∈ place, IsName n) → ∀ n ∈ ns.foldl m.step place, IsName n := by
    intro ns
    induction ns with
    | nil => exact fun place _ hplace => hplace
    | cons n ns ih =>
      intro place hns hplace
      exact ih (m.step place n) (fun k hk => hns k (List.mem_cons_of_mem n hk))
        (isName_step m hplace (hns n List.mem_cons_self))
  exact hnames _ _ (fun _ hn => Path.isPart_of_mem_names hn)
    (isName_of_nodeAt? (t.directory_startOf path))

/-- A clean path is followed along its clean names. -/
theorem placeOf_clean (m : Mount) (t : FileTree) (p : String) :
    m.placeOf t (Path.clean p) = (Path.cleanNames p).foldl m.step (t.startOf p) := by
  rw [placeOf_eq, startOf_clean]
  rcases Path.names_clean p with hnames | ⟨hnil, hnames⟩
  · rw [hnames]
  · rw [hnames, hnil]
    rfl

/-- A name joined to a directory is followed from there. -/
theorem placeOf_join_name (m : Mount) (t : FileTree) {dir : String}
    (hdir : ∃ p, dir = Path.clean p) (hname : IsName name) :
    m.placeOf t (Path.join dir name) = m.step (m.placeOf t dir) name := by
  obtain ⟨p, rfl⟩ := hdir
  have hne := Path.clean_ne_empty p
  rw [Path.join_of_ne_empty hne, placeOf_clean, Path.cleanNames_append_name hne hname,
    List.foldl_append, placeOf_clean, Path.cleanNames_clean, startOf, String.append_assoc,
    Path.isRooted_append hne, Path.isRooted_clean]
  rfl

/-! ## Reading and writing -/

/-- The file that a path leads to holds a content, whether it may be read or not. -/
def Holds (m : Mount) (t : FileTree) (path : String) (content : Text) : Prop :=
  t.nodeAt? (m.placeOf t path) = some (.file content)

theorem read_eq_ok_iff : m.read t path = .ok content ↔
    m.Holds t path content ∧ m.denies .read (m.placeOf t path) = false := by
  rw [read, Holds]
  split
  · rename_i found hnode
    rw [hnode]
    split_ifs with hdenied
    · simp [hdenied]
    · simp [hdenied]
  · rename_i hnode
    rw [hnode]
    simp
  · rename_i hnode
    rw [hnode]
    simp

theorem Holds.unique (hcontent : m.Holds t path content) {other : Text}
    (hother : m.Holds t path other) : content = other := by
  rw [Holds, hcontent] at hother
  simpa using hother

theorem read_congr (hworkDir : t'.workDir = t.workDir)
    (hnode : t'.nodeAt? (m.placeOf t path) = t.nodeAt? (m.placeOf t path)) :
    m.read t' path = m.read t path := by
  rw [read, read, placeOf_congr m hworkDir, hnode]

theorem isFile_iff : m.isFile t path = true ↔ ∃ content, m.Holds t path content := by
  simp only [Holds]
  rw [isFile]
  split
  · rename_i content hnode
    rw [hnode]
    simp
  · rename_i hnode
    constructor
    · exact fun h => absurd h (by decide)
    · rintro ⟨content, hcontent⟩
      exact absurd hcontent (hnode content)

/-- A file that is written can be at its place, and the access is not denied. -/
theorem write_eq_ok (hwrite : m.write t path content = .ok t') :
    t.nodes.Admits (m.placeOf t path) (.file content) ∧
      t' = t.put (m.placeOf t path) (.file content) ∧
      ((t.nodeAt? (m.placeOf t path)).isSome = true →
        m.denies .write (m.placeOf t path) = false) ∧
      (t.nodeAt? (m.placeOf t path) = none →
        m.denies .write (m.placeOf t path).dropLast = false) := by
  have hnames := isName_placeOf m t path
  rw [write] at hwrite
  split at hwrite
  · exact absurd hwrite (by simp)
  · rename_i old hnode
    split_ifs at hwrite with hdenied
    have hne : m.placeOf t path ≠ [] := fun h => absurd (h ▸ hnode) (by simp)
    refine ⟨⟨hne, hnames, directory_dropLast hnode, .inr ?_⟩, (Except.ok.inj hwrite).symm, ?_, ?_⟩
    · exact fun h => absurd (hnode.symm.trans h) (by simp)
    · exact fun _ => by simpa using hdenied
    · exact fun h => absurd (hnode.symm.trans h) (by simp)
  · rename_i hnode
    split at hwrite
    · rename_i hparent
      split_ifs at hwrite with hdenied
      have hne : m.placeOf t path ≠ [] := fun h => absurd (h ▸ hnode) (by simp)
      refine ⟨⟨hne, hnames, hparent, .inr ?_⟩, (Except.ok.inj hwrite).symm, ?_, ?_⟩
      · exact fun h => absurd (hnode.symm.trans h) (by simp)
      · exact fun h => absurd h (by rw [hnode]; simp)
      · exact fun _ => by simpa using hdenied
    · exact absurd hwrite (by simp)
    · exact absurd hwrite (by simp)

/-! ## What is written -/

/-- A tree has grown, and nothing has come into a directory that denies it. -/
structure GrowsUnder (m : Mount) (t t' : FileTree) : Prop extends Grows t t' where
  denied : ∀ place, t.nodeAt? place = none → m.denies .write place.dropLast = true →
    t'.nodeAt? place = none

theorem GrowsUnder.trans {t₁ t₂ t₃ : FileTree} (h₁ : m.GrowsUnder t₁ t₂)
    (h₂ : m.GrowsUnder t₂ t₃) : m.GrowsUnder t₁ t₃ :=
  ⟨h₁.toGrows.trans h₂.toGrows, fun p hnone hdenied =>
    h₂.denied p (h₁.denied p hnone hdenied) hdenied⟩

/-- Files are written at some places and directories may be added; nothing else changes, and
nothing comes into a directory that denies it. -/
structure Writes (m : Mount) (places : List Place) (t t' : FileTree) : Prop where
  workDir : t'.workDir = t.workDir
  written : ∀ place ∈ places, ∃ content, t'.nodeAt? place = some (.file content)
  node : ∀ place, t'.nodeAt? place = t.nodeAt? place ∨
    (t.nodeAt? place = none ∧ t'.nodeAt? place = some .directory) ∨
    (place ∈ places ∧ t.nodeAt? place ≠ some .directory ∧
      ∃ content, t'.nodeAt? place = some (.file content))
  denied : ∀ place, t.nodeAt? place = none → m.denies .write place.dropLast = true →
    t'.nodeAt? place = none

namespace Writes

variable {places : List Place}

theorem refl (m : Mount) (t : FileTree) : m.Writes [] t t :=
  ⟨rfl, fun _ hplace => absurd hplace List.not_mem_nil, fun _ => .inl rfl, fun _ hnone _ => hnone⟩

theorem grows (h : m.Writes places t t') : m.GrowsUnder t t' := by
  refine ⟨⟨h.workDir, ?_, ?_⟩, h.denied⟩
  · intro p hp
    rcases h.node p with hsame | ⟨-, hnew⟩ | ⟨-, hfree, -⟩
    · exact hsame.trans hp
    · exact hnew
    · exact absurd hp hfree
  · intro p content hp
    rcases h.node p with hsame | ⟨hnone, -⟩ | ⟨-, -, hfile⟩
    · exact ⟨content, hsame.trans hp⟩
    · exact absurd (hnone.symm.trans hp) (by simp)
    · exact hfile

theorem trans {t₁ t₂ t₃ : FileTree} {first second : List Place} (h₁ : m.Writes first t₁ t₂)
    (h₂ : m.Writes second t₂ t₃) : m.Writes (first ++ second) t₁ t₃ := by
  refine ⟨h₂.workDir.trans h₁.workDir, ?_, ?_, (h₁.grows.trans h₂.grows).denied⟩
  · intro p hp
    rcases List.mem_append.mp hp with hp | hp
    · obtain ⟨content, hfile⟩ := h₁.written p hp
      exact h₂.grows.file p content hfile
    · exact h₂.written p hp
  intro p
  rcases h₂.node p with hsame | ⟨hnone, hdirectory⟩ | ⟨hmem, hfree, hfile⟩
  · rw [hsame]
    rcases h₁.node p with hsame | hnew | ⟨hmem, hwritten⟩
    · exact .inl hsame
    · exact .inr (.inl hnew)
    · exact .inr (.inr ⟨List.mem_append_left _ hmem, hwritten⟩)
  · rcases h₁.node p with hsame | ⟨-, hnew⟩ | ⟨-, -, content, hfile⟩
    · exact .inr (.inl ⟨hsame ▸ hnone, hdirectory⟩)
    · exact absurd (hnone.symm.trans hnew) (by simp)
    · exact absurd (hnone.symm.trans hfile) (by simp)
  · rcases h₁.node p with hsame | ⟨-, hnew⟩ | ⟨-, hfree', -⟩
    · exact .inr (.inr ⟨List.mem_append_right _ hmem, hsame ▸ hfree, hfile⟩)
    · exact absurd hnew hfree
    · exact .inr (.inr ⟨List.mem_append_right _ hmem, hfree', hfile⟩)

/-- A file stays as it is where nothing is written. -/
theorem file (h : m.Writes places t t') (hplace : place ∉ places) :
    t'.nodeAt? place = some (.file content) ↔ t.nodeAt? place = some (.file content) := by
  rcases h.node place with hsame | ⟨hnone, hdirectory⟩ | ⟨hmem, -⟩
  · rw [hsame]
  · rw [hnone, hdirectory]
    simp
  · exact absurd hmem hplace

/-- A path leads to the same content where nothing is written. -/
theorem holds (h : m.Writes places t t') (hplace : m.placeOf t path ∉ places) :
    m.Holds t' path content ↔ m.Holds t path content := by
  rw [Holds, Holds, placeOf_congr m h.workDir]
  exact h.file hplace

end Writes

theorem writes_put_directory (hput : t.nodes.Admits place .directory)
    (hnone : t.nodeAt? place = none) (hopen : m.denies .write place.dropLast = false) :
    m.Writes [] t (t.put place .directory) := by
  refine ⟨workDir_put t place _, fun _ h => absurd h List.not_mem_nil, ?_, ?_⟩
  · intro p
    rw [nodeAt?_put hput]
    split_ifs with heq
    · subst heq
      exact .inr (.inl ⟨hnone, rfl⟩)
    · exact .inl rfl
  · intro p hp hdenied
    rw [nodeAt?_put hput, if_neg, hp]
    rintro rfl
    exact absurd hdenied (by simp [hopen])

/-- A file is written at the place of its path. -/
theorem write_writes (hwrite : m.write t path content = .ok t') :
    m.Writes [m.placeOf t path] t t' ∧ m.Holds t' path content := by
  obtain ⟨hput, rfl, -, hopen⟩ := write_eq_ok hwrite
  have hnew := nodeAt?_put hput (m.placeOf t path)
  rw [if_pos rfl] at hnew
  have hfree : t.nodeAt? (m.placeOf t path) ≠ some .directory :=
    hput.directory.resolve_left (by simp)
  refine ⟨⟨workDir_put t _ _, ?_, ?_, ?_⟩, ?_⟩
  · intro p hp
    rw [List.mem_singleton.mp hp]
    exact ⟨content, hnew⟩
  · intro p
    by_cases heq : p = m.placeOf t path
    · rw [heq]
      exact .inr (.inr ⟨List.mem_singleton_self _, hfree, content, hnew⟩)
    · rw [nodeAt?_put hput, if_neg heq]
      exact .inl rfl
  · intro p hp hdenied
    rw [nodeAt?_put hput, if_neg, hp]
    rintro rfl
    exact absurd hdenied (by simp [hopen hp])
  · rw [Holds, placeOf_congr m (workDir_put t _ _)]
    exact hnew

/-! ## Making directories -/

section Making

variable {rooted : Bool} {done ns : List String} {obstacle : String × AccessError}

/-- Only a proper name leads out of a directory to where nothing is. -/
theorem isName_of_step_none (hplace : t.nodeAt? place = some .directory) (hname : IsPart name)
    (hnone : t.nodeAt? (m.step place name) = none) : IsName name := by
  refine ⟨hname, ?_, ?_⟩
  · intro hdot
    rw [hdot, step_dot, hplace] at hnone
    exact absurd hnone (by simp)
  · intro hparent
    rw [hparent, step_parent, directory_dropLast hplace] at hnone
    exact absurd hnone (by simp)

/-- One name of a path whose directories are made: the directory is there, or it is made under a
name that is no link, in a directory that does not deny it. -/
theorem makeFrom_cons_ok (hplace : t.nodeAt? place = some .directory) (hname : IsPart name)
    (hmake : m.makeFrom rooted t place done (name :: ns) = .ok t') :
    (t.nodeAt? (m.step place name) = some .directory ∧
      m.makeFrom rooted t (m.step place name) (name :: done) ns = .ok t') ∨
    (t.nodeAt? (m.step place name) = none ∧ m.step place name = place ++ [name] ∧
      t.nodes.Admits (place ++ [name]) .directory ∧ m.denies .write place = false ∧
      m.makeFrom rooted (t.put (place ++ [name]) .directory) (place ++ [name]) (name :: done) ns =
        .ok t') := by
  rw [makeFrom] at hmake
  split at hmake
  · exact .inl ⟨by assumption, hmake⟩
  · exact absurd hmake (by simp)
  · rename_i hnone
    split_ifs at hmake with hlink hdenied
    have hproper := isName_of_step_none hplace hname hnone
    have hstep : m.step place name = place ++ [name] := by
      rw [step_name m place hproper, Option.not_isSome_iff_eq_none.mp hlink]
      rfl
    rw [hstep] at hmake
    exact .inr ⟨hnone, hstep, admits_concat hplace hproper (.inl rfl), by simpa using hdenied,
      hmake⟩

theorem makeFrom_ok (hplace : t.nodeAt? place = some .directory) (hns : ∀ n ∈ ns, IsPart n)
    (hmake : m.makeFrom rooted t place done ns = .ok t') :
    m.Writes [] t t' ∧ t'.nodeAt? (ns.foldl m.step place) = some .directory := by
  induction ns generalizing t place done with
  | nil =>
    rw [makeFrom] at hmake
    obtain rfl := Except.ok.inj hmake
    exact ⟨.refl m _, hplace⟩
  | cons n ns ih =>
    have hrest : ∀ k ∈ ns, IsPart k := fun k hk => hns k (List.mem_cons_of_mem n hk)
    rw [List.foldl_cons]
    rcases makeFrom_cons_ok hplace (hns n List.mem_cons_self) hmake with
      ⟨hdirectory, hmake⟩ | ⟨hnone, hstep, hput, hopen, hmake⟩
    · exact ih hdirectory hrest hmake
    · have hnew := nodeAt?_put hput (place ++ [n])
      rw [if_pos rfl] at hnew
      rw [hstep] at hnone ⊢
      obtain ⟨hwrites, hlast⟩ := ih hnew hrest hmake
      refine ⟨(writes_put_directory hput hnone ?_).trans hwrites, hlast⟩
      rw [List.dropLast_concat]
      exact hopen

/-- Where all directories are there, none is made. -/
theorem makeFrom_again (hplace : t.nodeAt? place = some .directory) (hns : ∀ n ∈ ns, IsPart n)
    (hmake : m.makeFrom rooted t place done ns = .ok t') {later : FileTree}
    (hlater : Grows t' later) : m.makeFrom rooted later place done ns = .ok later := by
  induction ns generalizing t place done with
  | nil => rfl
  | cons n ns ih =>
    have hrest : ∀ k ∈ ns, IsPart k := fun k hk => hns k (List.mem_cons_of_mem n hk)
    rcases makeFrom_cons_ok hplace (hns n List.mem_cons_self) hmake with
      ⟨hdirectory, hmake⟩ | ⟨-, hstep, hput, -, hmake⟩
    · have hgrows := (makeFrom_ok hdirectory hrest hmake).1.grows
      rw [makeFrom, hlater.directory _ (hgrows.directory _ hdirectory)]
      exact ih hdirectory hrest hmake
    · have hnew := nodeAt?_put hput (place ++ [n])
      rw [if_pos rfl] at hnew
      have hgrows := (makeFrom_ok hnew hrest hmake).1.grows
      rw [makeFrom, hstep, hlater.directory _ (hgrows.directory _ hnew)]
      exact ih hnew hrest hmake

theorem makeDirectories_eq (m : Mount) (t : FileTree) (path : String) :
    m.makeDirectories t path =
      m.makeFrom (Path.isRooted path) t (t.startOf path) [] (Path.names path) := rfl

theorem makeDirectories_ok (hmake : m.makeDirectories t path = .ok t') :
    m.Writes [] t t' ∧ t'.nodeAt? (m.placeOf t path) = some .directory :=
  makeFrom_ok (t.directory_startOf path) (fun _ hn => Path.isPart_of_mem_names hn) hmake

theorem makeDirectories_again (hmake : m.makeDirectories t path = .ok t') {later : FileTree}
    (hlater : Grows t' later) : m.makeDirectories later path = .ok later := by
  have hworkDir : later.workDir = t.workDir :=
    hlater.workDir.trans (makeDirectories_ok hmake).1.workDir
  rw [makeDirectories_eq, startOf_congr hworkDir]
  exact makeFrom_again (t.directory_startOf path) (fun _ hn => Path.isPart_of_mem_names hn) hmake
    hlater

end Making

/-! ## Accesses that fail again -/

/-- The links and rights are those of a tree: links stand in its directories and lead to what it
holds, and rights are about what it holds. -/
structure Fits (m : Mount) (t : FileTree) : Prop where
  inDirectory : ∀ link ∈ m.links, t.nodeAt? link.1.dropLast = some .directory
  leads : ∀ link ∈ m.links, (t.nodeAt? link.2).isSome = true
  denied : ∀ right ∈ m.denied, (t.nodeAt? right.2).isSome = true

namespace Fits

theorem of_grows (hfits : m.Fits t) (hgrows : Grows t t') : m.Fits t' :=
  ⟨fun link hlink => hgrows.directory _ (hfits.inDirectory link hlink),
    fun link hlink => hgrows.isSome (hfits.leads link hlink),
    fun right hright => hgrows.isSome (hfits.denied right hright)⟩

theorem linkAt?_below (hfits : m.Fits t) (hplace : t.nodeAt? place = none) {rest : Place}
    (hrest : rest ≠ []) : m.linkAt? (place ++ rest) = none := by
  cases hlink : m.linkAt? (place ++ rest) with
  | none => rfl
  | some target =>
    have hparent := hfits.inDirectory _ (mem_links_of_linkAt? hlink)
    dsimp only at hparent
    rw [List.dropLast_append_of_ne_nil hrest] at hparent
    by_cases hone : rest.dropLast = []
    · rw [hone, List.append_nil, hplace] at hparent
      exact absurd hparent (by simp)
    · rw [eq_none_of_below (by rw [hplace]; simp) hone] at hparent
      exact absurd hparent (by simp)

theorem denies_eq_false (hfits : m.Fits t) (hplace : t.nodeAt? place = none) (access : Access) :
    m.denies access place = false := by
  cases hdenied : m.denies access place with
  | false => rfl
  | true =>
    have hright := hfits.denied _ (List.contains_iff_mem.mp hdenied)
    rw [hplace] at hright
    exact absurd hright (by simp)

/-- Where a name leads nowhere it is no link. -/
theorem step_eq_of_none (hfits : m.Fits t) (hname : IsName name)
    (hnone : t.nodeAt? (m.step place name) = none) :
    m.linkAt? (place ++ [name]) = none ∧ m.step place name = place ++ [name] := by
  rw [step_name m place hname] at hnone ⊢
  cases hlink : m.linkAt? (place ++ [name]) with
  | none => exact ⟨rfl, rfl⟩
  | some target =>
    have hleads := hfits.leads _ (mem_links_of_linkAt? hlink)
    rw [hlink, Option.getD_some] at hnone
    rw [hnone] at hleads
    exact absurd hleads (by simp)

end Fits

section Failing

variable {rooted : Bool} {done ns : List String} {obstacle : String × AccessError}
  {later : FileTree}

/-- Nothing stands in the way below a new directory. -/
theorem exists_makeFrom (hplace : t.nodeAt? place = some .directory) (hns : ∀ n ∈ ns, IsName n)
    (hbelow : ∀ rest, rest ≠ [] → t.nodeAt? (place ++ rest) = none)
    (hlinks : ∀ rest, rest ≠ [] → m.linkAt? (place ++ rest) = none)
    (hopen : ∀ rest, m.denies .write (place ++ rest) = false) :
    ∃ t', m.makeFrom rooted t place done ns = .ok t' := by
  induction ns generalizing t place done with
  | nil => exact ⟨t, rfl⟩
  | cons n ns ih =>
    have hn := hns n List.mem_cons_self
    have hlink := hlinks [n] (List.cons_ne_nil n [])
    have hstep : m.step place n = place ++ [n] := by
      rw [step_name m place hn, hlink]
      rfl
    have hput : t.nodes.Admits (place ++ [n]) .directory := admits_concat hplace hn (.inl rfl)
    have hhere : m.denies .write place = false := by simpa using hopen []
    rw [makeFrom]
    rw [hstep, hbelow [n] (List.cons_ne_nil n []), hlink, hhere]
    apply ih
    · rw [nodeAt?_put hput, if_pos rfl]
    · exact fun k hk => hns k (List.mem_cons_of_mem n hk)
    · intro rest hrest
      have hother : place ++ [n] ++ rest ≠ place ++ [n] := by simpa using hrest
      rw [nodeAt?_put hput, if_neg hother, List.append_assoc]
      exact hbelow ([n] ++ rest) (by simp)
    · intro rest hrest
      rw [List.append_assoc]
      exact hlinks ([n] ++ rest) (by simp)
    · intro rest
      rw [List.append_assoc]
      exact hopen ([n] ++ rest)

theorem makeFrom_error_names (hfits : m.Fits t) (hplace : t.nodeAt? place = some .directory)
    (hns : ∀ n ∈ ns, IsName n) (hmake : m.makeFrom rooted t place done ns = .error obstacle)
    (hlater : m.GrowsUnder t later) :
    m.makeFrom rooted later place done ns = .error obstacle := by
  induction ns generalizing place done with
  | nil => exact absurd hmake (by simp [makeFrom])
  | cons n ns ih =>
    have hn := hns n List.mem_cons_self
    have hrest : ∀ k ∈ ns, IsName k := fun k hk => hns k (List.mem_cons_of_mem n hk)
    rw [makeFrom] at hmake ⊢
    split at hmake
    · rename_i hdirectory
      rw [hlater.directory _ hdirectory]
      exact ih hdirectory hrest hmake
    · rename_i content hfile
      obtain ⟨content', hfile'⟩ := hlater.file _ content hfile
      rw [hfile']
      exact hmake
    · rename_i hnone
      obtain ⟨hlink, hstep⟩ := hfits.step_eq_of_none hn hnone
      rw [hlink] at hmake
      rw [hstep] at hmake hnone
      dsimp only [Option.isSome_none] at hmake
      rw [if_neg (by simp)] at hmake
      split_ifs at hmake with hdenied
      · -- what is denied is denied again
        have hgone := hlater.denied (place ++ [n]) hnone (by rwa [List.dropLast_concat])
        rw [hstep, hgone, hlink, hdenied]
        exact hmake
      · -- a directory that is made has nothing below it that could stand in the way
        have hput : t.nodes.Admits (place ++ [n]) .directory := admits_concat hplace hn (.inl rfl)
        have hbelow : ∀ rest, rest ≠ [] →
            (t.put (place ++ [n]) .directory).nodeAt? (place ++ [n] ++ rest) = none := by
          intro rest hne
          have hother : place ++ [n] ++ rest ≠ place ++ [n] := by simpa using hne
          rw [nodeAt?_put hput, if_neg hother]
          exact eq_none_of_below (by rw [hnone]; simp) hne
        have hopen : ∀ rest, m.denies .write (place ++ [n] ++ rest) = false := by
          intro rest
          apply hfits.denies_eq_false
          by_cases hne : rest = []
          · rw [hne, List.append_nil, hnone]
          · exact eq_none_of_below (by rw [hnone]; simp) hne
        have hnew := nodeAt?_put hput (place ++ [n])
        rw [if_pos rfl] at hnew
        obtain ⟨t', hok⟩ := exists_makeFrom hnew hrest hbelow
          (fun rest hne => hfits.linkAt?_below hnone hne) hopen
        rw [hok] at hmake
        exact absurd hmake (by simp)

/-- What stands in the way of directories stays there. -/
theorem makeFrom_error_again (hfits : m.Fits t) (hplace : t.nodeAt? place = some .directory)
    (hns : IsClean rooted ns) (hmake : m.makeFrom rooted t place done ns = .error obstacle)
    (hlater : m.GrowsUnder t later) :
    m.makeFrom rooted later place done ns = .error obstacle := by
  obtain ⟨ups, rest, rfl, hrest, -⟩ := hns
  induction ups generalizing place done with
  | zero =>
    rw [List.replicate_zero, List.nil_append] at hmake ⊢
    exact makeFrom_error_names hfits hplace hrest hmake hlater
  | succ ups ih =>
    have hparent := directory_dropLast hplace
    rw [List.replicate_succ, List.cons_append, makeFrom, step_parent] at hmake ⊢
    rw [hparent] at hmake
    rw [hlater.directory _ hparent]
    exact ih hparent hmake

theorem makeDirectories_error_again (hfits : m.Fits t)
    (hmake : m.makeDirectories t (Path.clean path) = .error obstacle)
    (hlater : m.GrowsUnder t later) :
    m.makeDirectories later (Path.clean path) = .error obstacle := by
  rw [makeDirectories_eq] at hmake ⊢
  rw [startOf_congr hlater.workDir]
  have hstart := t.directory_startOf (Path.clean path)
  rcases Path.names_clean path with hnames | ⟨-, hnames⟩
  · rw [hnames, Path.isRooted_clean] at hmake ⊢
    exact makeFrom_error_again hfits hstart (Path.cleanNames_isClean path) hmake hlater
  · -- the current directory is there
    rw [hnames, makeFrom, step_dot, hstart] at hmake
    exact absurd hmake (by simp [makeFrom])

/-- A file that cannot be written into a directory cannot be written there later. -/
theorem write_error_again (hfits : m.Fits t) {dir : String} (hdir : ∃ p, dir = Path.clean p)
    (hname : IsName name) (hparent : t.nodeAt? (m.placeOf t dir) = some .directory)
    {e : AccessError} (hwrite : m.write t (Path.join dir name) content = .error e)
    (hlater : m.GrowsUnder t later) : m.write later (Path.join dir name) content = .error e := by
  have hplace := placeOf_join_name m t hdir hname
  rw [write] at hwrite ⊢
  rw [placeOf_congr m hlater.workDir, hplace]
  rw [hplace] at hwrite
  split at hwrite
  · rename_i hdirectory
    rw [hlater.directory _ hdirectory]
    exact hwrite
  · rename_i old hfile
    obtain ⟨new, hfile'⟩ := hlater.file _ old hfile
    rw [hfile']
    dsimp only
    split_ifs at hwrite ⊢
    exact hwrite
  · rename_i hnone
    obtain ⟨-, hstep⟩ := hfits.step_eq_of_none hname hnone
    rw [hstep] at hwrite hnone ⊢
    rw [List.dropLast_concat, hparent] at hwrite
    dsimp only at hwrite
    split_ifs at hwrite with hdenied
    have hgone := hlater.denied _ hnone (by rwa [List.dropLast_concat])
    rw [hgone, List.dropLast_concat, hlater.directory _ hparent]
    dsimp only
    rw [if_pos hdenied]
    exact hwrite

/-- A file that is written can be written where it is already there. -/
theorem write_ok_again (hfits : m.Fits t) (hwrite : m.write t path content = .ok t')
    (hworkDir : later.workDir = t.workDir)
    (hfile : ∃ old, later.nodeAt? (m.placeOf t path) = some (.file old)) :
    m.write later path content = .ok (later.put (m.placeOf t path) (.file content)) := by
  obtain ⟨-, -, hopen, -⟩ := write_eq_ok hwrite
  have hallowed : m.denies .write (m.placeOf t path) = false := by
    cases hnode : t.nodeAt? (m.placeOf t path) with
    | none => exact hfits.denies_eq_false hnode .write
    | some node => exact hopen (by rw [hnode]; rfl)
  obtain ⟨old, hold⟩ := hfile
  rw [write, placeOf_congr m hworkDir, hold]
  dsimp only
  rw [hallowed]
  rfl

end Failing

/-! ## Paths that exist -/

theorem eq_of_walk? {ns : List String} (hwalk : m.walk? t place ns = some q) :
    q = ns.foldl m.step place := by
  induction ns generalizing place with
  | nil => exact (Option.some.inj hwalk).symm
  | cons n ns ih =>
    rw [walk?] at hwalk
    split_ifs at hwalk
    exact ih hwalk

theorem directory_of_walk?_concat {ns : List String}
    (hwalk : m.walk? t place (ns ++ [name]) = some q) :
    t.nodeAt? (ns.foldl m.step place) = some .directory := by
  induction ns generalizing place with
  | nil =>
    rw [List.nil_append, walk?] at hwalk
    split_ifs at hwalk with hdirectory
    exact hdirectory
  | cons n ns ih =>
    rw [List.cons_append, walk?] at hwalk
    split_ifs at hwalk
    exact ih hwalk

theorem find?_eq (m : Mount) (t : FileTree) (path : String) :
    m.find? t path = (m.walk? t (t.startOf path) (Path.names path)).bind fun place =>
      (t.nodeAt? place).bind fun node =>
        if path.toList.getLast? = some '/' ∧ node ≠ .directory then none else some node := rfl

theorem eq_some_of_find? (hfind : m.find? t path = some node) :
    m.walk? t (t.startOf path) (Path.names path) = some (m.placeOf t path) ∧
      t.nodeAt? (m.placeOf t path) = some node ∧
      ¬(path.toList.getLast? = some '/' ∧ node ≠ .directory) := by
  rw [find?_eq, Option.bind_eq_some_iff] at hfind
  obtain ⟨place, hwalk, hfind⟩ := hfind
  rw [Option.bind_eq_some_iff] at hfind
  obtain ⟨found, hfound, hfind⟩ := hfind
  split_ifs at hfind with hslash
  obtain rfl := Option.some.inj hfind
  obtain rfl : place = m.placeOf t path := eq_of_walk? hwalk
  exact ⟨hwalk, hfound, hslash⟩

/-- A path that leads to a file ends in a name, which is followed from a directory. -/
theorem exists_name_of_find? (hfind : m.find? t path = some (.file content)) :
    ∃ place name, m.placeOf t path = m.step place name ∧ IsName name ∧
      Path.EndsIn path name := by
  obtain ⟨hwalk, hnode, hslash⟩ := eq_some_of_find? hfind
  rcases List.eq_nil_or_concat (Path.names path) with hnames | ⟨before, name, hnames⟩
  · -- without a name the path leads to where it starts
    rw [placeOf_eq, hnames, List.foldl_nil, t.directory_startOf] at hnode
    exact absurd hnode (by simp)
  · rw [List.concat_eq_append] at hnames
    rw [hnames] at hwalk
    have hparent := directory_of_walk?_concat hwalk
    have hplace : m.placeOf t path = m.step (before.foldl m.step (t.startOf path)) name := by
      rw [placeOf_eq, hnames, List.foldl_append, List.foldl_cons, List.foldl_nil]
    have hpart : IsPart name := Path.isPart_of_mem_names (by rw [hnames]; simp)
    have hname : IsName name := by
      refine ⟨hpart, ?_, ?_⟩
      · rintro rfl
        rw [hplace, step_dot, hparent] at hnode
        exact absurd hnode (by simp)
      · rintro rfl
        rw [hplace, step_parent, directory_dropLast hparent] at hnode
        exact absurd hnode (by simp)
    exact ⟨_, name, hplace, hname, Path.endsIn_of_names hnames fun h => hslash ⟨h, by simp⟩⟩

end Mount

/-! ## Trees without links -/

namespace FileTree

variable {t : FileTree} {place : Place} {node : Node} {path : String} {content : Text}

theorem read_eq_ok_iff : t.read path = .ok content ↔ Mount.plain.Holds t path content := by
  rw [read, Mount.read_eq_ok_iff]
  exact and_iff_left rfl

end FileTree

end PixelRem
