import Mathlib
import PixelRem.Files.Tree
import PixelRem.Proofs.Paths

/-!
# File trees place by place

A tree is seen through what it holds at each place.  Everything lies in a directory, so nothing
lies below a place that holds nothing or a file.  Putting a node changes one place
(`nodeAt?_put`), if the node can be there.

A tree grows if files stay files and directories stay directories (`Grows`).

The dots of a path can be resolved by name, as long as no link is on the way
(`foldl_follow_cleanNames`).
-/

namespace PixelRem.FileTree

open PixelRem.Path (IsName IsPart IsClean)

variable {t t' : FileTree} {place q : Place} {node : Node} {name : String}

/-! ## Nodes -/

@[simp] theorem nodeAt?_nil (t : FileTree) : t.nodeAt? [] = some .directory := rfl

theorem isName_of_nodeAt? (hnode : t.nodeAt? place = some node) : ∀ name ∈ place, IsName name := by
  intro name hname
  have hne : place ≠ [] := List.ne_nil_of_mem hname
  exact t.wellFormed.named (place, node) (Nodes.mem_of_at? hne hnode) name hname

/-- Whatever is there lies in a directory. -/
theorem directory_dropLast (hnode : t.nodeAt? place = some node) :
    t.nodeAt? place.dropLast = some .directory := by
  by_cases hne : place = []
  · rw [hne]
    rfl
  · exact t.wellFormed.parents (place, node) (Nodes.mem_of_at? hne hnode)

theorem directory_parent (hnode : t.nodeAt? (place ++ [name]) = some node) :
    t.nodeAt? place = some .directory := by
  have hdrop := directory_dropLast hnode
  rwa [List.dropLast_concat] at hdrop

theorem directory_ancestor {rest : Place} (hrest : rest ≠ [])
    (hnode : t.nodeAt? (place ++ rest) = some node) : t.nodeAt? place = some .directory := by
  induction rest using List.reverseRecOn generalizing node with
  | nil => exact absurd rfl hrest
  | append_singleton rest name ih =>
    rw [← List.append_assoc] at hnode
    have hparent := directory_parent hnode
    by_cases hnil : rest = []
    · rwa [hnil, List.append_nil] at hparent
    · exact ih hnil hparent

/-- Nothing lies below a place that is not a directory. -/
theorem eq_none_of_below (hplace : t.nodeAt? place ≠ some .directory) {rest : Place}
    (hrest : rest ≠ []) : t.nodeAt? (place ++ rest) = none := by
  cases hnode : t.nodeAt? (place ++ rest) with
  | none => rfl
  | some node => exact absurd (directory_ancestor hrest hnode) hplace

/-- Two trees with the same places that hold the same there are the same. -/
theorem ext_of_nodeAt? (hworkDir : t'.workDir = t.workDir)
    (hplaces : t'.nodes.map (·.1) = t.nodes.map (·.1))
    (hnode : ∀ place, t'.nodeAt? place = t.nodeAt? place) : t' = t := by
  have hentries : ∀ entries entries' : Nodes,
      (∀ e ∈ entries, t.nodeAt? e.1 = some e.2) → (∀ e ∈ entries', t.nodeAt? e.1 = some e.2) →
      entries'.map (·.1) = entries.map (·.1) → entries' = entries := by
    intro entries
    induction entries with
    | nil =>
      intro entries' _ _ hmap
      exact List.map_eq_nil_iff.mp hmap
    | cons e entries ih =>
      intro entries' hfound hfound' hmap
      cases entries' with
      | nil => exact absurd hmap (by simp)
      | cons e' entries' =>
        simp only [List.map_cons, List.cons.injEq] at hmap
        have hsecond : e'.2 = e.2 := by
          have he := hfound e List.mem_cons_self
          have he' := hfound' e' List.mem_cons_self
          rw [hmap.1, he] at he'
          exact (Option.some.inj he').symm
        rw [Prod.ext hmap.1 hsecond,
          ih entries' (fun x hx => hfound x (List.mem_cons_of_mem e hx))
            (fun x hx => hfound' x (List.mem_cons_of_mem e' hx)) hmap.2]
  have hnodes : t'.nodes = t.nodes :=
    hentries t.nodes t'.nodes t.wellFormed.found
      (fun e he => (hnode e.1).symm.trans (t'.wellFormed.found e he)) hplaces
  cases t
  cases t'
  simp only at hworkDir hnodes
  subst hworkDir hnodes
  rfl

/-! ## Putting a node -/

@[simp] theorem workDir_put (t : FileTree) (place : Place) (node : Node) :
    (t.put place node).workDir = t.workDir := by
  rw [put]
  split_ifs <;> rfl

theorem nodes_put (hput : t.nodes.Admits place node) :
    (t.put place node).nodes = t.nodes.put place node := by
  rw [put, dif_pos hput]

/-- Putting a node changes one place. -/
theorem nodeAt?_put (hput : t.nodes.Admits place node) (q : Place) :
    (t.put place node).nodeAt? q = if q = place then some node else t.nodeAt? q := by
  rw [nodeAt?, nodes_put hput]
  exact t.nodes.at?_put hput.ne_nil node q

theorem admits_concat (hparent : t.nodeAt? place = some .directory) (hname : IsName name)
    (hfree : node = .directory ∨ t.nodeAt? (place ++ [name]) ≠ some .directory) :
    t.nodes.Admits (place ++ [name]) node := by
  refine ⟨by simp, ?_, ?_, hfree⟩
  · intro other hother
    rcases List.mem_append.mp hother with hmem | hmem
    · exact isName_of_nodeAt? hparent other hmem
    · rw [List.mem_singleton.mp hmem]
      exact hname
  · rw [List.dropLast_concat]
    exact hparent

/-- Putting a node where one is adds no place. -/
theorem places_put (hput : t.nodes.Admits place node) (hnode : (t.nodeAt? place).isSome = true) :
    (t.put place node).nodes.map (·.1) = t.nodes.map (·.1) := by
  obtain ⟨old, hold⟩ := Option.isSome_iff_exists.mp hnode
  have hentry := Nodes.mem_of_at? hput.ne_nil hold
  rw [nodes_put hput]
  exact Nodes.places_put (List.any_eq_true.mpr ⟨_, hentry, by simp⟩) node

/-! ## Trees that grow -/

/-- Files stay files and directories stay directories; more may be there. -/
structure Grows (t t' : FileTree) : Prop where
  workDir : t'.workDir = t.workDir
  directory : ∀ place, t.nodeAt? place = some .directory → t'.nodeAt? place = some .directory
  file : ∀ place content, t.nodeAt? place = some (.file content) →
    ∃ content', t'.nodeAt? place = some (.file content')

theorem Grows.trans {t₁ t₂ t₃ : FileTree} (h₁ : Grows t₁ t₂) (h₂ : Grows t₂ t₃) :
    Grows t₁ t₃ := by
  refine ⟨h₂.workDir.trans h₁.workDir, fun p hp => h₂.directory p (h₁.directory p hp), ?_⟩
  intro p content hp
  obtain ⟨content', hp'⟩ := h₁.file p content hp
  exact h₂.file p content' hp'

theorem Grows.isSome (h : Grows t t') (hplace : (t.nodeAt? place).isSome = true) :
    (t'.nodeAt? place).isSome = true := by
  cases hnode : t.nodeAt? place with
  | none => rw [hnode] at hplace; exact absurd hplace (by simp)
  | some node =>
    cases node with
    | directory => rw [h.directory place hnode]; rfl
    | file content =>
      obtain ⟨content', hplace'⟩ := h.file place content hnode
      rw [hplace']
      rfl

/-! ## Places of paths -/

theorem follow_dot (place : Place) : follow place "." = place := rfl

theorem follow_parent (place : Place) : follow place ".." = place.dropLast := rfl

theorem follow_name (place : Place) (hname : IsName name) :
    follow place name = place ++ [name] := by
  rw [follow, if_neg hname.ne_dot, if_neg hname.ne_parent]

/-- The place that a path starts from. -/
def startOf (t : FileTree) (path : String) : Place :=
  if Path.isRooted path then [] else t.workDir

theorem placeOf_eq (t : FileTree) (path : String) :
    t.placeOf path = (Path.names path).foldl follow (t.startOf path) := rfl

theorem directory_startOf (t : FileTree) (path : String) :
    t.nodeAt? (t.startOf path) = some .directory := by
  rw [startOf]
  split_ifs
  · exact t.nodeAt?_nil
  · exact t.wellFormed.workDir

/-- Resolving a name in clean names follows it to its place. -/
theorem foldl_follow_step {rooted : Bool} {start : Place} (hstart : rooted = true → start = [])
    {up : List String} (hup : IsClean rooted up.reverse) (hname : IsPart name) :
    (Path.step rooted up name).reverse.foldl follow start =
      follow (up.reverse.foldl follow start) name := by
  by_cases hdot : name = "."
  · rw [hdot, Path.step_dot, follow_dot]
  by_cases hparent : name = ".."
  · subst hparent
    obtain ⟨ups, rest, hsplit, hrest, hups⟩ := hup
    rcases List.eq_nil_or_concat rest with rfl | ⟨before, last, rfl⟩
    · have hparents : up = List.replicate ups ".." := by
        rw [List.append_nil] at hsplit
        rw [← List.reverse_reverse up, hsplit, List.reverse_replicate]
      cases rooted with
      | true =>
        rw [hparents, hups rfl, hstart rfl]
        rfl
      | false =>
        rw [hparents, Path.step_parent_ups, List.reverse_replicate, List.reverse_replicate,
          List.replicate_succ', List.foldl_append]
        rfl
    · have hlast : IsName last := hrest last (by simp)
      have hlong : up = last :: (List.replicate ups ".." ++ before).reverse := by
        rw [← List.reverse_reverse up, hsplit]
        simp
      rw [hlong, Path.step_parent_concat _ _ hlast, List.reverse_cons, List.foldl_append,
        List.foldl_cons, List.foldl_nil, follow_name _ hlast, follow_parent, List.dropLast_concat]
  · have hproper : IsName name := ⟨hname, hdot, hparent⟩
    rw [Path.step_name _ _ hproper, List.reverse_cons, List.foldl_append]
    rfl

theorem foldl_follow_resolve {rooted : Bool} {start : Place} (hstart : rooted = true → start = [])
    {ns : List String} (hns : ∀ n ∈ ns, IsPart n) {up : List String}
    (hup : IsClean rooted up.reverse) :
    (ns.foldl (Path.step rooted) up).reverse.foldl follow start =
      ns.foldl follow (up.reverse.foldl follow start) := by
  induction ns generalizing up with
  | nil => rfl
  | cons n ns ih =>
    have hn := hns n List.mem_cons_self
    rw [List.foldl_cons, List.foldl_cons,
      ih (fun m hm => hns m (List.mem_cons_of_mem n hm)) (Path.isClean_step hup hn),
      foldl_follow_step hstart hup hn]

/-- The dots of a path can be resolved by name. -/
theorem foldl_follow_cleanNames (t : FileTree) (path : String) :
    (Path.cleanNames path).foldl follow (t.startOf path) = t.placeOf path := by
  have hstart : Path.isRooted path = true → t.startOf path = [] := fun h => by
    rw [startOf, if_pos h]
  exact foldl_follow_resolve hstart (fun _ hn => Path.isPart_of_mem_names hn) (Path.isClean_nil _)

theorem startOf_clean (t : FileTree) (path : String) :
    t.startOf (Path.clean path) = t.startOf path := by
  rw [startOf, startOf, Path.isRooted_clean]

theorem placeOf_clean (t : FileTree) (path : String) :
    t.placeOf (Path.clean path) = t.placeOf path := by
  rw [← foldl_follow_cleanNames, startOf_clean, Path.cleanNames_clean, foldl_follow_cleanNames]

theorem placeOf_append_slash (t : FileTree) {dir : String} (hdir : dir ≠ "") (path : String) :
    t.placeOf (dir ++ "/" ++ path) = (Path.names path).foldl follow (t.placeOf dir) := by
  have hstart : t.startOf (dir ++ "/" ++ path) = t.startOf dir := by
    rw [startOf, startOf, String.append_assoc, Path.isRooted_append hdir]
  rw [placeOf_eq, placeOf_eq, hstart, Path.names_append_slash, List.foldl_append]

theorem placeOf_join (t : FileTree) {dir : String} (hdir : dir ≠ "") (path : String) :
    t.placeOf (Path.join dir path) = (Path.names path).foldl follow (t.placeOf dir) := by
  rw [Path.join_of_ne_empty hdir, placeOf_clean, placeOf_append_slash t hdir]

/-- A name joined to a directory lies in it. -/
theorem placeOf_join_name (t : FileTree) {dir : String} (hdir : dir ≠ "") (hname : IsName name) :
    t.placeOf (Path.join dir name) = t.placeOf dir ++ [name] := by
  rw [placeOf_join t hdir, Path.names_of_isPart hname.isPart, List.foldl_cons, List.foldl_nil,
    follow_name _ hname]

theorem placeOf_congr (hworkDir : t'.workDir = t.workDir) (path : String) :
    t'.placeOf path = t.placeOf path := by
  rw [placeOf, placeOf, hworkDir]

theorem startOf_congr (hworkDir : t'.workDir = t.workDir) (path : String) :
    t'.startOf path = t.startOf path := by
  rw [startOf, startOf, hworkDir]

end PixelRem.FileTree
