import PixelRem.Files.Path
import PixelRem.Text

/-!
# The nodes of a file tree

A place is the list of names that leads to a directory or a file from the top.  The nodes of a
tree are well formed if each place has one of them, names are proper, and everything lies in a
directory; putting a node into a directory keeps that (`WellFormed.put`).
-/

namespace PixelRem

/-- The names that lead from the top of the tree to a file or directory. -/
abbrev Place := List String

/-- What a place holds. -/
inductive Node where
  | directory
  | file (content : Text)
  deriving DecidableEq, Repr

/-- Places and what they hold. -/
abbrev Nodes := List (Place × Node)

namespace Nodes

/-- What a place holds.  The top is always a directory. -/
def at? (nodes : Nodes) (place : Place) : Option Node :=
  if place.isEmpty then some .directory
  else nodes.lookup place

/-- Every place has one entry, which is what is found there, places have proper names, and
everything lies in a directory, the working directory being one. -/
structure WellFormed (nodes : Nodes) (workDir : Place) : Prop where
  distinct : (nodes.map (·.1)).Nodup
  found : ∀ entry ∈ nodes, nodes.at? entry.1 = some entry.2
  named : ∀ entry ∈ nodes, ∀ name ∈ entry.1, Path.IsName name
  parents : ∀ entry ∈ nodes, nodes.at? entry.1.dropLast = some .directory
  workDir : nodes.at? workDir = some .directory

instance (nodes : Nodes) (workDir : Place) : Decidable (WellFormed nodes workDir) :=
  decidable_of_iff
    ((nodes.map (·.1)).Nodup ∧ (∀ entry ∈ nodes, nodes.at? entry.1 = some entry.2) ∧
      (∀ entry ∈ nodes, ∀ name ∈ entry.1, Path.IsName name) ∧
      (∀ entry ∈ nodes, nodes.at? entry.1.dropLast = some .directory) ∧
      nodes.at? workDir = some .directory)
    ⟨fun h => ⟨h.1, h.2.1, h.2.2.1, h.2.2.2.1, h.2.2.2.2⟩, fun h => ⟨h.1, h.2, h.3, h.4, h.5⟩⟩

variable {nodes : Nodes} {workDir place q : Place} {node : Node}

@[simp] theorem at?_nil (nodes : Nodes) : nodes.at? [] = some .directory := rfl

theorem at?_of_ne_nil (nodes : Nodes) (hplace : place ≠ []) :
    nodes.at? place = nodes.lookup place := by
  rw [at?, if_neg (by simpa using hplace)]

theorem mem_of_at? (hplace : place ≠ []) (hnode : nodes.at? place = some node) :
    (place, node) ∈ nodes := by
  rw [at?_of_ne_nil nodes hplace, List.lookup_eq_some_iff] at hnode
  obtain ⟨before, behind, hnodes, -⟩ := hnode
  rw [hnodes]
  exact List.mem_append_right _ List.mem_cons_self

/-! ## Putting a node -/

/-- Puts a node at a place, in the place of what was there. -/
def put (nodes : Nodes) (place : Place) (node : Node) : Nodes :=
  if nodes.any (·.1 == place) then
    nodes.map fun entry => if entry.1 == place then (place, node) else entry
  else nodes ++ [(place, node)]

theorem lookup_map_put (nodes : Nodes) (place : Place) (node : Node) (q : Place) :
    (nodes.map fun entry => if entry.1 == place then (place, node) else entry).lookup q =
      if q = place ∧ (nodes.lookup q).isSome then some node else nodes.lookup q := by
  induction nodes with
  | nil => simp
  | cons entry nodes ih =>
    obtain ⟨p, n⟩ := entry
    rw [List.map_cons]
    by_cases hp : p = place
    · rw [if_pos (by simpa using hp), List.lookup_cons, List.lookup_cons, hp, ih]
      by_cases hq : q = place
      · simp [hq]
      · have hne : (q == place) = false := by simpa using hq
        simp [hne, hq]
    · rw [if_neg (by simpa using hp), List.lookup_cons, List.lookup_cons, ih]
      by_cases hq : q = p
      · simp [hq, hp]
      · have hne : (q == p) = false := by simpa using hq
        rw [hne]

theorem beq_place_comm {p q : Place} : (p == q) = (q == p) := by
  rw [Bool.eq_iff_iff, beq_iff_eq, beq_iff_eq, eq_comm]

/-- Putting a node changes one place. -/
theorem at?_put (nodes : Nodes) (hplace : place ≠ []) (node : Node) (q : Place) :
    (nodes.put place node).at? q = if q = place then some node else nodes.at? q := by
  by_cases hq : q = []
  · rw [hq, at?_nil, at?_nil, if_neg (Ne.symm hplace)]
  rw [at?_of_ne_nil _ hq, at?_of_ne_nil _ hq, put]
  by_cases hany : nodes.any (·.1 == place) = true
  · rw [if_pos hany, lookup_map_put]
    by_cases heq : q = place
    · subst heq
      have hsome : (nodes.lookup q).isSome = true := by
        rw [List.lookup_isSome_iff]
        obtain ⟨entry, hentry, hsame⟩ := List.any_eq_true.mp hany
        exact ⟨entry, hentry, beq_place_comm.trans hsame⟩
      rw [if_pos ⟨rfl, hsome⟩, if_pos rfl]
    · rw [if_neg (fun h => heq h.1), if_neg heq]
  · rw [if_neg hany, List.lookup_append]
    by_cases heq : q = place
    · subst heq
      have hnone : nodes.lookup q = none := by
        rw [List.lookup_eq_none_iff]
        intro entry hentry
        rw [Bool.not_eq_true, List.any_eq_false] at hany
        have hne : ¬(entry.1 == q) = true := hany entry hentry
        rw [bne, beq_place_comm, Bool.eq_false_iff.mpr hne]
        rfl
      rw [hnone]
      simp
    · have hqp : (q == place) = false := by simpa using heq
      simp [List.lookup_cons, hqp, heq]

theorem mem_put {entry : Place × Node} (hentry : entry ∈ nodes.put place node) :
    entry = (place, node) ∨ entry ∈ nodes ∧ entry.1 ≠ place := by
  rw [put] at hentry
  split at hentry
  · obtain ⟨old, hold, rfl⟩ := List.mem_map.mp hentry
    by_cases heq : old.1 = place
    · left
      rw [if_pos (by simpa using heq)]
    · right
      rw [if_neg (by simpa using heq)]
      exact ⟨hold, heq⟩
  · rename_i hany
    rcases List.mem_append.mp hentry with hold | hnew
    · right
      rw [Bool.not_eq_true, List.any_eq_false] at hany
      exact ⟨hold, by simpa using hany entry hold⟩
    · exact .inl (List.mem_singleton.mp hnew)

theorem places_put (hany : nodes.any (·.1 == place) = true) (node : Node) :
    (nodes.put place node).map (·.1) = nodes.map (·.1) := by
  rw [put, if_pos hany, List.map_map]
  apply List.map_congr_left
  intro old _
  by_cases heq : old.1 = place
  · simp [heq]
  · simp [heq]

theorem nodup_put (hnodes : (nodes.map (·.1)).Nodup) (place : Place) (node : Node) :
    ((nodes.put place node).map (·.1)).Nodup := by
  by_cases hany : nodes.any (·.1 == place) = true
  · rwa [places_put hany]
  · rw [put, if_neg hany, List.map_append, List.map_singleton, List.nodup_append]
    refine ⟨hnodes, by simp, ?_⟩
    intro old hold new hnew
    rw [List.mem_singleton.mp hnew]
    rintro rfl
    obtain ⟨entry, hentry, rfl⟩ := List.mem_map.mp hold
    exact hany (List.any_eq_true.mpr ⟨entry, hentry, by simp⟩)

/-- A node can be put at a place: it comes into a directory, under a proper name, and no directory
gives way to a file. -/
structure Admits (nodes : Nodes) (place : Place) (node : Node) : Prop where
  ne_nil : place ≠ []
  named : ∀ name ∈ place, Path.IsName name
  parent : nodes.at? place.dropLast = some .directory
  directory : node = .directory ∨ nodes.at? place ≠ some .directory

instance (nodes : Nodes) (place : Place) (node : Node) : Decidable (nodes.Admits place node) :=
  decidable_of_iff
    (place ≠ [] ∧ (∀ name ∈ place, Path.IsName name) ∧
      nodes.at? place.dropLast = some .directory ∧
      (node = .directory ∨ nodes.at? place ≠ some .directory))
    ⟨fun h => ⟨h.1, h.2.1, h.2.2.1, h.2.2.2⟩, fun h => ⟨h.1, h.2, h.3, h.4⟩⟩

/-- Nodes stay well formed if a node is put where it can be. -/
theorem WellFormed.put (hnodes : nodes.WellFormed workDir) (hput : nodes.Admits place node) :
    (nodes.put place node).WellFormed workDir := by
  have hat := nodes.at?_put hput.ne_nil node
  have hdirectory : ∀ q, nodes.at? q = some .directory →
      (nodes.put place node).at? q = some .directory := by
    intro q hq
    rw [hat]
    by_cases heq : q = place
    · rw [if_pos heq]
      rcases hput.directory with rfl | hfree
      · rfl
      · exact absurd (heq ▸ hq) hfree
    · rw [if_neg heq]
      exact hq
  constructor
  case distinct => exact nodup_put hnodes.distinct place node
  case found =>
    intro entry hentry
    rcases mem_put hentry with rfl | ⟨hold, hother⟩
    · rw [hat, if_pos rfl]
    · rw [hat, if_neg hother]
      exact hnodes.found entry hold
  case named =>
    intro entry hentry
    rcases mem_put hentry with rfl | ⟨hold, -⟩
    · exact hput.named
    · exact hnodes.named entry hold
  case parents =>
    intro entry hentry
    rcases mem_put hentry with rfl | ⟨hold, -⟩
    · exact hdirectory _ hput.parent
    · exact hdirectory _ (hnodes.parents entry hold)
  case workDir => exact hdirectory _ hnodes.workDir

end Nodes

end PixelRem
