import PixelRem.Files.Nodes

/-!
# File trees

A file system as a value: which places hold a directory and which a file with
its content.  A tree carries that its nodes are well formed, so a node is put
only where it can be.

Paths are taken from the working directory.  Here the names of a path are
followed as they are written; links are followed in `PixelRem.Files.Mount`.
-/

namespace PixelRem

/-- A file system and the directory that paths start from. -/
structure FileTree where
  nodes : Nodes
  workDir : Place
  wellFormed : nodes.WellFormed workDir
  deriving DecidableEq, Repr

namespace FileTree

/-- What a place holds. -/
def nodeAt? (t : FileTree) (place : Place) : Option Node :=
  t.nodes.at? place

/-- Puts a node at a place, in the place of what was there.  Nothing changes if it cannot be
there. -/
def put (t : FileTree) (place : Place) (node : Node) : FileTree :=
  if hput : t.nodes.Admits place node then
    ⟨t.nodes.put place node, t.workDir, t.wellFormed.put hput⟩
  else t

/-- Makes the directories that are missing on the way from a place along names. -/
def ensureFrom (t : FileTree) (place : Place) : List String → FileTree
  | [] => t
  | name :: names =>
    let place := place ++ [name]
    ensureFrom (if (t.nodeAt? place).isNone then t.put place .directory else t) place names

/-- A tree with nothing but its working directory and those that this lies in. -/
def empty (workDir : Place) : FileTree :=
  let t := ensureFrom ⟨[], [], by decide⟩ [] workDir
  if h : t.nodeAt? workDir = some .directory then
    ⟨t.nodes, workDir, { t.wellFormed with workDir := h }⟩
  else t

/-! ## Places -/

/-- Follows one name of a path. -/
def follow (place : Place) (name : String) : Place :=
  if name = "." then place else if name = ".." then place.dropLast else place ++ [name]

/-- The place of a path. -/
def placeOf (t : FileTree) (path : String) : Place :=
  (Path.names path).foldl follow (if Path.isRooted path then [] else t.workDir)

/-! ## Listings -/

/-- The order of places in a listing: name by name, a directory before its content. -/
def placeLe : Place → Place → Bool
  | [], _ => true
  | _ :: _, [] => false
  | a :: as, b :: bs => a < b || (a == b && placeLe as bs)

/-- All nodes in the order of their places. -/
def sorted (t : FileTree) : List (Place × Node) :=
  t.nodes.mergeSort fun a b => placeLe a.1 b.1

/-- Everything below a directory, with places taken from there. -/
def below (t : FileTree) (place : Place) : List (Place × Node) :=
  t.sorted.filterMap fun (p, node) =>
    if place.isPrefixOf p && p.length != place.length then some (p.drop place.length, node)
    else none

/-- What stands directly in a directory, by name. -/
def children (t : FileTree) (place : Place) : List (String × Node) :=
  (t.below place).filterMap fun (p, node) =>
    match p with
    | [name] => some (name, node)
    | _ => none

end FileTree

end PixelRem
