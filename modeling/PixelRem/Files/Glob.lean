import PixelRem.Files.Tree
import PixelRem.Files.Glob.Match
import PixelRem.Files.Glob.Row

/-!
# Glob patterns

Patterns that select paths of a file tree.  Each name of a path is matched by its
part of the pattern; beside that

* `**` as a whole name stands for any number of directories, and at the end of a
  pattern also for every file below;
* `{a,b}` stands for either alternative, which may hold slashes.

Matches come directory by directory in the order of names.  A pattern with `**`
before its end is walked: the matches of a group of alternatives are put in the
order of their paths.  Any other pattern is listed into a row of matches: each
alternative is merged into those before it.  A listing of directories for a later
alternative starts from the row of the matches so far, which are then looked into
like the directories.
-/

namespace PixelRem

namespace Glob

/-! ## What patterns see -/

/-- The part of a tree that patterns see, by paths from their base: whether something
stands at a path and is a directory, and what stands in a directory. -/
structure View where
  isDirectory? : String → Option Bool
  children? : String → Option (List (String × Bool))
  /-- The number of places, which bounds the depth of directories. -/
  size : Nat

/-- Whether something stands at a path, and whether it is a directory.  A slash at the end
of the path does not count. -/
def View.find? (v : View) (path : String) : Option Bool :=
  match path.toList.reverse with
  | '/' :: c :: s => v.isDirectory? (String.ofList (c :: s).reverse)
  | _ => v.isDirectory? path

/-- The path of a pattern that stands for itself below a directory; the empty directory
is the base. -/
def pathIn (top : String) (pattern : List Char) : String :=
  let path := String.ofList (unescape pattern)
  if top.isEmpty then path else top ++ "/" ++ path

/-- The path of the directory that a search starts in. -/
def topPath (top : String) : String :=
  if top.isEmpty then "." else top

/-- The directory that the alternatives of a group start in, from its path. -/
def topOf (path : String) : String :=
  if path = "." then "" else path

/-- All directories from one on, in the order of names, and the files in them if `files`
says so.  The fuel bounds the depth. -/
def descend (v : View) (files : Bool) : (fuel : Nat) → (dir : String) → List String
  | 0, _ => []
  | fuel + 1, dir =>
    match v.children? dir with
    | none => []
    | some entries => entries.flatMap fun (name, isDir) =>
      let path := Path.join dir name
      if isDir then path :: descend v files fuel path else if files then [path] else []

/-- The paths in a directory that a pattern for names matches.  Only the last pattern of
a path matches files.  `none` for a malformed pattern. -/
def inDirectory (v : View) (walked : Bool) (dir : String) (pattern : List Char) (files : Bool) :
    Option (List String) :=
  if pattern.isEmpty then some (if v.find? dir = some true then [dir] else [])
  else if pattern = ['*', '*'] then
    let stands := if walked then v.find? dir = some true else (v.children? dir).isSome
    some (if stands then dir :: descend v files (v.size + 1) dir else [])
  else (v.children? dir).getD [] |>.foldlM
    (fun found (name, isDir) => do
      let fits ← matchesName? pattern name
      return if fits && (files || isDir) then found ++ [Path.join dir name] else found)
    []

/-! ## Walking -/

/-- Puts a path in its place among sorted paths, unless it is there. -/
def insertPath (path : String) : List String → List String
  | [] => [path]
  | other :: paths =>
    if path < other then path :: other :: paths
    else if path = other then other :: paths
    else other :: insertPath path paths

/-- The paths that a pattern matches below a directory.  The fuel bounds the number of
cuts. -/
def walk (v : View) : (fuel : Nat) → (top : String) → (pattern : List Char) → (files : Bool) →
    Option (List String)
  | 0, _, _, _ => some []
  | fuel + 1, top, pattern, files =>
    let literal (path : String) := if (v.find? path).isSome then [path] else []
    if !hasMeta pattern then some (literal (pathIn top pattern))
    else match cut pattern with
      | .name none name => inDirectory v true (topPath top) name files
      | .name (some dir) name =>
        if hasMeta dir then do
          let dirs ← walk v fuel top dir false
          let found ← dirs.mapM fun d => inDirectory v true d name files
          return found.flatten
        else inDirectory v true (pathIn top dir) name files
      | .group before inside behind => do
        let (dirs, start) ←
          match cutLastOf (fun c => c == '/' || c == '\x7d') false before with
          | some (dir, '/', start) => do
            let dirs ← walk v fuel top dir false
            pure (dirs.map topOf, start)
          | some _ => pure ([top], before)
          | none => pure (if top.isEmpty then [top] else literal top, before)
        let found ← dirs.mapM fun d =>
          (alternatives inside).mapM fun alternative =>
            walk v fuel d (start ++ alternative ++ behind) files
        return found.flatten.flatten.foldl (fun sorted path => insertPath path sorted) []

/-! ## Listing -/

/-- Adds the paths that a pattern matches below a directory to a row.  The fuel bounds the
number of cuts. -/
def list (v : View) : (fuel : Nat) → (top : String) → (pattern : List Char) → (files : Bool) →
    Row → Option Growth
  | 0, _, _, _, row => some (.of row)
  | fuel + 1, top, pattern, files, row =>
    let literal (path : String) : Growth :=
      if (v.find? path).isSome then (Growth.of row).push path else .of row
    let named (dir : String) (name : List Char) (row : Row) : Option Growth :=
      (inDirectory v false dir name files).map fun found => found.foldl Growth.push (.of row)
    if !hasMeta pattern then some (literal (pathIn top pattern))
    else match cut pattern with
      | .name none name => named (topPath top) name row
      | .name (some dir) name =>
        if hasMeta dir then do
          let dirs ← list v fuel top dir false row
          dirs.distribute fun d row => named d name row
        else named (pathIn top dir) name row
      | .group before inside behind =>
        let each (start : List Char) (top : String) (row : Row) : Option Growth :=
          (alternatives inside).foldlM
            (fun g alternative => do
              let h ← list v fuel top (start ++ alternative ++ behind) files g.row
              let second := g.row.used
              let g := g.next h
              return if second != row.used && second != g.row.used then g.merge row.used second
                else g)
            (Growth.of row)
        match cutLastOf (fun c => c == '/' || c == '\x7d') false before with
        | some (dir, '/', start) => do
          let dirs ← list v fuel top dir false row
          dirs.distribute fun d row => each start (topOf d) row
        | some _ => each before top row
        | none =>
          if top.isEmpty then each before top row
          else (literal top).distribute fun d row => each before (topOf d) row

/-- The paths that a pattern matches, or `none` if it is malformed. -/
def select (v : View) (pattern : List Char) : Option (List String) :=
  if !isValid pattern then none
  else if hasInnerStars pattern then walk v (pattern.length + 1) "" pattern true
  else (list v (pattern.length + 1) "" pattern true .empty).map fun g => g.row.paths

end Glob

/-! ## Trees -/

namespace FileTree

/-- The names of a path that starts at a base, if each stands for itself. -/
def namesBelow? (path : String) : Option (List String) :=
  if path = "." then some []
  else
    let names := Path.names path
    if path = Path.ofNames false names && names.all (fun name => name != "." && name != "..") then
      some names
    else none

/-- What patterns see of a tree from a base directory on. -/
def globView (t : FileTree) (base : String) : Glob.View :=
  let top := t.placeOf base
  let place? (path : String) := (namesBelow? path).map (top ++ ·)
  { isDirectory? := fun path => ((place? path).bind t.nodeAt?).map (· == .directory)
    children? := fun path =>
      match place? path with
      | none => none
      | some place =>
        if t.nodeAt? place == some .directory then
          some ((t.children place).map fun (name, node) => (name, node == .directory))
        else none
    size := t.nodes.length }

open Glob in
/-- The paths that a pattern matches, or `none` if the pattern is malformed. -/
def glob? (t : FileTree) (pattern : String) : Option (List String) :=
  if pattern.isEmpty then some []
  else
    let pattern := (Path.clean pattern).toList
    let (base, rest) := baseAndRest pattern
    if rest = [] || rest = ['.'] || rest = ['.', '.'] then
      if !isValid pattern then none
      else
        let path := String.ofList (unescape pattern)
        some (if (t.nodeAt? (t.placeOf path)).isSome then [path] else [])
    else
      (select (t.globView base) rest).map fun found => found.map (Path.join base ·)

end FileTree

end PixelRem
