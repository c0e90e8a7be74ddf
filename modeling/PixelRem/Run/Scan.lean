import PixelRem.Files.Glob
import PixelRem.Files.Ignore
import PixelRem.Files.Mount
import PixelRem.Text.Quoted

/-!
# Scans

A scan finds the files to convert: those that match one of the patterns, each
once and in the order of first match.  Files that a run has written itself and
files on the ignore list are counted as skipped and left out.

The ignore list is read when the first path is held against it, and a workspace
keeps it from then on.
-/

namespace PixelRem

/-! ## Files that are left out -/

/-- Whether a path ends as the generated sheets do: `.rem.css`, or `.css` behind a
dot, digits and an `x`. -/
def isGenerated (path : String) : Bool :=
  match path.toList.reverse with
  | 's' :: 's' :: 'c' :: '.' :: 'm' :: 'e' :: 'r' :: '.' :: _ => true
  | 's' :: 's' :: 'c' :: '.' :: 'x' :: s =>
    !(s.takeWhile Char.isDigit).isEmpty && (s.dropWhile Char.isDigit).head? == some '.'
  | _ => false

/-- Whether a path is held against the ignore list.  Paths from the root lie outside. -/
def asksIgnoreList (path : String) : Bool :=
  !isGenerated path && !Path.isRooted path

/-- Whether a file is left out of a conversion. -/
def skips (ignored : IgnoreList) (path : String) : Bool :=
  isGenerated path || (!Path.isRooted path && ignored.ignores path)

/-! ## Scans of matches -/

/-- What a scan finds. -/
structure Scan where
  /-- The number of files that match. -/
  discovered : Nat
  /-- The number of them that are left out. -/
  skipped : Nat
  /-- The others, in the order of first match. -/
  files : List String
  deriving DecidableEq, Repr

/-- The files among paths, each once. -/
def filesAmong (isFile : String → Bool) (paths : List String) : List String :=
  paths.eraseDups.filter isFile

/-- The scan of the matches of all patterns. -/
def Scan.ofMatches (isFile skip : String → Bool) (paths : List String) : Scan :=
  let found := filesAmong isFile paths
  ⟨found.length, (found.filter skip).length, found.filter (!skip ·)⟩

/-- A malformed pattern. -/
structure PatternError where
  pattern : String
  deriving DecidableEq, Repr

/-- The wording of a malformed pattern. -/
def PatternError.message (e : PatternError) : Text :=
  utf8 "glob pattern " ++ Text.quotedString e.pattern ++ utf8 ": syntax error in pattern"

/-- A way to match a pattern in a file tree; `none` for a malformed pattern. -/
abbrev Globber := FileTree → String → Option (List String)

/-- The matches of patterns in order, up to the first malformed one. -/
def collectMatches (glob : String → Option (List String)) :
    List String → List String × Option PatternError
  | [] => ([], none)
  | pattern :: patterns =>
    match glob pattern with
    | none => ([], some ⟨pattern⟩)
    | some paths =>
      let (others, error) := collectMatches glob patterns
      (paths ++ others, error)

/-- The scan of patterns for which `glob` finds the matches. -/
def scanPatterns (glob : String → Option (List String)) (isFile skip : String → Bool)
    (patterns : List String) : Except PatternError Scan :=
  match collectMatches glob patterns with
  | (_, some e) => .error e
  | (paths, none) => .ok (.ofMatches isFile skip paths)

/-! ## Workspaces -/

/-- The name of the ignore file. -/
def ignoreFile : String := ".gitignore"

/-- Files, and the ignore list once it has been read. -/
structure Workspace where
  files : FileTree
  ignored : Option IgnoreList
  deriving DecidableEq, Repr

namespace Workspace

/-- The ignore list that holds.  A missing ignore file has an empty one. -/
def ignoreListIn (m : Mount) (w : Workspace) : IgnoreList :=
  match w.ignored, m.read w.files ignoreFile with
  | some rules, _ => rules
  | none, .ok content => .ofText content
  | none, .error _ => []

/-- Whether a path is left out. -/
def skipsIn (m : Mount) (w : Workspace) (path : String) : Bool :=
  PixelRem.skips (w.ignoreListIn m) path

/-- Keeps the ignore list if one of the paths is held against it. -/
def checkIn (m : Mount) (w : Workspace) (paths : List String) : Workspace :=
  if paths.any asksIgnoreList then { w with ignored := some (w.ignoreListIn m) } else w

/-- Scans a directory with a way to match patterns. -/
def scanIn (m : Mount) (glob : Globber) (w : Workspace) (source : String)
    (patterns : List String) : Except PatternError Scan × Workspace :=
  let matching (pattern : String) := glob w.files (Path.join source pattern)
  let found := filesAmong (m.isFile w.files) (collectMatches matching patterns).1
  (scanPatterns matching (m.isFile w.files) (w.skipsIn m) patterns, w.checkIn m found)

/-! ## Workspaces without links -/

/-- Whether a path is left out. -/
def skips (w : Workspace) (path : String) : Bool :=
  w.skipsIn .plain path

/-- Keeps the ignore list if one of the paths is held against it. -/
def check (w : Workspace) (paths : List String) : Workspace :=
  w.checkIn .plain paths

/-- Scans a directory with a way to match patterns. -/
def scanWith (glob : Globber) (w : Workspace) (source : String) (patterns : List String) :
    Except PatternError Scan × Workspace :=
  w.scanIn .plain glob source patterns

/-- Scans a directory. -/
def scan (w : Workspace) (source : String) (patterns : List String) :
    Except PatternError Scan × Workspace :=
  w.scanWith FileTree.glob? source patterns

end Workspace

end PixelRem
