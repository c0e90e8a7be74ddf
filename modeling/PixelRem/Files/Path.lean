/-!
# Paths

Slash-separated paths as strings.  `clean` gives the shortest equal path by
resolving `.`, `..` and repeated slashes from the names alone; the other
operations work on clean paths or produce them.
-/

namespace PixelRem.Path

/-- A piece of a path between slashes. -/
def IsPart (name : String) : Prop :=
  name ≠ "" ∧ '/' ∉ name.toList

/-- A piece of a path that names a file or a directory. -/
structure IsName (name : String) : Prop where
  isPart : IsPart name
  ne_dot : name ≠ "."
  ne_parent : name ≠ ".."

instance (name : String) : Decidable (IsPart name) :=
  inferInstanceAs (Decidable (_ ∧ _))

instance (name : String) : Decidable (IsName name) :=
  decidable_of_iff (IsPart name ∧ name ≠ "." ∧ name ≠ "..")
    ⟨fun h => ⟨h.1, h.2.1, h.2.2⟩, fun h => ⟨h.1, h.2, h.3⟩⟩

/-- The names of a path between its slashes, without the empty ones. -/
def namesFrom : (name : List Char) → List Char → List String
  | name, [] => if name.isEmpty then [] else [String.ofList name.reverse]
  | name, c :: s =>
    if c = '/' then
      if name.isEmpty then namesFrom [] s else String.ofList name.reverse :: namesFrom [] s
    else namesFrom (c :: name) s

/-- The names of a path. -/
def names (p : String) : List String :=
  namesFrom [] p.toList

/-- Whether a path starts at the root. -/
def isRooted (p : String) : Bool :=
  p.toList.head? == some '/'

/-- Adds a name to the reversed names of a clean path.  A parent step takes the last
name back; above the root there is only the root. -/
def step (rooted : Bool) (up : List String) (name : String) : List String :=
  if name = "." then up
  else if name = ".." then
    match up with
    | [] => if rooted then [] else [".."]
    | last :: rest => if last = ".." then ".." :: up else rest
  else name :: up

/-- The names of a path with its dots resolved. -/
def cleanNames (p : String) : List String :=
  ((names p).foldl (step (isRooted p)) []).reverse

/-- The path of resolved names. -/
def ofNames (rooted : Bool) (ns : List String) : String :=
  match rooted, ns with
  | true, ns => "/" ++ "/".intercalate ns
  | false, [] => "."
  | false, ns => "/".intercalate ns

/-- The shortest equal path; the empty path is the current directory. -/
def clean (p : String) : String :=
  ofNames (isRooted p) (cleanNames p)

/-- Joins two paths into a clean one.  Empty paths are dropped, and two of them join to
the empty path. -/
def join (a b : String) : String :=
  if a.isEmpty then if b.isEmpty then "" else clean b
  else clean (a ++ "/" ++ b)

/-- What stands before and behind the last slash, the slash with the first part. -/
def splitLast (p : String) : List Char × List Char :=
  let behind := p.toList.reverse.takeWhile (· != '/')
  (p.toList.take (p.toList.length - behind.length), behind.reverse)

/-- The directory of a path. -/
def directory (p : String) : String :=
  clean (String.ofList (splitLast p).1)

/-- The last name of a path. -/
def base (p : String) : String :=
  match (names p).getLast? with
  | some name => name
  | none => if p.isEmpty then "." else "/"

/-- The end of the last name of a path from its last dot on. -/
def ext (p : String) : String :=
  let behind := (splitLast p).2
  let tail := behind.reverse.takeWhile (· != '.')
  if tail.length = behind.length then ""
  else String.ofList ('.' :: tail.reverse)

/-- The last name of a path without its extension. -/
def stem (p : String) : String :=
  let name := (base p).toList
  let end' := (ext p).toList
  if end'.isSuffixOf name then String.ofList (name.take (name.length - end'.length))
  else String.ofList name

/-- Drops the names that two lists have in common at their start. -/
def dropCommon : List String → List String → List String × List String
  | a :: as, b :: bs => if a = b then dropCommon as bs else (a :: as, b :: bs)
  | as, bs => (as, bs)

/-- The path that leads from one directory to another.  Names alone do not tell it where
the first has a parent step in the place of a name of the second; the current directory
counts as a name there. -/
def relative? (source target : String) : Option String :=
  if isRooted source != isRooted target then none
  else
    let names := cleanNames target
    let (up, down) := dropCommon (cleanNames source) names
    if up.head? = some ".." && (names.isEmpty || !down.isEmpty) then none
    else some (ofNames false (up.map (fun _ => "..") ++ down))

end PixelRem.Path
