import PixelRem.Files.Tree

/-!
# Access to a file tree

Programs reach the files of a tree by paths.  A name on the way can be a link, which leads to
another place, so two paths can lead to one file; and an access can be denied.  Which names
are links and what is denied stands in a `Mount` beside the tree.  It stays as it is while
files are written.

Every access follows links.  The one exception is a directory that is made: a link that leads
nowhere stands in its way.
-/

namespace PixelRem

/-- What is done at a place. -/
inductive Access where
  | read
  /-- A file is written, or a directory gets a new name. -/
  | write
  deriving DecidableEq, Repr

/-- Links and access rights of a file tree. -/
structure Mount where
  /-- Where links stand, and the places that they lead to in the end. -/
  links : List (Place × Place)
  /-- What is denied at files and directories. -/
  denied : List (Access × Place)
  /-- Links lead to places with proper names. -/
  named : ∀ link ∈ links, ∀ name ∈ link.2, Path.IsName name
  deriving DecidableEq, Repr

/-- Why an access fails. -/
inductive AccessError where
  | notFound
  | isDirectory
  | notDirectory
  | denied
  | fileExists
  deriving DecidableEq, Repr

/-- The wording of a failed access. -/
def AccessError.message : AccessError → String
  | .notFound => "no such file or directory"
  | .isDirectory => "is a directory"
  | .notDirectory => "not a directory"
  | .denied => "permission denied"
  | .fileExists => "file exists"

namespace Mount

/-- The mount of a tree without links, in which nothing is denied. -/
def plain : Mount :=
  ⟨[], [], by simp⟩

/-- Whether an access is denied at a place. -/
def denies (m : Mount) (access : Access) (place : Place) : Bool :=
  m.denied.contains (access, place)

/-! ## Places -/

/-- Where the link at a place leads, if one stands there. -/
def linkAt? (m : Mount) (place : Place) : Option Place :=
  m.links.lookup place

/-- Follows one name of a path, and the link that it may be. -/
def step (m : Mount) (place : Place) (name : String) : Place :=
  if name = "." then place
  else if name = ".." then place.dropLast
  else (m.linkAt? (place ++ [name])).getD (place ++ [name])

/-- The place of a path. -/
def placeOf (m : Mount) (t : FileTree) (path : String) : Place :=
  (Path.names path).foldl m.step (if Path.isRooted path then [] else t.workDir)

/-- The place that names lead to, if each of them starts in a directory that is there. -/
def walk? (m : Mount) (t : FileTree) (place : Place) : List String → Option Place
  | [] => some place
  | name :: names =>
    if t.nodeAt? place = some .directory then m.walk? t (m.step place name) names else none

/-- What a path leads to, step by step.  Only a directory has a slash behind it. -/
def find? (m : Mount) (t : FileTree) (path : String) : Option Node := do
  let place ← m.walk? t (if Path.isRooted path then [] else t.workDir) (Path.names path)
  let node ← t.nodeAt? place
  if path.toList.getLast? = some '/' ∧ node ≠ .directory then none else some node

/-- Whether a path leads to a file. -/
def isFile (m : Mount) (t : FileTree) (path : String) : Bool :=
  match t.nodeAt? (m.placeOf t path) with
  | some (.file _) => true
  | _ => false

/-! ## Reading and writing -/

/-- The content of a file. -/
def read (m : Mount) (t : FileTree) (path : String) : Except AccessError Text :=
  match t.nodeAt? (m.placeOf t path) with
  | some (.file content) =>
    if m.denies .read (m.placeOf t path) then .error .denied else .ok content
  | some .directory => .error .isDirectory
  | none => .error .notFound

/-- Writes a file whose directory exists. -/
def write (m : Mount) (t : FileTree) (path : String) (content : Text) :
    Except AccessError FileTree :=
  let place := m.placeOf t path
  match t.nodeAt? place with
  | some .directory => .error .isDirectory
  | some (.file _) =>
    if m.denies .write place then .error .denied else .ok (t.put place (.file content))
  | none =>
    match t.nodeAt? place.dropLast with
    | some .directory =>
      if m.denies .write place.dropLast then .error .denied
      else .ok (t.put place (.file content))
    | some (.file _) => .error .notDirectory
    | none => .error .notFound

/-- Makes the directories that the names of a path lead through, from a place on.  The
path so far, in reverse, names what stands in the way. -/
def makeFrom (m : Mount) (rooted : Bool) (t : FileTree) (place : Place) (done : List String) :
    List String → Except (String × AccessError) FileTree
  | [] => .ok t
  | name :: names =>
    let next := m.step place name
    let path := Path.ofNames rooted (name :: done).reverse
    match t.nodeAt? next with
    | some .directory => m.makeFrom rooted t next (name :: done) names
    | some (.file _) => .error (path, .notDirectory)
    | none =>
      if (m.linkAt? (place ++ [name])).isSome then .error (path, .fileExists)
      else if m.denies .write place then .error (path, .denied)
      else m.makeFrom rooted (t.put next .directory) next (name :: done) names

/-- Makes a directory and those it stands in.  What stands in the way is reported by its
path. -/
def makeDirectories (m : Mount) (t : FileTree) (path : String) :
    Except (String × AccessError) FileTree :=
  let rooted := Path.isRooted path
  m.makeFrom rooted t (if rooted then [] else t.workDir) [] (Path.names path)

end Mount

/-! ## Trees without links -/

namespace FileTree

/-- What a path leads to, step by step. -/
def find? (t : FileTree) (path : String) : Option Node :=
  Mount.plain.find? t path

/-- Whether a path leads to a directory. -/
def isDirectory (t : FileTree) (path : String) : Bool :=
  t.nodeAt? (t.placeOf path) == some .directory

/-- Whether a path leads to a file. -/
def isFile (t : FileTree) (path : String) : Bool :=
  Mount.plain.isFile t path

/-- The content of a file. -/
def read (t : FileTree) (path : String) : Except AccessError Text :=
  Mount.plain.read t path

/-- Writes a file whose directory exists. -/
def write (t : FileTree) (path : String) (content : Text) : Except AccessError FileTree :=
  Mount.plain.write t path content

end FileTree

end PixelRem
