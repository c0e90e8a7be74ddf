/-!
# The text of glob patterns

Which patterns are well formed, and the cuts that take a pattern apart.

A backslash takes the next character literally.  The cuts from the right look
only at the one character before a slash or a brace, so a doubled backslash
there counts as an escape too.
-/

namespace PixelRem.Glob

/-! ## Validity -/

/-- What the scan of a pattern is inside of. -/
inductive Scope where
  | plain
  | classStart
  | classFirst
  | inClass
  deriving DecidableEq

/-- Checks a pattern from a scope and a depth of open alternatives on.  A class must not
be empty and must be closed, alternatives must balance, and a backslash must take a
character. -/
def isValidFrom : (scope : Scope) → (depth : Nat) → List Char → Bool
  | scope, depth, [] => scope == .plain && depth == 0
  | .plain, depth, c :: s =>
    if c = '\\' then
      match s with
      | [] => false
      | _ :: s => isValidFrom .plain depth s
    else if c = '[' then isValidFrom .classStart depth s
    else if c = '\x7b' then isValidFrom .plain (depth + 1) s
    else if c = '\x7d' then depth != 0 && isValidFrom .plain (depth - 1) s
    else isValidFrom .plain depth s
  | .classStart, depth, c :: s =>
    if c = '^' || c = '!' then isValidFrom .classFirst depth s
    else if c = ']' then false
    else if c = '\\' then
      match s with
      | [] => false
      | _ :: s => isValidFrom .inClass depth s
    else isValidFrom .inClass depth s
  | .classFirst, depth, c :: s =>
    if c = ']' then false
    else if c = '\\' then
      match s with
      | [] => false
      | _ :: s => isValidFrom .inClass depth s
    else isValidFrom .inClass depth s
  | .inClass, depth, c :: s =>
    if c = ']' then isValidFrom .plain depth s
    else if c = '\\' then
      match s with
      | [] => false
      | _ :: s => isValidFrom .inClass depth s
    else isValidFrom .inClass depth s

/-- Whether a pattern is well formed. -/
def isValid (pattern : List Char) : Bool :=
  isValidFrom .plain 0 pattern

/-! ## Characters with a meaning of their own -/

/-- Whether a character has a meaning of its own in patterns. -/
def isMeta (c : Char) : Bool :=
  c == '*' || c == '?' || c == '[' || c == '\x7b'

/-- Whether a pattern has a character with a meaning of its own. -/
def hasMeta : List Char → Bool
  | [] => false
  | '\\' :: _ :: s => hasMeta s
  | c :: s => isMeta c || hasMeta s

/-- Whether a backslash before a character falls away in a literal path. -/
def isEscapable (c : Char) : Bool :=
  isMeta c || c == ']' || c == '\x7d'

/-- The path that a pattern without such characters stands for.  Only the backslashes
before characters with a meaning in some pattern fall away. -/
def unescape : List Char → List Char
  | [] => []
  | c :: s => if c = '\\' && s.head?.any isEscapable then unescape s else c :: unescape s

/-- Whether two stars stand together with at least two characters behind them. -/
def hasInnerStars : List Char → Bool
  | '\\' :: _ :: s => hasInnerStars s
  | '*' :: '*' :: _ :: _ :: _ => true
  | _ :: s => hasInnerStars s
  | [] => false

/-! ## Cuts -/

/-- What stands before and behind the last character of a kind that has no backslash
before it.  `escaped` says that a backslash came before. -/
def cutLastOf (stops : Char → Bool) (escaped : Bool) : List Char →
    Option (List Char × Char × List Char)
  | [] => none
  | c :: s =>
    match cutLastOf stops (c == '\\') s with
    | some (before, d, behind) => some (c :: before, d, behind)
    | none => if stops c && !escaped then some ([], c, s) else none

/-- The cut at the last slash. -/
def cutSlash (pattern : List Char) : Option (List Char × List Char) :=
  (cutLastOf (· == '/') false pattern).map fun (before, _, behind) => (before, behind)

/-- Finds the brace that opens a group, given what stands before its closing brace in
reverse: what stands inside, and what stands before it in reverse. -/
def cutOpening : (depth : Nat) → List Char → Option (List Char × List Char)
  | _, [] => none
  | depth, c :: s =>
    let escaped := s.head? == some '\\'
    let inner (depth : Nat) := (cutOpening depth s).map fun (inside, before) =>
      (inside ++ [c], before)
    if c = '\x7d' && !escaped then inner (depth + 1)
    else if c = '\x7b' && !escaped then
      match depth with
      | 0 => some ([], s)
      | depth + 1 => inner depth
    else inner depth

/-- How a pattern is taken apart from the right. -/
inductive Cut where
  /-- A pattern for names in a directory, itself given by a pattern unless it is the
  one that the search starts in. -/
  | name (directory : Option (List Char)) (pattern : List Char)
  /-- A group of alternatives with what stands before, inside and behind it. -/
  | group (before inside behind : List Char)
  deriving DecidableEq, Repr

/-- Cuts a pattern at its last slash, or at the group that its last brace closes.  A
brace that closes no group is a character like others. -/
def cut (pattern : List Char) : Cut :=
  let byName : Option (List Char × List Char) → Cut
    | some (before, behind) => .name (some before) behind
    | none => .name none pattern
  match cutLastOf (fun c => c == '/' || c == '\x7d') false pattern with
  | none => .name none pattern
  | some (before, '/', behind) => byName (some (before, behind))
  | some (before, brace, behind) =>
    match cutOpening 0 before.reverse with
    | some (inside, opening) => .group opening.reverse inside behind
    | none => byName ((cutSlash before).map fun (dir, name) => (dir, name ++ brace :: behind))

/-! ## Alternatives -/

/-- The place of the first comma outside inner groups: what stands before and behind it. -/
def cutComma : (depth : Int) → List Char → Option (List Char × List Char)
  | _, [] => none
  | depth, '\\' :: c :: s =>
    (cutComma depth s).map fun (before, behind) => ('\\' :: c :: before, behind)
  | depth, c :: s =>
    if c = ',' && depth = 0 then some ([], s)
    else
      let depth := if c = '\x7b' then depth + 1 else if c = '\x7d' then depth - 1 else depth
      (cutComma depth s).map fun (before, behind) => (c :: before, behind)

/-- The alternatives of a group.  The fuel bounds their number. -/
def splitCommas : (fuel : Nat) → List Char → List (List Char)
  | 0, s => [s]
  | fuel + 1, s =>
    match cutComma 0 s with
    | some (first, rest) => first :: splitCommas fuel rest
    | none => [s]

/-- The alternatives that are tried as paths.  An empty one at the end does not count. -/
def alternatives (inside : List Char) : List (List Char) :=
  let all := splitCommas inside.length inside
  if all.getLast? = some [] then all.dropLast else all

/-- Finds the brace that closes a group: what stands inside and what stands behind. -/
def cutClosing : (depth : Nat) → List Char → Option (List Char × List Char)
  | _, [] => none
  | depth, '\\' :: c :: s =>
    (cutClosing depth s).map fun (inside, behind) => ('\\' :: c :: inside, behind)
  | depth, c :: s =>
    let inner (depth : Nat) := (cutClosing depth s).map fun (inside, behind) =>
      (c :: inside, behind)
    if c = '\x7b' then inner (depth + 1)
    else if c = '\x7d' then
      match depth with
      | 0 => some ([], s)
      | depth + 1 => inner depth
    else inner depth

/-! ## The base of a pattern -/

/-- The literal directory that a pattern starts with and the pattern behind it.  The cut
is at the last slash before the first character with a meaning of its own. -/
def splitBase : (seen : List Char) → (cut : Option (List Char × List Char)) → List Char →
    Option (List Char × List Char)
  | _, cut, [] => cut
  | seen, cut, '\\' :: c :: s => splitBase (c :: '\\' :: seen) cut s
  | seen, cut, c :: s =>
    if isMeta c then cut
    else splitBase (c :: seen) (if c = '/' then some (seen.reverse, s) else cut) s

/-- The base directory and the rest of a clean pattern. -/
def baseAndRest (pattern : List Char) : String × List Char :=
  match splitBase [] none pattern with
  | none => (".", pattern)
  | some ([], rest) => ("/", rest)
  | some (base, rest) => (String.ofList (unescape base), rest)

end PixelRem.Glob
