import PixelRem.Files.Glob.Pattern

/-!
# Matching names

Whether a pattern matches a name: `*` stands for any run of characters, `?` for
one character, `[a-z]` for one of a class and `[^a-z]` or `[!a-z]` for one
outside it, `{a,b}` for either alternative, and a backslash takes the next
character literally.

A pattern that was cut out of a longer one can hold an open class.  Such a
pattern is malformed, which shows when the match comes to the class; a match
that fails before it gives the answer no.
-/

namespace PixelRem.Glob

/-! ## Classes -/

/-- The character that a class holds where its text breaks off. -/
def brokenOff : Char := '\uFFFD'

/-- Tries the ranges of a class on a character: whether one fits, and the text behind
that one or at the end of the class.  `last` can start a range.  The fuel bounds the
number of ranges. -/
def scanClass (c : Char) : (fuel : Nat) → (last : Option Char) → List Char → Bool × List Char
  | 0, _, s => (false, s)
  | _ + 1, _, [] => (false, [])
  | fuel + 1, last, x :: s =>
    if x = ']' then (false, x :: s)
    else
      let single :=
        let (x, s) := if x = '\\' then (s.headD brokenOff, s.tail) else (x, s)
        if x = c then (true, s) else scanClass c fuel (some x) s
      match last, x, s with
      | some low, '-', d :: t =>
        if d = ']' then single
        else
          let s := if d = '\\' then t else d :: t
          let high := s.headD brokenOff
          if low ≤ c && c ≤ high then (true, s.tail) else scanClass c fuel none s.tail
      | _, _, _ => single

/-- Drops a class up to its closing bracket. -/
def dropClass : List Char → Option (List Char)
  | [] => none
  | ']' :: s => some s
  | '\\' :: _ :: s => dropClass s
  | _ :: s => dropClass s

/-- Whether the class behind an opening bracket holds a character: the rest of the
pattern if it does, `some none` if not, and `none` for a malformed class. -/
def matchClass (c : Char) (s : List Char) : Option (Option (List Char)) :=
  let (negated, s) := match s with
    | '^' :: s => (true, s)
    | '!' :: s => (true, s)
    | s => (false, s)
  if s.isEmpty || s.head? = some ']' then none
  else
    let (found, rest) := scanClass c s.length none s
    if found = negated then if rest.isEmpty then none else some none
    else (dropClass rest).map some

/-! ## The end of a name -/

/-- Whether a pattern matches the end of a name.  The fuel bounds the groups. -/
def matchesEnd : (fuel : Nat) → List Char → Option Bool
  | 0, _ => some false
  | fuel + 1, s =>
    if s = [] || s = ['*'] || s = ['*', '*'] then some true
    else match s with
      | '\x7b' :: s =>
        match cutClosing 0 s with
        | none => none
        | some (inside, behind) =>
          (splitCommas inside.length inside).foldl
            (fun found alternative =>
              match found with
              | some false => matchesEnd fuel (alternative ++ behind)
              | found => found)
            (some false)
      | _ => some false

/-! ## Names -/

/-- Matches a pattern from some character on.  `star` is the pattern behind the last
star and the name that it faced; a mismatch lets that star take one more character.  The
fuel bounds the number of steps. -/
def matchFrom : (fuel : Nat) → (star : Option (List Char × List Char)) → (pattern : List Char) →
    (name : List Char) → Option Bool
  | 0, _, _, _ => some false
  | fuel + 1, _, pattern, [] => matchesEnd (fuel + 1) pattern
  | fuel + 1, star, pattern, c :: name =>
    let retry :=
      match star with
      | some (behind, _ :: rest) => matchFrom fuel (some (behind, rest)) behind rest
      | _ => some false
    match pattern with
    | [] => retry
    | '*' :: '*' :: s => matchFrom fuel (some (s, c :: name)) s (c :: name)
    | '*' :: s => matchFrom fuel (some (s, c :: name)) s (c :: name)
    | '?' :: s => matchFrom fuel star s name
    | '[' :: s =>
      match matchClass c s with
      | none => none
      | some none => retry
      | some (some s) => matchFrom fuel star s name
    | '\x7b' :: s =>
      match cutClosing 0 s with
      | none => none
      | some (inside, behind) =>
        let instead (alternative : List Char) : Option Bool :=
          let place (t : List Char) := t.take (t.length - pattern.length)
          let star := star.map fun (t, faced) => (place t ++ alternative ++ behind, faced)
          matchFrom fuel star (alternative ++ behind) (c :: name)
        (splitCommas inside.length inside).foldl
          (fun found alternative =>
            match found with
            | some false => instead alternative
            | found => found)
          (some false)
    | '\\' :: s =>
      match s with
      | [] => none
      | d :: s => if c = d then matchFrom fuel star s name else retry
    | d :: s => if c = d then matchFrom fuel star s name else retry

/-- Whether a pattern for names matches a name; `none` if it turns out malformed. -/
def matchesName? (pattern : List Char) (name : String) : Option Bool :=
  let name := name.toList
  matchFrom ((pattern.length + 2) * (pattern.length + 2) * (name.length + 2)) none pattern name

end PixelRem.Glob
