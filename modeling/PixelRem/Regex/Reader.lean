import PixelRem.Regex

/-!
# Reading regular expressions

The written form of regular expressions:

* `.` is any character of a line, `^` and `$` are the ends of the text;
* `[a-z]` and `[^a-z]` are classes, with names such as `[:alpha:]` inside them;
* `*`, `+`, `?` and `{2,5}` repeat what stands before them, and a `?` behind one
  of them changes nothing about whether there is a match;
* `(` and `)` group, and `|` stands between alternatives;
* a backslash takes a character that is no letter or digit literally, and has
  letters and digits for classes, controls, anchors and codes.

Two repetitions in a row, a repetition of nothing, an open class or group and an
unknown escape are errors.  There are no groups with flags and no classes of
Unicode by name.
-/

namespace PixelRem.Regex

/-! ## Classes -/

/-- The ranges of the digits. -/
def digitRanges : List (Char × Char) :=
  [('0', '9')]

/-- The ranges of the blanks. -/
def blankRanges : List (Char × Char) :=
  [('\t', '\n'), ('\x0c', '\r'), (' ', ' ')]

/-- The ranges of the word characters. -/
def wordRanges : List (Char × Char) :=
  [('0', '9'), ('A', 'Z'), ('_', '_'), ('a', 'z')]

/-- The last character there is. -/
def lastChar : Char :=
  Char.ofNat 0x10FFFF

/-- The characters outside ranges, as ranges themselves. -/
def complement (ranges : List (Char × Char)) : List (Char × Char) :=
  let sorted := ranges.mergeSort fun a b => a.1 ≤ b.1
  let (gaps, next) := sorted.foldl
    (fun (gaps, next) (low, high) =>
      let gaps := if next < low.toNat then gaps ++ [(Char.ofNat next, Char.ofNat (low.toNat - 1))]
        else gaps
      (gaps, max next (high.toNat + 1)))
    (([] : List (Char × Char)), 0)
  if next ≤ lastChar.toNat then gaps ++ [(Char.ofNat next, lastChar)] else gaps

/-- The class of a letter behind a backslash. -/
def letterClass? (c : Char) : Option (List (Char × Char)) :=
  match c with
  | 'd' => some digitRanges
  | 'D' => some (complement digitRanges)
  | 's' => some blankRanges
  | 'S' => some (complement blankRanges)
  | 'w' => some wordRanges
  | 'W' => some (complement wordRanges)
  | _ => none

/-- The classes that have names. -/
def namedClasses : List (String × List (Char × Char)) :=
  [("alnum", [('0', '9'), ('A', 'Z'), ('a', 'z')]),
   ("alpha", [('A', 'Z'), ('a', 'z')]),
   ("ascii", [('\x00', '\x7f')]),
   ("blank", [('\t', '\t'), (' ', ' ')]),
   ("cntrl", [('\x00', '\x1f'), ('\x7f', '\x7f')]),
   ("digit", digitRanges),
   ("graph", [('!', '~')]),
   ("lower", [('a', 'z')]),
   ("print", [(' ', '~')]),
   ("punct", [('!', '/'), (':', '@'), ('[', '\x60'), ('\x7b', '~')]),
   ("space", [('\t', '\r'), (' ', ' ')]),
   ("upper", [('A', 'Z')]),
   ("word", wordRanges),
   ("xdigit", [('0', '9'), ('A', 'F'), ('a', 'f')])]

/-- The class of a name, which a circumflex negates. -/
def namedClass? (name : List Char) : Option (List (Char × Char)) :=
  match name with
  | '^' :: name => (namedClasses.lookup (String.ofList name)).map complement
  | name => namedClasses.lookup (String.ofList name)

/-- Cuts a text at the first `:]`. -/
def cutName : List Char → Option (List Char × List Char)
  | [] => none
  | ':' :: ']' :: s => some ([], s)
  | c :: s => (cutName s).map fun (name, rest) => (c :: name, rest)

/-! ## Escapes -/

/-- The value of a digit in base eight. -/
def octalDigit? (c : Char) : Option Nat :=
  if '0' ≤ c && c ≤ '7' then some (c.toNat - '0'.toNat) else none

/-- The value of a digit in base sixteen. -/
def hexDigit? (c : Char) : Option Nat :=
  if '0' ≤ c && c ≤ '9' then some (c.toNat - '0'.toNat)
  else if 'a' ≤ c && c ≤ 'f' then some (c.toNat - 'a'.toNat + 10)
  else if 'A' ≤ c && c ≤ 'F' then some (c.toNat - 'A'.toNat + 10)
  else none

/-- Reads at most `count` digits in base eight. -/
def readOctal : (count : Nat) → (value : Nat) → List Char → Nat × List Char
  | 0, value, s => (value, s)
  | _ + 1, value, [] => (value, [])
  | count + 1, value, c :: s =>
    match octalDigit? c with
    | some d => readOctal count (value * 8 + d) s
    | none => (value, c :: s)

/-- Reads digits in base sixteen up to a closing brace. -/
def readBracedHex : (value : Nat) → List Char → Option (Nat × List Char)
  | _, [] => none
  | value, c :: s =>
    if c = '\x7d' then some (value, s)
    else match hexDigit? c with
      | some d => if value * 16 + d ≤ 0x10FFFF then readBracedHex (value * 16 + d) s else none
      | none => none

/-- The character of an escape behind its backslash, and the rest. -/
def readEscape : List Char → Option (Char × List Char)
  | [] => none
  | c :: s =>
    if c = 'x' then
      match s with
      | '\x7b' :: s =>
        if s.head? = some '\x7d' then none
        else (readBracedHex 0 s).map fun (n, s) => (Char.ofNat n, s)
      | a :: b :: s => do
        let high ← hexDigit? a
        let low ← hexDigit? b
        return (Char.ofNat (high * 16 + low), s)
      | _ => none
    else match octalDigit? c with
      | some d =>
        if d != 0 && (s.head?.bind octalDigit?).isNone then none
        else
          let (n, s) := readOctal 2 d s
          some (Char.ofNat n, s)
      | none =>
        match c with
        | 'a' => some ('\x07', s)
        | 'f' => some ('\x0c', s)
        | 'n' => some ('\n', s)
        | 'r' => some ('\r', s)
        | 't' => some ('\t', s)
        | 'v' => some ('\x0b', s)
        | c => if c.toNat < 0x80 && !c.isAlphanum then some (c, s) else none

/-! ## Classes in brackets -/

/-- A character of a class, and the rest. -/
def classChar : List Char → Option (Char × List Char)
  | [] => none
  | '\\' :: s => readEscape s
  | c :: s => some (c, s)

/-- Reads the members of a class up to its closing bracket, which the first member may
be.  The fuel bounds their number. -/
def readMembers : (fuel : Nat) → (first : Bool) → List Char →
    Option (List (Char × Char) × List Char)
  | 0, _, _ => none
  | fuel + 1, first, s =>
    if !first && s.head? = some ']' then some ([], s.tail)
    else
      let onward (ranges : List (Char × Char)) (s : List Char) := do
        let (others, rest) ← readMembers fuel false s
        return (ranges ++ others, rest)
      let range := do
        let (low, s) ← classChar s
        match s with
        | '-' :: d :: t =>
          if d = ']' then onward [(low, low)] s
          else
            let (high, s) ← classChar (d :: t)
            if high < low then none else onward [(low, high)] s
        | s => onward [(low, low)] s
      match s with
      | '[' :: ':' :: t =>
        match cutName t with
        | some (name, t) => do onward (← namedClass? name) t
        | none => range
      | '\\' :: c :: t =>
        match letterClass? c with
        | some ranges => onward ranges t
        | none => range
      | _ => range

/-- Reads a class behind its opening bracket. -/
def readClass (s : List Char) : Option (Regex × List Char) :=
  let (negated, s) := match s with
    | '^' :: s => (true, s)
    | s => (false, s)
  (readMembers (s.length + 1) true s).map fun (ranges, rest) => (.one negated ranges, rest)

/-! ## Repetitions -/

/-- Reads a number without leading zeros. -/
def readCount (s : List Char) : Option (Nat × List Char) :=
  let digits := s.takeWhile Char.isDigit
  let value := digits.foldl (fun n d => n * 10 + (d.toNat - '0'.toNat)) 0
  if digits.isEmpty || (digits.head? = some '0' && digits.length != 1) then none
  else some (value, s.drop digits.length)

/-- Reads the numbers of a repetition behind its opening brace. -/
def readBounds (s : List Char) : Option ((Nat × Option Nat) × List Char) := do
  let (least, s) ← readCount s
  match s with
  | '\x7d' :: s => return ((least, some least), s)
  | ',' :: '\x7d' :: s => return ((least, none), s)
  | ',' :: s =>
    let (most, s) ← readCount s
    match s with
    | '\x7d' :: s => return ((least, some most), s)
    | _ => none
  | _ => none

/-- The highest number of a repetition. -/
def mostTimes : Nat := 1000

/-- Whether the repetitions inside an expression stay within a number of copies. -/
def isWithin (copies : Nat) : Regex → Bool
  | .times least most body =>
    let n := most.getD least
    if most = some 0 then true
    else if least = 0 && most.isNone || least = 1 && most.isNone || least = 0 && most = some 1 then
      isWithin copies body
    else n ≤ copies && isWithin (if n = 0 then copies else copies / n) body
  | .seq a b => isWithin copies a && isWithin copies b
  | .either a b => isWithin copies a && isWithin copies b
  | _ => true

/-- A repetition with numbers, if they are small enough. -/
def bounded? (least : Nat) (most : Option Nat) (body : Regex) : Option Regex :=
  let repeated := Regex.times least most body
  if least > mostTimes || most.any (fun n => n > mostTimes || n < least) then none
  else if (least ≥ 2 || most.any (· ≥ 2)) && !repeated.isWithin mostTimes then none
  else some repeated

/-! ## Expressions -/

/-- The sequence of expressions, which are given in reverse. -/
def sequence : List Regex → Regex
  | [] => .empty
  | [r] => r
  | r :: rs => .seq (sequence rs) r

/-- Cuts a text at the first `\E`, or at its end. -/
def cutLiteral : List Char → List Char × List Char
  | [] => ([], [])
  | '\\' :: 'E' :: s => ([], s)
  | c :: s =>
    let (literal, rest) := cutLiteral s
    (c :: literal, rest)

/-- What an escape stands for outside classes: expressions in reverse, and the rest. -/
def readEscaped (s : List Char) : Option (List Regex × List Char) :=
  match s with
  | [] => none
  | c :: rest =>
    match c with
    | 'A' => some ([.atStart], rest)
    | 'z' => some ([.atEnd], rest)
    | 'b' => some ([.atWord false], rest)
    | 'B' => some ([.atWord true], rest)
    | 'Q' =>
      let (literal, rest) := cutLiteral rest
      some (literal.reverse.map char, rest)
    | c =>
      match letterClass? c with
      | some ranges => some ([.one false ranges], rest)
      | none => (readEscape s).map fun (d, rest) => ([char d], rest)

/-- Drops the mark that asks for the shortest match. -/
def dropMark : List Char → List Char
  | '?' :: s => s
  | s => s

/-- Reads alternatives up to the end or a closing parenthesis.  `alternatives` and `done`
hold what was read before, in reverse, and `repeated` says that a repetition was read
last.  The fuel bounds the number of steps. -/
def readFrom : (fuel : Nat) → (alternatives done : List Regex) → (repeated : Bool) →
    List Char → Option (Regex × List Char)
  | 0, _, _, _, _ => none
  | fuel + 1, alternatives, done, repeated, s =>
    let finish := alternatives.foldl (fun r other => .either other r) (sequence done)
    let again (least : Nat) (most : Option Nat) (s : List Char) :=
      match repeated, done with
      | false, body :: done => readFrom fuel alternatives (.times least most body :: done) true s
      | _, _ => none
    let plain (r : Regex) (s : List Char) := readFrom fuel alternatives (r :: done) false s
    match s with
    | [] => some (finish, [])
    | c :: s =>
      match c with
      | ')' => some (finish, ')' :: s)
      | '|' => readFrom fuel (sequence done :: alternatives) [] false s
      | '(' =>
        if s.head? = some '?' then none
        else match readFrom fuel [] [] false s with
          | some (r, ')' :: s) => plain r s
          | _ => none
      | '^' => plain .atStart s
      | '$' => plain .atEnd s
      | '.' => plain anyInLine s
      | '[' =>
        match readClass s with
        | some (r, s) => plain r s
        | none => none
      | '*' => again 0 none (dropMark s)
      | '+' => again 1 none (dropMark s)
      | '?' => again 0 (some 1) (dropMark s)
      | '\x7b' =>
        match readBounds s with
        | none => plain (char c) s
        | some ((least, most), s) =>
          match repeated, done with
          | false, body :: done =>
            match bounded? least most body with
            | some r => readFrom fuel alternatives (r :: done) true (dropMark s)
            | none => none
          | _, _ => none
      | '\\' =>
        match readEscaped s with
        | some (rs, s) => readFrom fuel alternatives (rs ++ done) false s
        | none => none
      | c => plain (char c) s

/-- The expression that a text spells, if it is well formed. -/
def read? (text : List Char) : Option Regex :=
  match readFrom (text.length + 1) [] [] false text with
  | some (r, []) => some r
  | _ => none

end PixelRem.Regex
