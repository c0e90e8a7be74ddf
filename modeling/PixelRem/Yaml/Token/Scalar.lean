import PixelRem.Yaml.Token

/-!
# Scalar tokens

Scalars without quotes, in quotes and in block form.  A scalar that goes over
several lines is folded: a single line end in it stands for a blank, and of more
than one the first goes.
-/

namespace PixelRem.Yaml

/-! ## Folding -/

/-- The space behind a piece of text: the blanks of its line, or the first line end and
those after it. -/
structure Gap where
  blanks : List Char
  first : List Char
  more : List Char
  /-- Whether a line ended. -/
  crossed : Bool

namespace Gap

/-- No space. -/
def none : Gap := ⟨[], [], [], false⟩

/-- The space behind a line end that was taken away. -/
def cut : Gap := ⟨[], [], [], true⟩

/-- Adds a blank.  Blanks at the start of a line are passed over. -/
def blank (gap : Gap) (c : Char) : Gap :=
  if gap.crossed then gap else { gap with blanks := gap.blanks ++ [c] }

/-- Adds a line end. -/
def lineEnd (gap : Gap) (c : Char) : Gap :=
  if gap.crossed then { gap with more := gap.more ++ [c] } else ⟨[], [c], [], true⟩

/-- What the space stands for between two pieces of text. -/
def text (gap : Gap) : List Char :=
  if !gap.crossed then gap.blanks
  else if gap.first = ['\n'] then if gap.more.isEmpty then [' '] else gap.more
  else gap.first ++ gap.more

/-- The space at a cursor, and what is behind it.  A tab does not indent a line to less
than `indent` columns. -/
def read? (indent : Nat) (gap : Gap) (cur : Cursor) : Option (Lexeme Gap) :=
  go cur.rest gap cur
where
  /-- Reads along the characters of the text. -/
  go : List Char → Gap → Cursor → Option (Lexeme Gap)
    | [], gap, cur => some ⟨gap, cur⟩
    | c :: s, gap, cur =>
      if isBlank c then
        if gap.crossed && cur.column < indent && c == '\t' then Option.none
        else go s (gap.blank c) cur.next
      else if isBreak c then go s (gap.lineEnd c) cur.next
      else some ⟨gap, cur⟩

end Gap

/-! ## Scalars without quotes -/

/-- The head of a text up to a blank, a line end or what ends a scalar without quotes: a
colon with space behind it and, in a flow collection, what divides its items. -/
def plainRun (flow : Bool) : List Char → List Char
  | [] => []
  | c :: s =>
    if isBlank c || isBreak c || (c == ':' && startsBlank s) || (flow && isFlowMark c) then []
    else c :: plainRun flow s

/-- Reads a scalar without quotes, with the text that is already read in reverse and the
space behind it.  Its further lines are indented by `indent` columns.  The second value
tells whether a line ended behind it. -/
def plainFrom (flow : Bool) (indent : Nat) :
    (fuel : Nat) → (done : List Char) → Gap → Cursor → Option (Lexeme (List Char × Bool))
  | 0, done, gap, cur => some ⟨(done.reverse, gap.crossed), cur⟩
  | fuel + 1, done, gap, cur =>
    if cur.atMarker || cur.startsWith '#' then some ⟨(done.reverse, gap.crossed), cur⟩
    else
      let run := plainRun flow cur.rest
      let cur := cur.advance run.length
      let (done, gap) :=
        if run.isEmpty then (done, gap)
        else (run.reverse ++ (gap.text.reverse ++ done), Gap.none)
      if cur.rest.isEmpty || !startsBlank cur.rest then some ⟨(done.reverse, gap.crossed), cur⟩
      else
        match gap.read? indent cur with
        | none => none
        | some ⟨gap, cur⟩ =>
          if !flow && cur.column < indent then some ⟨(done.reverse, gap.crossed), cur⟩
          else plainFrom flow indent fuel done gap cur

/-- The scalar without quotes at a cursor, and whether a line ended behind it. -/
def plainScalar? (flow : Bool) (indent : Nat) (cur : Cursor) :
    Option (Lexeme (List Char × Bool)) :=
  plainFrom flow indent (cur.length + 1) [] Gap.none cur

/-! ## Scalars in quotes -/

/-- The characters that one letter behind a backslash stands for. -/
def escapeLetters : List (Char × Char) :=
  [('0', '\x00'), ('a', '\x07'), ('b', '\x08'), ('t', '\t'), ('\t', '\t'), ('n', '\n'),
    ('v', '\x0b'), ('f', '\x0c'), ('r', '\r'), ('e', '\x1b'), (' ', ' '), ('"', '"'),
    ('\'', '\''), ('\\', '\\'), ('N', '\u0085'), ('_', '\u00a0'), ('L', '\u2028'),
    ('P', '\u2029')]

/-- The number of hexadecimal digits behind a letter. -/
def escapeWidth? : Char → Option Nat
  | 'x' => some 2
  | 'u' => some 4
  | 'U' => some 8
  | _ => none

/-- The value of a hexadecimal digit. -/
def hexValue? (c : Char) : Option Nat :=
  if c.isDigit then some (c.toNat - 48)
  else if 'a' ≤ c && c ≤ 'f' then some (c.toNat - 87)
  else if 'A' ≤ c && c ≤ 'F' then some (c.toNat - 55)
  else none

/-- The number that hexadecimal digits at the head of a text make. -/
def hexNumber? (width : Nat) (s : List Char) : Option Nat := do
  let digits ← (s.take width).mapM hexValue?
  if digits.length = width then some (digits.foldl (fun n d => n * 16 + d) 0) else none

/-- The character with a number of so many hexadecimal digits. -/
def hexChar? (width : Nat) (s : List Char) : Option Char := do
  let n ← hexNumber? width s
  if n.isValidChar then some (Char.ofNat n) else none

/-- The character that an escape stands for and the number of characters behind the
backslash. -/
def escape? : List Char → Option (Char × Nat)
  | [] => none
  | c :: s =>
    match escapeLetters.lookup c with
    | some value => some (value, 1)
    | none => do
      let width ← escapeWidth? c
      let value ← hexChar? width s
      some (value, width + 1)

/-- Reads behind a quote, with the text that is already read in reverse and the space
behind it.  Two single quotes stand for one; a backslash between double quotes starts an
escape or takes a line end away. -/
def quotedFrom (double : Bool) :
    (fuel : Nat) → (done : List Char) → Gap → Cursor → Option (Lexeme (List Char))
  | 0, _, _, _ => none
  | fuel + 1, done, gap, cur =>
    if cur.atMarker then none
    else
      match cur.rest with
      | [] => none
      | c :: s =>
        if isBlank c then quotedFrom double fuel done (gap.blank c) cur.next
        else if isBreak c then quotedFrom double fuel done (gap.lineEnd c) cur.next
        else
          let done := gap.text.reverse ++ done
          if !double && c == '\'' && s.head? == some '\'' then
            quotedFrom double fuel ('\'' :: done) Gap.none (cur.advance 2)
          else if c == (if double then '"' else '\'') then some ⟨done.reverse, cur.next⟩
          else if double && c == '\\' then
            if cur.next.atBreak then quotedFrom double fuel done Gap.cut (cur.advance 2)
            else
              match escape? s with
              | some (value, width) =>
                quotedFrom double fuel (value :: done) Gap.none (cur.advance (width + 1))
              | none => none
          else quotedFrom double fuel (c :: done) Gap.none cur.next

/-- The scalar in quotes at a cursor. -/
def quotedScalar? (cur : Cursor) : Option (Lexeme (List Char)) :=
  quotedFrom (cur.startsWith '"') cur.length [] Gap.none cur.next

/-! ## Block scalars -/

/-- What becomes of the line ends behind a block scalar. -/
inductive Chomp where
  | clip
  | strip
  | keep
  deriving DecidableEq, Repr

/-- The chomping that a sign stands for. -/
def chomp? : Char → Option Chomp
  | '+' => some .keep
  | '-' => some .strip
  | _ => none

/-- The indentation that a digit stands for; zero is none. -/
def indentation? (c : Char) : Option Nat :=
  if c.isDigit then some (c.toNat - 48) else none

/-- The signs behind the mark of a block scalar: how it is chomped and how far it is
indented, in either order. -/
def blockHeader (s : List Char) : Chomp × Option Nat × Nat :=
  match s with
  | [] => (.clip, none, 0)
  | c :: s =>
    match chomp? c, indentation? c with
    | some chomp, _ =>
      match s.head?.bind indentation? with
      | some n => (chomp, some n, 2)
      | none => (chomp, none, 1)
    | none, some n =>
      match s.head?.bind chomp? with
      | some chomp => (chomp, some n, 2)
      | none => (.clip, some n, 1)
    | none, none => (.clip, none, 0)

/-- Passes over empty lines and the indentation of the next line.  `indent` is the
indentation, if it is known; `most` is the widest line so far. -/
def blockBreaks (indent : Option Nat) :
    (fuel : Nat) → (most : Nat) → (breaks : List Char) → Cursor →
      Option (Lexeme (Nat × List Char))
  | 0, _, _, _ => none
  | fuel + 1, most, breaks, cur =>
    let isInside (column : Nat) : Bool := indent.elim true (decide <| column < ·)
    let spaces := (cur.rest.takeWhile (· == ' ')).length
    let spaces := indent.elim spaces fun n => min spaces (n - cur.column)
    let cur := cur.advance spaces
    let most := max most cur.column
    if isInside cur.column && cur.startsWith '\t' then none
    else
      match cur.rest with
      | c :: _ =>
        if isBreak c then blockBreaks indent fuel most (breaks ++ [c]) cur.next
        else some ⟨(most, breaks), cur⟩
      | [] => some ⟨(most, breaks), cur⟩

/-- A block scalar while it is read: the text in reverse, the line end behind its last
line, the empty lines after that, and whether the last line starts with a blank. -/
structure BlockState where
  done : List Char
  first : List Char
  more : List Char
  blankStart : Bool

/-- What stands between the text and the next line, which may start with a blank.  In a
folded scalar a line end between two lines that do not start with a blank stands for a
blank. -/
def BlockState.space (st : BlockState) (folded blank : Bool) : List Char :=
  if folded && !st.blankStart && !blank && st.first.head? == some '\n' then
    if st.more.isEmpty then [' '] else st.more
  else st.first ++ st.more

/-- The text at the end of the scalar. -/
def BlockState.finished (st : BlockState) (chomp : Chomp) : List Char :=
  match chomp with
  | .strip => st.done.reverse
  | .clip => st.done.reverse ++ st.first
  | .keep => st.done.reverse ++ st.first ++ st.more

/-- Reads the lines of a block scalar, which are indented by `indent` columns. -/
def blockLines (folded : Bool) (indent : Nat) :
    (fuel : Nat) → BlockState → Cursor → Option (Lexeme BlockState)
  | 0, _, _ => none
  | fuel + 1, st, cur =>
    if cur.column != indent || cur.rest.isEmpty then some ⟨st, cur⟩
    else
      let blank := cur.rest.head?.any isBlank
      let (line, stop) := cur.takeWhile fun c => !isBreak c
      let done := line.reverse ++ ((st.space folded blank).reverse ++ st.done)
      let first := stop.rest.take 1
      match blockBreaks (some indent) (stop.length + 1) 0 [] stop.next with
      | none => none
      | some ⟨(_, more), cur⟩ => blockLines folded indent fuel ⟨done, first, more, blank⟩ cur

/-- The block scalar at a cursor, in a block whose columns start at `margin`: one more
than the column of the block, or zero outside of all blocks. -/
def blockScalar? (margin : Nat) (cur : Cursor) : Option (Lexeme (List Char)) :=
  let folded := cur.startsWith '>'
  let (chomp, given, width) := blockHeader cur.next.rest
  let head := ((cur.advance (width + 1)).skipWhile isBlank)
  let head := if head.startsWith '#' then head.skipLine else head
  if given = some 0 || !head.atLineEnd then none
  else do
    let body := head.next
    let indent := given.map ((margin - 1) + ·)
    let ⟨(most, breaks), cur⟩ ← blockBreaks indent (body.length + 1) 0 [] body
    let indent := indent.getD (max (max most margin) 1)
    let ⟨st, cur⟩ ←
      blockLines folded indent (cur.length + 1) ⟨[], [], breaks, false⟩ cur
    return ⟨st.finished chomp, cur⟩

end PixelRem.Yaml
