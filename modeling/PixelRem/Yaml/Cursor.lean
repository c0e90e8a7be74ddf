/-!
# Places in a YAML text

A cursor is what is left of a text and the place where it starts.  Line ends are
in their one form, a line feed, apart from the two separators of lines and
paragraphs, which keep their own.
-/

namespace PixelRem.Yaml

/-! ## Character classes -/

/-- A blank inside of a line. -/
def isBlank (c : Char) : Bool :=
  c == ' ' || c == '\t'

/-- A line end. -/
def isBreak (c : Char) : Bool :=
  c == '\n' || c == '\u2028' || c == '\u2029'

/-- Whether a text starts with a blank or a line end, or is at its end. -/
def startsBlank : List Char → Bool
  | [] => true
  | c :: _ => isBlank c || isBreak c

/-- Whether a text starts with three dashes or dots on their own, which stand between
documents. -/
def startsMarker : List Char → Bool
  | '-' :: '-' :: '-' :: s => startsBlank s
  | '.' :: '.' :: '.' :: s => startsBlank s
  | _ => false

/-- The characters that divide the items of a flow collection. -/
def isFlowMark (c : Char) : Bool :=
  c == ',' || c == '?' || c == '[' || c == ']' || c == '\x7b' || c == '\x7d'

/-- A letter, a digit, a dash or an underscore, of which names are made. -/
def isNameChar (c : Char) : Bool :=
  c.isAlphanum || c == '_' || c == '-'

/-! ## Cursors -/

/-- A place in a text: its number, its line and its column, all from zero. -/
structure Mark where
  index : Nat
  line : Nat
  column : Nat
  deriving DecidableEq, Repr

/-- What is left of a text, where it starts, and the number of line ends since the last
character that is not a blank.  The length of the whole text bounds every walk along
it. -/
structure Cursor where
  rest : List Char
  mark : Mark
  lineEnds : Nat
  length : Nat
  deriving DecidableEq, Repr

namespace Cursor

/-- The start of a text. -/
def start (text : List Char) : Cursor :=
  ⟨text, ⟨0, 0, 0⟩, 0, text.length⟩

/-- The column of a cursor. -/
def column (cur : Cursor) : Nat :=
  cur.mark.column

/-- Goes past a character. -/
def next (cur : Cursor) : Cursor :=
  match cur.rest with
  | [] => cur
  | c :: s =>
    let ⟨index, line, column⟩ := cur.mark
    if isBreak c then
      { cur with rest := s, mark := ⟨index + 1, line + 1, 0⟩, lineEnds := cur.lineEnds + 1 }
    else
      { cur with
        rest := s
        mark := ⟨index + 1, line, column + 1⟩
        lineEnds := if isBlank c then cur.lineEnds else 0 }

/-- Goes past a number of characters. -/
def advance (cur : Cursor) : Nat → Cursor
  | 0 => cur
  | n + 1 => cur.next.advance n

/-- Goes past characters of a class. -/
def skipWhile (p : Char → Bool) (cur : Cursor) : Cursor :=
  cur.advance (cur.rest.takeWhile p).length

/-- The characters of a class at a cursor, and what is behind them. -/
def takeWhile (p : Char → Bool) (cur : Cursor) : List Char × Cursor :=
  (cur.rest.takeWhile p, cur.skipWhile p)

/-- Whether a marker between documents stands at a cursor. -/
def atMarker (cur : Cursor) : Bool :=
  cur.column == 0 && startsMarker cur.rest

/-- Whether a character stands at a cursor. -/
def startsWith (cur : Cursor) (c : Char) : Bool :=
  cur.rest.head? == some c

/-- Whether a line end stands at a cursor. -/
def atBreak (cur : Cursor) : Bool :=
  match cur.rest with
  | c :: _ => isBreak c
  | [] => false

/-- Whether the line ends at a cursor. -/
def atLineEnd (cur : Cursor) : Bool :=
  match cur.rest with
  | c :: _ => isBreak c
  | [] => true

/-- Goes to the end of the line. -/
def skipLine (cur : Cursor) : Cursor :=
  cur.skipWhile fun c => !isBreak c

/-! ## Comments -/

/-- The most characters that are looked through for a comment on a line of its own. -/
def commentReach : Nat := 512

/-- The number of characters up to the next comment, if only blanks and line ends stand
before it. -/
def commentAhead? (cur : Cursor) : Option Nat :=
  let space := cur.rest.takeWhile fun c => isBlank c || isBreak c
  if space.length < commentReach && (cur.rest.drop space.length).head? == some '#' then
    some space.length
  else none

/-- Goes past the comment at a cursor and past those on the next lines. -/
def skipComments (cur : Cursor) : Cursor :=
  go cur.length cur
where
  /-- Goes past so many comments at most. -/
  go : Nat → Cursor → Cursor
    | 0, cur => cur
    | fuel + 1, cur =>
      let cur := cur.skipLine
      match cur.commentAhead? with
      | some n => go fuel (cur.advance n)
      | none => cur

/-- Goes past a comment in the rest of a line. -/
def skipLineComment (cur : Cursor) : Cursor :=
  let space := (cur.rest.takeWhile isBlank).length
  if space < commentReach && (cur.rest.drop space).head? == some '#' then
    (cur.advance space).skipLine
  else cur

end Cursor

end PixelRem.Yaml
