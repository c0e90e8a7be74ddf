/-!
# Rows of matches

The matches of a pattern are collected in a row of slots.  A match goes into the
first free slot; a full row is copied to one with twice the slots.

A list that is begun from a row with free slots uses those slots, so the two
share what is written there: while matches are added to the row they replace the
entries of that list, until the row is copied.  A `Growth` keeps both sides of
this, the row reached and what has become of the row it started from.
-/

namespace PixelRem.Glob

/-- Matches in the first `used` of `room` slots.  `slots` holds all that was written,
also behind the matches. -/
structure Row where
  slots : List String
  used : Nat
  room : Nat
  deriving DecidableEq, Repr

namespace Row

/-- A row without slots. -/
def empty : Row := ⟨[], 0, 0⟩

/-- The matches of a row. -/
def paths (r : Row) : List String :=
  r.slots.take r.used

/-- Adds a match. -/
def push (r : Row) (path : String) : Row :=
  if r.used < r.room then
    { r with slots := r.slots.take r.used ++ path :: r.slots.drop (r.used + 1), used := r.used + 1 }
  else ⟨r.slots.take r.used ++ [path], r.used + 1, max 1 (2 * r.room)⟩

end Row

/-- A row that matches are added to, beside the row that it started from. -/
structure Growth where
  /-- The first row with its slots as they are now. -/
  start : Row
  /-- The row reached. -/
  row : Row
  deriving DecidableEq, Repr

namespace Growth

/-- Nothing has been added yet. -/
def of (r : Row) : Growth := ⟨r, r⟩

/-- The growth that goes on with a row grown from the present one.  The first row sees
what was written as long as no copy was made. -/
def next (g h : Growth) : Growth :=
  ⟨if g.row.room = g.start.room then { g.start with slots := h.start.slots } else g.start, h.row⟩

/-- Adds a match. -/
def push (g : Growth) (path : String) : Growth :=
  let row := g.row.push path
  g.next ⟨if row.room = g.row.room then { g.row with slots := row.slots } else g.row, row⟩

/-- Takes the entries of a list one after the other and lets each add its matches.  The
list was grown from a row with `room` slots, and its entries change with that row while
both are uncopied. -/
def forEach (step : String → Row → Option Growth) (room : Nat) :
    (count : Nat) → (index : Nat) → (list : Row) → Growth → Option Growth
  | 0, _, _, g => some g
  | count + 1, index, list, g => do
    let h ← step (list.slots.getD index "") g.row
    let shared := list.room == room && g.row.room == room
    let list := if shared then { list with slots := h.start.slots } else list
    forEach step room count (index + 1) list (g.next h)

/-- Lets each entry of a list that was grown from the first row add its matches to that
row. -/
def distribute (list : Growth) (step : String → Row → Option Growth) : Option Growth :=
  forEach step list.start.room list.row.used 0 list.row (.of list.start)

/-! ## Merging -/

/-- Moves a match behind all that are smaller at the head of a list. -/
def sink (path : String) : List String → List String
  | [] => [path]
  | other :: paths => if other < path then other :: sink path paths else path :: other :: paths

/-- Merges matches into those before them: the result, and what stays in the slots that
are given up.  The first list is passed through once.  An entry that is greater than the
head of the second changes places with it; one that is equal takes it away, and the
second list moves up by a slot. -/
def mergePaths : List String → List String → List String × List String
  | [], later => (later, [])
  | path :: paths, [] => (path :: paths, [])
  | path :: paths, other :: later =>
    let onward (head : String) (later : List String) :=
      let (merged, stale) := mergePaths paths later
      (head :: merged, stale)
    if path < other then onward path (other :: later)
    else if other < path then onward other (sink path later)
    else
      let (merged, stale) := onward path later
      (merged, stale ++ [later.getLastD other])

/-- Merges the matches from slot `second` on into those from slot `first` on. -/
def merge (g : Growth) (first second : Nat) : Growth :=
  let found := g.row.paths
  let (merged, stale) := mergePaths ((found.take second).drop first) (found.drop second)
  let kept := found.take first ++ merged
  let slots := kept ++ stale ++ g.row.slots.drop g.row.used
  g.next ⟨{ g.row with slots := slots }, { g.row with slots := slots, used := kept.length }⟩

end Growth

end PixelRem.Glob
