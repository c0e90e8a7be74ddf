import PixelRem.Text.Cluster.Table

/-!
# Characters on a screen

What is shown as one character may be made of several code points.  `joins?`
says whether a code point belongs to those before it, and `clusterWidth` how many
places the code points of a character take together.
-/

namespace PixelRem.Text

/-- What a code point does in a line of text. -/
inductive ClusterClass where
  | plain
  | control
  | extend
  | joiner
  | spacing
  | prepend
  | regional
  | pictograph
  | leading
  | vowel
  | trailing
  /-- A syllable that a trailing sound may follow, and a vowel too. -/
  | openSyllable
  | closedSyllable
  deriving DecidableEq, Repr

/-- The class of a code point. -/
def clusterClass (c : Char) : ClusterClass :=
  let n := c.toNat
  if 0x20 ≤ n && n < 0x7F then .plain
  else if inRuns controlRuns n then .control
  else if n == 0x200D then .joiner
  else if 0x1F1E6 ≤ n && n ≤ 0x1F1FF then .regional
  else if (0x1100 ≤ n && n ≤ 0x115F) || (0xA960 ≤ n && n ≤ 0xA97C) then .leading
  else if (0x1160 ≤ n && n ≤ 0x11A7) || (0xD7B0 ≤ n && n ≤ 0xD7C6) then .vowel
  else if (0x11A8 ≤ n && n ≤ 0x11FF) || (0xD7CB ≤ n && n ≤ 0xD7FB) then .trailing
  else if 0xAC00 ≤ n && n ≤ 0xD7A3 then
    if (n - 0xAC00) % 28 == 0 then .openSyllable else .closedSyllable
  else if inRuns extendRuns n then .extend
  else if inRuns spacingRuns n then .spacing
  else if inRuns prependRuns n then .prepend
  else if inRuns pictographRuns n then .pictograph
  else .plain

/-! ## Joining -/

/-- What the code points of a character so far end with. -/
inductive ClusterState where
  | other
  | control
  | leading
  | vowel
  | trailing
  | prepend
  | pictograph
  /-- A pictograph and a joiner. -/
  | tied
  | regional
  /-- Two regional indicators. -/
  | flag
  deriving DecidableEq, Repr

/-- What a code point on its own ends with. -/
def ClusterClass.state : ClusterClass → ClusterState
  | .plain | .extend | .joiner | .spacing => .other
  | .control => .control
  | .prepend => .prepend
  | .regional => .regional
  | .pictograph => .pictograph
  | .leading => .leading
  | .vowel | .openSyllable => .vowel
  | .trailing | .closedSyllable => .trailing

/-- What a character ends with when a code point is added; `none` where the code point
starts another character. -/
def ClusterState.joins? : ClusterState → ClusterClass → Option ClusterState
  | .control, _ | _, .control => none
  | .pictograph, .extend => some .pictograph
  | .pictograph, .joiner => some .tied
  | .tied, .pictograph => some .pictograph
  | .regional, .regional => some .flag
  | .leading, .leading => some .leading
  | .leading, .vowel | .leading, .openSyllable | .vowel, .vowel => some .vowel
  | .leading, .closedSyllable | .vowel, .trailing | .trailing, .trailing => some .trailing
  | _, .extend | _, .joiner | _, .spacing => some .other
  | .prepend, cls => some cls.state
  | _, _ => none

/-! ## Widths -/

/-- The number of places of a code point. -/
def charWidth (c : Char) : Nat :=
  match clusterClass c with
  | .control | .extend | .joiner => 0
  | .regional => 2
  | .pictograph => if inRuns emojiRuns c.toNat then 2 else 1
  | _ =>
    if c == '\u2e3a' then 3
    else if c == '\u2e3b' then 4
    else if inRuns wideRuns c.toNat then 2
    else 1

/-- The number of places after a code point is added to a character that starts with a
class.  A pictograph is made narrow or wide by a selector behind it. -/
def addWidth (first : ClusterClass) (width : Nat) (c : Char) : Nat :=
  match first with
  | .pictograph => if c == '\ufe0e' then 1 else if c == '\ufe0f' then 2 else width
  | .regional | .leading => width
  | _ => width + charWidth c

/-- The number of places of a character, and the number of its code points, from what is
already read. -/
def clusterFrom (first : ClusterClass) :
    (width count : Nat) → ClusterState → List Char → Nat × Nat
  | width, count, _, [] => (width, count)
  | width, count, st, c :: s =>
    match st.joins? (clusterClass c) with
    | some st => clusterFrom first (addWidth first width c) (count + 1) st s
    | none => (width, count)

/-- The number of places of the character that starts with a code point, and the number
of code points that belong to it among those that follow. -/
def clusterWidth (c : Char) (s : List Char) : Nat × Nat :=
  let first := clusterClass c
  clusterFrom first (charWidth c) 0 first.state s

end PixelRem.Text
