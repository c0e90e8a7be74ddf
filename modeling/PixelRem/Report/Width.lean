import PixelRem.Text
import PixelRem.Text.Cluster

/-!
# Widths of lines

The number of places that a line takes on a terminal.  Control characters and
control sequences take none.
-/

namespace PixelRem

/-- Where in a control sequence a terminal is. -/
inductive ControlState where
  | ground
  | escape
  | escapeMore
  /-- The parameters of a sequence, and what stands behind them. -/
  | sequence
  | sequenceMore
  /-- A text for the terminal, up to its end mark. -/
  | string
  | system
  /-- A text for a device, which has parameters first. -/
  | deviceStart
  | deviceHead
  | deviceMore
  | device
  deriving DecidableEq, Repr

namespace ControlState

/-- Where a printable ASCII character leads. -/
def nextPrintable (st : ControlState) (b : UInt8) : ControlState :=
  let middle := b < 0x30
  let parameter := 0x30 ≤ b && b < 0x40
  match st with
  | .ground => .ground
  | .escape =>
    if middle then .escapeMore
    else if b == ascii '[' then .sequence
    else if b == ascii ']' then .system
    else if b == ascii 'P' then .deviceStart
    else if b == ascii 'X' || b == ascii '^' || b == ascii '_' then .string
    else .ground
  | .escapeMore => if middle then .escapeMore else .ground
  | .sequence =>
    if middle then .sequenceMore else if parameter then .sequence else .ground
  | .sequenceMore => if middle then .sequenceMore else .ground
  | .string => .string
  | .system => .system
  | .deviceStart | .deviceHead =>
    if middle then .deviceMore else if parameter then .deviceHead else .device
  | .deviceMore => if middle then .deviceMore else .device
  | .device => .device

/-- Where a byte beyond ASCII leads from outside of texts for the system or a device. -/
def nextHigh (b : UInt8) : ControlState :=
  if b == 0x90 then .deviceStart
  else if b == 0x98 || b == 0x9E || b == 0x9F then .string
  else if b == 0x9B then .sequence
  else if b == 0x9D then .system
  else .ground

/-- Where a byte leads. -/
def next (st : ControlState) (b : UInt8) : ControlState :=
  if b == 0x18 || b == 0x1A then .ground
  else if b == 0x1B then if st = .deviceStart then .device else .escape
  else if 0x80 ≤ b then
    if st = .system || st = .device then if b == 0x9C then .ground else st else nextHigh b
  else if b < 0x20 then
    if st = .system && b == 0x07 then .ground
    else if st = .deviceStart && 0x08 ≤ b && b ≤ 0x0D then .device
    else st
  else if b == 0x7F then st
  else st.nextPrintable b

end ControlState

/-- The number of places of code points, the first `skip` of which belong to a character
that is counted already. -/
def widthFrom : (skip : Nat) → ControlState → List Char → Nat
  | _, _, [] => 0
  | skip + 1, st, _ :: s => widthFrom skip st s
  | 0, st, c :: s =>
    if c.toNat < 0x80 then
      let printed := st = .ground && 0x20 ≤ c.toNat && c.toNat < 0x7F
      (if printed then 1 else 0) + widthFrom 0 (st.next (UInt8.ofNat c.toNat)) s
    else if st = .system || st = .device then
      widthFrom 0 ((utf8 c.toString).foldl ControlState.next st) s
    else
      let (width, count) := Text.clusterWidth c s
      width + widthFrom count .ground s

/-- The number of places of a line. -/
def lineWidth (line : Text) : Nat :=
  widthFrom 0 .ground ((Text.runes line).map (·.getD Text.replacement))

/-- Lines filled up with blanks to the width of the widest. -/
def alignLines (lines : List Text) : List Text :=
  let widest := (lines.map lineWidth).foldl max 0
  lines.map fun line => line ++ List.replicate (widest - lineWidth line) (ascii ' ')

end PixelRem
