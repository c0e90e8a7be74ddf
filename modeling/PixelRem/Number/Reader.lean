import PixelRem.Number.Binary64

/-!
# Reading numbers

The written forms of numbers in settings, flags and environment variables.

* A real number is a decimal with an optional exponent, a hexadecimal with a
  binary exponent, `inf`, `infinity` or `nan`.
* A whole number is decimal, or has one of the marks `0x`, `0o`, `0b` or a plain
  leading zero for octal.

In both an underscore may stand between two digits or behind such a mark.
-/

namespace PixelRem

/-- Why a text is not read as a number. -/
inductive NumberError where
  | malformed
  | outOfRange
  deriving DecidableEq, Repr

namespace NumberReader

/-- Splits an optional sign off; `true` for minus. -/
def sign : List Char → Bool × List Char
  | '+' :: s => (false, s)
  | '-' :: s => (true, s)
  | s => (false, s)

/-- The value of a digit or letter as a digit, in bases up to 36. -/
def digit? (c : Char) : Option Nat :=
  if c.isDigit then some (c.toNat - 48)
  else if c.isLower then some (c.toNat - 87)
  else if c.isUpper then some (c.toNat - 55)
  else none

/-- The value of a digit of a given base. -/
def digitOf? (base : Nat) (c : Char) : Option Nat :=
  (digit? c).filter (· < base)

/-- What the last character was, for the rule on underscores. -/
inductive Last where
  | start
  | digit
  | underscore
  | other
  deriving DecidableEq

/-- Whether every underscore stands between two digits. -/
def underscoresFrom (base : Nat) : Last → List Char → Bool
  | last, [] => last != .underscore
  | last, c :: s =>
    if (digitOf? base c).isSome then underscoresFrom base .digit s
    else if c = '_' then last == .digit && underscoresFrom base .underscore s
    else last != .underscore && underscoresFrom base .other s

/-- Whether the underscores of an unsigned number are well placed.  The mark of a base
counts as a digit. -/
def underscoresOk : List Char → Bool
  | '0' :: c :: s =>
    if c.toLower = 'x' then underscoresFrom 16 .digit s
    else if c.toLower = 'o' || c.toLower = 'b' then underscoresFrom 10 .digit s
    else underscoresFrom 10 .start ('0' :: c :: s)
  | s => underscoresFrom 10 .start s

/-- A mantissa as it is read: the value of its digits, how many stand behind the point,
whether there was a point and whether there was a digit. -/
structure Mantissa where
  value : Nat := 0
  fraction : Nat := 0
  point : Bool := false
  digits : Bool := false

/-- Reads a mantissa in a base, underscores passed over: the mantissa and the rest. -/
def mantissa (base : Nat) (m : Mantissa) : List Char → Mantissa × List Char
  | [] => (m, [])
  | c :: s =>
    if c = '_' then mantissa base m s
    else if c = '.' then
      if m.point then (m, c :: s) else mantissa base { m with point := true } s
    else match digitOf? base c with
      | some d =>
        mantissa base
          { m with
            value := m.value * base + d
            fraction := if m.point then m.fraction + 1 else m.fraction
            digits := true } s
      | none => (m, c :: s)

/-- Reads the digits of an exponent, which is held below a bound that is far outside
every format. -/
def exponentDigits : (e : Nat) → List Char → Nat × List Char
  | e, [] => (e, [])
  | e, c :: s =>
    if c = '_' then exponentDigits e s
    else if c.isDigit then
      exponentDigits (if e < 10000 then e * 10 + (c.toNat - 48) else e) s
    else (e, c :: s)

/-- Reads an exponent behind its letter: an optional sign and digits. -/
def exponent? (s : List Char) : Option (Int × List Char) :=
  let (negative, s) := sign s
  match s with
  | c :: _ =>
    if c.isDigit then
      let (e, rest) := exponentDigits 0 s
      some (if negative then -e else e, rest)
    else none
  | [] => none

/-- The special values by their names, in any case. -/
def special? (s : List Char) : Option Binary64 :=
  let lower := String.ofList (s.map Char.toLower)
  if lower = "nan" then some .nan
  else if lower ∈ ["inf", "infinity", "+inf", "+infinity"] then some (.infinite false)
  else if lower ∈ ["-inf", "-infinity"] then some (.infinite true)
  else none

/-- Reads an unsigned real number; `none` where the form is wrong. -/
def unsignedReal? (negative : Bool) (s : List Char) : Option Binary64 :=
  let hexadecimal : Bool := match s with
    | '0' :: c :: _ :: _ => c.toLower == 'x'
    | _ => false
  let base := if hexadecimal then 16 else 10
  let (m, rest) := mantissa base {} (if hexadecimal then s.drop 2 else s)
  let mark := if hexadecimal then 'p' else 'e'
  if !m.digits || !underscoresOk s then none
  else
    let power? : Option Int := match rest with
      | [] => if hexadecimal then none else some 0
      | c :: rest =>
        if c.toLower = mark then
          match exponent? rest with
          | some (e, []) => some e
          | _ => none
        else none
    power?.map fun e =>
      if hexadecimal then Binary64.ofBinary negative m.value (e - 4 * m.fraction)
      else Binary64.ofDecimal negative m.value (e - m.fraction)

end NumberReader

/-- Reads a real number.  One too large for the format is out of range. -/
def Binary64.read (s : String) : Except NumberError Binary64 :=
  match NumberReader.special? s.toList with
  | some x => .ok x
  | none =>
    let (negative, digits) := NumberReader.sign s.toList
    match NumberReader.unsignedReal? negative digits with
    | none => .error .malformed
    | some (.infinite _) => .error .outOfRange
    | some x => .ok x

namespace NumberReader

/-- Reads the digits of a whole number below `2 ^ 64` in a base.  The first character
that is no digit or makes the number too large decides the error. -/
def wholeDigits (base : Nat) : (n : Nat) → List Char → Except NumberError Nat
  | n, [] => .ok n
  | n, c :: s =>
    if c = '_' then wholeDigits base n s
    else match digitOf? base c with
      | none => .error .malformed
      | some d =>
        if n * base + d < pow2 64 then wholeDigits base (n * base + d) s else .error .outOfRange

/-- The base that the start of an unsigned whole number marks, and the digits behind
the mark. -/
def markedBase : List Char → Nat × List Char
  | '0' :: c :: d :: s =>
    if c.toLower = 'x' then (16, d :: s)
    else if c.toLower = 'o' then (8, d :: s)
    else if c.toLower = 'b' then (2, d :: s)
    else (8, c :: d :: s)
  | '0' :: s => (8, s)
  | s => (10, s)

/-- Reads an unsigned whole number below `2 ^ 64`. -/
def unsignedWhole (s : List Char) : Except NumberError Nat :=
  if s.isEmpty then .error .malformed
  else
    let (base, digits) := markedBase s
    match wholeDigits base 0 digits with
    | .error e => .error e
    | .ok n => if underscoresOk s then .ok n else .error .malformed

end NumberReader

/-- Reads a whole number of 64 bits. -/
def readWhole (s : String) : Except NumberError Int :=
  let (negative, digits) := NumberReader.sign s.toList
  match NumberReader.unsignedWhole digits with
  | .error e => .error e
  | .ok n =>
    if negative then if n ≤ pow2 63 then .ok (-n) else .error .outOfRange
    else if n < pow2 63 then .ok n else .error .outOfRange

end PixelRem
