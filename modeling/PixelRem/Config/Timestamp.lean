import PixelRem.Text

/-!
# Timestamps

A timestamp is a date, alone or with a time of day.  `Timestamp.read?` takes the
forms `2001-2-3`, `2001-2-3 4:5:6.7` and `2001-2-3T4:5:6.7Z`, the last one with
an offset such as `+01:30` in place of the `Z`.  `Timestamp.render` writes all of
them in one form.
-/

namespace PixelRem

/-- A date and a time of day.  The offset from universal time is in minutes, if one is
written. -/
structure Timestamp where
  year : Nat
  month : Nat
  day : Nat
  hour : Nat := 0
  minute : Nat := 0
  second : Nat := 0
  nanosecond : Nat := 0
  offset : Option Int := none
  deriving DecidableEq, Repr

namespace Timestamp

/-! ## The calendar -/

/-- Whether a year has a leap day. -/
def isLeap (year : Nat) : Bool :=
  year % 4 == 0 && (year % 100 != 0 || year % 400 == 0)

/-- The number of days of a month. -/
def daysIn (year month : Nat) : Nat :=
  if month = 2 then if isLeap year then 29 else 28
  else if month ∈ [4, 6, 9, 11] then 30
  else 31

/-- The number of days before a date, from the start of year zero. -/
def daysBefore (t : Timestamp) : Nat :=
  365 * t.year + (t.year + 3) / 4 - (t.year + 99) / 100 + (t.year + 399) / 400
    + (List.range (t.month - 1)).foldl (fun days m => days + daysIn t.year (m + 1)) 0 + (t.day - 1)

/-- The number of seconds of universal time before a timestamp. -/
def seconds (t : Timestamp) : Int :=
  let clock := ((t.daysBefore * 24 + t.hour) * 60 + t.minute) * 60 + t.second
  (clock : Int) - 60 * t.offset.getD 0

/-- Whether all parts of a timestamp are in range. -/
def isValid (t : Timestamp) : Bool :=
  1 ≤ t.month && t.month ≤ 12 && 1 ≤ t.day && t.day ≤ daysIn t.year t.month
    && t.hour < 24 && t.minute < 60 && t.second < 60

/-! ## Reading -/

/-- The number that digits make. -/
def number (digits : List Char) : Nat :=
  digits.foldl (fun n c => n * 10 + (c.toNat - 48)) 0

/-- A number of one or two digits at the head of a text. -/
def shortNumber? (s : List Char) : Option (Nat × List Char) :=
  let digits := (s.take 2).takeWhile Char.isDigit
  if digits.isEmpty then none else some (number digits, s.drop digits.length)

/-- What is behind a character at the head of a text. -/
def behind? (c : Char) (s : List Char) : Option (List Char) :=
  if s.head? = some c then some (s.drop 1) else none

/-- A date at the head of a text. -/
def date? (s : List Char) : Option (Timestamp × List Char) := do
  let digits := s.takeWhile Char.isDigit
  if digits.length = 4 then do
    let (month, s) ← shortNumber? (← behind? '-' (s.drop 4))
    let (day, s) ← shortNumber? (← behind? '-' s)
    return ({ year := number digits, month := month, day := day }, s)
  else none

/-- The nanoseconds of an optional fraction at the head of a text.  Only nine digits
count. -/
def fraction (s : List Char) : Nat × List Char :=
  match s with
  | c :: s =>
    let digits := s.takeWhile Char.isDigit
    if (c == '.' || c == ',') && !digits.isEmpty then
      (number ((digits ++ List.replicate 9 '0').take 9), s.drop digits.length)
    else (0, c :: s)
  | [] => (0, [])

/-- A time of day at the head of a text, for a date. -/
def clock? (date : Timestamp) (s : List Char) : Option (Timestamp × List Char) := do
  let (hour, s) ← shortNumber? s
  let (minute, s) ← shortNumber? (← behind? ':' s)
  let (second, s) ← shortNumber? (← behind? ':' s)
  let (nanosecond, s) := fraction s
  return ({ date with hour := hour, minute := minute, second := second, nanosecond := nanosecond },
    s)

/-- The offset that a text stands for: none for `Z`, else a sign, hours and minutes. -/
def offset? : List Char → Option (Option Int)
  | ['Z'] => some none
  | [sign, h, h', ':', m, m'] =>
    let hours := number [h, h']
    let minutes := number [m, m']
    if (sign == '+' || sign == '-') && [h, h', m, m'].all Char.isDigit
        && hours ≤ 24 && minutes ≤ 60 then
      let total : Int := hours * 60 + minutes
      some (some (if sign == '-' then -total else total))
    else none
  | _ => none

/-- What follows on a date: nothing, a time of day behind blanks, or a time of day and an
offset behind the letter `T`. -/
def finish? (date : Timestamp) : List Char → Option Timestamp
  | [] => some date
  | c :: s =>
    if c == ' ' then
      match clock? date (s.dropWhile (· == ' ')) with
      | some (t, []) => some t
      | _ => none
    else if c == 'T' || c == 't' then do
      let (t, s) ← clock? date s
      return { t with offset := ← offset? s }
    else none

/-- The timestamp that a text stands for. -/
def read? (s : String) : Option Timestamp := do
  let (date, rest) ← date? s.toList
  (finish? date rest).filter isValid

/-! ## Writing -/

/-- A number with zeros in front up to a width. -/
def padded (width n : Nat) : String :=
  let digits := toString n
  String.ofList (List.replicate (width - digits.length) '0') ++ digits

/-- The fraction of a second without zeros at its end. -/
def fractionText (nanosecond : Nat) : String :=
  let digits := (padded 9 nanosecond).toList.reverse.dropWhile (· == '0')
  if digits.isEmpty then "" else String.ofList ('.' :: digits.reverse)

/-- An offset, and the name of its zone. -/
def zoneText (offset : Int) : String :=
  if offset = 0 then "+0000 UTC"
  else
    let minutes := offset.natAbs
    let zone := (if offset < 0 then "-" else "+") ++ padded 2 (minutes / 60)
      ++ padded 2 (minutes % 60)
    zone ++ " " ++ zone

/-- The text of a timestamp. -/
def render (t : Timestamp) : String :=
  padded 4 t.year ++ "-" ++ padded 2 t.month ++ "-" ++ padded 2 t.day ++ " "
    ++ padded 2 t.hour ++ ":" ++ padded 2 t.minute ++ ":" ++ padded 2 t.second
    ++ fractionText t.nanosecond ++ " " ++ zoneText (t.offset.getD 0)

end Timestamp

end PixelRem
