import PixelRem.Config.Timestamp
import PixelRem.Number.Reader

/-!
# Configuration values

Values as they come from a configuration file, the environment or flags, and how
a setting of a given type reads them.  A reading never fails: a value of another
type is read through its text, and a text that says nothing is read as zero,
false or nothing.

Maps keep their keys in the order they were first set.  `ConfigMap.merge` lays
one map over another; where both have a map below a key, these are merged too.
-/

namespace PixelRem

/-- A value below a key. -/
inductive ConfigValue where
  | null
  | bool (b : Bool)
  | int (n : Int)
  | real (x : Binary64)
  | text (s : String)
  | time (t : Timestamp)
  | list (items : List ConfigValue)
  | map (fields : List (String × ConfigValue))
  /-- A map with keys of any kind. -/
  | table (entries : List (ConfigValue × ConfigValue))
  deriving Inhabited, Repr

/-- Values by their keys. -/
abbrev ConfigMap := List (String × ConfigValue)

namespace ConfigValue

/-! ## Keys -/

/-- Whether a number has 64 bits. -/
def isWhole (n : Int) : Bool :=
  -pow2 63 ≤ n && n < pow2 63

/-- The kinds of keys in their order. -/
def keyKind : ConfigValue → Nat
  | .null => 0
  | .bool _ => 1
  | .real _ => 2
  | .int n => if isWhole n then 3 else 6
  | .text _ => 4
  | .time _ => 5
  | .list _ | .map _ | .table _ => 7

/-- Whether a key does not come behind another.  Keys are ordered by their kinds, then by
their values; times by their fractions of a second first. -/
def keyLe (a b : ConfigValue) : Bool :=
  match a, b with
  | .bool a, .bool b => !a || b
  | .int a, .int b => a ≤ b
  | .real a, .real b => a.rank ≤ b.rank
  | .text a, .text b => a ≤ b
  | .time a, .time b =>
    a.nanosecond < b.nanosecond || (a.nanosecond == b.nanosecond && a.seconds ≤ b.seconds)
  | a, b => a.keyKind ≤ b.keyKind

/-- Whether two keys are the same.  A number that is none differs from itself, and so
does a time with an offset. -/
def sameKey : (a b : ConfigValue) → Bool
  | .null, .null => true
  | .bool a, .bool b => a == b
  | .int a, .int b => a == b
  | .real a, .real b => a != .nan && a.rank == b.rank
  | .text a, .text b => a == b
  | .time a, .time b =>
    a.offset == b.offset && a.offset.getD 0 == 0 && a.seconds == b.seconds
      && a.nanosecond == b.nanosecond
  | _, _ => false

/-! ## Texts -/

mutual

/-- The text of a value. -/
def render : ConfigValue → String
  | .null => "<nil>"
  | .bool b => if b then "true" else "false"
  | .int n => (Text.ofInt n).asciiString
  | .real x => x.toGeneral.asciiString
  | .text s => s
  | .time t => t.render
  | .list items => "[" ++ " ".intercalate (renderItems items) ++ "]"
  | .map fields =>
    let entries := (renderFields fields).mergeSort fun a b => decide (a.1 ≤ b.1)
    "map[" ++ " ".intercalate (entries.map fun (key, value) => key ++ ":" ++ value) ++ "]"
  | .table entries =>
    let entries := (renderEntries entries).mergeSort fun a b => keyLe a.1 b.1
    "map[" ++ " ".intercalate (entries.map (·.2)) ++ "]"

/-- The texts of items. -/
def renderItems : List ConfigValue → List String
  | [] => []
  | item :: items => item.render :: renderItems items

/-- The texts of fields. -/
def renderFields : List (String × ConfigValue) → List (String × String)
  | [] => []
  | (key, value) :: fields => (key, value.render) :: renderFields fields

/-- The texts of entries, with their keys. -/
def renderEntries : List (ConfigValue × ConfigValue) → List (ConfigValue × String)
  | [] => []
  | (key, value) :: entries => (key, key.render ++ ":" ++ value.render) :: renderEntries entries

end

/-! ## Readings -/

/-- A value read as a text. -/
def toText : ConfigValue → String
  | .null => ""
  | value => value.render

/-- A value read as a real number.  A text too large for the format is infinite. -/
def toReal : ConfigValue → Binary64
  | .null => .zero false
  | .real x => x
  | value =>
    match Binary64.read value.render with
    | .ok x => x
    | .error .malformed => .zero false
    | .error .outOfRange => .infinite ((NumberReader.sign value.render.toList).1)

/-- The least number of 64 bits. -/
def leastWhole : Int := -pow2 63

/-- A real number without its fraction.  What has no place in 64 bits is the least
number. -/
def wholeOfReal (x : Binary64) : Int :=
  match x.truncate? with
  | some n => if isWhole n then n else leastWhole
  | none => leastWhole

/-- A value read as a whole number.  A fraction is cut off. -/
def toWhole (value : ConfigValue) : Int :=
  match value with
  | .null => 0
  | .int n => if isWhole n then n else wholeOfReal value.toReal
  | value =>
    match Binary64.read value.render with
    | .ok x => wholeOfReal x
    | .error _ => 0

/-- The texts that stand for true. -/
def trueTexts : List String :=
  ["1", "t", "T", "TRUE", "true", "True"]

/-- The texts that stand for false. -/
def falseTexts : List String :=
  ["0", "f", "F", "FALSE", "false", "False"]

/-- A value read as a truth value. -/
def toBool (value : ConfigValue) : Bool :=
  value.render ∈ trueTexts

/-- A value read as a list of texts.  Anything but a list reads as none. -/
def toTexts : ConfigValue → List String
  | .list items => renderItems items
  | _ => []

end ConfigValue

namespace ConfigMap

/-! ## Maps -/

/-- Sets the value of a key. -/
def put (m : ConfigMap) (key : String) (value : ConfigValue) : ConfigMap :=
  match m with
  | [] => [(key, value)]
  | (k, v) :: m => if k = key then (key, value) :: m else (k, v) :: put m key value

mutual

/-- Lays a value over another. -/
def mergeValue : (upper below : ConfigValue) → ConfigValue
  | .map fields, .map below => .map (mergeFields fields below)
  | upper, _ => upper

/-- Lays fields over a map. -/
def mergeFields : (upper : List (String × ConfigValue)) → ConfigMap → ConfigMap
  | [], below => below
  | (key, value) :: upper, below =>
    mergeFields upper <| put below key <|
      match below.lookup key with
      | some old => mergeValue value old
      | none => value

end

/-- Lays a map over another. -/
def merge (upper below : ConfigMap) : ConfigMap :=
  mergeFields upper below

/-- Sets a value at the end of a path of keys.  A key on the way that holds anything but
a map is passed over. -/
def putPath (m : ConfigMap) (value : ConfigValue) : List String → ConfigMap
  | [] => m
  | [key] => put m key value
  | key :: keys =>
    match m.lookup key with
    | none => put m key (.map (putPath [] value keys))
    | some (.map fields) => put m key (.map (putPath fields value keys))
    | some _ => putPath m value keys

/-! ## Settings -/

/-- A text setting; an empty one is not set. -/
def textOr (m : ConfigMap) (key default : String) : String :=
  let s := (m.lookup key).elim "" ConfigValue.toText
  if s.isEmpty then default else s

/-- A real setting. -/
def realOr (m : ConfigMap) (key : String) (default : Binary64) : Binary64 :=
  (m.lookup key).elim default ConfigValue.toReal

/-- A whole setting. -/
def wholeOr (m : ConfigMap) (key : String) (default : Int) : Int :=
  (m.lookup key).elim default ConfigValue.toWhole

/-- A truth setting. -/
def boolOr (m : ConfigMap) (key : String) (default : Bool) : Bool :=
  (m.lookup key).elim default ConfigValue.toBool

/-- A list setting; an empty one is not set. -/
def textsOr (m : ConfigMap) (key : String) (default : List String) : List String :=
  let texts := (m.lookup key).elim [] ConfigValue.toTexts
  if texts.isEmpty then default else texts

end ConfigMap

end PixelRem
