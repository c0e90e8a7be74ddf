import PixelRem.Config.Value
import PixelRem.Text.Base64

/-!
# YAML scalars

What a scalar stands for.  One without quotes and without a tag is nothing, a
truth value, a number, a timestamp or its own text.  A tag says what the scalar
has to be; only a whole number may be asked for as a real one.
-/

namespace PixelRem.Yaml

/-- Splits decimal digits off the head of a text. -/
def digitsHead (s : List Char) : List Char × List Char :=
  (s.takeWhile Char.isDigit, s.dropWhile Char.isDigit)

/-- Whether a text is empty or an exponent: its letter, an optional sign and digits. -/
def isExponent : List Char → Bool
  | [] => true
  | c :: s =>
    let digits := (NumberReader.sign s).2
    (c == 'e' || c == 'E') && !digits.isEmpty && digits.all Char.isDigit

/-- Whether a text has the form of a decimal number: an optional sign, digits with an
optional fraction or a fraction alone, and an optional exponent. -/
def isDecimalForm (s : List Char) : Bool :=
  match digitsHead (NumberReader.sign s).2 with
  | ([], '.' :: s) =>
    let (fraction, rest) := digitsHead s
    !fraction.isEmpty && isExponent rest
  | ([], _) => false
  | (_, '.' :: s) => isExponent (digitsHead s).2
  | (_, rest) => isExponent rest

/-- The scalars with a meaning of their own. -/
def wordValues : List (String × ConfigValue) :=
  [("", .null), ("~", .null), ("null", .null), ("Null", .null), ("NULL", .null),
    ("true", .bool true), ("True", .bool true), ("TRUE", .bool true),
    ("false", .bool false), ("False", .bool false), ("FALSE", .bool false),
    (".nan", .real .nan), (".NaN", .real .nan), (".NAN", .real .nan),
    (".inf", .real (.infinite false)), (".Inf", .real (.infinite false)),
    (".INF", .real (.infinite false)), ("+.inf", .real (.infinite false)),
    ("+.Inf", .real (.infinite false)), ("+.INF", .real (.infinite false)),
    ("-.inf", .real (.infinite true)), ("-.Inf", .real (.infinite true)),
    ("-.INF", .real (.infinite true))]

/-- A real number, or the text itself where there is none in range. -/
def realOrText (number text : String) : ConfigValue :=
  match Binary64.read number with
  | .ok x => .real x
  | .error _ => .text text

/-- The number behind a mark of base two or eight, which may have a sign of its own. -/
def signedBehindMark? : List Char → Option Int
  | '0' :: mark :: s =>
    let (negative, digits) := NumberReader.sign s
    let base := if mark == 'b' then 2 else 8
    if (mark == 'b' || mark == 'o') && !digits.isEmpty then
      match NumberReader.wholeDigits base 0 digits with
      | .ok n =>
        let n : Int := if negative then -n else n
        if ConfigValue.isWhole n then some n else none
      | .error _ => none
    else none
  | _ => none

/-- The value of a scalar that starts with a digit or a sign.  Underscores in it are
passed over; whole numbers may go up to those of 64 bits without a sign. -/
def numberOrText (s : String) : ConfigValue :=
  let digits := s.toList.filter (· != '_')
  match readWhole (String.ofList digits) with
  | .ok n => .int n
  | .error _ =>
    match NumberReader.unsignedWhole digits with
    | .ok n => .int n
    | .error _ =>
      if isDecimalForm digits then realOrText (String.ofList digits) s
      else (signedBehindMark? digits).elim (.text s) .int

/-- The value of a scalar without quotes, which may be a timestamp or not. -/
def plainValue (times : Bool) (s : String) : ConfigValue :=
  match wordValues.lookup s with
  | some value => value
  | none =>
    match s.toList with
    | '.' :: _ => realOrText s s
    | c :: _ =>
      if c.isDigit || c == '+' || c == '-' then
        match if times then Timestamp.read? s else none with
        | some t => .time t
        | none => numberOrText s
      else .text s
    | [] => .null

/-! ## Tags -/

/-- A tag in its short form. -/
def shortTag (tag : String) : String :=
  let long := "tag:yaml.org,2002:".toList
  if long.isPrefixOf tag.toList then String.ofList ('!' :: '!' :: tag.toList.drop long.length)
  else tag

/-- The tag of a value. -/
def valueTag : ConfigValue → String
  | .null => "!!null"
  | .bool _ => "!!bool"
  | .int _ => "!!int"
  | .real _ => "!!float"
  | .text _ => "!!str"
  | .time _ => "!!timestamp"
  | .list _ => "!!seq"
  | .map _ | .table _ => "!!map"

/-- The scalar that stands before maps to merge. -/
def mergeText : String := "<<"

/-- The tag of the scalar that stands before maps to merge. -/
def mergeTag : String := "!!merge"

/-- The real number with the value of a whole one. -/
def realOfWhole (n : Int) : Binary64 :=
  Binary64.ofFraction (n < 0) n.natAbs 1

/-- The value of a text with a tag in its short form; `none` where it has another. -/
def taggedValue? (tag text : String) : Option ConfigValue :=
  if tag == "!!str" || (tag == mergeTag && text == mergeText) then some (.text text)
  else if tag == "!!binary" then do
    return .text (← (← Base64.decode? (utf8 text)).toString?)
  else
    let value := plainValue (tag == "!!timestamp") text
    if valueTag value == tag then some value
    else
      match value with
      | .int n =>
        if tag == "!!float" && ConfigValue.isWhole n then some (.real (realOfWhole n)) else none
      | _ => none

/-- The value of a scalar; `none` where it does not fit its tag. -/
def scalarValue? (tag : Option String) (plain : Bool) (text : String) : Option ConfigValue :=
  match tag with
  | some tag => taggedValue? (shortTag tag) text
  | none => some (if plain then plainValue true text else .text text)

end PixelRem.Yaml
