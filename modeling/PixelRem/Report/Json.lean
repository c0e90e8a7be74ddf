import PixelRem.Text.Quoted

/-!
# Report values in JSON

Values as reports and log lines show them, and their two layouts: on one line,
and indented with one value per line.  What a string escapes beyond the required
is up to a `JsonStyle`.
-/

namespace PixelRem

/-- How strings are written. -/
structure JsonStyle where
  /-- The control characters with a letter of their own. -/
  letters : List (Char × Char)
  /-- Further characters that are written by number. -/
  numbered : List Char
  deriving Repr

/-- A value.  Literals, such as numbers, are given by their text. -/
inductive JsonValue where
  | literal (text : Text)
  | string (text : Text)
  | list (items : List JsonValue)
  | object (fields : List (String × JsonValue))
  deriving Inhabited, Repr

namespace JsonStyle

/-- A character by its number, with four digits. -/
def numberEscape (c : Char) : Text :=
  utf8 "\\u" ++ Text.hexDigits 4 c.toNat

/-- A character of a string. -/
def char (style : JsonStyle) (c : Char) : Text :=
  if c = '"' ∨ c = '\\' then [ascii '\\', ascii c]
  else
    match style.letters.lookup c with
    | some letter => [ascii '\\', ascii letter]
    | none =>
      if c.toNat < 0x20 ∨ c ∈ style.numbered then numberEscape c else Text.ofChars [c]

/-- The content of a string.  Bytes that are not UTF-8 are written as the number of the
replacement character. -/
def content (style : JsonStyle) (t : Text) : Text :=
  t.runes.flatMap fun
    | some c => style.char c
    | none => numberEscape Text.replacement

/-- A string in its quotes. -/
def string (style : JsonStyle) (t : Text) : Text :=
  ascii '"' :: (style.content t ++ [ascii '"'])

end JsonStyle

namespace JsonValue

mutual

/-- A value on one line. -/
def inline (style : JsonStyle) : JsonValue → Text
  | .literal text => text
  | .string text => style.string text
  | .list items => utf8 "[" ++ (utf8 ", ").intercalate (inlineItems style items) ++ utf8 "]"
  | .object fields =>
    utf8 "\x7b" ++ (utf8 ", ").intercalate (inlineFields style fields) ++ utf8 "\x7d"

/-- The items of a list, each on one line. -/
def inlineItems (style : JsonStyle) : List JsonValue → List Text
  | [] => []
  | item :: items => item.inline style :: inlineItems style items

/-- The fields of an object, each on one line. -/
def inlineFields (style : JsonStyle) : List (String × JsonValue) → List Text
  | [] => []
  | (name, value) :: fields =>
    (style.string (utf8 name) ++ utf8 ": " ++ value.inline style) :: inlineFields style fields

end

/-- The break before a line at a depth. -/
def lineBreak (depth : Nat) : Text :=
  ascii '\n' :: List.replicate (2 * depth) (ascii ' ')

/-- Lines between brackets, indented by one step; without lines the brackets stand next
to each other. -/
def bracket (opening closing : Char) (depth : Nat) (lines : List Text) : Text :=
  if lines.isEmpty then [ascii opening, ascii closing]
  else
    [ascii opening] ++ lineBreak (depth + 1)
      ++ ([ascii ','] ++ lineBreak (depth + 1)).intercalate lines
      ++ lineBreak depth ++ [ascii closing]

mutual

/-- A value with one line for each of its parts. -/
def indented (style : JsonStyle) (depth : Nat) : JsonValue → Text
  | .literal text => text
  | .string text => style.string text
  | .list items => bracket '[' ']' depth (indentedItems style (depth + 1) items)
  | .object fields => bracket '\x7b' '\x7d' depth (indentedFields style (depth + 1) fields)

/-- The items of a list at a depth. -/
def indentedItems (style : JsonStyle) (depth : Nat) : List JsonValue → List Text
  | [] => []
  | item :: items => item.indented style depth :: indentedItems style depth items

/-- The fields of an object at a depth. -/
def indentedFields (style : JsonStyle) (depth : Nat) : List (String × JsonValue) → List Text
  | [] => []
  | (name, value) :: fields =>
    (style.string (utf8 name) ++ utf8 ": " ++ value.indented style depth)
      :: indentedFields style depth fields

end

end JsonValue

end PixelRem
