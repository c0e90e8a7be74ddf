import PixelRem.Text

/-!
# Records

A record is a line of fields with commas between them.  A field in quotes may
hold commas and line ends, and two quotes in it stand for one; a quote anywhere
else is an error.  Only the first record of a text is read, and blank lines
before it are passed over.  `write` puts fields into a record; one empty field
alone makes an empty text.
-/

namespace PixelRem.Record

/-- What is wrong with the quotes of a record. -/
inductive Fault where
  /-- A quote in a field that does not start with one. -/
  | bareQuote
  /-- Text behind a closing quote, or no closing quote. -/
  | strayQuote
  deriving DecidableEq, Repr

/-- Why a text has no record. -/
inductive Error where
  | empty
  | fault (kind : Fault) (start line column : Nat)
  deriving DecidableEq, Repr

/-- The wording of a fault. -/
def Fault.message : Fault → String
  | .bareQuote => "bare \" in non-quoted-field"
  | .strayQuote => "extraneous or missing \" in quoted-field"

/-- The wording of an error. -/
def Error.message : Error → String
  | .empty => "EOF"
  | .fault kind start line column =>
    let place := "parse error on line " ++ toString line ++ ", column " ++ toString column ++ ": "
    (if start = line then "" else "record on line " ++ toString start ++ "; ") ++ place
      ++ kind.message

/-- Where in a field the reader is. -/
inductive Place where
  /-- Before the first character. -/
  | start
  /-- In a field without quotes. -/
  | bare
  /-- Between quotes. -/
  | quoted
  /-- Behind a quote that may close the field. -/
  | behindQuote
  deriving DecidableEq, Repr

/-- The comma between fields. -/
def comma : UInt8 := ascii ','

/-- The quote around a field. -/
def quote : UInt8 := ascii '"'

/-- The line end. -/
def newline : UInt8 := ascii '\n'

/-- A record while it is read: the fields and the current field, both in reverse, and
the first line. -/
structure State where
  fields : List Text
  field : Text
  start : Nat

/-- Adds a byte to the current field. -/
def State.push (st : State) (b : UInt8) : State :=
  { st with field := b :: st.field }

/-- Ends the current field. -/
def State.next (st : State) : State :=
  { st with fields := st.field.reverse :: st.fields, field := [] }

/-- All fields. -/
def State.record (st : State) : List Text :=
  st.next.fields.reverse

/-- Reads fields from a line and column on. -/
def readFrom (st : State) : Place → (line column : Nat) → Text → Except Error (List Text)
  | .quoted, line, column, [] => .error (.fault .strayQuote st.start line column)
  | _, _, _, [] => .ok st.record
  | .quoted, line, column, b :: t =>
    if b = quote then readFrom st .behindQuote line (column + 1) t
    else if b = newline && !t.isEmpty then readFrom (st.push b) .quoted (line + 1) 1 t
    else readFrom (st.push b) .quoted line (column + 1) t
  | .behindQuote, line, column, b :: t =>
    if b = quote then readFrom (st.push b) .quoted line (column + 1) t
    else if b = comma then readFrom st.next .start line (column + 1) t
    else if b = newline then .ok st.record
    else .error (.fault .strayQuote st.start line (column - 1))
  | place, line, column, b :: t =>
    if b = comma then readFrom st.next .start line (column + 1) t
    else if b = newline then .ok st.record
    else if b = quote then
      if place = .start then readFrom st .quoted line (column + 1) t
      else .error (.fault .bareQuote st.start line column)
    else readFrom (st.push b) .bare line (column + 1) t

/-- Line ends in their one form; a carriage return at the end goes. -/
def normalizeLines : Text → Text
  | [] => []
  | b :: t =>
    if b = ascii '\r' && (t.isEmpty || t.head? = some newline) then normalizeLines t
    else b :: normalizeLines t

/-- Passes over blank lines and reads a record. -/
def readLines : (line : Nat) → Text → Except Error (List Text)
  | _, [] => .error .empty
  | line, b :: t =>
    if b = newline then readLines (line + 1) t
    else readFrom ⟨[], [], line⟩ .start line 1 (b :: t)

/-- The fields of the first record in a text. -/
def read (t : Text) : Except Error (List Text) :=
  readLines 1 (normalizeLines t)

/-! ## Writing -/

/-- Whether a field is written in quotes. -/
def needsQuotes (field : Text) : Bool :=
  field.any fun b => b ∈ [comma, quote, newline, ascii '\r']

/-- A field as it is written. -/
def writeField (field : Text) : Text :=
  if needsQuotes field then
    [quote] ++ field.flatMap (fun b => if b = quote then [quote, quote] else [b]) ++ [quote]
  else field

/-- The record of fields. -/
def write (fields : List Text) : Text :=
  [comma].intercalate (fields.map writeField)

/-- The fields that are read back from their record.  One empty field alone is lost. -/
def readBack (fields : List Text) : List Text :=
  (read (write fields)).toOption.getD []

end PixelRem.Record
