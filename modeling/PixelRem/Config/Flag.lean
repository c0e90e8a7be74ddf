import PixelRem.Config.Record
import PixelRem.Config.Value
import PixelRem.Text.Quoted

/-!
# Flags

Flags on a command line: `--name value`, `--name=value` and `--name` alone for a
flag that is true or false.  A letter behind one dash stands for a flag too, and
such letters can be written together.  Flags and other arguments may come in any
order; two dashes alone end the flags.
-/

namespace PixelRem

/-- What values a flag takes. -/
inductive FlagKind where
  | bool
  | text
  | real
  | whole
  | texts
  deriving DecidableEq, Repr

/-- A flag that a command knows. -/
structure Flag where
  name : String
  letter : Option Char := none
  kind : FlagKind
  /-- The value of a flag that is not set. -/
  default : ConfigValue
  deriving Repr

/-! ## Errors -/

/-- Why a text is not a value of a flag. -/
inductive FlagValueError where
  | bool
  | real (cause : NumberError)
  | whole (cause : NumberError)
  | texts (cause : Record.Error)
  deriving DecidableEq, Repr

/-- What is wrong with arguments. -/
inductive FlagError where
  | badForm (arg : String)
  | unknown (name : String)
  /-- The letters from the first unknown one on. -/
  | unknownLetter (letters : String)
  | noValue (name : String)
  | badValue (flag : Flag) (value : String) (cause : FlagValueError)
  deriving Repr

/-- The wording of a number that is not read. -/
def NumberError.message : NumberError → String
  | .malformed => "invalid syntax"
  | .outOfRange => "value out of range"

/-- The wording of a value that is not read. -/
def FlagValueError.message (value : String) : FlagValueError → Text
  | .bool => parsing "ParseBool" .malformed
  | .real cause => parsing "ParseFloat" cause
  | .whole cause => parsing "ParseInt" cause
  | .texts cause => utf8 cause.message
where
  parsing (reader : String) (cause : NumberError) : Text :=
    utf8 ("strconv." ++ reader ++ ": parsing ") ++ Text.quotedString value
      ++ utf8 (": " ++ cause.message)

/-- How a flag is named in a message. -/
def Flag.title (flag : Flag) : String :=
  match flag.letter with
  | some letter => "-" ++ letter.toString ++ ", --" ++ flag.name
  | none => "--" ++ flag.name

/-- A letter in single quotes.  One of several bytes is shown by its first byte. -/
def quotedLetter (letters : String) : Text :=
  let letter := (utf8 letters).head?.map fun b => Text.quoteChar '\'' (Char.ofNat b.toNat)
  [ascii '\''] ++ letter.getD [] ++ [ascii '\'']

/-- The wording of an error. -/
def FlagError.message : FlagError → Text
  | .badForm arg => utf8 ("bad flag syntax: " ++ arg)
  | .unknown name => utf8 ("unknown flag: --" ++ name)
  | .unknownLetter letters =>
    utf8 "unknown shorthand flag: " ++ quotedLetter letters ++ utf8 (" in -" ++ letters)
  | .noValue name => utf8 ("flag needs an argument: --" ++ name)
  | .badValue flag value cause =>
    utf8 "invalid argument " ++ Text.quotedString value ++ utf8 " for "
      ++ Text.quotedString flag.title ++ utf8 " flag: " ++ cause.message value

/-! ## Values -/

/-- Reads the value of a flag. -/
def FlagKind.read (kind : FlagKind) (value : String) : Except FlagValueError ConfigValue :=
  match kind with
  | .bool =>
    if value ∈ ConfigValue.trueTexts then .ok (.bool true)
    else if value ∈ ConfigValue.falseTexts then .ok (.bool false)
    else .error .bool
  | .text => .ok (.text value)
  | .real =>
    match Binary64.read value with
    | .ok x => .ok (.real x)
    | .error e => .error (.real e)
  | .whole =>
    match readWhole value with
    | .ok n => .ok (.int n)
    | .error e => .error (.whole e)
  | .texts =>
    if value.isEmpty then .ok (.list [])
    else
      match Record.read (utf8 value) with
      | .ok fields => .ok (.list (fields.map fun t => .text (t.toString?.getD "")))
      | .error e => .error (.texts e)

/-- The value of a flag that is set.  Lists are kept as records, so they are read back
from one. -/
def keptValue (value : ConfigValue) : ConfigValue :=
  match value with
  | .list items =>
    let fields := Record.readBack (items.map fun item => utf8 item.render)
    .list (fields.map fun t => .text (t.toString?.getD ""))
  | value => value

/-- What arguments say: the flags that are set and the other arguments. -/
structure Arguments where
  flags : ConfigMap
  rest : List String
  deriving Repr

/-- Sets a flag.  Lists that are given repeatedly are put together. -/
def Arguments.set (a : Arguments) (flag : Flag) (value : String) : Except FlagError Arguments :=
  match flag.kind.read value with
  | .error e => .error (.badValue flag value e)
  | .ok new =>
    let value := match new, a.flags.lookup flag.name with
      | .list items, some (.list before) => .list (before ++ items)
      | _, _ => new
    .ok { a with flags := ConfigMap.put a.flags flag.name value }

/-! ## Arguments -/

/-- Reads the letters behind a dash.  Also gives a flag that waits for its value. -/
def readLetters (flags : List Flag) (a : Arguments) :
    List Char → Except FlagError (Arguments × Option Flag)
  | [] => .ok (a, none)
  | c :: s =>
    match flags.find? (·.letter == some c) with
    | none => .error (.unknownLetter (String.ofList (c :: s)))
    | some flag =>
      match s with
      | '=' :: d :: value => do return (← a.set flag (String.ofList (d :: value)), none)
      | s =>
        if flag.kind = .bool then
          match a.set flag "true" with
          | .ok a => readLetters flags a s
          | .error e => .error e
        else if s.isEmpty then .ok (a, some flag)
        else do return (← a.set flag (String.ofList s), none)

/-- Reads a flag by name.  Also gives it if it waits for its value. -/
def readName (flags : List Flag) (a : Arguments) (arg : String) (text : List Char) :
    Except FlagError (Arguments × Option Flag) :=
  let name := text.takeWhile (· != '=')
  if name.isEmpty || name.head? = some '-' then .error (.badForm arg)
  else
    match flags.find? (·.name == String.ofList name), text.drop name.length with
    | none, _ => .error (.unknown (String.ofList name))
    | some flag, _ :: value => do return (← a.set flag (String.ofList value), none)
    | some flag, [] =>
      if flag.kind = .bool then do return (← a.set flag "true", none) else .ok (a, some flag)

/-- Reads arguments, the first of them as the value of a flag that waits for one. -/
def readFrom (flags : List Flag) (a : Arguments) :
    (waiting : Option Flag) → List String → Except FlagError Arguments
  | none, [] => .ok { a with rest := a.rest.reverse }
  | some flag, [] => .error (.noValue flag.name)
  | some flag, value :: args =>
    match a.set flag value with
    | .ok a => readFrom flags a none args
    | .error e => .error e
  | none, arg :: args =>
    match arg.toList with
    | ['-', '-'] => .ok { a with rest := a.rest.reverse ++ args }
    | '-' :: '-' :: text =>
      match readName flags a arg text with
      | .ok (a, waiting) => readFrom flags a waiting args
      | .error e => .error e
    | '-' :: c :: letters =>
      match readLetters flags a (c :: letters) with
      | .ok (a, waiting) => readFrom flags a waiting args
      | .error e => .error e
    | _ => readFrom flags { a with rest := arg :: a.rest } none args

/-- Reads arguments. -/
def readArguments (flags : List Flag) (args : List String) : Except FlagError Arguments :=
  readFrom flags ⟨[], []⟩ none args

end PixelRem
