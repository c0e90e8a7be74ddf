import PixelRem.Config.Load

/-!
# Commands and their arguments

Which command a list of arguments calls.  The first argument that is neither a
flag nor the value of one names the command; without one the program converts.
For an unknown name the commands with a similar name are suggested.
-/

namespace PixelRem

/-- What the program can do. -/
inductive Command where
  /-- Convert, with the flags of every command only. -/
  | root
  | generate
  | init
  | completion
  | version
  | help
  deriving DecidableEq, Repr

/-- The name of the program. -/
def programName : String := "px2rem"

/-- The flag that asks for help. -/
def helpFlag : Flag :=
  { name := "help", letter := some 'h', kind := .bool, default := .bool false }

namespace Command

/-- The names that call commands. -/
def names : List (String × Command) :=
  [("generate", .generate), ("gen", .generate), ("init", .init), ("completion", .completion),
    ("version", .version), ("help", .help)]

/-- The names that are suggested. -/
def suggestions : List String :=
  ["generate", "init", "completion", "version"]

/-- The flags of a command. -/
def flags : Command → List Flag
  | .generate => generateFlags
  | .init => sharedFlags ++ [{ name := "force", kind := .bool, default := .bool false }]
  | _ => sharedFlags

end Command

/-! ## Finding the command -/

/-- Whether an argument is a flag that takes the next argument as its value.  Unknown
flags count as such. -/
def takesNext (flags : List Flag) (arg : String) : Bool :=
  !arg.contains '=' &&
    match arg.toList with
    | '-' :: '-' :: name =>
      !flags.any fun flag => flag.name.toList == name && flag.kind == .bool
    | ['-', letter] =>
      letter.toNat < 0x80 && !flags.any fun flag => flag.letter == some letter && flag.kind == .bool
    | _ => false

/-- Whether an argument has the form of a flag. -/
def isFlag (arg : String) : Bool :=
  arg.toList.head? == some '-'

/-- The arguments that are neither flags nor their values, up to the end of the flags.
A flag that takes the last argument ends them. -/
def wordsFrom (flags : List Flag) : (skip : Bool) → List String → List String
  | _, [] => []
  | true, _ :: args => wordsFrom flags false args
  | false, arg :: args =>
    if arg = "--" then []
    else if takesNext flags arg then
      if args.length ≤ 1 then [] else wordsFrom flags true args
    else if arg.isEmpty || isFlag arg then wordsFrom flags false args
    else arg :: wordsFrom flags false args

/-- The arguments without the first one that is the given word. -/
def removeWord (flags : List Flag) (word : String) : (skip : Bool) → List String → List String
  | _, [] => []
  | true, arg :: args => arg :: removeWord flags word false args
  | false, arg :: args =>
    if arg = "--" then arg :: args
    else if takesNext flags arg then arg :: removeWord flags word true args
    else if arg = word then args
    else arg :: removeWord flags word false args

/-- The command that arguments call, with the other arguments, or the name of an unknown
command. -/
def route (args : List String) : Except String (Command × List String) :=
  match wordsFrom sharedFlags false args with
  | [] => .ok (.root, args)
  | word :: _ =>
    match Command.names.lookup word with
    | some command => .ok (command, removeWord sharedFlags word false args)
    | none => .error word

/-! ## Suggestions -/

/-- One row of the table of edit distances: for a further byte of the first text, from
the row above and the cell to the left. -/
def distanceRow (a : UInt8) : (left : Nat) → Text → (above : List Nat) → List Nat
  | left, b :: t, corner :: up :: above =>
    let cell := if a = b then corner else 1 + min left (min up corner)
    cell :: distanceRow a cell t (up :: above)
  | _, _, _ => []

/-- The rows of the table for the rest of the first text. -/
def distanceFrom (t : Text) : (count : Nat) → (above : List Nat) → Text → List Nat
  | _, above, [] => above
  | count, above, a :: s =>
    distanceFrom t (count + 1) ((count + 1) :: distanceRow a (count + 1) t above) s

/-- How many bytes have to be added, removed or replaced to get from one text to the
other. -/
def editDistance (s t : Text) : Nat :=
  ((distanceFrom t 0 (List.range (t.length + 1)) s).getLast?).getD 0

/-- The commands that a word may stand for: those it is the start of, and those that are
at most two edits away.  Case does not matter. -/
def suggested (word : String) : List String :=
  let typed := utf8 (Text.lowerString word)
  Command.suggestions.filter fun name =>
    editDistance typed (utf8 name) ≤ 2 || typed.isPrefixOf (utf8 name)

/-- The wording of an unknown command. -/
def unknownCommandMessage (word : String) : Text :=
  let names := suggested word
  utf8 "unknown command " ++ Text.quotedString word ++ utf8 " for "
    ++ Text.quotedString programName
    ++ if names.isEmpty then []
      else utf8 "\n\nDid you mean this?\n" ++ names.flatMap fun name => utf8 ("\t" ++ name ++ "\n")

end PixelRem
