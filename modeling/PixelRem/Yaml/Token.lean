import PixelRem.Yaml.Cursor

/-!
# YAML tokens

The parts that a text is cut into before its structure is known.  The start and
the end of a block collection are not written out: they follow from the
indentation.
-/

namespace PixelRem.Yaml

/-- A part of a text. -/
inductive Token where
  /-- The version that a document is written in. -/
  | version (major minor : Nat)
  /-- What a handle in front of a tag stands for. -/
  | handle (name expansion : String)
  | documentStart
  | documentEnd
  | textEnd
  | blockListStart
  | blockMapStart
  | blockEnd
  | flowListStart
  | flowListEnd
  | flowMapStart
  | flowMapEnd
  | blockItem
  | flowComma
  | key
  | value
  | reference (name : String)
  | anchor (name : String)
  | tag (handle suffix : String)
  | scalar (plain : Bool) (text : String)
  deriving DecidableEq, Repr

/-- A piece of a text and the place behind it. -/
structure Lexeme (α : Type) where
  value : α
  stop : Cursor

end PixelRem.Yaml
