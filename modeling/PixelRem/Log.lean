import PixelRem.Number.Binary64

/-!
# Log entries

What a run reports while it works: who reports, a message and named values in
the order they are given.  All entries are of the debug level.
-/

namespace PixelRem

/-- A value in a log entry. -/
inductive LogValue where
  | int (n : Int)
  | real (x : Binary64)
  | text (t : Text)
  | texts (ts : List Text)
  deriving DecidableEq, Repr

/-- One report. -/
structure LogEntry where
  logger : String
  message : String
  fields : List (String × LogValue)
  deriving DecidableEq, Repr

end PixelRem
