import PixelRem.Log
import PixelRem.Report.Color
import PixelRem.Report.Json

/-!
# Log lines

How log entries are shown on a console: columns divided by tabs, the last of
them the named values on one line.
-/

namespace PixelRem

/-- Strings in log lines escape only what they have to. -/
def LogEntry.jsonStyle : JsonStyle where
  letters := [('\n', 'n'), ('\r', 'r'), ('\t', 't')]
  numbered := []

/-- A value of a log entry. -/
def LogValue.toJson : LogValue → JsonValue
  | .int n => .literal (Text.ofInt n)
  | .real x => .literal x.toPlain
  | .text t => .string t
  | .texts ts => .list (ts.map .string)

/-- The columns that come before the name of the logger: the time and the level, or
with colours only the level. -/
def LogEntry.levelColumns (colors : Bool) (time : String) : List Text :=
  if colors then [displayed "35" (utf8 "DEBUG")] else [utf8 time, utf8 "DEBUG"]

/-- An entry as a line. -/
def LogEntry.line (colors : Bool) (time : String) (e : LogEntry) : Text :=
  let fields := JsonValue.object (e.fields.map fun (name, value) => (name, value.toJson))
  [ascii '\t'].intercalate
      (levelColumns colors time
        ++ [utf8 e.logger, utf8 e.message, fields.inline jsonStyle])
    ++ [ascii '\n']

end PixelRem
