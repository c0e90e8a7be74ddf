import PixelRem.Regex.Reader
import PixelRem.Text

/-!
# Ignore lists

An ignore file has one pattern per line.  A path is ignored if the last pattern
that decides about it says so; a pattern behind an exclamation mark takes a path
back.  In a pattern `*` stands for any run inside a name and `**` beside a slash
for any run of directories.  A pattern that starts with a slash starts at the top,
any other below some directory, and a pattern that matches a directory covers all
that lies in it.

A pattern is spelled out as a regular expression by replacing words in its text,
so characters that mean something there keep that meaning.  A line whose
expression is malformed has no say.
-/

namespace PixelRem

namespace Ignore

/-! ## Words -/

/-- Replaces each occurrence of a word from left to right, after `skip` characters of the
last one. -/
def replaceFrom (word instead : List Char) : (skip : Nat) → List Char → List Char
  | _, [] => []
  | skip + 1, _ :: s => replaceFrom word instead skip s
  | 0, c :: s =>
    if word.isPrefixOf (c :: s) then instead ++ replaceFrom word instead (word.length - 1) s
    else c :: replaceFrom word instead 0 s

/-- Replaces each occurrence of a word. -/
def replaceWord (word instead : String) (s : List Char) : List Char :=
  replaceFrom word.toList instead.toList 0 s

/-! ## Patterns -/

/-- Whether a star and a dot stand next to each other. -/
def hasStarDot : List Char → Bool
  | '*' :: '.' :: _ => true
  | _ :: s => hasStarDot s
  | [] => false

/-- Whether a slash behind a name comes before a star and a dot.  Such a pattern starts
at the top. -/
def isAnchored : List Char → Bool
  | c :: '/' :: s => (c != '/' && c != '+' && hasStarDot s) || isAnchored ('/' :: s)
  | _ :: s => isAnchored s
  | [] => false

/-- What stands for a star of the expression while the stars of the pattern are
replaced. -/
def heldStar : String := "#$~"

/-- Replaces the words of a pattern by what they stand for. -/
def spell (pattern : List Char) : List Char :=
  let dotted := replaceWord "." "\\." pattern
  let dotted := if "/**/".toList.isPrefixOf dotted then dotted.drop 1 else dotted
  replaceWord heldStar "*" <|
  replaceWord "?" "\\?" <|
  replaceWord "*" "([^/]*)" <|
  replaceWord "\\*" ("\\" ++ heldStar) <|
  replaceWord "/**" ("(|/." ++ heldStar ++ ")") <|
  replaceWord "**/" ("(|." ++ heldStar ++ "/)") <|
  replaceWord "/**/" "(/|/.+/)" dotted

/-- The expression of a pattern without the mark of a negated one, as text. -/
def expression (line : List Char) : List Char :=
  let line := match line with
    | '#' :: s => s
    | '!' :: s => s
    | s => s
  let line := if isAnchored line && line.head? != some '/' then '/' :: line else line
  let inner := spell line
  let whole := inner ++ (if inner.getLast? = some '/' then "(|.*)$" else "(|/.*)$").toList
  match whole with
  | '/' :: rest => "^(|/)".toList ++ rest
  | rest => "^(|.*/)".toList ++ rest

end Ignore

/-- A line of an ignore file. -/
structure IgnoreRule where
  negated : Bool
  expression : Regex
  deriving DecidableEq, Repr

/-- The patterns of an ignore file in order. -/
abbrev IgnoreList := List IgnoreRule

/-- The rule of a line; comments, blank lines and malformed patterns have none. -/
def IgnoreRule.ofLine? (line : String) : Option IgnoreRule :=
  let line := (line.toList.reverse.dropWhile (· == '\r')).reverse
  if line.head? = some '#' then none
  else
    let line := (line.dropWhile (· == ' ')).reverse.dropWhile (· == ' ') |>.reverse
    let rule (negated : Bool) (pattern : List Char) : Option IgnoreRule :=
      (Regex.read? (Ignore.expression pattern)).map (⟨negated, ·⟩)
    match line with
    | [] => none
    | '!' :: pattern => rule true pattern
    | pattern => rule false pattern

/-- The rules of an ignore file.  A line that is not well-formed UTF-8 has none. -/
def IgnoreList.ofText (content : Text) : IgnoreList :=
  (Text.splitOn 0x0A content).filterMap fun line => line.toString?.bind IgnoreRule.ofLine?

/-- What a rule makes of the decision on a path so far. -/
def IgnoreRule.decide (path : List Char) (ignored : Bool) (rule : IgnoreRule) : Bool :=
  if rule.expression.isIn path then !rule.negated else ignored

/-- Whether a list ignores a path. -/
def IgnoreList.ignores (rules : IgnoreList) (path : String) : Bool :=
  rules.foldl (IgnoreRule.decide path.toList) false

end PixelRem
