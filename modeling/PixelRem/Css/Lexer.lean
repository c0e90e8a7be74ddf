import PixelRem.Css.Token

/-!
# The lexer

`tokenize` cuts a text into tokens.  It never fails, and the tokens cover the
text without gaps.

Every rule of the token syntax is a function from the rest of the text to the
number of bytes that the rule takes there, with `0` where it does not apply.
The main loop then cuts that many bytes off.  Runs that can hold escapes carry
the number of bytes still to pass over, so they recurse on the text itself.
-/

namespace PixelRem.Css

/-! ## Escapes and names -/

/-- The bytes of a character by its first byte, when it is escaped. -/
def escapedWidth (lead : UInt8) : Nat :=
  if lead < 0xC0 then 1 else if lead < 0xE0 then 2 else if lead < 0xF0 then 3 else 4

/-- The number of bytes behind the backslash of an escape.  A line end and the end
of the text are never escaped; up to six hexadecimal digits take one white-space
byte with them; any other character stands for itself. -/
def escapeBody : Text → Nat
  | [] => 0
  | b :: t =>
    if Byte.isNewline b then 0
    else if Byte.isHexDigit b then
      let digits := (((b :: t).take 6).takeWhile Byte.isHexDigit).length
      match (b :: t).drop digits with
      | c :: _ => if Byte.isSpace c then digits + 1 else digits
      | [] => digits
    else min (escapedWidth b) (t.length + 1)

/-- The length of an escape at the head of a text. -/
def escapeLength : Text → Nat
  | b :: t =>
    if b = ascii '\\' then
      match escapeBody t with
      | 0 => 0
      | n + 1 => n + 2
    else 0
  | [] => 0

/-- The bytes that can start a name without an escape. -/
def isNameStart (b : UInt8) : Bool :=
  Byte.isLetter b || b == ascii '_' || 0x80 ≤ b

/-- The bytes that can stand in a name without an escape. -/
def isNameByte (b : UInt8) : Bool :=
  isNameStart b || Byte.isDigit b || b == ascii '-'

/-- The length of a run of name bytes and escapes, after `skip` bytes of an escape. -/
def nameRunFrom : (skip : Nat) → Text → Nat
  | _, [] => 0
  | skip + 1, _ :: t => 1 + nameRunFrom skip t
  | 0, b :: t =>
    if isNameByte b then 1 + nameRunFrom 0 t
    else match escapeLength (b :: t) with
      | 0 => 0
      | k + 1 => 1 + nameRunFrom k t

/-- The length of the run of name bytes and escapes at the head of a text. -/
def nameRun (t : Text) : Nat :=
  nameRunFrom 0 t

/-- The length of a name start at the head of a text. -/
def nameStartLength : Text → Nat
  | b :: t => if isNameStart b then 1 else escapeLength (b :: t)
  | [] => 0

/-- The length of a name that starts with a name start. -/
def plainIdentLength (t : Text) : Nat :=
  match nameStartLength t with
  | 0 => 0
  | k + 1 => k + 1 + nameRun (t.drop (k + 1))

/-- The length of an identifier: an optional hyphen and a name, or two hyphens and
any run of name bytes. -/
def identLength : Text → Nat
  | a :: b :: t =>
    if a = ascii '-' then
      if b = ascii '-' then 2 + nameRun t
      else match plainIdentLength (b :: t) with
        | 0 => 0
        | k + 1 => k + 2
    else plainIdentLength (a :: b :: t)
  | t => plainIdentLength t

/-! ## Numbers -/

/-- The length of a run of digits. -/
def digitRun (t : Text) : Nat :=
  (t.takeWhile Byte.isDigit).length

/-- The length of a point with at least one digit behind it. -/
def fractionLength : Text → Nat
  | b :: t =>
    if b = ascii '.' then
      match digitRun t with
      | 0 => 0
      | k + 1 => k + 2
    else 0
  | [] => 0

/-- The length of a sign. -/
def signLength : Text → Nat
  | b :: _ => if b = ascii '+' || b = ascii '-' then 1 else 0
  | [] => 0

/-- The length of an exponent: the letter `e`, an optional sign and digits. -/
def exponentLength : Text → Nat
  | b :: t =>
    if b = ascii 'e' || b = ascii 'E' then
      let sign := signLength t
      match digitRun (t.drop sign) with
      | 0 => 0
      | k + 1 => 1 + sign + (k + 1)
    else 0
  | [] => 0

/-- The length of a number: an optional sign, digits or a fraction or both, and an
optional exponent. -/
def numberLength (t : Text) : Nat :=
  let sign := signLength t
  let whole := digitRun (t.drop sign)
  let fraction := fractionLength (t.drop (sign + whole))
  if whole + fraction = 0 then 0
  else
    let mantissa := sign + whole + fraction
    mantissa + exponentLength (t.drop mantissa)

/-- A number, a percentage or a dimension at the head of a text. -/
def numeric? (t : Text) : Option (TokenKind × Nat) :=
  match numberLength t with
  | 0 => none
  | n + 1 =>
    let behind := t.drop (n + 1)
    if behind.head? = some (ascii '%') then some (.percentage, n + 2)
    else match identLength behind with
      | 0 => some (.number, n + 1)
      | k + 1 => some (.dimension, n + 1 + (k + 1))

/-! ## Strings, comments and addresses -/

/-- The length of a line end, where carriage return and line feed count as one. -/
def newlineLength : Text → Nat
  | b :: c :: _ =>
    if b = 0x0D && c = 0x0A then 2 else if Byte.isNewline b then 1 else 0
  | b :: [] => if Byte.isNewline b then 1 else 0
  | [] => 0

/-- Reads a string behind its opening quote, after `skip` bytes of an escape: whether
it is well formed, and its length with the closing quote.  A bare line end breaks
the string and belongs to it; the end of the text closes it. -/
def stringRunFrom (quote : UInt8) : (skip : Nat) → Text → Bool × Nat
  | _, [] => (true, 0)
  | skip + 1, _ :: t =>
    let (good, n) := stringRunFrom quote skip t
    (good, n + 1)
  | 0, b :: t =>
    if Byte.isNewline b then (false, 1)
    else if b = quote then (true, 1)
    else if b = ascii '\\' then
      let skip := match escapeLength (b :: t) with
        | 0 => newlineLength t
        | k + 1 => k
      let (good, n) := stringRunFrom quote skip t
      (good, n + 1)
    else
      let (good, n) := stringRunFrom quote 0 t
      (good, n + 1)

/-- The length of a comment behind its opening mark, with the closing mark if there
is one. -/
def commentRun : Text → Nat
  | [] => 0
  | [_] => 1
  | a :: b :: t =>
    if a = ascii '*' && b = ascii '/' then 2 else 1 + commentRun (b :: t)

/-- The length of the white space at the head of a text. -/
def spaceRun (t : Text) : Nat :=
  (t.takeWhile Byte.isSpace).length

/-- The bytes that an unquoted address cannot hold as they are. -/
def breaksUrl (b : UInt8) : Bool :=
  b == ascii '"' || b == ascii '\'' || b == ascii '(' || b ≤ 0x20 || b == 0x7F

/-- The length of an unquoted address before its closing parenthesis, after `skip`
bytes of an escape, and whether it runs up to one or to the end of the text. -/
def urlRunFrom : (skip : Nat) → Text → Bool × Nat
  | _, [] => (true, 0)
  | skip + 1, _ :: t =>
    let (good, n) := urlRunFrom skip t
    (good, n + 1)
  | 0, b :: t =>
    if b = ascii ')' then (true, 0)
    else if breaksUrl b then (false, 0)
    else if b = ascii '\\' then
      match escapeLength (b :: t) with
      | 0 => (false, 0)
      | k + 1 =>
        let (good, n) := urlRunFrom k t
        (good, n + 1)
    else
      let (good, n) := urlRunFrom 0 t
      (good, n + 1)

/-- The length of what is left of a broken address: through the next closing
parenthesis that is not escaped, or to the end of the text. -/
def badUrlRunFrom : (skip : Nat) → Text → Nat
  | _, [] => 0
  | skip + 1, _ :: t => 1 + badUrlRunFrom skip t
  | 0, b :: t =>
    if b = ascii ')' then 1
    else 1 + badUrlRunFrom (escapeLength (b :: t) - 1) t

/-- A broken address of which the first `n` bytes of `t` are read. -/
def badUrl (t : Text) (n : Nat) : TokenKind × Nat :=
  (.badUrl, n + badUrlRunFrom 0 (t.drop n))

/-- An address of which the first `n` bytes of `t`, content included, are read: white
space and the closing parenthesis or the end of the text must follow. -/
def closeUrl (t : Text) (n : Nat) : TokenKind × Nat :=
  let stop := n + spaceRun (t.drop n)
  match t.drop stop with
  | [] => (.url, stop)
  | b :: _ => if b = ascii ')' then (.url, stop + 1) else badUrl t stop

/-- An address, given the text behind its opening parenthesis.  The length counts
from there. -/
def urlBody (t : Text) : TokenKind × Nat :=
  let start := spaceRun t
  match t.drop start with
  | [] => closeUrl t start
  | b :: rest =>
    if b = ascii '"' || b = ascii '\'' then
      let (good, n) := stringRunFrom b 0 rest
      if good then closeUrl t (start + 1 + n) else badUrl t (start + 1 + n)
    else
      let (good, n) := urlRunFrom 0 (b :: rest)
      if good then closeUrl t (start + n)
      else match t.drop (start + n) with
        | c :: _ =>
          if Byte.isSpace c then closeUrl t (start + n + 1) else badUrl t (start + n)
        | [] => badUrl t (start + n)

/-- An identifier, a function or an address at the head of a text. -/
def identLike? (t : Text) : Option (TokenKind × Nat) :=
  match identLength t with
  | 0 => none
  | n + 1 =>
    match t.drop (n + 1) with
    | b :: body =>
      if b = ascii '(' then
        let name := (t.take (n + 1)).filter (· != ascii '\\')
        if name.map Byte.toLower = utf8 "url" then
          let (kind, k) := urlBody body
          some (kind, n + 2 + k)
        else some (.function, n + 2)
      else some (.ident, n + 1)
    | [] => some (.ident, n + 1)

/-! ## Unicode ranges -/

/-- The length of a run of hexadecimal digits. -/
def hexRun (t : Text) : Nat :=
  (t.takeWhile Byte.isHexDigit).length

/-- The length of a range of code points behind its `u`: a plus sign and one to six
digits, with question marks at the end or a second run of one to six digits. -/
def unicodeRangeBody : Text → Nat
  | b :: t =>
    if b = ascii '+' then
      let first := hexRun t
      match t.drop first with
      | c :: rest =>
        if c = ascii '-' then
          let second := hexRun rest
          if 1 ≤ first && first ≤ 6 && 1 ≤ second && second ≤ 6 then 2 + first + second
          else 0
        else
          let marks := ((c :: rest).takeWhile (· == ascii '?')).length
          if 1 ≤ first + marks && first + marks ≤ 6 then 1 + first + marks else 0
      | [] => if 1 ≤ first && first ≤ 6 then 1 + first else 0
    else 0
  | [] => 0

/-! ## The main loop -/

/-- The kind of a token that is one given byte. -/
def punctuation? (b : UInt8) : Option TokenKind :=
  if b = ascii ':' then some .colon
  else if b = ascii ';' then some .semicolon
  else if b = ascii ',' then some .comma
  else if b = ascii '(' then some .leftParenthesis
  else if b = ascii ')' then some .rightParenthesis
  else if b = ascii '[' then some .leftBracket
  else if b = ascii ']' then some .rightBracket
  else if b = 0x7B then some .leftBrace
  else if b = 0x7D then some .rightBrace
  else none

/-- The kind of a match operator that starts with the given byte and ends with `=`. -/
def matchOperator? (b : UInt8) : Option TokenKind :=
  if b = ascii '~' then some .includeMatch
  else if b = ascii '|' then some .dashMatch
  else if b = ascii '^' then some .prefixMatch
  else if b = ascii '$' then some .suffixMatch
  else if b = ascii '*' then some .substringMatch
  else none

/-- The kind and length of the token at the head of `b :: t`, if it is more than a
single delimiter. -/
def scan? (b : UInt8) (t : Text) : Option (TokenKind × Nat) :=
  if Byte.isSpace b then some (.whitespace, 1 + spaceRun t)
  else if let some kind := punctuation? b then some (kind, 1)
  else if b = ascii '#' then
    match nameRun t with
    | 0 => none
    | n + 1 => some (.hash, n + 2)
  else if b = ascii '"' || b = ascii '\'' then
    let (good, n) := stringRunFrom b 0 t
    some (if good then .string else .badString, 1 + n)
  else if b = ascii '.' || b = ascii '+' then numeric? (b :: t)
  else if b = ascii '-' then
    if (utf8 "->").isPrefixOf t then some (.cdc, 3)
    else if t.head? = some (ascii '-') then some (.customPropertyName, identLength (b :: t))
    else (identLike? (b :: t)).or (numeric? (b :: t))
  else if b = ascii '@' then
    match identLength t with
    | 0 => none
    | n + 1 => some (.atKeyword, n + 2)
  else if b = ascii '/' then
    match t with
    | c :: rest => if c = ascii '*' then some (.comment, 2 + commentRun rest) else none
    | [] => none
  else if b = ascii '<' then
    if (utf8 "!--").isPrefixOf t then some (.cdo, 4) else none
  else if let some kind := matchOperator? b then
    if t.head? = some (ascii '=') then some (kind, 2)
    else if b = ascii '|' && t.head? = some (ascii '|') then some (.column, 2)
    else none
  else if b = ascii '\\' then identLike? (b :: t)
  else if b = ascii 'u' || b = ascii 'U' then
    match unicodeRangeBody t with
    | 0 => identLike? (b :: t)
    | n + 1 => some (.unicodeRange, n + 2)
  else (numeric? (b :: t)).or (identLike? (b :: t))

/-- The kind and length of the token at the head of `b :: t`. -/
def scan (b : UInt8) (t : Text) : TokenKind × Nat :=
  (scan? b t).getD (.delim, 1)

/-- Cuts a text that starts at `offset` into tokens. -/
def tokenizeFrom (offset : Nat) : Text → List Token
  | [] => []
  | b :: t =>
    let (kind, length) := scan b t
    let text := b :: t.take (length - 1)
    ⟨kind, text, offset⟩ :: tokenizeFrom (offset + text.length) (t.drop (length - 1))
termination_by t => t.length
decreasing_by
  simp only [List.length_drop, List.length_cons]
  omega

/-- The tokens of a text. -/
def tokenize (t : Text) : List Token :=
  tokenizeFrom 0 t

end PixelRem.Css
