import PixelRem.Text

/-!
# Tokens of a stylesheet

A token is a kind, the bytes it is made of and the offset of its first byte.
The kinds are those of the CSS syntax level 3 tokenizer, with comments, white
space and custom property names as kinds of their own.
-/

namespace PixelRem.Css

/-- The kinds of tokens. -/
inductive TokenKind where
  | ident
  | function
  | atKeyword
  | hash
  | string
  | badString
  | url
  | badUrl
  | delim
  | number
  | percentage
  | dimension
  | unicodeRange
  | includeMatch
  | dashMatch
  | prefixMatch
  | suffixMatch
  | substringMatch
  | column
  | whitespace
  | cdo
  | cdc
  | colon
  | semicolon
  | comma
  | leftBracket
  | rightBracket
  | leftParenthesis
  | rightParenthesis
  | leftBrace
  | rightBrace
  | comment
  | customPropertyName
  deriving DecidableEq, Repr

namespace TokenKind

/-- The name of a kind in listings. -/
def name : TokenKind → String
  | ident => "Ident"
  | function => "Function"
  | atKeyword => "AtKeyword"
  | hash => "Hash"
  | string => "String"
  | badString => "BadString"
  | url => "URL"
  | badUrl => "BadURL"
  | delim => "Delim"
  | number => "Number"
  | percentage => "Percentage"
  | dimension => "Dimension"
  | unicodeRange => "UnicodeRange"
  | includeMatch => "IncludeMatch"
  | dashMatch => "DashMatch"
  | prefixMatch => "PrefixMatch"
  | suffixMatch => "SuffixMatch"
  | substringMatch => "SubstringMatch"
  | column => "Column"
  | whitespace => "Whitespace"
  | cdo => "CDO"
  | cdc => "CDC"
  | colon => "Colon"
  | semicolon => "Semicolon"
  | comma => "Comma"
  | leftBracket => "LeftBracket"
  | rightBracket => "RightBracket"
  | leftParenthesis => "LeftParenthesis"
  | rightParenthesis => "RightParenthesis"
  | leftBrace => "LeftBrace"
  | rightBrace => "RightBrace"
  | comment => "Comment"
  | customPropertyName => "CustomPropertyName"

/-- The bracket depth after a token of this kind.  Functions, parentheses and
square brackets nest; a closing one at depth zero is ignored. -/
def depthAfter (kind : TokenKind) (depth : Nat) : Nat :=
  match kind with
  | function | leftParenthesis | leftBracket => depth + 1
  | rightParenthesis | rightBracket => depth - 1
  | _ => depth

/-- The kinds that are passed over between rules and between items. -/
def isSkipped : TokenKind → Bool
  | whitespace | cdo | cdc | semicolon => true
  | _ => false

/-- The depth of braces after a token of this kind. -/
def braceDepthAfter (kind : TokenKind) (depth : Nat) : Nat :=
  match kind with
  | leftBrace => depth + 1
  | rightBrace => depth - 1
  | _ => depth

end TokenKind

/-- A token with its place in the source. -/
structure Token where
  kind : TokenKind
  text : Text
  offset : Nat
  deriving DecidableEq, Repr

/-- The offset just behind a token. -/
def Token.stop (t : Token) : Nat :=
  t.offset + t.text.length

end PixelRem.Css
