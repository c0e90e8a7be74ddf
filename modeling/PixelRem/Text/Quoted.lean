import PixelRem.Text
import PixelRem.Text.Printable

/-!
# Quoted texts

Messages show a text in double quotes.  A quote, a backslash and the usual
control characters are escaped by name, other unprintable characters and stray
bytes by their number, and everything else stands for itself.
-/

namespace PixelRem.Text

/-- The last `width` hexadecimal digits of a number. -/
def hexDigits (width n : Nat) : Text :=
  let digits := (Nat.toDigits 16 n).map ascii
  List.replicate (width - digits.length) (ascii '0') ++ digits

/-- The letter that escapes a control character. -/
def controlLetter? (c : Char) : Option Char :=
  match c.toNat with
  | 0x07 => some 'a'
  | 0x08 => some 'b'
  | 0x09 => some 't'
  | 0x0A => some 'n'
  | 0x0B => some 'v'
  | 0x0C => some 'f'
  | 0x0D => some 'r'
  | _ => none

/-- A character inside quotes of the kind `quote`. -/
def quoteChar (quote c : Char) : Text :=
  if c = quote || c = '\\' then [ascii '\\', ascii c]
  else if isPrintable c then ofChars [c]
  else match controlLetter? c with
    | some letter => [ascii '\\', ascii letter]
    | none =>
      if c.toNat < 0x20 || c.toNat = 0x7F then utf8 "\\x" ++ hexDigits 2 c.toNat
      else if c.toNat < 0x10000 then utf8 "\\u" ++ hexDigits 4 c.toNat
      else utf8 "\\U" ++ hexDigits 8 c.toNat

/-- The bytes inside double quotes, after `skip` bytes of the last character. -/
def quoteFrom : (skip : Nat) → Text → Text
  | _, [] => []
  | skip + 1, _ :: t => quoteFrom skip t
  | 0, b :: t =>
    match decodeHead b t with
    | some (c, k) => quoteChar '"' c ++ quoteFrom k t
    | none => utf8 "\\x" ++ hexDigits 2 b.toNat ++ quoteFrom 0 t

/-- A text in double quotes. -/
def quoted (t : Text) : Text :=
  ascii '"' :: quoteFrom 0 t ++ [ascii '"']

/-- A string in double quotes. -/
def quotedString (s : String) : Text :=
  quoted (utf8 s)

end PixelRem.Text
