import PixelRem.Text
import PixelRem.Yaml.Token.Scalar

/-!
# Names, tags and directives

A name marks a node or refers to one that is marked.  A tag says what a node is:
it is written out between angle brackets, or short with a handle in front of it.
Directives stand before a document and give its version and the meaning of
handles.
-/

namespace PixelRem.Yaml

/-! ## Names -/

/-- Whether a text may stand behind a name. -/
def endsName (s : List Char) : Bool :=
  startsBlank s || s.head?.any fun c => c ∈ ['?', ':', ',', ']', '\x7d', '%', '@', '\x60']

/-- The name behind the mark at a cursor. -/
def name? (cur : Cursor) : Option (Lexeme String) :=
  let (name, stop) := cur.next.takeWhile isNameChar
  if name.isEmpty || !endsName stop.rest then none else some ⟨String.ofList name, stop⟩

/-! ## Tags -/

/-- Whether a character may stand in a tag. -/
def isTagChar (c : Char) : Bool :=
  isNameChar c ||
    c ∈ [';', '/', '?', ':', '@', '&', '=', '+', '$', ',', '.', '!', '~', '*', '\'', '(', ')',
      '[', ']', '%']

/-- The bytes of a tag.  A percent sign stands before a byte in hexadecimal digits. -/
def tagBytes? : List Char → Option Text
  | [] => some []
  | '%' :: a :: b :: s => do
    let n ← hexNumber? 2 [a, b]
    return UInt8.ofNat n :: (← tagBytes? s)
  | c :: s => if c = '%' then none else do return utf8 c.toString ++ (← tagBytes? s)

/-- The part of a tag at a cursor. -/
def tagText? (cur : Cursor) : Option (Lexeme String) := do
  let (chars, stop) := cur.takeWhile isTagChar
  let text ← (← tagBytes? chars).toString?
  return ⟨text, stop⟩

/-- The part of a tag at a cursor, which is not empty. -/
def someTagText? (cur : Cursor) : Option (Lexeme String) := do
  let part ← tagText? cur
  if part.value.isEmpty then none else return part

/-- The handle at a cursor: an exclamation mark, or a name between two of them. -/
def tagHandle? (cur : Cursor) : Option (Lexeme String) :=
  if cur.startsWith '!' then
    let (name, stop) := cur.next.takeWhile isNameChar
    if stop.startsWith '!' then some ⟨String.ofList ('!' :: name ++ ['!']), stop.next⟩
    else some ⟨String.ofList ('!' :: name), stop⟩
  else none

/-- Whether a text is an exclamation mark or more and ends with another one. -/
def isHandle (s : String) : Bool :=
  1 < s.length && s.toList.getLast? == some '!'

/-- The tag at a cursor. -/
def tag? (cur : Cursor) : Option (Lexeme Token) := do
  let ⟨token, stop⟩ ←
    if cur.next.startsWith '<' then do
      let ⟨suffix, stop⟩ ← someTagText? (cur.advance 2)
      if stop.startsWith '>' then some (Lexeme.mk (Token.tag "" suffix) stop.next) else none
    else do
      let ⟨handle, stop⟩ ← tagHandle? cur
      if isHandle handle then do
        let ⟨suffix, stop⟩ ← someTagText? stop
        some (Lexeme.mk (Token.tag handle suffix) stop)
      else do
        let ⟨suffix, stop⟩ ← tagText? cur.next
        some ⟨if suffix.isEmpty then .tag "" "!" else .tag "!" suffix, stop⟩
  if startsBlank stop.rest then some ⟨token, stop⟩ else none

/-! ## Directives -/

/-- A number of one or two digits at a cursor. -/
def versionNumber? (cur : Cursor) : Option (Lexeme Nat) :=
  let (digits, stop) := cur.takeWhile Char.isDigit
  if digits.isEmpty || 2 < digits.length then none
  else some ⟨digits.foldl (fun n d => n * 10 + (d.toNat - 48)) 0, stop⟩

/-- The two numbers of a version. -/
def version? (cur : Cursor) : Option (Lexeme Token) := do
  let ⟨major, stop⟩ ← versionNumber? (cur.skipWhile isBlank)
  if stop.startsWith '.' then do
    let ⟨minor, stop⟩ ← versionNumber? stop.next
    return ⟨.version major minor, stop⟩
  else none

/-- A handle and what it stands for. -/
def handle? (cur : Cursor) : Option (Lexeme Token) := do
  let ⟨name, stop⟩ ← tagHandle? (cur.skipWhile isBlank)
  if (name == "!" || isHandle name) && stop.rest.head?.any isBlank then do
    let ⟨expansion, stop⟩ ← someTagText? (stop.skipWhile isBlank)
    if startsBlank stop.rest then return ⟨.handle name expansion, stop⟩ else none
  else none

/-- The directive at a cursor, with its line. -/
def directive? (cur : Cursor) : Option (Lexeme Token) := do
  let (name, stop) := cur.next.takeWhile isNameChar
  let ⟨token, stop⟩ ←
    if !startsBlank stop.rest then none
    else if name = "YAML".toList then version? stop
    else if name = "TAG".toList then handle? stop
    else none
  let stop := stop.skipWhile isBlank
  let stop := if stop.startsWith '#' then stop.skipLine else stop
  if stop.atLineEnd then return ⟨token, stop.next⟩ else none

end PixelRem.Yaml
