import PixelRem.Yaml.Token.Property

/-!
# Cutting a text into tokens

The lexer keeps the columns of the open blocks, the number of open brackets, and
for every bracket the place that may turn out to be a key: that a scalar is a
key shows only at the colon behind it, which puts the token `key` in front of
the scalar.  Such a colon stands on the same line and within `keyReach`
characters.

The structure of a document is read along with its tokens, and a token is given
out only once two more are known and it can no longer become a key; for an empty
pair of brackets the two tokens are enough.  So a fault in a text also hides the
last tokens before it, and a colon that comes too late for a pair of brackets
finds them gone.
-/

namespace PixelRem.Yaml

/-! ## The state -/

/-- A place that may be a key.  One that starts a line of a block map has to be.  A token
is held back as long as it may become a key. -/
structure PendingKey where
  token : Nat
  required : Bool
  held : Bool
  mark : Mark

/-- The pending key inside of a bracket, and the token of the last one there was.  Before
the first it is the bracket itself. -/
structure KeySlot where
  token : Nat
  pending : Option PendingKey

/-- How far behind the start of a key its colon may be. -/
def keyReach : Nat := 1024

/-- Whether a key may still be completed at a mark. -/
def PendingKey.isFresh (key : PendingKey) (mark : Mark) : Bool :=
  key.mark.line == mark.line && mark.index ≤ key.mark.index + keyReach

/-- The most blocks or brackets that may be open. -/
def maxDepth : Nat := 10000

/-- A text while it is cut.  `margin` is one more than the column of the innermost block,
or zero; `margins` are those of the blocks around it. -/
structure Lexer where
  cursor : Cursor
  tokens : Array Token
  margin : Nat
  margins : List Nat
  brackets : Nat
  /-- The pending keys, the innermost bracket first. -/
  keys : List KeySlot
  keyAllowed : Bool
  finished : Bool

namespace Lexer

/-- The lexer before a text. -/
def start (text : List Char) : Lexer where
  cursor := Cursor.start text
  tokens := #[]
  margin := 0
  margins := []
  brackets := 0
  keys := [⟨0, none⟩]
  keyAllowed := true
  finished := false

/-- Whether a bracket is open. -/
def flow (lx : Lexer) : Bool :=
  0 < lx.brackets

/-- The pending key of the innermost bracket. -/
def key? (lx : Lexer) : Option PendingKey :=
  lx.keys.head?.bind (·.pending)

/-- Sets the pending key of the innermost bracket. -/
def setKey (lx : Lexer) (key : PendingKey) : Lexer :=
  { lx with keys := ⟨key.token, some key⟩ :: lx.keys.drop 1 }

/-- Takes the pending key of the innermost bracket away. -/
def clearKey (lx : Lexer) : Lexer :=
  match lx.keys with
  | slot :: keys => { lx with keys := { slot with pending := none } :: keys }
  | [] => lx

/-- Gives up the pending key, unless it has to be one. -/
def dropKey? (lx : Lexer) : Option Lexer :=
  match lx.key? with
  | some key => if key.required then none else some lx.clearKey
  | none => some lx

/-- Makes the next token a pending key, where one may stand. -/
def saveKey? (lx : Lexer) : Option Lexer :=
  if lx.keyAllowed then do
    let lx ← lx.dropKey?
    return lx.setKey {
      token := lx.tokens.size
      required := !lx.flow && lx.margin == lx.cursor.column + 1
      held := true
      mark := lx.cursor.mark }
  else some lx

/-- Allows a key at the next token, or not. -/
def allowKey (lx : Lexer) (allowed : Bool) : Lexer :=
  { lx with keyAllowed := allowed }

/-- Adds a token and goes on behind it. -/
def push (lx : Lexer) (token : Token) (stop : Cursor) : Lexer :=
  { lx with tokens := lx.tokens.push token, cursor := stop }

/-- Adds a token of some characters. -/
def pushMark (lx : Lexer) (token : Token) (width : Nat) : Lexer :=
  lx.push token (lx.cursor.advance width)

/-! ## Blocks -/

/-- Closes the blocks whose margins are beyond one. -/
def unrollFrom (limit : Nat) :
    (margin : Nat) → (margins : List Nat) → Array Token → Nat × List Nat × Array Token
  | margin, [], tokens => (margin, [], tokens)
  | margin, outer :: margins, tokens =>
    if limit < margin then unrollFrom limit outer margins (tokens.push .blockEnd)
    else (margin, outer :: margins, tokens)

/-- Closes the blocks whose margins are beyond one.  Brackets keep blocks open. -/
def unroll (lx : Lexer) (limit : Nat) : Lexer :=
  if lx.flow then lx
  else
    let (margin, margins, tokens) := unrollFrom limit lx.margin lx.margins lx.tokens
    { lx with margin := margin, margins := margins, tokens := tokens }

/-- Opens a block in a column that is beyond the innermost one, with a token at a
place. -/
def roll? (lx : Lexer) (column place : Nat) (token : Token) : Option Lexer :=
  if lx.flow || column < lx.margin then some lx
  else if maxDepth ≤ lx.margins.length then none
  else
    some { lx with
      margin := column + 1
      margins := lx.margin :: lx.margins
      tokens := lx.tokens.take place ++ #[token] ++ lx.tokens.drop place }

/-! ## Space between tokens -/

/-- Passes over blanks, comments and line ends.  A tab does not indent a line that may
start with a key; outside of brackets a key may follow on a line end. -/
def skipFrom : (fuel : Nat) → Lexer → Lexer
  | 0, lx => lx
  | fuel + 1, lx =>
    let tabs := lx.flow || !lx.keyAllowed
    let cur := lx.cursor.skipWhile fun c => c == ' ' || (tabs && c == '\t')
    let cur := if cur.startsWith '#' then cur.skipComments else cur
    if cur.atBreak then
      skipFrom fuel { lx with cursor := cur.next, keyAllowed := lx.keyAllowed || !lx.flow }
    else { lx with cursor := cur }

/-- Passes over the space before a token. -/
def skip (lx : Lexer) : Lexer :=
  skipFrom (lx.cursor.length + 1) lx

/-- Passes over a comment behind the last token, on its line. -/
def skipTrailing (lx : Lexer) : Lexer :=
  if 0 < lx.cursor.lineEnds || lx.tokens.back? == some .blockItem then lx
  else { lx with cursor := lx.cursor.skipLineComment }

/-! ## Single tokens -/

/-- The number of tokens that are given out so far. -/
def seen (lx : Lexer) : Nat :=
  lx.keys.foldl
    (fun limit slot =>
      match slot.pending with
      | some key =>
        if key.held && (key.required || key.isFresh lx.cursor.mark) then min limit key.token
        else limit
      | none => limit)
    (lx.tokens.size - 2)

/-- The end of the text. -/
def fetchEnd (lx : Lexer) : Option Lexer := do
  let lx ← (lx.unroll 0).dropKey?
  return { lx.allowKey false with tokens := lx.tokens.push .textEnd, finished := true }

/-- A directive. -/
def fetchDirective (lx : Lexer) : Option Lexer := do
  let lx ← (lx.unroll 0).dropKey?
  let ⟨token, stop⟩ ← directive? lx.cursor
  return (lx.allowKey false).push token stop

/-- A marker between documents. -/
def fetchMarker (lx : Lexer) : Option Lexer := do
  let lx ← (lx.unroll 0).dropKey?
  let token := if lx.cursor.startsWith '-' then Token.documentStart else .documentEnd
  return (lx.allowKey false).pushMark token 3

/-- An opening bracket. -/
def fetchOpen (lx : Lexer) (token : Token) : Option Lexer := do
  let lx ← lx.saveKey?
  if maxDepth ≤ lx.brackets then none
  else
    let lx := { lx with
      keys := ⟨lx.tokens.size, none⟩ :: lx.keys
      brackets := lx.brackets + 1 }
    return (lx.allowKey true).pushMark token 1

/-- The pending keys outside of the innermost bracket.  If no key was looked for inside of
it, the bracket itself is no longer held back. -/
def outerKeys : List KeySlot → List KeySlot
  | inner :: outer :: keys =>
    { outer with
      pending := outer.pending.map fun key =>
        { key with held := key.held && key.token != inner.token } } :: keys
  | keys => keys

/-- A closing bracket. -/
def fetchClose (lx : Lexer) (token : Token) : Option Lexer := do
  let lx ← lx.dropKey?
  let lx :=
    if lx.flow then { lx with keys := outerKeys lx.keys, brackets := lx.brackets - 1 } else lx
  return (lx.allowKey false).pushMark token 1

/-- A comma in a flow collection. -/
def fetchComma (lx : Lexer) : Option Lexer := do
  let lx ← lx.dropKey?
  return (lx.allowKey true).pushMark .flowComma 1

/-- Opens the block that a mark at the cursor belongs to. -/
def rollHere? (lx : Lexer) (token : Token) : Option Lexer :=
  if lx.flow then some lx
  else if lx.keyAllowed then lx.roll? lx.cursor.column lx.tokens.size token
  else none

/-- The dash before an item. -/
def fetchItem (lx : Lexer) : Option Lexer := do
  let lx ← (← lx.rollHere? .blockListStart).dropKey?
  return (lx.allowKey true).pushMark .blockItem 1

/-- The question mark before a key. -/
def fetchKey (lx : Lexer) : Option Lexer := do
  let lx ← (← lx.rollHere? .blockMapStart).dropKey?
  return (lx.allowKey !lx.flow).pushMark .key 1

/-- A colon behind no pending key. -/
def fetchBareValue (lx : Lexer) : Option Lexer := do
  let lx ← lx.rollHere? .blockMapStart
  return (lx.allowKey !lx.flow).pushMark .value 1

/-- The colon before a value.  It makes the pending key one; the mark of a key that is
already given out comes too late and stands before the colon. -/
def fetchValue (lx : Lexer) : Option Lexer :=
  match lx.key? with
  | none => lx.fetchBareValue
  | some key =>
    if key.isFresh lx.cursor.mark then do
      let late := key.token < lx.seen
      let place := if late then lx.tokens.size else key.token
      let marked := { lx with
        tokens := lx.tokens.take place ++ #[Token.key] ++ lx.tokens.drop place }
      let lx ← marked.roll? key.mark.column (if late then place + 1 else place) .blockMapStart
      return (lx.clearKey.allowKey false).pushMark .value 1
    else if key.required then none
    else lx.clearKey.fetchBareValue

/-- A token that may be a key. -/
def fetchKeyed (lx : Lexer) (lexeme : Cursor → Option (Lexeme Token)) : Option Lexer := do
  let lx ← lx.saveKey?
  let ⟨token, stop⟩ ← lexeme lx.cursor
  return (lx.allowKey false).push token stop

/-- A scalar without quotes. -/
def fetchPlain (lx : Lexer) : Option Lexer := do
  let lx ← lx.saveKey?
  let ⟨(text, crossed), stop⟩ ← plainScalar? lx.flow lx.margin lx.cursor
  return (lx.allowKey crossed).push (.scalar true (String.ofList text)) stop

/-- A block scalar. -/
def fetchBlock (lx : Lexer) : Option Lexer := do
  let lx ← lx.dropKey?
  let ⟨text, stop⟩ ← blockScalar? lx.margin lx.cursor
  return (lx.allowKey true).push (.scalar false (String.ofList text)) stop

/-- A name with the token that it makes. -/
def named (token : String → Token) (cur : Cursor) : Option (Lexeme Token) := do
  let ⟨name, stop⟩ ← name? cur
  return ⟨token name, stop⟩

/-- A scalar in quotes. -/
def quoted (cur : Cursor) : Option (Lexeme Token) := do
  let ⟨text, stop⟩ ← quotedScalar? cur
  return ⟨.scalar false (String.ofList text), stop⟩

/-- The token that starts with a character, with `s` behind it. -/
def fetchAt (lx : Lexer) (c : Char) (s : List Char) : Option Lexer :=
  if c == '[' then lx.fetchOpen .flowListStart
  else if c == '\x7b' then lx.fetchOpen .flowMapStart
  else if c == ']' then lx.fetchClose .flowListEnd
  else if c == '\x7d' then lx.fetchClose .flowMapEnd
  else if c == ',' then lx.fetchComma
  else if c == '-' && startsBlank s then lx.fetchItem
  else if c == '?' && (lx.flow || startsBlank s) then lx.fetchKey
  else if c == ':' && (lx.flow || startsBlank s) then lx.fetchValue
  else if c == '*' then lx.fetchKeyed (named .reference)
  else if c == '&' then lx.fetchKeyed (named .anchor)
  else if c == '!' then lx.fetchKeyed tag?
  else if (c == '|' || c == '>') && !lx.flow then lx.fetchBlock
  else if c == '\'' || c == '"' then lx.fetchKeyed quoted
  else if isBlank c || c ∈ ['|', '>', '%', '@', '\x60'] then none
  else lx.fetchPlain

/-- Reads on to the next token; `none` at a fault. -/
def fetch (lx : Lexer) : Option Lexer :=
  let lx := lx.skip
  let lx := lx.unroll (lx.cursor.column + 1)
  match lx.cursor.rest with
  | [] => lx.fetchEnd
  | c :: s =>
    if lx.cursor.column == 0 && c == '%' then lx.fetchDirective
    else if lx.cursor.atMarker then lx.fetchMarker
    else (lx.fetchAt c s).map skipTrailing

end Lexer

/-! ## Whole texts -/

/-- The tokens of a text up to its end, or up to a fault. -/
def tokensFrom : (fuel : Nat) → Lexer → List Token
  | 0, lx => (lx.tokens.take lx.seen).toList
  | fuel + 1, lx =>
    if lx.finished then lx.tokens.toList
    else
      match lx.fetch with
      | some lx => tokensFrom fuel lx
      | none => (lx.tokens.take lx.seen).toList

/-- The tokens of a text that are given out.  They end with `textEnd` unless the text has
a fault. -/
def tokens (text : List Char) : List Token :=
  tokensFrom (text.length + 2) (Lexer.start text)

end PixelRem.Yaml
