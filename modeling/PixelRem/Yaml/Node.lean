import PixelRem.Yaml.Token.Lexer

/-!
# YAML nodes

The tree of a document, read from its tokens.  A marked node can be referred to
later: the reference holds the node.  One from inside of the marked node itself
has no end and holds none.

The functions that read nodes call each other; every call takes a token or is
one of a bounded number between two tokens, which bounds their fuel.
-/

namespace PixelRem.Yaml

/-- A part of a document. -/
inductive Node where
  /-- A scalar with its tag, if one is written, and whether it has no quotes. -/
  | scalar (tag : Option String) (plain : Bool) (text : String)
  | list (items : List Node)
  | map (entries : List (Node × Node))
  /-- A reference to a marked node. -/
  | reference (name : String) (target : Node)
  /-- A reference to a node around it. -/
  | endless (name : String)
  deriving Inhabited, Repr

/-- What stands where nothing is written. -/
def Node.missing : Node :=
  .scalar none true ""

/-! ## The state -/

/-- What is left of the tokens, the marked nodes with the latest first, and what handles
stand for.  A node that is not yet complete has no value. -/
structure Reader where
  tokens : List Token
  anchors : List (String × Nat × Option Node)
  handles : List (String × String)

/-- A node and what is left behind it. -/
abbrev Parsed := Option (Node × Reader)

namespace Reader

/-- Goes past a token. -/
def next (r : Reader) : Reader :=
  { r with tokens := r.tokens.drop 1 }

/-- Marks a node that is to come. -/
def mark (r : Reader) (name : Option String) : Reader :=
  match name with
  | some name => { r with anchors := (name, r.anchors.length, none) :: r.anchors }
  | none => r

/-- Completes the node that was marked after the first `count` ones. -/
def complete (r : Reader) (name : Option String) (count : Nat) (node : Node) : Reader :=
  match name with
  | some _ =>
    { r with anchors := r.anchors.map fun (name, id, old) =>
        if id = count then (name, id, some node) else (name, id, old) }
  | none => r

/-- The node that a name refers to. -/
def lookup (r : Reader) (name : String) : Option Node :=
  (r.anchors.lookup name).map fun (_, node) => (node.map (Node.reference name)).getD (.endless name)

/-! ## Properties -/

/-- The handles that need no directive. -/
def defaultHandles : List (String × String) :=
  [("!", "!"), ("!!", "tag:yaml.org,2002:")]

/-- The tag that a handle and the text behind it stand for; a plain exclamation mark is
no tag. -/
def expand (r : Reader) (handle suffix : String) : Option (Option String) :=
  if handle.isEmpty then some (if suffix == "!" then none else some suffix)
  else do
    let expansion ← r.handles.lookup handle
    let tag := expansion ++ suffix
    return if tag == "!" then none else some tag

/-- What stands in front of a node. -/
structure Properties where
  anchor : Option String
  tag : Option String
  /-- Whether there is any. -/
  any : Bool

/-- The mark and the tag in front of a node, in either order. -/
def properties (r : Reader) : Option (Properties × Reader) :=
  match r.tokens with
  | .anchor name :: .tag handle suffix :: tokens => do
    let tag ← r.expand handle suffix
    return (⟨some name, tag, true⟩, { r with tokens := tokens })
  | .tag handle suffix :: .anchor name :: tokens => do
    let tag ← r.expand handle suffix
    return (⟨some name, tag, true⟩, { r with tokens := tokens })
  | .anchor name :: tokens => some (⟨some name, none, true⟩, { r with tokens := tokens })
  | .tag handle suffix :: tokens => do
    let tag ← r.expand handle suffix
    return (⟨none, tag, true⟩, { r with tokens := tokens })
  | _ => some (⟨none, none, false⟩, r)

end Reader

/-! ## Nodes -/

mutual

/-- A node.  In a block it may be a block collection; at a key also a list whose dashes
stand in the column of the key. -/
def node (block atKey : Bool) : (fuel : Nat) → Reader → Parsed
  | 0, _ => none
  | fuel + 1, r =>
    match r.tokens with
    | .reference name :: _ => do return (← r.lookup name, r.next)
    | _ => do
      let (properties, r) ← r.properties
      let count := r.anchors.length
      let inner := r.mark properties.anchor
      let (node, r) ← content block atKey properties fuel inner
      return (node, r.complete properties.anchor count node)
termination_by structural fuel => fuel

/-- A node without what stands in front of it. -/
def content (block atKey : Bool) (properties : Reader.Properties) : (fuel : Nat) → Reader → Parsed
  | 0, _ => none
  | fuel + 1, r =>
    match r.tokens with
    | .scalar plain text :: _ => some (.scalar properties.tag plain text, r.next)
    | .flowListStart :: _ => flowItems true fuel [] r.next
    | .flowMapStart :: _ => flowEntries true fuel [] r.next
    | .blockItem :: _ => if atKey then keyItems fuel [] r else emptyNode properties r
    | .blockListStart :: _ => if block then blockItems fuel [] r.next else emptyNode properties r
    | .blockMapStart :: _ => if block then blockEntries fuel [] r.next else emptyNode properties r
    | [] => none
    | _ => emptyNode properties r
termination_by structural fuel => fuel

/-- A node of which only what stands in front of it is written. -/
def emptyNode (properties : Reader.Properties) (r : Reader) : Parsed :=
  if properties.any then some (.scalar properties.tag true "", r) else none

/-- A node that may be missing before some tokens. -/
def nodeOr (missing : Token → Bool) (block atKey : Bool) : (fuel : Nat) → Reader → Parsed
  | 0, _ => none
  | fuel + 1, r =>
    match r.tokens with
    | [] => none
    | token :: _ => if missing token then some (.missing, r) else node block atKey fuel r
termination_by structural fuel => fuel

/-- The items of a block list. -/
def blockItems : (fuel : Nat) → (done : List Node) → Reader → Parsed
  | 0, _, _ => none
  | fuel + 1, done, r =>
    match r.tokens with
    | .blockItem :: _ => do
      let (item, r) ←
        nodeOr (fun t => t == .blockItem || t == .blockEnd) true false fuel r.next
      blockItems fuel (item :: done) r
    | .blockEnd :: _ => some (.list done.reverse, r.next)
    | _ => none
termination_by structural fuel => fuel

/-- The items of a block list in the column of a key. -/
def keyItems : (fuel : Nat) → (done : List Node) → Reader → Parsed
  | 0, _, _ => none
  | fuel + 1, done, r =>
    match r.tokens with
    | .blockItem :: _ => do
      let (item, r) ←
        nodeOr (fun t => t == .blockItem || t == .key || t == .value || t == .blockEnd)
          true false fuel r.next
      keyItems fuel (item :: done) r
    | [] => none
    | _ => some (.list done.reverse, r)
termination_by structural fuel => fuel

/-- The entries of a block map. -/
def blockEntries : (fuel : Nat) → (done : List (Node × Node)) → Reader → Parsed
  | 0, _, _ => none
  | fuel + 1, done, r =>
    match r.tokens with
    | .key :: _ => do
      let (key, r) ← nodeOr isKeyEnd true true fuel r.next
      let (value, r) ← blockValue fuel r
      blockEntries fuel ((key, value) :: done) r
    | .blockEnd :: _ => some (.map done.reverse, r.next)
    | _ => none
termination_by structural fuel => fuel

/-- The value behind a key of a block map. -/
def blockValue : (fuel : Nat) → Reader → Parsed
  | 0, _ => none
  | fuel + 1, r =>
    match r.tokens with
    | .value :: _ => nodeOr isKeyEnd true true fuel r.next
    | [] => none
    | _ => some (.missing, r)
termination_by structural fuel => fuel

/-- The tokens before which a key or a value of a block map is missing. -/
def isKeyEnd (t : Token) : Bool :=
  t == .key || t == .value || t == .blockEnd

/-- The items of a flow list. -/
def flowItems (first : Bool) : (fuel : Nat) → (done : List Node) → Reader → Parsed
  | 0, _, _ => none
  | fuel + 1, done, r =>
    match r.tokens with
    | .flowListEnd :: _ => some (.list done.reverse, r.next)
    | [] => none
    | token :: _ =>
      if first then flowItem fuel done r
      else if token == .flowComma then flowItem fuel done r.next
      else none
termination_by structural fuel => fuel

/-- An item of a flow list, and those behind it. -/
def flowItem : (fuel : Nat) → (done : List Node) → Reader → Parsed
  | 0, _, _ => none
  | fuel + 1, done, r =>
    match r.tokens with
    | .flowListEnd :: _ => some (.list done.reverse, r.next)
    | .key :: _ => do
      let (item, r) ← flowPair fuel r.next
      flowItems false fuel (item :: done) r
    | _ => do
      let (item, r) ← node false false fuel r
      flowItems false fuel (item :: done) r
termination_by structural fuel => fuel

/-- A map of one entry in a flow list, behind the mark of its key. -/
def flowPair : (fuel : Nat) → Reader → Parsed
  | 0, _ => none
  | fuel + 1, r =>
    match r.tokens with
    | [] => none
    | token :: _ => do
      let (key, r) ←
        if token == .value || token == .flowComma || token == .flowListEnd then
          some (Node.missing, r.next)
        else node false false fuel r
      let (value, r) ←
        match r.tokens with
        | .value :: _ =>
          nodeOr (fun t => t == .flowComma || t == .flowListEnd) false false fuel r.next
        | [] => none
        | _ => some (Node.missing, r)
      return (.map [(key, value)], r)
termination_by structural fuel => fuel

/-- The entries of a flow map. -/
def flowEntries (first : Bool) : (fuel : Nat) → (done : List (Node × Node)) → Reader → Parsed
  | 0, _, _ => none
  | fuel + 1, done, r =>
    match r.tokens with
    | .flowMapEnd :: _ => some (.map done.reverse, r.next)
    | [] => none
    | token :: _ =>
      if first then flowEntry fuel done r
      else if token == .flowComma then flowEntry fuel done r.next
      else none
termination_by structural fuel => fuel

/-- An entry of a flow map, and those behind it. -/
def flowEntry : (fuel : Nat) → (done : List (Node × Node)) → Reader → Parsed
  | 0, _, _ => none
  | fuel + 1, done, r =>
    match r.tokens with
    | .flowMapEnd :: _ => some (.map done.reverse, r.next)
    | .key :: _ => do
      let (key, r) ←
        nodeOr (fun t => t == .value || t == .flowComma || t == .flowMapEnd) false false fuel r.next
      let (value, r) ← flowValue fuel r
      flowEntries false fuel ((key, value) :: done) r
    | _ => do
      let (key, r) ← node false false fuel r
      flowEntries false fuel ((key, .missing) :: done) r
termination_by structural fuel => fuel

/-- The value behind a key of a flow map. -/
def flowValue : (fuel : Nat) → Reader → Parsed
  | 0, _ => none
  | fuel + 1, r =>
    match r.tokens with
    | .value :: _ =>
      nodeOr (fun t => t == .flowComma || t == .flowMapEnd) false false fuel r.next
    | [] => none
    | _ => some (.missing, r)
termination_by structural fuel => fuel

end

/-! ## Documents -/

/-- The directives before a document: one version at most, and each handle once. -/
def directives (version : Bool) (handles : List (String × String)) :
    List Token → Option (List (String × String) × List Token)
  | .version major minor :: tokens =>
    if version || major != 1 || minor != 1 then none else directives true handles tokens
  | .handle name expansion :: tokens =>
    if (handles.lookup name).isSome then none
    else directives version ((name, expansion) :: handles) tokens
  | tokens => some (handles, tokens)

/-- The root of the first document in the tokens of a text, if there is a document. -/
def firstDocument : List Token → Option (Option Node)
  | .textEnd :: _ => some none
  | tokens => do
    let (handles, behind) ← directives false [] tokens
    let isPlain := behind.length == tokens.length && behind.head? != some .documentStart
    let body := if isPlain then behind else behind.drop 1
    if !isPlain && behind.head? != some .documentStart then none
    else
      let r : Reader := ⟨body, [], handles ++ Reader.defaultHandles⟩
      let isEmpty := fun t : Token =>
        !isPlain && (t == .documentStart || t == .documentEnd || t == .textEnd
          || t matches .version .. || t matches .handle ..)
      let (root, r) ← nodeOr isEmpty true false (8 * tokens.length + 16) r
      if r.tokens.isEmpty then none else return some root

/-! ## Texts -/

/-- Line ends in their one form. -/
def normalizeLines : List Char → List Char
  | '\r' :: '\n' :: s => '\n' :: normalizeLines s
  | '\r' :: s => '\n' :: normalizeLines s
  | '\u0085' :: s => '\n' :: normalizeLines s
  | c :: s => c :: normalizeLines s
  | [] => []

/-- Whether a character may stand in a document. -/
def isAllowed (c : Char) : Bool :=
  let n := c.toNat
  n == 0x09 || n == 0x0A || n == 0x0D || (0x20 ≤ n && n ≤ 0x7E) || n == 0x85
    || (0xA0 ≤ n && n ≤ 0xFFFD) || 0x10000 ≤ n

/-- The root of the first document of a text, if it has one; `none` for a malformed
text. -/
def parse (text : String) : Option (Option Node) :=
  let chars := text.toList
  let chars := if chars.head? = some '\ufeff' then chars.drop 1 else chars
  if chars.all isAllowed then firstDocument (tokens (normalizeLines chars)) else none

end PixelRem.Yaml
