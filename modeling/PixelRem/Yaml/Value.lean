import PixelRem.Yaml.Node
import PixelRem.Yaml.Scalar

/-!
# Configuration maps from YAML

The map that a YAML document holds.  A key may stand only once in a map.

Below the top, a map with a key that is not a text is a table, whose keys are
values; at the top and in other maps a key is taken by its text, and one that is
nothing is passed over.  Behind the key `<<` stand maps that are merged: they
fill in keys that are not there yet.

References make a small text stand for a large value, so the share of values
that come from them is bounded.
-/

namespace PixelRem.Yaml

/-- Why a text holds no configuration. -/
inductive Error where
  | malformed
  | duplicateKey (key : String)
  /-- A key is not a scalar. -/
  | compoundKey
  /-- The document is not a map. -/
  | notMap
  /-- A scalar does not fit its tag. -/
  | wrongTag (text : String)
  /-- What is to be merged is not a map. -/
  | notMergeable
  /-- A marked node refers to itself. -/
  | endlessReference (name : String)
  | tooManyReferences
  deriving DecidableEq, Repr

/-- The wording of an error. -/
def Error.message : Error → String
  | .malformed => "malformed document"
  | .duplicateKey key => "mapping key \"" ++ key ++ "\" already defined"
  | .compoundKey => "mapping key is not a scalar"
  | .notMap => "document is not a mapping"
  | .wrongTag text => "cannot decode \"" ++ text ++ "\" as its tag"
  | .notMergeable => "map merge requires map or sequence of maps as the value"
  | .endlessReference name => "anchor \"" ++ name ++ "\" value contains itself"
  | .tooManyReferences => "document contains excessive aliasing"

/-! ## Counting values -/

/-- How many nodes were read, how many of them inside of references, and how many
references are open. -/
structure Tally where
  nodes : Nat
  referred : Nat
  depth : Nat

/-- Whether too many nodes come from references.  In a document of up to 400000 nodes 99
percent may; from there the share falls to 10 percent at 4000000 nodes. -/
def Tally.isExcessive (t : Tally) : Bool :=
  100 < t.referred && 1000 < t.nodes &&
    (if t.nodes ≤ 400000 then decide (99 * t.nodes < 100 * t.referred)
    else if 4000000 ≤ t.nodes then decide (t.nodes < 10 * t.referred)
    else decide
      (t.nodes * (99 * 3600000 - 89 * (t.nodes - 400000)) < t.referred * (100 * 3600000)))

/-- Readings that count nodes and may fail. -/
abbrev Reading := StateT Tally (Except Error)

/-- Counts a node. -/
def count : Reading Unit := do
  let t ← get
  let t := { t with
    nodes := t.nodes + 1
    referred := if 0 < t.depth then t.referred + 1 else t.referred }
  if t.isExcessive then throw .tooManyReferences else set t

/-- Opens a reference. -/
def enter : Reading Unit :=
  modify fun t => { t with depth := t.depth + 1 }

/-- Closes a reference. -/
def leave : Reading Unit :=
  modify fun t => { t with depth := t.depth - 1 }

/-! ## Keys -/

/-- The entries of a map whose keys are values. -/
abbrev Entries := List (ConfigValue × ConfigValue)

/-- Sets the value of a key. -/
def putEntry (key value : ConfigValue) : Entries → Entries
  | [] => [(key, value)]
  | (k, v) :: entries =>
    if k.sameKey key then (key, value) :: entries else (k, v) :: putEntry key value entries

/-- What tells keys apart: whether one is a reference, and its text. -/
def keyText? : Node → Option (Bool × String)
  | .scalar _ _ text => some (false, text)
  | .reference name _ | .endless name => some (true, name)
  | .list _ | .map _ => none

/-- Checks that every key stands once. -/
def checkKeys : List (Node × Node) → (seen : List (Bool × String)) → Except Error Unit
  | [], _ => .ok ()
  | (key, _) :: entries, seen =>
    match keyText? key with
    | some text =>
      if text ∈ seen then .error (.duplicateKey text.2) else checkKeys entries (text :: seen)
    | none => .error .compoundKey

/-- The scalar at a node or behind a reference. -/
def scalar? : Node → Option (Option String × Bool × String)
  | .scalar tag plain text => some (tag, plain, text)
  | .reference _ target => scalar? target
  | _ => none

/-- Whether a key is a text. -/
def isTextKey (key : Node) : Bool :=
  match scalar? key with
  | some (some tag, _, _) => shortTag tag == "!!str" || shortTag tag == mergeTag
  | some (none, plain, text) => !plain || valueTag (plainValue true text) == "!!str"
  | none => false

/-- Whether maps to merge stand behind a key. -/
def isMergeKey : Node → Bool
  | .scalar tag plain text =>
    text == mergeText && (tag.elim plain fun tag => shortTag tag == mergeTag)
  | _ => false

/-- The value of a scalar. -/
def scalarValue (tag : Option String) (plain : Bool) (text : String) : Reading ConfigValue :=
  match scalarValue? tag plain text with
  | some value => pure value
  | none => throw (.wrongTag text)

/-- The value of a key. -/
def keyValue : Node → Reading ConfigValue
  | .scalar tag plain text => do
    count
    scalarValue tag plain text
  | .reference _ target => do
    count
    enter
    let value ← keyValue target
    leave
    return value
  | .endless name => throw (.endlessReference name)
  | .list _ | .map _ => throw .compoundKey

/-- The key of an entry: a value in a table, else its text, or `none` for nothing. -/
def entryKey (texts : Bool) (key : Node) : Reading (Option ConfigValue) := do
  let value ← keyValue key
  if texts then
    match value, scalar? key with
    | .null, _ => return none
    | .text s, _ => return some (.text s)
    | _, some (_, _, text) => return some (.text text)
    | _, none => throw .compoundKey
  else return some value

/-- The values of all keys of a map. -/
def keyValues : List (Node × Node) → Reading (List ConfigValue)
  | [] => return []
  | (key, _) :: entries => do
    let value ← keyValue key
    return value :: (← keyValues entries)

/-! ## Values -/

/-- Entries that are read, and the keys that a merge leaves alone, if one is under
way. -/
structure Filling where
  entries : Entries
  taken : Option (List ConfigValue)

/-- Whether a key is left alone. -/
def Filling.isTaken (f : Filling) (key : ConfigValue) : Bool :=
  (f.taken.getD []).any (·.sameKey key)

/-- Adds an entry. -/
def Filling.put (f : Filling) (key value : ConfigValue) : Filling :=
  ⟨putEntry key value f.entries, f.taken.map (key :: ·)⟩

/-- The map or the table with given entries. -/
def mapOf (texts : Bool) (entries : Entries) : ConfigValue :=
  if texts then .map (entries.map fun (key, value) => (key.render, value)) else .table entries

/-- Adds the entries of a map, then those of the maps that are merged into it, by the two
functions that add them. -/
def fill (entries : List (Node × Node)) (own merged : Filling → Reading Filling) (f : Filling) :
    Reading Filling := do
  checkKeys entries []
  let f ← own f
  if entries.any fun (key, _) => isMergeKey key then do
    let taken ← match f.taken with
      | some keys => pure keys
      | none => keyValues entries
    let g ← merged ⟨f.entries, some taken⟩
    return ⟨g.entries, f.taken.bind fun _ => g.taken⟩
  else return f

mutual

/-- The value of a node. -/
def Node.value : Node → Reading ConfigValue
  | .scalar tag plain text => do
    count
    scalarValue tag plain text
  | .list items => do
    count
    return .list (← itemValues items)
  | .map entries => do
    count
    let texts := entries.all fun (key, _) => isTextKey key
    let f ← fill entries (fillOwn texts entries) (fillMerged texts entries) ⟨[], none⟩
    return mapOf texts f.entries
  | .reference _ target => do
    count
    enter
    let value ← target.value
    leave
    return value
  | .endless name => throw (.endlessReference name)

/-- The values of items. -/
def itemValues : List Node → Reading (List ConfigValue)
  | [] => return []
  | item :: items => do
    let value ← item.value
    return value :: (← itemValues items)

/-- Adds the entries that stand in a map itself. -/
def fillOwn (texts : Bool) : List (Node × Node) → Filling → Reading Filling
  | [], f => return f
  | (key, node) :: entries, f => do
    if isMergeKey key then fillOwn texts entries f
    else
      match ← entryKey texts key with
      | none => fillOwn texts entries f
      | some key =>
        if f.isTaken key then fillOwn texts entries f
        else do
          let value ← node.value
          fillOwn texts entries (f.put key value)

/-- Adds the entries of maps that are merged into a map. -/
def fillMerged (texts : Bool) : List (Node × Node) → Filling → Reading Filling
  | [], f => return f
  | (key, node) :: entries, f => do
    if isMergeKey key then fillFrom texts node f else fillMerged texts entries f

/-- Adds the entries of a map or of a list of maps. -/
def fillFrom (texts : Bool) : Node → Filling → Reading Filling
  | .list items, f => fillAll texts items f
  | .map entries, f => do
    count
    fill entries (fillOwn texts entries) (fillMerged texts entries) f
  | .reference _ target, f => fillReferred texts target f
  | .endless name, _ => throw (.endlessReference name)
  | .scalar .., _ => throw .notMergeable

/-- Adds the entries of the map behind a reference. -/
def fillReferred (texts : Bool) : Node → Filling → Reading Filling
  | .map entries, f => do
    count
    enter
    count
    let f ← fill entries (fillOwn texts entries) (fillMerged texts entries) f
    leave
    return f
  | _, _ => throw .notMergeable

/-- Adds the entries of maps in a list.  The first with a key sets it. -/
def fillAll (texts : Bool) : List Node → Filling → Reading Filling
  | [], f => return f
  | .map entries :: items, f => do
    count
    let f ← fill entries (fillOwn texts entries) (fillMerged texts entries) f
    fillAll texts items f
  | .reference _ target :: items, f => do
    let f ← fillReferred texts target f
    fillAll texts items f
  | _ :: _, _ => throw .notMergeable

end

/-! ## Documents -/

mutual

/-- A value in which tables are maps by the texts of their keys.  Tables in lists of lists
stay. -/
def settle : ConfigValue → ConfigValue
  | .map fields => .map (settleFields fields)
  | .table entries =>
    .map ((settleEntries entries).foldl (fun m (key, value) => ConfigMap.put m key value) [])
  | .list items => .list (settleItems items)
  | value => value

/-- The values of fields, settled. -/
def settleFields : List (String × ConfigValue) → List (String × ConfigValue)
  | [] => []
  | (key, value) :: fields => (key, settle value) :: settleFields fields

/-- The fields of a table, settled. -/
def settleEntries : List (ConfigValue × ConfigValue) → List (String × ConfigValue)
  | [] => []
  | (key, value) :: entries => (key.render, settle value) :: settleEntries entries

/-- Items of a list below a key, settled. -/
def settleItems : List ConfigValue → List ConfigValue
  | [] => []
  | .list items :: rest => .list items :: settleItems rest
  | item :: rest => settle item :: settleItems rest

end

/-- The fields of the map at the top of a document. -/
def topFields (root : Node) : Reading ConfigMap := do
  count
  count
  match root with
  | .map entries =>
    let f ← fill entries (fillOwn true entries) (fillMerged true entries) ⟨[], none⟩
    return settleFields (f.entries.map fun (key, value) => (key.render, value))
  | .scalar tag plain text =>
    match ← scalarValue tag plain text with
    | .null => return []
    | _ => throw .notMap
  | _ => throw .notMap

/-- The configuration in a text.  An empty document has none. -/
def read (content : Text) : Except Error ConfigMap :=
  match content.toString?.bind parse with
  | none => .error .malformed
  | some none => .ok []
  | some (some root) => (topFields root).run' ⟨0, 0, 0⟩

end PixelRem.Yaml
