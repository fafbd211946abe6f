import SourceOutline.Yaml.Node

/-!
Values of nodes. A collection is made empty first and filled later, after all collections that were made
before it, so that it can hold itself. Hence of several faults the one in the least deep collection counts.
-/
namespace SourceOutline.Yaml

/-- The value of a node: a value of its own, or a collection of the values of nodes. -/
inductive Made where
  | value (d : Datum)
  | list (items : List NodeId)
  | pairs (entries : List (NodeId × NodeId))
  | set (keys : List Datum)
  | map (entries : List (Datum × NodeId))

inductive CollectionKind where
  | list
  | pairs
  | set
  | map
deriving DecidableEq, Repr

def CollectionKind.ofTag? (tag : String) : Option CollectionKind :=
  [(standardTag "seq", list), (standardTag "omap", pairs), (standardTag "pairs", pairs),
    (standardTag "set", set), (standardTag "map", map)].lookup tag

def CollectionKind.empty : CollectionKind → Made
  | list => .list []
  | pairs => .pairs []
  | set => .set []
  | map => .map []

/-- The nodes, the values made so far, each at the number of its node, and the collections that are still
to be filled, in order. -/
structure Building where
  nodes : Graph
  made : Array (Option Made)
  unfilled : Array NodeId := #[]

abbrev Build := StateT Building (Except Fault)

namespace Build

def nodeAt (id : NodeId) : Build Node := do
  return (← get).nodes.getD id default

def entriesOf (id : NodeId) : Build (List (NodeId × NodeId)) := do
  match (← nodeAt id).body with
  | .mapping entries => return entries
  | _ => throw .malformed

def setEntries (id : NodeId) (entries : List (NodeId × NodeId)) : Build Unit :=
  modify fun s => { s with nodes := s.nodes.modify id fun n => { n with body := .mapping entries } }

def setTag (id : NodeId) (tag : String) : Build Unit :=
  modify fun s => { s with nodes := s.nodes.modify id fun n => { n with tag := tag } }

def setMade (id : NodeId) (m : Made) : Build Unit :=
  modify fun s => { s with made := s.made.set! id (some m) }

end Build

open Build

/-! Scalars -/

/-- The text of a node that is to be a scalar. A mapping stands for the value of its key `=`. `fuel`
bounds how deep such mappings nest. -/
def scalarText : Nat → NodeId → Build String
  | 0, _ => throw .malformed
  | fuel + 1, id => do
    match (← nodeAt id).body with
    | .scalar text => return text
    | .sequence _ => throw .malformed
    | .mapping entries =>
      let nodes := (← get).nodes
      match entries.find? fun (key, _) => (nodes.getD key default).tag == ScalarKind.default.tag with
      | some (_, value) => scalarText fuel value
      | none => throw .malformed

/-- The values of the letters of base sixty-four. -/
def sextet? (c : Char) : Option Nat :=
  if 'A' ≤ c && c ≤ 'Z' then some (c.toNat - 'A'.toNat)
  else if 'a' ≤ c && c ≤ 'z' then some (c.toNat - 'a'.toNat + 26)
  else if c.isDigit then some (c.toNat - '0'.toNat + 52)
  else if c == '+' then some 62
  else if c == '/' then some 63
  else none

/-- The octets of text in base sixty-four; `group` holds the letters of the group that is open, the last
one first. Other characters are skipped. -/
def octetsFrom (group : List Nat) (padding : Nat) : List Char → Option (List UInt8)
  | [] => if group.isEmpty then some [] else none
  | c :: rest =>
    match sextet? c with
    | some n =>
      let group := n :: group
      match group with
      | [d, c, b, a] =>
        let value := ((a * 64 + b) * 64 + c) * 64 + d
        (octetsFrom [] 0 rest).map fun more =>
          UInt8.ofNat (value / 65536) :: UInt8.ofNat (value / 256) :: UInt8.ofNat value :: more
      | _ => octetsFrom group 0 rest
    | none =>
      if c == '=' then
        match group with
        | [b, a] =>
          if padding = 0 then octetsFrom group 1 rest
          else some [UInt8.ofNat ((a * 64 + b) / 16)]
        | [c, b, a] =>
          let value := (a * 64 + b) * 64 + c
          some [UInt8.ofNat (value / 1024), UInt8.ofNat (value / 4)]
        | _ => octetsFrom group padding rest
      else octetsFrom group padding rest

def octetsOf (text : String) : Except Fault (List UInt8) :=
  if text.toList.all (·.toNat < 0x80) then
    match octetsFrom [] 0 text.toList with
    | some octets => .ok octets
    | none => .error .malformed
  else .error .malformed

def scalarValue (tag text : String) : Except Fault Datum :=
  if tag == ScalarKind.text.tag then .ok (.text text)
  else if tag == ScalarKind.null.tag then .ok .null
  else if tag == ScalarKind.bool.tag then (boolValue text).map .bool
  else if tag == ScalarKind.int.tag then (intValue text).map .int
  else if tag == ScalarKind.float.tag then (floatValue text).map .float
  else if tag == ScalarKind.timestamp.tag then stampValue text
  else if tag == standardTag "binary" then (octetsOf text).map .bytes
  else .error .malformed

def scalarTags : List String :=
  [ScalarKind.text, .null, .bool, .int, .float, .timestamp].map (·.tag) ++ [standardTag "binary"]

/-- The value of a node under the tag of a scalar. A day or moment is read from a scalar only. -/
def scalarOf (id : NodeId) (n : Node) : Build Datum := do
  let text ← scalarText ((← get).nodes.size + 1) id
  match n.body with
  | .scalar _ => scalarValue n.tag text
  | _ => if n.tag == ScalarKind.timestamp.tag then throw .stampOfMapping else scalarValue n.tag text

/-! Collections -/

/-- Makes the value of a node; a collection is filled later. -/
def make (id : NodeId) : Build Made := do
  match (← get).made.getD id none with
  | some m => return m
  | none =>
    let n ← nodeAt id
    match CollectionKind.ofTag? n.tag with
    | some kind =>
      setMade id kind.empty
      modify fun s => { s with unfilled := s.unfilled.push id }
      return kind.empty
    | none =>
      if scalarTags.contains n.tag then
        let m := Made.value (← scalarOf id n)
        setMade id m
        return m
      else throw .malformed

/-- The entries that a merge key brings: those of a mapping, or of mappings with the last one first.
`flatten` gives a mapping the entries that it merges itself. -/
def mergedEntries (flatten : NodeId → Build Unit) (id : NodeId) : Build (List (NodeId × NodeId)) := do
  match (← nodeAt id).body with
  | .scalar _ => throw .malformed
  | .mapping _ =>
    flatten id
    entriesOf id
  | .sequence items =>
    let parts ← items.mapM fun item => do
      match (← nodeAt item).body with
      | .mapping _ =>
        flatten item
        entriesOf item
      | _ => throw .malformed
    return parts.reverse.flatten

/-- Goes through the entries of a mapping: merge keys are taken out, and what they bring is collected in
`merged`; a key `=` becomes a text. A mapping that merges itself has been gone through by then. -/
def flattenEntries (flatten : NodeId → Build Unit) (id : NodeId) :
    List (NodeId × NodeId) → List (NodeId × NodeId) → List (NodeId × NodeId) → Build Unit
  | kept, merged, [] => if merged.isEmpty then pure () else setEntries id (merged ++ kept)
  | kept, merged, (key, value) :: rest => do
    let tag := (← nodeAt key).tag
    if tag == ScalarKind.merge.tag then
      setEntries id (kept ++ rest)
      let more ← mergedEntries flatten value
      let now ← entriesOf id
      if now = kept ++ rest then flattenEntries flatten id kept (merged ++ more) rest
      else flattenEntries flatten id now (merged ++ more) []
    else
      if tag == ScalarKind.default.tag then setTag key ScalarKind.text.tag
      flattenEntries flatten id (kept ++ [(key, value)]) merged rest

/-- Gives a mapping the entries that its merge keys bring, before its own. `fuel` bounds how deep merges
nest; each takes out an entry first. -/
def flatten : Nat → NodeId → Build Unit
  | 0, _ => throw .malformed
  | fuel + 1, id => do flattenEntries (flatten fuel) id [] [] (← entriesOf id)

def entryCount (nodes : Graph) : Nat :=
  nodes.foldl (fun sum n => match n.body with
    | .mapping entries => sum + entries.length
    | _ => sum) 0

/-- A key that has been made. Numbers that are none differ from each other and each equals itself, and
all that are written by that name are one. -/
structure MadeKey where
  node : NodeId
  value : Datum
  named : Bool

/-- Whether a value is the number that is none. -/
def isNaN : Datum → Bool
  | .float x => x.isNaN
  | _ => false

def MadeKey.same (a b : MadeKey) : Bool :=
  a.value.sameKey b.value ||
    (isNaN a.value && isNaN b.value && ((a.named && b.named) || a.node == b.node))

/-- Entries with one more: a key that is there keeps its place and takes the new value. -/
def putEntry (key : MadeKey) (value : NodeId) : List (MadeKey × NodeId) → List (MadeKey × NodeId)
  | [] => [(key, value)]
  | e :: rest => if e.1.same key then (e.1, value) :: rest else e :: putEntry key value rest

/-- Makes a key; collections are none. -/
def makeKey (id : NodeId) : Build MadeKey := do
  match ← make id with
  | .value d =>
    let named := match (← nodeAt id).body with
      | .scalar text => isNamedNaN text
      | _ => false
    return ⟨id, d, named⟩
  | _ => throw .malformed

/-- Makes the keys and values of a mapping with its merge keys taken out. -/
def makeEntries (id : NodeId) : Build (List (Datum × NodeId)) := do
  flatten (entryCount (← get).nodes + 1) id
  let entries ← (← entriesOf id).foldlM (fun entries (key, value) => do
    let key ← makeKey key
    let _ ← make value
    return putEntry key value entries) []
  return entries.map fun (key, value) => (key.value, value)

/-- Makes the keys and values of mappings that have one entry each. -/
def makePairs (items : List NodeId) : Build (List (NodeId × NodeId)) :=
  items.mapM fun item => do
    match ← entriesOf item with
    | [(key, value)] =>
      let _ ← make key
      let _ ← make value
      return (key, value)
    | _ => throw .malformed

/-- Fills a collection. Its node must be of the kind that its tag asks for. -/
def fillCollection (id : NodeId) : Build Unit := do
  let n ← nodeAt id
  match CollectionKind.ofTag? n.tag, n.body with
  | some .list, .sequence items =>
    for item in items do
      let _ ← make item
    setMade id (.list items)
  | some .pairs, .sequence items => setMade id (.pairs (← makePairs items))
  | some .set, .mapping _ => setMade id (.set (Datum.members ((← makeEntries id).map (·.1))))
  | some .map, .mapping _ => setMade id (.map (← makeEntries id))
  | _, _ => throw .malformed

/-- Fills all collections in the order they were made, from `next` on. Every collection is filled once, so
the number of nodes is fuel enough. -/
def fillAll : Nat → Nat → Build Unit
  | 0, _ => return ()
  | fuel + 1, next => do
    match (← get).unfilled[next]? with
    | none => return ()
    | some id =>
      fillCollection id
      fillAll fuel (next + 1)

def Document.build (d : Document) : Except Fault (Array (Option Made)) := do
  let start : Building := { nodes := d.nodes, made := Array.replicate d.nodes.size none }
  let (_, s) ← (do let _ ← make d.root; fillAll (d.nodes.size + 1) 0 : Build Unit).run start
  return s.made

end SourceOutline.Yaml
