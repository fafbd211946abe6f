import SourceOutline.Yaml.Layout
import SourceOutline.Yaml.Scalar

/-!
Nodes from tokens: scalars, sequences and mappings, each with its tag. A reference stands for the node it
names, and may stand inside of it, so nodes are numbered and name each other by number.
-/
namespace SourceOutline.Yaml

def standardTag (name : String) : String :=
  "tag:yaml.org,2002:" ++ name

def ScalarKind.tag : ScalarKind → String
  | .null => standardTag "null"
  | .bool => standardTag "bool"
  | .int => standardTag "int"
  | .float => standardTag "float"
  | .timestamp => standardTag "timestamp"
  | .text => standardTag "str"
  | .merge => standardTag "merge"
  | .default => standardTag "value"
  | .mark => standardTag "yaml"

abbrev NodeId := Nat

inductive Body where
  | scalar (text : String)
  | sequence (items : List NodeId)
  | mapping (entries : List (NodeId × NodeId))
deriving DecidableEq, Repr

instance : Inhabited Body := ⟨.scalar ""⟩

structure Node where
  tag : String
  body : Body
deriving DecidableEq, Repr, Inhabited

abbrev Graph := Array Node

/-- What is left to read, the tag handles of the document, its anchors and its nodes. -/
structure Reading where
  layout : Layout
  handles : List (String × String) := []
  anchors : List (String × NodeId) := []
  nodes : Graph := #[]

abbrev Read := StateT Reading (Except Fault)

namespace Read

def peek : Read Token := fun ⟨layout, handles, anchors, nodes⟩ => do
  let layout ← layout.fill (layout.size + 2)
  match layout.tokens[layout.taken]? with
  | some t => return (t, ⟨layout, handles, anchors, nodes⟩)
  | none => throw .malformed

def take : Read Token := do
  let t ← peek
  modify fun s => { s with layout := { s.layout with taken := s.layout.taken + 1 } }
  return t

def takeIf (t : Token) : Read Bool := do
  if (← peek) == t then
    let _ ← take
    return true
  else return false

def expect (t : Token) : Read Unit := do
  if ← takeIf t then return () else throw .malformed

def atAny (ts : List Token) : Read Bool := do
  return ts.contains (← peek)

/-- A new node, known by its anchor from now on. -/
def addNode (anchor : Option String) (n : Node) : Read NodeId := fun ⟨layout, handles, anchors, nodes⟩ =>
  let id := nodes.size
  let anchors := match anchor with
    | none => anchors
    | some name => (name, id) :: anchors
  return (id, ⟨layout, handles, anchors, nodes.push n⟩)

def setBody (id : NodeId) (body : Body) : Read Unit :=
  modify fun s => { s with nodes := s.nodes.modify id fun n => { n with body := body } }

end Read

open Read

structure Properties where
  anchor : Option String := none
  tag : Option String := none

def anchor? : Read (Option String) := do
  match ← peek with
  | .anchor name => let _ ← take; return some name
  | _ => return none

def tag? : Read (Option TagText) := do
  match ← peek with
  | .tag t => let _ ← take; return some t
  | _ => return none

def fullTag (t : TagText) : Read String := do
  match t.handle with
  | none => return t.suffix
  | some handle =>
    match (← get).handles.lookup handle with
    | some start => return start ++ t.suffix
    | none => throw .malformed

def properties : Read Properties := do
  let (anchor, tag) ← do
    match ← anchor? with
    | some name => pure (some name, ← tag?)
    | none =>
      match ← tag? with
      | some tag => pure (← anchor?, some tag)
      | none => pure (none, none)
  return { anchor := anchor, tag := ← tag.mapM fullTag }

/-- A tag that says something: a lone exclamation mark does not. -/
def properTag (tag : Option String) : Option String :=
  if tag == some "!" then none else tag

/-- The tag of a scalar, found from its text where nothing else says what it is. -/
def scalarTag (tag : Option String) (plain : Bool) (text : String) : String :=
  match properTag tag with
  | some tag => tag
  | none => if plain || tag.isSome then (plainKind text).tag else ScalarKind.text.tag

/-- An anchor is given once in a document. -/
def checkAnchor (anchor : Option String) : Read Unit := do
  if let some name := anchor then
    if ((← get).anchors.lookup name).isSome then throw .malformed

def scalarNode (p : Properties) (plain : Bool) (text : String) : Read NodeId := do
  checkAnchor p.anchor
  addNode p.anchor { tag := scalarTag p.tag plain text, body := .scalar text }

/-- A scalar that is not written out. -/
def emptyNode : Read NodeId :=
  scalarNode {} true ""

/-- A sequence. Its anchor can be used inside of it. -/
def sequenceNode (p : Properties) (items : Read (List NodeId)) : Read NodeId := do
  checkAnchor p.anchor
  let id ← addNode p.anchor ⟨(properTag p.tag).getD (standardTag "seq"), .sequence []⟩
  setBody id (.sequence (← items))
  return id

/-- A mapping. Its anchor can be used inside of it. -/
def mappingNode (p : Properties) (entries : Read (List (NodeId × NodeId))) : Read NodeId := do
  checkAnchor p.anchor
  let id ← addNode p.anchor ⟨(properTag p.tag).getD (standardTag "map"), .mapping []⟩
  setBody id (.mapping (← entries))
  return id

inductive Position where
  | block
  | blockOrEntries
  | flow
deriving DecidableEq, Repr

mutual

/-- A node; `fuel` bounds the tokens taken. -/
def node : Nat → Position → Read NodeId
  | 0, _ => throw .malformed
  | fuel + 1, position => do
    match ← peek with
    | .reference name =>
      let _ ← take
      match (← get).anchors.lookup name with
      | some n => return n
      | none => throw .malformed
    | _ => do
      let p ← properties
      match ← peek, position with
      | .blockEntry, .blockOrEntries => sequenceNode p (looseEntries fuel)
      | .scalar text plain, _ =>
        let _ ← take
        scalarNode p plain text
      | .flowSequence, _ => sequenceNode p (do let _ ← take; flowItems fuel true)
      | .flowMapping, _ => mappingNode p (do let _ ← take; flowPairs fuel true)
      | .blockSequence, .block => sequenceNode p (do let _ ← take; blockEntries fuel)
      | .blockSequence, .blockOrEntries => sequenceNode p (do let _ ← take; blockEntries fuel)
      | .blockMapping, .block => mappingNode p (do let _ ← take; blockPairs fuel)
      | .blockMapping, .blockOrEntries => mappingNode p (do let _ ← take; blockPairs fuel)
      | _, _ =>
        if p.anchor.isSome || p.tag.isSome then scalarNode p p.tag.isNone "" else throw .malformed

/-- A node, or nothing where one of some tokens follows. -/
def nodeUnless : Nat → Position → List Token → Read NodeId
  | 0, _, _ => throw .malformed
  | fuel + 1, position, stops => do
    if ← atAny stops then emptyNode else node fuel position

def blockEntries : Nat → Read (List NodeId)
  | 0 => throw .malformed
  | fuel + 1 => do
    if ← takeIf .blockEntry then
      let n ← nodeUnless fuel .block [.blockEntry, .blockEnd]
      return n :: (← blockEntries fuel)
    else
      expect .blockEnd
      return []

/-- Entries at the indentation of the key before them. -/
def looseEntries : Nat → Read (List NodeId)
  | 0 => throw .malformed
  | fuel + 1 => do
    if ← takeIf .blockEntry then
      let n ← nodeUnless fuel .block [.blockEntry, .key, .value, .blockEnd]
      return n :: (← looseEntries fuel)
    else return []

def blockPairs : Nat → Read (List (NodeId × NodeId))
  | 0 => throw .malformed
  | fuel + 1 => do
    let stops := [Token.key, .value, .blockEnd]
    if ← takeIf .key then
      let key ← nodeUnless fuel .blockOrEntries stops
      let value ← if ← takeIf .value then nodeUnless fuel .blockOrEntries stops else emptyNode
      return (key, value) :: (← blockPairs fuel)
    else
      expect .blockEnd
      return []

/-- A key and its value in brackets, up to a comma or the closing bracket. -/
def flowPair : Nat → Token → Read (NodeId × NodeId)
  | 0, _ => throw .malformed
  | fuel + 1, closing => do
    let key ← nodeUnless fuel .flow [.value, .flowEntry, closing]
    let value ← if ← takeIf .value then nodeUnless fuel .flow [.flowEntry, closing] else emptyNode
    return (key, value)

/-- The items of a sequence in brackets; a key makes an item a mapping of one entry. -/
def flowItems : Nat → Bool → Read (List NodeId)
  | 0, _ => throw .malformed
  | fuel + 1, isFirst => do
    if ← takeIf .flowSequenceEnd then return []
    else
      if !isFirst then expect .flowEntry
      if ← takeIf .key then
        let n ← mappingNode {} (do return [← flowPair fuel .flowSequenceEnd])
        return n :: (← flowItems fuel false)
      else if ← takeIf .flowSequenceEnd then return []
      else
        let n ← node fuel .flow
        return n :: (← flowItems fuel false)

def flowPairs : Nat → Bool → Read (List (NodeId × NodeId))
  | 0, _ => throw .malformed
  | fuel + 1, isFirst => do
    if ← takeIf .flowMappingEnd then return []
    else
      if !isFirst then expect .flowEntry
      if ← takeIf .key then
        let pair ← flowPair fuel .flowMappingEnd
        return pair :: (← flowPairs fuel false)
      else if ← takeIf .flowMappingEnd then return []
      else
        let key ← node fuel .flow
        let value ← emptyNode
        return (key, value) :: (← flowPairs fuel false)

end

def commonHandles : List (String × String) :=
  [("!", "!"), ("!!", standardTag "")]

/-- The directives before a document: at most one version, which is the first, and each handle once. -/
def directives : Nat → Bool → List (String × String) → Read (List (String × String))
  | 0, _, _ => throw .malformed
  | fuel + 1, versioned, handles => do
    match ← peek with
    | .directive d =>
      let _ ← take
      match d with
      | .version major =>
        if versioned || major != 1 then throw .malformed else directives fuel true handles
      | .tag handle start =>
        if (handles.lookup handle).isSome then throw .malformed
        else directives fuel versioned ((handle, start) :: handles)
      | .other => directives fuel versioned handles
    | _ => return handles ++ commonHandles

def documentEnds : Nat → Read Unit
  | 0 => return ()
  | fuel + 1 => do
    if ← takeIf .documentEnd then documentEnds fuel else return ()

/-- The one document of a text, if there is any. -/
def document (fuel : Nat) : Read (Option NodeId) := do
  match ← peek with
  | .textEnd => return none
  | .directive _ | .documentStart => do
    let handles ← directives fuel false []
    modify fun s => { s with handles := handles }
    expect .documentStart
    match ← peek with
    | .directive _ | .documentStart | .documentEnd | .textEnd => return some (← emptyNode)
    | _ => return some (← node fuel .block)
  | _ => do
    modify fun s => { s with handles := commonHandles }
    return some (← node fuel .block)

/-- The document of a text that has no other one. -/
def singleDocument (fuel : Nat) : Read (Option NodeId) := do
  let n ← document fuel
  documentEnds fuel
  if ← takeIf .textEnd then return n
  else
    let _ ← directives fuel false []
    throw .malformed

structure Document where
  nodes : Graph
  root : NodeId

/-- The document that a text writes, if it writes any; `stop` says why nothing can be read after it.
Every token takes a character or ends a block that one has opened, so the length of the text bounds their
number. -/
def documentOf (text : List Char) (stop : Option Fault) : Except Fault (Option Document) := do
  let start : Cursor := { rest := text }
  let start := if start.next == '\ufeff' then start.step else start
  let size := text.length
  let (root, s) ← (singleDocument (8 * size + 16)).run { layout := { cursor := start, size, stop } }
  return root.map (Document.mk s.nodes)

end SourceOutline.Yaml
