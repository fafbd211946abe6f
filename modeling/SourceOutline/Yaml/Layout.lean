import SourceOutline.Yaml.NameText

/-!
Tokens from text. Indentation opens and closes blocks. A scalar, a tag or a bracket may turn out to be a
key when a colon follows on its line, so the place of each possible key is kept until then. Text is read
only as far as the next token asks for.
-/
namespace SourceOutline.Yaml

/-- A token that may be a key: its place among the tokens and in the text. A key is required where the
indentation leaves no other reading. -/
structure PossibleKey where
  position : Nat
  required : Bool
  index : Nat
  line : Nat
  column : Nat

/-- How far a text has been read. `flow` counts open brackets, and `keys` holds one possible key for
each count. -/
structure Layout where
  cursor : Cursor
  /-- The number of characters. -/
  size : Nat
  /-- Why nothing can be read after them, unless the text ends there. -/
  stop : Option Fault := none
  flow : Nat := 0
  tokens : Array Token := #[]
  /-- The number of tokens that are used up. -/
  taken : Nat := 0
  /-- Whether there are no more tokens to come. -/
  done : Bool := false
  indent : Int := -1
  indents : List Int := []
  keyAllowed : Bool := true
  keys : List (Nat × PossibleKey) := []

namespace Layout

abbrev Step := Layout → Except Trouble Layout

def push (t : Token) (s : Layout) : Layout :=
  { s with tokens := s.tokens.push t }

def moveTo (c : Cursor) (s : Layout) : Layout :=
  { s with cursor := c }

/-- Drops possible keys that can be none any more: they ended on an earlier line, or too far back. -/
def dropStaleKeys : Step := fun s =>
  let isStale := fun (k : PossibleKey) =>
    k.line != s.cursor.line || 1024 < s.cursor.index - k.index
  if s.keys.any fun (_, k) => isStale k && k.required then s.cursor.fail .malformed
  else .ok { s with keys := s.keys.filter fun (_, k) => !isStale k }

/-- Drops the possible key of the innermost bracket. -/
def dropKey : Step := fun s =>
  match s.keys.lookup s.flow with
  | none => .ok s
  | some k =>
    if k.required then s.cursor.fail .malformed
    else .ok { s with keys := s.keys.filter (·.1 != s.flow) }

/-- Keeps the next token as a possible key. -/
def saveKey : Step := fun s =>
  if s.keyAllowed then do
    let s ← s.dropKey
    let key : PossibleKey :=
      { position := s.tokens.size
        required := s.flow == 0 && s.indent == s.cursor.column
        index := s.cursor.index, line := s.cursor.line, column := s.cursor.column }
    return { s with keys := (s.flow, key) :: s.keys }
  else return s

/-- Closes the blocks that are indented deeper than a column. -/
def unwindTo (column : Int) : List Int → Layout → Layout
  | [], s => s
  | outer :: rest, s =>
    if s.flow == 0 && column < s.indent then
      unwindTo column rest { s.push .blockEnd with indent := outer, indents := rest }
    else s

def unwind (column : Int) (s : Layout) : Layout :=
  unwindTo column s.indents s

/-- Opens a block at a column unless one is open there; the block's token goes to the given place. -/
def openBlock (column : Nat) (t : Token) (position : Nat) (s : Layout) : Layout :=
  if s.indent < column then
    { s with
      indents := s.indent :: s.indents, indent := column
      tokens := s.tokens.insertIdxIfInBounds position t }
  else s

/-- Skips blanks, comments and line breaks; outside brackets a new line may start with a key. -/
def skipBlanks : Nat → Layout → Layout
  | 0, s => s
  | fuel + 1, s =>
    let c := s.cursor.skip (· == ' ')
    let c := if c.next == '#' then c.skip (!endsLine ·) else c
    if isBreak c.next then
      skipBlanks fuel { s with cursor := c.step, keyAllowed := s.keyAllowed || s.flow == 0 }
    else s.moveTo c

/-- What stands between documents closes every block. -/
def leaveDocument : Step := fun s => do
  let s ← (s.unwind (-1)).dropKey
  return { s with keyAllowed := false }

def separator (t : Token) : Step := fun s => do
  let s ← s.leaveDocument
  return (s.push t).moveTo (s.cursor.advance 3)

def directive : Step := fun s => do
  let s ← s.leaveDocument
  let (d, c) ← directiveFrom s.cursor.step
  return (s.push (.directive d)).moveTo c

def openFlow (t : Token) : Step := fun s => do
  let s ← s.saveKey
  return ({ s with flow := s.flow + 1, keyAllowed := true }.push t).moveTo s.cursor.step

def closeFlow (t : Token) : Step := fun s => do
  if s.flow == 0 then s.cursor.fail .malformed
  else
    let s ← s.dropKey
    return ({ s with flow := s.flow - 1, keyAllowed := false }.push t).moveTo s.cursor.step

def flowEntry : Step := fun s => do
  let s ← { s with keyAllowed := true }.dropKey
  return (s.push .flowEntry).moveTo s.cursor.step

/-- The mark of an entry or a key, which may open a block. -/
def blockMark (opening mark : Token) (keyAfter : Bool) : Step := fun s => do
  if s.flow == 0 && !s.keyAllowed then s.cursor.fail .malformed
  else
    let s := if s.flow == 0 then s.openBlock s.cursor.column opening s.tokens.size else s
    let s ← { s with keyAllowed := keyAfter }.dropKey
    return (s.push mark).moveTo s.cursor.step

/-- A colon: what was a possible key becomes one, and may open a block where it stands. -/
def valueMark : Step := fun s =>
  match s.keys.lookup s.flow with
  | some k =>
    let s := { s with
      keys := s.keys.filter (·.1 != s.flow)
      tokens := s.tokens.insertIdxIfInBounds k.position .key }
    let s := if s.flow == 0 then s.openBlock k.column .blockMapping k.position else s
    .ok (({ s with keyAllowed := false }.push .value).moveTo s.cursor.step)
  | none => blockMark .blockMapping .value (s.flow == 0) s

/-- A token that may be a key, read by `read`. -/
def inlineToken (read : Cursor → Except Trouble (Token × Cursor)) : Step := fun s => do
  let s ← s.saveKey
  let (t, c) ← read s.cursor
  return ({ s with keyAllowed := false }.push t).moveTo c

/-- A scalar without quotes. After a line break it may be followed by a key. -/
def plainScalar : Step := fun s => do
  let s ← s.saveKey
  let c := s.cursor
  let (text, newLine, c) := plainFrom (s.flow != 0) (s.indent + 1) (c.rest.length + 1) [] false c
  return ({ s with keyAllowed := newLine }.push (.scalar (String.ofList text) true)).moveTo c

def blockScalar (fold : Bool) : Step := fun s => do
  let s ← { s with keyAllowed := true }.dropKey
  let (text, c) ← Yaml.blockScalar fold s.indent s.cursor.step
  return (s.push (.scalar (String.ofList text) false)).moveTo c

def quotedScalar (double : Bool) : Step :=
  inlineToken fun c => do
    let (text, c) ← quotedFrom double (c.rest.length + 1) c.step
    return (.scalar (String.ofList text) false, c)

/-- Whether a scalar without quotes can start here. -/
def startsPlain (s : Layout) : Bool :=
  let c := s.cursor.next
  let special := endsMark c || "-?:,[]\x7b\x7d#&*!|>'\"%@".contains c || c.toNat == 96
  !special || (!endsMark (s.cursor.peek 1) && (c == '-' || (s.flow == 0 && (c == '?' || c == ':'))))

/-- Reads the token that starts here; blanks are behind, and some text is left. -/
def token : Step := fun s =>
  let c := s.cursor
  let lone := endsMark (c.peek 1)
  let inFlow := s.flow != 0
  match c.next with
  | '%' => if c.column == 0 then s.directive else s.cursor.fail .malformed
  | '[' => s.openFlow .flowSequence
  | '\x7b' => s.openFlow .flowMapping
  | ']' => s.closeFlow .flowSequenceEnd
  | '\x7d' => s.closeFlow .flowMappingEnd
  | ',' => s.flowEntry
  | '*' => s.inlineToken fun c => (anchorName c.step).map fun (name, c) => (.reference name, c)
  | '&' => s.inlineToken fun c => (anchorName c.step).map fun (name, c) => (.anchor name, c)
  | '!' => s.inlineToken fun c => (tagFrom c).map fun (t, c) => (.tag t, c)
  | '\'' => s.quotedScalar false
  | '"' => s.quotedScalar true
  | ch =>
    if c.column == 0 && c.atSeparator then
      s.separator (if ch == '-' then .documentStart else .documentEnd)
    else if ch == '-' && lone then s.blockMark .blockSequence .blockEntry true
    else if ch == '?' && (inFlow || lone) then s.blockMark .blockMapping .key (!inFlow)
    else if ch == ':' && (inFlow || lone) then s.valueMark
    else if ch == '|' && !inFlow then s.blockScalar false
    else if ch == '>' && !inFlow then s.blockScalar true
    else if s.startsPlain then s.plainScalar
    else s.cursor.fail .malformed

/-- Reads on up to the next token; at the end of the text there is one last token. -/
def readOn : Step := fun s => do
  let s := s.skipBlanks (s.size + 1)
  let s ← s.dropStaleKeys
  let s := s.unwind s.cursor.column
  if s.cursor.rest.isEmpty then
    let s ← s.leaveDocument
    return { s.push .textEnd with keys := [], done := true }
  else s.token

/-- What comes of a step of reading when reading may be stopped. A character is looked at together with
the one after it, so the last one cannot be passed. -/
def orStopped (stop : Option Fault) (size : Nat) (result : Except Trouble Layout) : Except Fault Layout :=
  let index := match result with
    | .error t => t.index
    | .ok s => s.cursor.index
  match stop, result with
  | some f, _ => if size ≤ index + 1 then .error f else result.mapError (·.fault)
  | none, _ => result.mapError (·.fault)

/-- Whether the next token is there and is no possible key any more. -/
def isReady (s : Layout) : Bool :=
  s.done || (s.taken < s.tokens.size && s.keys.all fun (_, k) => k.position != s.taken)

/-- Reads on until the next token can be used. Every step goes forward, so the length of the text is fuel
enough. -/
def fill : Nat → Layout → Except Fault Layout
  | 0, _ => .error .malformed
  | fuel + 1, s => do
    let s ← if s.done || s.tokens.size ≤ s.taken then pure s else s.dropStaleKeys.mapError (·.fault)
    if s.isReady then return s
    else
      let stop := s.stop
      let size := s.size
      fill fuel (← orStopped stop size s.readOn)

end Layout

end SourceOutline.Yaml
