import SourceOutline.Grammar.Token

/-!
Parsers from tokens to nodes. A comment belongs to the innermost node that is open when the next token
is read, so each node takes in the comments before its parts, and a part starts at its first token.
-/
namespace SourceOutline.Grammar

open SourceOutline.Syntax

abbrev Parser := List Token → Option (Node × List Token)

abbrev Children := List Token → Option (List Node × List Token)

/-- The rules of the grammar that refer to each other. -/
inductive Rule where
  | type
  | expression
  | unary
  | literalValue
  | fieldList
deriving DecidableEq, Repr

def around (kind : String) (children : List Node) : Node :=
  let first := children.headD (leaf kind true default)
  let last := children.getLastD first
  { kind := kind, named := true, missing := false, startByte := first.startByte
    endByte := last.endByte, startRow := first.startRow, endRow := last.endRow, field := none
    children := children }

def inField (field : String) (n : Node) : Node :=
  { n with field := some field }

def peek : List Token → TokenKind
  | [] => .textEnd
  | t :: _ => t.kind

def atSymbol (s : String) (ts : List Token) : Bool :=
  peek ts == .symbol s

def atKeyword (s : String) (ts : List Token) : Bool :=
  peek ts == .keyword s

/-- The comments before the next token, and the tokens without them. -/
def comments : List Token → List Node × List Token
  | [] => ([], [])
  | t :: ts => (t.comments, { t with comments := [] } :: ts)

def symbol (s : String) : Children
  | t :: ts => if t.kind == .symbol s then some (t.comments ++ [leaf s false t.span], ts) else none
  | [] => none

def symbolIn (field s : String) : Children
  | t :: ts =>
    if t.kind == .symbol s then some (t.comments ++ [inField field (leaf s false t.span)], ts) else none
  | [] => none

def keyword (s : String) : Children
  | t :: ts => if t.kind == .keyword s then some (t.comments ++ [leaf s false t.span], ts) else none
  | [] => none

/-- The end of a statement, which leaves no node but the comments before it. -/
def terminator : Children
  | t :: ts =>
    match t.kind with
    | .lineEnd => some (t.comments, ts)
    | .symbol ";" => some (t.comments ++ [leaf ";" false t.span], ts)
    | _ => none
  | [] => none

def name (kind : String) : Parser
  | t :: ts =>
    match t.kind with
    | .name _ => some (leaf kind true t.span, ts)
    | _ => none
  | [] => none

def literal : Parser
  | t :: ts =>
    match t.kind with
    | .literal kind => some (leaf kind true t.span, ts)
    | _ => none
  | [] => none

def stringLiteral : Parser
  | t :: ts =>
    match t.kind with
    | .literal "interpreted_string_literal" => some (leaf "interpreted_string_literal" true t.span, ts)
    | .literal "raw_string_literal" => some (leaf "raw_string_literal" true t.span, ts)
    | _ => none
  | [] => none

/-- A part of the open node, with the comments before it. -/
def part (p : Parser) : Children := fun ts => do
  let (before, ts) := comments ts
  let (n, rest) ← p ts
  return (before ++ [n], rest)

def partIn (field : String) (p : Parser) : Children := fun ts => do
  let (before, ts) := comments ts
  let (n, rest) ← p ts
  return (before ++ [inField field n], rest)

def nothing : Children := fun ts => some ([], ts)

def inOrder : List Children → Children
  | [] => nothing
  | c :: cs => fun ts => do
    let (first, ts) ← c ts
    let (more, ts) ← inOrder cs ts
    return (first ++ more, ts)

def firstOf : List Children → Children
  | [] => fun _ => none
  | c :: cs => fun ts => (c ts).or (firstOf cs ts)

/-- Children that may be missing. -/
def optionally (c : Children) : Children :=
  firstOf [c, nothing]

def whenSymbol (s : String) (c : Children) : Children := fun ts =>
  if atSymbol s ts then c ts else nothing ts

def node (kind : String) (c : Children) : Parser := fun ts => do
  let (children, rest) ← c ts
  return (around kind children, rest)

/-- Repeats a reading as long as it succeeds; every repetition shortens the input, so its length is
fuel enough. -/
def repeatWith : Nat → Children → Children
  | 0, _ => nothing
  | fuel + 1, c => fun ts =>
    match c ts with
    | none => some ([], ts)
    | some (first, rest) =>
      if rest.length < ts.length then do
        let (more, rest) ← repeatWith fuel c rest
        return (first ++ more, rest)
      else some ([], ts)

/-- Repeats a reading as often as it succeeds. -/
def many (c : Children) : Children := fun ts =>
  repeatWith ts.length c ts

/-- Readings up to the closing symbol, each ended by a line end or a semicolon; the last one need not
be. `fuel` bounds their number. -/
def linesWith (closing : String) : Nat → Children → Children
  | 0, _ => nothing
  | fuel + 1, c => fun ts =>
    if atSymbol closing ts then some ([], ts)
    else do
      let (first, rest) ← c ts
      match terminator rest with
      | none => return (first, rest)
      | some (nodes, rest) =>
        let (more, rest) ← linesWith closing fuel c rest
        return (first ++ nodes ++ more, rest)

/-- Readings up to the closing symbol, one a line. -/
def linesUntil (closing : String) (c : Children) : Children := fun ts =>
  linesWith closing ts.length c ts

def commaSeparated (c : Children) : Children :=
  inOrder [c, many (inOrder [symbol ",", c])]

/-- Every token up to the symbol that closes `depth` open brackets, as leaves. -/
def balanced (depth : Nat) : Children
  | [] => none
  | t :: ts =>
    match t.kind with
    | .textEnd => none
    | .stray => none
    | .symbol s =>
      let here := t.comments ++ [leaf s false t.span]
      if ["(", "[", "\x7b"].contains s then do
        let (more, rest) ← balanced (depth + 1) ts
        return (here ++ more, rest)
      else if [")", "]", "\x7d"].contains s then
        if depth ≤ 1 then some (here, ts)
        else do
          let (more, rest) ← balanced (depth - 1) ts
          return (here ++ more, rest)
      else do
        let (more, rest) ← balanced depth ts
        return (here ++ more, rest)
    | .lineEnd => do
      let (more, rest) ← balanced depth ts
      return (t.comments ++ more, rest)
    | .name text => do
      let (more, rest) ← balanced depth ts
      return (t.comments ++ leaf text false t.span :: more, rest)
    | .keyword text => do
      let (more, rest) ← balanced depth ts
      return (t.comments ++ leaf text false t.span :: more, rest)
    | .literal kind => do
      let (more, rest) ← balanced depth ts
      return (t.comments ++ leaf kind true t.span :: more, rest)

/-- A bracketed group that starts with the given symbol, kept as a run of tokens. -/
def group (kind opening : String) : Parser :=
  node kind (inOrder [symbol opening, balanced 1])

end SourceOutline.Grammar
