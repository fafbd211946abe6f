import SourceOutline.Grammar.Reading
import SourceOutline.Grammar.Types

/-! Expressions, as they stand in initial values and array lengths. -/
namespace SourceOutline.Grammar

open SourceOutline.Syntax

def precedence : String → Nat
  | "*" | "/" | "%" | "<<" | ">>" | "&" | "&^" => 5
  | "+" | "-" | "|" | "^" => 4
  | "==" | "!=" | "<" | "<=" | ">" | ">=" => 3
  | "&&" => 2
  | "||" => 1
  | _ => 0

def unaryOperators : List String :=
  ["+", "-", "!", "^", "*", "&", "<-"]

/-- Names that are values of their own kind. -/
def valueNames : List String :=
  ["nil", "true", "false", "iota"]

def operandName : Parser
  | t :: ts =>
    match t.kind with
    | .name text =>
      some (leaf (if valueNames.contains text then text else "identifier") true t.span, ts)
    | _ => none
  | [] => none

/-- An expression as the type of a composite literal; only names, qualified names and names with type
arguments can be one. -/
def asLiteralType? (n : Node) : Option Node :=
  (asType? false n).filter fun type =>
    ["type_identifier", "qualified_type", "generic_type"].contains type.kind

/-- One entry of a composite literal, an expression or a body of its own. -/
def literalElement (self : Rule → Parser) : Parser := fun ts =>
  node "literal_element"
    (part (if atSymbol "\x7b" ts then self .literalValue else self .expression)) ts

/-- An entry, with its key when a colon follows. -/
def literalEntry (self : Rule → Parser) : Parser := fun ts => do
  let (first, rest) ← literalElement self ts
  if atSymbol ":" rest then
    let (more, rest) ← inOrder [symbol ":", partIn "value" (literalElement self)] rest
    return (around "keyed_element" (inField "key" first :: more), rest)
  else return (first, rest)

def literalValueRule (self : Rule → Parser) : Parser :=
  node "literal_value" (inOrder [symbol "\x7b",
    optionally (inOrder [commaSeparated (part (literalEntry self)), optionally (symbol ",")]),
    symbol "\x7d"])

def conversion (self : Rule → Parser) (type : Node) : Parser := fun ts => do
  let (operand, rest) ← inOrder [symbol "(", partIn "operand" (self .expression),
    optionally (symbol ","), symbol ")"] ts
  return (around "type_conversion_expression" (inField "type" type :: operand), rest)

/-- What may follow a type at the start of an expression: the body of a literal or the operand of a
conversion. -/
def afterType (self : Rule → Parser) (type : Node) : Parser := fun ts =>
  if atSymbol "\x7b" ts then do
    let (body, rest) ← partIn "body" (self .literalValue) ts
    return (around "composite_literal" (inField "type" type :: body), rest)
  else conversion self type ts

/-- A function with a body, or a type that a conversion starts with. -/
def functionOperand (self : Rule → Parser) : Parser := fun ts => do
  let (signature, rest) ← functionSignature self ts
  if atSymbol "\x7b" rest then
    let (body, rest) ← partIn "body" (group "block" "\x7b") rest
    return (around "func_literal" (signature ++ body), rest)
  else afterType self (around "function_type" signature) rest

/-- An expression in parentheses, or a type in parentheses that a conversion starts with. -/
def parenthesizedOperand (self : Rule → Parser) : Parser := fun ts =>
  (node "parenthesized_expression"
    (inOrder [symbol "(", part (self .expression), symbol ")"]) ts).or do
      let (type, rest) ← parenthesizedType self ts
      afterType self type rest

def operand (self : Rule → Parser) : Parser := fun ts =>
  match peek ts with
  | .name _ => operandName ts
  | .literal _ => literal ts
  | .symbol "(" => parenthesizedOperand self ts
  | .keyword "func" => functionOperand self ts
  | .symbol "[" | .symbol "<-" | .keyword "map" | .keyword "chan" | .keyword "struct"
  | .keyword "interface" => do
    let (type, rest) ← self .type ts
    afterType self type rest
  | _ => none

/-- An operand that an index in brackets follows. It may also be a type with arguments in the brackets,
and then the preferred reading counts. -/
def indexed (self : Rule → Parser) (head : Node) : Parser := fun ts => do
  let (more, rest) ← inOrder [symbol "[", partIn "index" (self .expression), symbol "]"] ts
  let index := around "index_expression" (inField "operand" head :: more)
  let instantiation := do
    let type ← asType? false head
    return around "type_instantiation_expression" (inField "type" type :: (← asTypes? false more))
  match instantiation with
  | some n => return (if preference index < preference n then n else index, rest)
  | none => return (index, rest)

/-- A type with arguments that are no expression. -/
def instantiated (self : Rule → Parser) (head : Node) : Parser := fun ts => do
  let type ← asType? false head
  let (more, rest) ← inOrder [symbol "[", commaSeparated (part (self .type)), optionally (symbol ","),
    symbol "]"] ts
  return (around "type_instantiation_expression" (inField "type" type :: more), rest)

def sliced (head : Node) : Parser := fun ts => do
  let (more, rest) ← inOrder [symbol "[", balanced 1] ts
  return (around "slice_expression" (inField "operand" head :: more), rest)

/-- An operand that parentheses follow: a conversion where that is preferred, or else a call. -/
def called (self : Rule → Parser) (head : Node) : Parser := fun ts =>
  let converted := do
    let type ← asType? false head
    if preference head < preference type then conversion self type ts else none
  converted.or do
    let (more, rest) ← partIn "arguments" (group "argument_list" "(") ts
    return (around "call_expression" (inField "function" head :: more), rest)

/-- One step that extends an operand: a selector, an assertion, an index, a call or the body of a
composite literal. -/
def extendOperand (self : Rule → Parser) (head : Node) : Parser := fun ts =>
  match ts with
  | a :: b :: _ =>
    if a.kind == .symbol "." then
      if b.kind == .symbol "(" then do
        let (more, rest) ← inOrder [symbol ".", symbol "(", partIn "type" (self .type), symbol ")"] ts
        return (around "type_assertion_expression" (inField "operand" head :: more), rest)
      else do
        let (more, rest) ← inOrder [symbol ".", partIn "field" (name "field_identifier")] ts
        return (around "selector_expression" (inField "operand" head :: more), rest)
    else if a.kind == .symbol "[" then
      ((indexed self head ts).or (instantiated self head ts)).or (sliced head ts)
    else if a.kind == .symbol "(" then called self head ts
    else if a.kind == .symbol "\x7b" then do
      let type ← asLiteralType? head
      afterType self type ts
    else none
  | _ => none

/-- Extends an operand as far as it goes; every step shortens the input, so its length is fuel
enough. -/
def extendWith (self : Rule → Parser) : Nat → Node → Parser
  | 0, head => fun ts => some (head, ts)
  | fuel + 1, head => fun ts =>
    match extendOperand self head ts with
    | some (longer, rest) => extendWith self fuel longer rest
    | none => some (head, ts)

def primary (self : Rule → Parser) : Parser := fun ts => do
  let (head, rest) ← operand self ts
  extendWith self rest.length head rest

/-- Where an operand is due, an operator of two signs is two operators of one. -/
def splitSign : List Token → List Token
  | t :: ts =>
    let split := fun (first second : String) =>
      let middle := t.span.startByte + 1
      { t with kind := .symbol first, span := { t.span with endByte := middle } } ::
        { t with kind := .symbol second, span := { t.span with startByte := middle }, comments := [] } ::
        ts
    match t.kind with
    | .symbol "--" => split "-" "-"
    | .symbol "++" => split "+" "+"
    | .symbol "&&" => split "&" "&"
    | .symbol "&^" => split "&" "^"
    | _ => t :: ts
  | [] => []

/-- An operand with the signs before it. -/
def unaryRule (self : Rule → Parser) : Parser := fun ts =>
  match splitSign ts with
  | t :: rest =>
    match t.kind with
    | .symbol s =>
      if unaryOperators.contains s && !(s == "<-" && atKeyword "chan" rest) then do
        let mark := leaf s false t.span
        let (more, rest) ← partIn "operand" (self .unary) rest
        let joined := if s == "*" then more.getLast?.bind (pointed? mark) else none
        return (joined.getD (around "unary_expression" (inField "operator" mark :: more)), rest)
      else primary self ts
    | _ => primary self ts
  | [] => none

/-- Joins a left operand with operators that bind at least as tightly as `least`; `fuel` bounds the
operators taken. -/
def binaryWith (self : Rule → Parser) : Nat → Nat → Node → Parser
  | 0, _, left => fun ts => some (left, ts)
  | fuel + 1, least, left => fun ts =>
    match peek ts with
    | .symbol s =>
      let level := precedence s
      if level == 0 || level < least then some (left, ts)
      else do
        let (operator, rest) ← symbol s ts
        let (before, rest) := comments rest
        let (first, rest) ← self .unary rest
        let (right, rest) ← binaryWith self fuel (level + 1) first rest
        let mark := operator.map fun c => if c.isComment then c else inField "operator" c
        let whole := around "binary_expression"
          (inField "left" left :: mark ++ before ++ [inField "right" right])
        binaryWith self fuel least whole rest
    | _ => some (left, ts)

def expressionRule (self : Rule → Parser) : Parser := fun ts => do
  let (left, rest) ← self .unary ts
  binaryWith self rest.length 1 left rest

def expressionList (self : Rule → Parser) : Parser :=
  node "expression_list" (commaSeparated (part (self .expression)))

end SourceOutline.Grammar
