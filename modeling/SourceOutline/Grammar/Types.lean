import SourceOutline.Grammar.Parser

/-! Types. Parameters and the bodies of interfaces are kept as runs of tokens. -/
namespace SourceOutline.Grammar

open SourceOutline.Syntax

def typeName : Parser := fun ts =>
  match ts with
  | a :: b :: c :: _ =>
    match a.kind, b.kind, c.kind with
    | .name _, .symbol ".", .name _ =>
      node "qualified_type" (inOrder [partIn "package" (name "package_identifier"), symbol ".",
        partIn "name" (name "type_identifier")]) ts
    | _, _, _ => name "type_identifier" ts
  | _ => name "type_identifier" ts

/-- One type, or several that are alternatives. -/
def typeElement (self : Rule → Parser) : Parser :=
  node "type_elem" (inOrder [part (self .type), many (inOrder [symbol "|", part (self .type)])])

def typeArgumentList (self : Rule → Parser) : Parser :=
  node "type_arguments" (inOrder [symbol "[", commaSeparated (part (typeElement self)),
    optionally (symbol ","), symbol "]"])

def namedType (self : Rule → Parser) : Parser := fun ts => do
  let (head, rest) ← typeName ts
  if atSymbol "[" rest then
    let (before, rest) := comments rest
    let (arguments, rest) ← typeArgumentList self rest
    return (around "generic_type"
      (inField "type" head :: before ++ [inField "type_arguments" arguments]), rest)
  else return (head, rest)

def parenthesizedType (self : Rule → Parser) : Parser :=
  node "parenthesized_type" (inOrder [symbol "(", part (self .type), symbol ")"])

/-- A slice, an array, or an array whose length its elements give. -/
def bracketType (self : Rule → Parser) : Parser := fun ts =>
  match ts with
  | _ :: t :: _ =>
    if t.kind == .symbol "]" then
      node "slice_type" (inOrder [symbol "[", symbol "]", partIn "element" (self .type)]) ts
    else if t.kind == .symbol "..." then
      node "implicit_length_array_type"
        (inOrder [symbol "[", symbol "...", symbol "]", partIn "element" (self .type)]) ts
    else
      node "array_type" (inOrder [symbol "[", partIn "length" (self .expression), symbol "]",
        partIn "element" (self .type)]) ts
  | _ => none

def mapType (self : Rule → Parser) : Parser :=
  node "map_type" (inOrder [keyword "map", symbol "[", partIn "key" (self .type), symbol "]",
    partIn "value" (self .type)])

def channelType (self : Rule → Parser) : Parser :=
  node "channel_type" (firstOf [
    inOrder [keyword "chan", symbol "<-", partIn "value" (self .type)],
    inOrder [keyword "chan", partIn "value" (self .type)],
    inOrder [symbol "<-", keyword "chan", partIn "value" (self .type)]])

/-- Whether a type can start with a token; parentheses are left to parameter lists. -/
def startsType : List Token → Bool
  | t :: rest =>
    match t.kind with
    | .name _ => true
    | .keyword k => ["map", "chan", "func", "struct", "interface"].contains k
    | .symbol "*" => true
    | .symbol "[" => true
    | .symbol "<-" => atKeyword "chan" rest
    | _ => false
  | [] => false

/-- What a function gives back: a list of results or one type. -/
def functionResult (self : Rule → Parser) : Children := fun ts =>
  if atSymbol "(" ts then partIn "result" (group "parameter_list" "(") ts
  else if startsType ts then partIn "result" (self .type) ts
  else nothing ts

def functionSignature (self : Rule → Parser) : Children :=
  inOrder [keyword "func", partIn "parameters" (group "parameter_list" "("), functionResult self]

def structType (self : Rule → Parser) : Parser :=
  node "struct_type" (inOrder [keyword "struct", part (self .fieldList)])

def interfaceType : Parser :=
  node "interface_type" (inOrder [keyword "interface", symbol "\x7b", balanced 1])

def typeRule (self : Rule → Parser) : Parser := fun ts =>
  match peek ts with
  | .name _ => namedType self ts
  | .symbol "*" => node "pointer_type" (inOrder [symbol "*", part (self .type)]) ts
  | .symbol "(" => parenthesizedType self ts
  | .symbol "[" => bracketType self ts
  | .symbol "<-" => channelType self ts
  | .symbol "~" => node "negated_type" (inOrder [symbol "~", part (self .type)]) ts
  | .keyword "map" => mapType self ts
  | .keyword "chan" => channelType self ts
  | .keyword "func" => node "function_type" (functionSignature self) ts
  | .keyword "struct" => structType self ts
  | .keyword "interface" => interfaceType ts
  | _ => none

/-- Whether a field declaration ends here, its tag apart. -/
def atFieldEnd (ts : List Token) : Bool :=
  match peek ts with
  | .lineEnd => true
  | .symbol ";" => true
  | .symbol "\x7d" => true
  | .literal _ => true
  | _ => false

def embeddedType (self : Rule → Parser) : Children := fun ts => do
  let (found, rest) ← inOrder [whenSymbol "*" (symbol "*"), partIn "type" (namedType self)] ts
  if atFieldEnd rest then return (found, rest) else none

/-- One field declaration: an embedded type or names with their type, and then perhaps a tag. -/
def fieldDeclaration (self : Rule → Parser) : Parser :=
  node "field_declaration" (inOrder [
    firstOf [embeddedType self,
      inOrder [commaSeparated (partIn "name" (name "field_identifier")), partIn "type" (self .type)]],
    optionally (partIn "tag" stringLiteral)])

def fieldListRule (self : Rule → Parser) : Parser :=
  node "field_declaration_list" (inOrder [symbol "\x7b",
    linesUntil "\x7d" (part (fieldDeclaration self)), symbol "\x7d"])

end SourceOutline.Grammar
