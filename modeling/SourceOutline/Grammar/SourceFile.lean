import SourceOutline.Grammar.Expressions
import SourceOutline.Grammar.Lexer
import SourceOutline.Readers

/-! Declarations and whole files. -/
namespace SourceOutline.Grammar

open SourceOutline.Syntax

/-- The grammar, with the rules it refers to given by `self`. -/
def grammar (self : Rule → Parser) : Rule → Parser
  | .type => typeRule self
  | .expression => expressionRule self
  | .unary => unaryRule self
  | .literalValue => literalValueRule self
  | .fieldList => fieldListRule self

/-- The grammar unfolded to a depth. -/
def parse : Nat → Rule → Parser
  | 0, _ => fun _ => none
  | depth + 1, rule => grammar (parse depth) rule

/-- Specs of a declaration, one or several between parentheses. -/
def grouped (spec : Parser) : Children := fun ts =>
  if atSymbol "(" ts then
    inOrder [symbol "(", linesUntil ")" (part spec), symbol ")"] ts
  else part spec ts

/-- The same, with a node of its own around the parentheses. -/
def groupedIn (kind : String) (spec : Parser) : Children := fun ts =>
  if atSymbol "(" ts then part (node kind (grouped spec)) ts else part spec ts

def packageClause : Parser :=
  node "package_clause" (inOrder [keyword "package", part (name "package_identifier")])

def importName : Parser
  | t :: ts =>
    match t.kind with
    | .symbol "." => some (leaf "dot" true t.span, ts)
    | .name "_" => some (leaf "blank_identifier" true t.span, ts)
    | .name _ => some (leaf "package_identifier" true t.span, ts)
    | _ => none
  | [] => none

def importSpec : Parser :=
  node "import_spec" (inOrder [optionally (partIn "name" importName), partIn "path" stringLiteral])

def importDeclaration : Parser :=
  node "import_declaration" (inOrder [keyword "import", groupedIn "import_spec_list" importSpec])

def specName : Children :=
  partIn "name" (name "identifier")

/-- The names a constant spec declares; the commas between them belong to the field too. -/
def constNames : Children :=
  inOrder [specName, many (inOrder [symbolIn "name" ",", specName])]

def specValues (self : Rule → Parser) : Children :=
  inOrder [symbol "=", partIn "value" (expressionList self)]

/-- One constant spec; the values may be left to the spec before it. -/
def constSpec (self : Rule → Parser) : Parser :=
  node "const_spec" (inOrder [constNames,
    firstOf [specValues self, inOrder [partIn "type" (self .type), specValues self], nothing]])

def varSpec (self : Rule → Parser) : Parser :=
  node "var_spec" (inOrder [commaSeparated specName,
    firstOf [specValues self, inOrder [partIn "type" (self .type), optionally (specValues self)]]])

/-- Type parameters with what their arguments have to be. -/
def typeParameterDeclaration (self : Rule → Parser) : Parser :=
  node "type_parameter_declaration" (inOrder [commaSeparated specName,
    partIn "type" (typeElement self)])

def typeParameters (self : Rule → Parser) : Children :=
  partIn "type_parameters" (node "type_parameter_list" (inOrder [symbol "[",
    commaSeparated (part (typeParameterDeclaration self)), optionally (symbol ","), symbol "]"]))

/-- What a type spec says after its name and its parameters; with `=` it is an alias. -/
def typeSpecAfter (self : Rule → Parser) (head : List Node) : Parser := fun ts =>
  if atSymbol "=" ts then do
    let (more, rest) ← inOrder [symbol "=", partIn "type" (self .type)] ts
    return (around "type_alias" (head ++ more), rest)
  else do
    let (more, rest) ← partIn "type" (self .type) ts
    return (around "type_spec" (head ++ more), rest)

/-- One type spec. What stands in brackets after its name may be type parameters or the length of an
array; of the two readings parameters are taken unless the other is preferred. -/
def typeSpec (self : Rule → Parser) : Parser := fun ts => do
  let (head, rest) ← partIn "name" (name "type_identifier") ts
  let plain := typeSpecAfter self head rest
  let generic := do
    let (parameters, rest) ← typeParameters self rest
    typeSpecAfter self (head ++ parameters) rest
  match plain, generic with
  | some plain, some generic =>
    return if preference generic.1 < preference plain.1 then plain else generic
  | _, _ => plain.or generic

def functionDeclaration (self : Rule → Parser) : Parser := fun ts =>
  let rest := inOrder [
    whenSymbol "[" (partIn "type_parameters" (group "type_parameter_list" "[")), partIn "parameters" (group "parameter_list" "("),
    functionResult self, whenSymbol "\x7b" (partIn "body" (group "block" "\x7b"))]
  (node "function_declaration"
    (inOrder [keyword "func", partIn "name" (name "identifier"), rest]) ts).or
  (node "method_declaration" (inOrder [keyword "func",
    partIn "receiver" (group "parameter_list" "("), partIn "name" (name "field_identifier"), rest]) ts)

def declaration (self : Rule → Parser) : Parser := fun ts =>
  match peek ts with
  | .keyword "package" => packageClause ts
  | .keyword "import" => importDeclaration ts
  | .keyword "const" =>
    node "const_declaration" (inOrder [keyword "const", grouped (constSpec self)]) ts
  | .keyword "var" =>
    node "var_declaration" (inOrder [keyword "var", groupedIn "var_spec_list" (varSpec self)]) ts
  | .keyword "type" =>
    node "type_declaration" (inOrder [keyword "type", grouped (typeSpec self)]) ts
  | .keyword "func" => functionDeclaration self ts
  | _ => none

/-- The rest of a text that is no declaration, as one error; stray characters are errors in it. -/
def errorNode (ts : List Token) : Node :=
  around "ERROR" (ts.flatMap fun t =>
    match t.kind with
    | .stray => t.comments ++ [leaf "ERROR" true t.span]
    | .name text => t.comments ++ [leaf text false t.span]
    | .keyword text => t.comments ++ [leaf text false t.span]
    | .literal kind => t.comments ++ [leaf kind true t.span]
    | .symbol s => t.comments ++ [leaf s false t.span]
    | .lineEnd => t.comments
    | .textEnd => t.comments)

/-- The children of a file. Declarations end with their lines; what is none makes the rest of the text
an error. `fuel` bounds the number of declarations. -/
def fileChildren (self : Rule → Parser) : Nat → List Token → List Node
  | 0, _ => []
  | fuel + 1, ts =>
    let (before, ts) := comments ts
    match peek ts with
    | .textEnd => before
    | _ =>
      match terminator ts with
      | some (nodes, rest) => before ++ nodes ++ fileChildren self fuel rest
      | none =>
        match declaration self ts with
        | some (n, rest) =>
          match terminator rest with
          | some (nodes, rest) => before ++ n :: nodes ++ fileChildren self fuel rest
          | none => before ++ [errorNode ts]
        | none => before ++ [errorNode ts]

def parseSource (source : Source) : Node :=
  let ts := tokens source
  let depth := 4 * ts.length + 8
  let children := fileChildren (parse depth) (ts.length + 1) ts
  { around "source_file" children with
    startByte := 0, startRow := 0, endByte := source.bytes.size
    endRow := lineBreaks (octets source) }

instance : GoParser := ⟨parseSource⟩

end SourceOutline.Grammar
