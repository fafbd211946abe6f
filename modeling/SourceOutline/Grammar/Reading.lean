import SourceOutline.Grammar.Parser

/-!
Texts with two readings. A bracket after a name may hold an index or type arguments, and a parenthesis
may hold an argument or the operand of a conversion. Of two readings the preferred one is taken.
-/
namespace SourceOutline.Grammar

open SourceOutline.Syntax

/-- What a node adds to the preference for a reading, its children apart. Type arguments speak for a
reading; a plain type name, a conversion and an instantiation speak against it. A name that is declared,
or that its own node already takes for a type, says nothing. -/
def ownPreference (n : Node) : Int :=
  match n.kind with
  | "type_identifier" => if n.field == some "name" then 0 else -1
  | "generic_type" => if (n.child? "type").any (·.kind == "type_identifier") then 2 else 1
  | "composite_literal" => if (n.child? "type").any (·.kind == "type_identifier") then 1 else 0
  | "type_arguments" => 2
  | "type_conversion_expression" => -1
  | "type_instantiation_expression" => -1
  | _ => 0

mutual

def preference : Node → Int
  | .mk kind named missing startByte endByte startRow endRow field children =>
    ownPreference (.mk kind named missing startByte endByte startRow endRow field children) +
      preferences children

def preferences : List Node → Int
  | [] => 0
  | n :: ns => preference n + preferences ns

end

/-- A selector on a name, read as a type of a package. -/
def asQualifiedType? (n : Node) : Option Node :=
  if (n.child? "operand").any (·.kind == "identifier") then
    some { n with
      kind := "qualified_type"
      children := n.children.map fun c =>
        if c.field == some "operand" then
          { c with kind := "package_identifier", field := some "package" }
        else if c.field == some "field" then
          { c with kind := "type_identifier", field := some "name" }
        else c }
  else none

/-- Type arguments: a bracket with types in it. -/
def typeArguments (children : List Node) : Node :=
  around "type_arguments" (children.map fun c =>
    if c.named && !c.isComment && c.kind != "type_elem" then around "type_elem" [{ c with field := none }]
    else { c with field := none })

/-- A type with arguments. Only a name, qualified or not, takes some. -/
def asGenericType? (n : Node) (children : List Node) : Option Node :=
  match children with
  | [] => none
  | head :: rest =>
    if head.kind == "type_identifier" || head.kind == "qualified_type" then
      let before := rest.takeWhile (·.isComment)
      some { n with
        kind := "generic_type"
        children := inField "type" head :: before ++
          [inField "type_arguments" (typeArguments (rest.dropWhile (·.isComment)))] }
    else none

def hasOperator (s : String) (n : Node) : Bool :=
  (n.child? "operator").any (·.kind == s)

mutual

/-- An expression read as a type. `union` says whether alternatives may stand there. -/
def asType? (union : Bool) : Node → Option Node
  | .mk kind named missing startByte endByte startRow endRow field children =>
    let n := Node.mk kind named missing startByte endByte startRow endRow field children
    match kind with
    | "identifier" => some { n with kind := "type_identifier" }
    | "selector_expression" => asQualifiedType? n
    | "type_instantiation_expression" => asGenericType? n children
    | "index_expression" => do asGenericType? n (← asTypes? true children)
    | "parenthesized_expression" => do
      return { n with kind := "parenthesized_type", children := ← asTypes? false children }
    | "unary_expression" =>
      if hasOperator "*" n then do
        return { n with kind := "pointer_type", children := ← asTypes? false children }
      else none
    | "binary_expression" =>
      if union && hasOperator "|" n then do
        return { n with kind := "type_elem", children := ← asTypes? true children }
      else none
    | _ => none

/-- The expressions among some nodes read as types. -/
def asTypes? (union : Bool) : List Node → Option (List Node)
  | [] => some []
  | n :: ns => do
    let first ← if n.named && !n.isComment then asType? union n else some n
    return { first with field := none } :: (← asTypes? union ns)

end

/-- A star before an expression that starts with a conversion belongs to the type of the conversion. -/
def pointed? (star : Node) (n : Node) : Option Node :=
  match n with
  | .mk kind named missing _ endByte _ endRow field (head :: rest) =>
    let before := fun (first : Node) => Node.mk kind named missing star.startByte endByte star.startRow
      endRow field (first :: rest)
    if kind == "type_conversion_expression" then
      some (before (inField "type" (around "pointer_type" [star, { head with field := none }])))
    else if ["selector_expression", "index_expression", "slice_expression", "call_expression",
        "type_assertion_expression"].contains kind then
      (pointed? star head).map before
    else none
  | _ => none

end SourceOutline.Grammar
