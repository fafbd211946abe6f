import SourceOutline.Comment
import SourceOutline.Decl.Basic

/-! Reading declarations off a syntax tree. -/
namespace SourceOutline

open SourceOutline.Syntax

inductive TypeShape where
  | named
  | qualified
  | pointer
  | array
  | map
  | struct
  | parenthesized
  | other
deriving DecidableEq, Repr

def TypeShape.ofKind : String → TypeShape
  | "type_identifier" => .named
  | "identifier" => .named
  | "qualified_type" => .qualified
  | "pointer_type" => .pointer
  | "array_type" => .array
  | "slice_type" => .array
  | "implicit_length_array_type" => .array
  | "map_type" => .map
  | "struct_type" => .struct
  | "parenthesized_type" => .parenthesized
  | _ => .other

def TypeExpr.absent : TypeExpr :=
  .unsupported "missing" ""

def fieldList? (n : Node) : Option Node :=
  n.children.find? fun c => c.named && c.kind == "field_declaration_list"

theorem lt_of_fieldList? {n c : Node} (h : fieldList? n = some c) : sizeOf c < sizeOf n :=
  Node.lt_of_mem_children (List.mem_of_find?_eq_some h)

theorem lt_of_head?_parts {n c : Node} (h : n.parts.head? = some c) : sizeOf c < sizeOf n :=
  Node.lt_of_mem_parts (List.mem_of_mem_head? h)

mutual

def typeOf (source : Source) (n : Node) : TypeExpr :=
  match TypeShape.ofKind n.kind with
  | .named => .named (source.text n)
  | .qualified =>
    match n.child? "package", n.child? "name" with
    | some package, some name => .qualified (source.text package) (source.text name)
    | _, _ => .unsupported n.kind (source.text n)
  | .pointer =>
    match _h : n.parts.head? with
    | some target => .pointer (typeOf source target)
    | none => .pointer .absent
  | .array =>
    let length := (n.child? "length").map source.text
    match _h : n.child? "element" with
    | some element => .array (typeOf source element) length
    | none => .array .absent length
  | .map =>
    let key := match _h : n.child? "key" with
      | some key => typeOf source key
      | none => .absent
    let value := match _h : n.child? "value" with
      | some value => typeOf source value
      | none => .absent
    .map key value
  | .struct =>
    match _h : fieldList? n with
    | some list => .struct (fieldsOf source [] list.children)
    | none => .struct []
  | .parenthesized =>
    match _h : n.parts.head? with
    | some inner => typeOf source inner
    | none => .unsupported n.kind (source.text n)
  | .other => .unsupported n.kind (source.text n)
termination_by sizeOf n
decreasing_by
  · exact lt_of_head?_parts _h
  · exact Node.lt_of_child? _h
  · exact Node.lt_of_child? _h
  · exact Node.lt_of_child? _h
  · exact Nat.lt_trans (Node.children_lt list) (lt_of_fieldList? _h)
  · exact lt_of_head?_parts _h

/-- The fields among the children of a field list; `earlier` are the named ones already passed, the
nearest first. -/
def fieldsOf (source : Source) (earlier : List Node) : List Node → List Field
  | [] => []
  | c :: rest =>
    if c.named then
      if c.kind == "field_declaration" then
        fieldOf source earlier c :: fieldsOf source (c :: earlier) rest
      else fieldsOf source (c :: earlier) rest
    else fieldsOf source earlier rest
termination_by children => sizeOf children
decreasing_by all_goals rw [List.cons.sizeOf_spec]; omega

/-- One field declaration. A star among its children makes an embedded field a pointer. -/
def fieldOf (source : Source) (earlier : List Node) (n : Node) : Field :=
  let names := ((n.childrenIn "name").filter (·.named)).map source.text
  let declared := match _h : n.child? "type" with
    | some type => typeOf source type
    | none => .absent
  { names := names
    type := if names.isEmpty && n.children.any (·.kind == "*") then .pointer declared else declared
    tag := ((n.child? "tag").map source.text).getD ""
    doc := Comment.doc source n.startRow earlier
    line := n.startRow + 1 }
termination_by sizeOf n
decreasing_by exact Node.lt_of_child? _h

end

def typeIn (source : Source) : Option Node → TypeExpr
  | some n => typeOf source n
  | none => .absent

def entryText (source : Source) (n : Node) : String :=
  match n.kind == "literal_element", n.parts.head? with
  | true, some inner => source.text inner
  | _, _ => source.text n

/-- An entry of a composite literal; a keyed entry that lacks a side is none. -/
def elementOf (source : Source) (n : Node) : Option Element :=
  if n.kind == "keyed_element" then
    match n.parts.head?, n.parts.getLast?, decide (2 ≤ n.parts.length) with
    | some key, some value, true =>
      some { value := entryText source value, key := some (entryText source key) }
    | _, _, _ => none
  else some { value := entryText source n }

def elementsOf (source : Source) : Option Node → List Element
  | some body => body.parts.filterMap (elementOf source)
  | none => []

inductive ExprShape where
  | literal (kind : String)
  | identifier
  | composite
  | unary
  | parenthesized
  | other
deriving DecidableEq, Repr

def ExprShape.ofKind : String → ExprShape
  | "int_literal" => .literal "int"
  | "float_literal" => .literal "float"
  | "imaginary_literal" => .literal "imag"
  | "rune_literal" => .literal "char"
  | "interpreted_string_literal" => .literal "string"
  | "raw_string_literal" => .literal "string"
  | "true" => .literal "bool"
  | "false" => .literal "bool"
  | "identifier" => .identifier
  | "composite_literal" => .composite
  | "unary_expression" => .unary
  | "parenthesized_expression" => .parenthesized
  | _ => .other

/-- The kinds of literals that take a sign. -/
def isNumericKind (kind : String) : Bool :=
  kind == "int" || kind == "float" || kind == "imag"

/-- A number with a minus before its text; none for any other value. -/
def Expr.negated? : Expr → Option Expr
  | .basic kind value => if isNumericKind kind then some (.basic kind ("-" ++ value)) else none
  | _ => none

def exprOf (source : Source) (n : Node) : Expr :=
  match ExprShape.ofKind n.kind with
  | .literal kind => .basic kind (source.text n)
  | .identifier => .ident (source.text n)
  | .composite =>
    .composite (typeIn source (n.child? "type")) (elementsOf source (n.child? "body"))
  | .unary =>
    match _h : n.child? "operand", n.child? "operator" with
    | some operand, some operator =>
      if source.text operator = "-" then
        ((exprOf source operand).negated?).getD (.unsupported n.kind (source.text n))
      else .unsupported n.kind (source.text n)
    | _, _ => .unsupported n.kind (source.text n)
  | .parenthesized =>
    match _h : n.parts with
    | [inner] => exprOf source inner
    | _ => .unsupported n.kind (source.text n)
  | .other => .unsupported n.kind (source.text n)
termination_by sizeOf n
decreasing_by
  · exact Node.lt_of_child? _h
  · exact Node.lt_of_mem_parts (by simp [_h])

/-- A named node with the named siblings before it, the nearest first. -/
structure Placed where
  earlier : List Node
  node : Node

/-- The named nodes of a list of siblings, each with those before it. -/
def placed (earlier : List Node) : List Node → List Placed
  | [] => []
  | c :: rest =>
    if c.named then ⟨earlier, c⟩ :: placed (c :: earlier) rest else placed earlier rest

def Placed.doc (source : Source) (p : Placed) : Option String :=
  Comment.doc source p.node.startRow p.earlier

/-- Nodes that only group specs. -/
def isSpecList (kind : String) : Bool :=
  kind == "var_spec_list" || kind == "import_spec_list" || kind == "type_spec_list"

/-- The specs among siblings and inside the groups among them, in source order. -/
def specs (isSpec : String → Bool) (earlier : List Node) : List Node → List Placed
  | [] => []
  | c :: rest =>
    if c.named then
      if isSpec c.kind then ⟨earlier, c⟩ :: specs isSpec (c :: earlier) rest
      else if isSpecList c.kind then
        specs isSpec [] c.children ++ specs isSpec (c :: earlier) rest
      else specs isSpec (c :: earlier) rest
    else specs isSpec earlier rest
termination_by children => sizeOf children
decreasing_by
  all_goals
    have := c.children_lt
    simp only [List.cons.sizeOf_spec]
    omega

def Placed.specs (isSpec : String → Bool) (declaration : Placed) : List Placed :=
  SourceOutline.specs isSpec [] declaration.node.children

/-- The doc of a spec. A spec that is alone in its declaration falls back on the declaration's. -/
def specDoc (source : Source) (declaration spec : Placed) (count : Nat) : Option String :=
  match spec.doc source with
  | some doc => some doc
  | none => if count = 1 then declaration.doc source else none

/-- The types a declaration declares; a spec without a name declares none. -/
def typeSpecsOf (source : Source) (declaration : Placed) : List TypeSpec :=
  let found := declaration.specs fun kind => kind == "type_spec" || kind == "type_alias"
  found.filterMap fun spec =>
    (spec.node.child? "name").map fun name =>
      { name := source.text name
        type := typeIn source (spec.node.child? "type")
        doc := specDoc source declaration spec found.length
        line := spec.node.startRow + 1
        isAlias := spec.node.kind == "type_alias" }

def valueSpecsOf (source : Source) (keyword : String) (declaration : Placed) : List ValueSpec :=
  let found := declaration.specs (· == if keyword == "const" then "const_spec" else "var_spec")
  found.map fun spec =>
    { keyword := keyword
      names := ((spec.node.childrenIn "name").filter (·.kind == "identifier")).map source.text
      type := (spec.node.child? "type").map (typeOf source)
      values := match spec.node.child? "value" with
        | some list => list.parts.map (exprOf source)
        | none => []
      doc := specDoc source declaration spec found.length
      line := spec.node.startRow + 1 }

/-- Takes the quotes off the ends of a string literal. -/
def unquoted (s : String) : String :=
  let isQuote := fun (c : Char) => c == '"' || c == Char.ofNat 96
  String.ofList (Text.dropEndWhile isQuote (s.toList.dropWhile isQuote))

/-- The imports a declaration makes; a spec without a path makes none. -/
def importsOf (source : Source) (declaration : Placed) : List Import :=
  (declaration.specs (· == "import_spec")).filterMap fun spec =>
    (spec.node.child? "path").map fun path =>
      { path := unquoted (source.text path)
        localName := (spec.node.child? "name").map source.text }

def declsOf (source : Source) (p : Placed) : List Decl :=
  match p.node.kind with
  | "type_declaration" => (typeSpecsOf source p).map .type
  | "const_declaration" => (valueSpecsOf source "const" p).map .value
  | "var_declaration" => (valueSpecsOf source "var" p).map .value
  | _ => []

def packageOf (source : Source) (n : Node) : Option String :=
  if n.kind == "package_clause" then n.parts.head?.map source.text else none

/-- The declarations of a file: the last package clause with a name counts, imports and declarations
keep their order. -/
def GoFile.ofSyntax (source : Source) (root : Node) (path : String) : GoFile :=
  let top := placed [] root.children
  { path := path
    package := (top.filterMap fun p => packageOf source p.node).getLast?
    imports := top.flatMap fun p =>
      if p.node.kind == "import_declaration" then importsOf source p else []
    decls := top.flatMap (declsOf source) }

end SourceOutline
