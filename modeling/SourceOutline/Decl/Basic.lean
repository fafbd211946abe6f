/-! Declarations of one Go file, as the scanner sees them. -/
namespace SourceOutline

mutual

/-- One field declaration of a struct. An embedded field has no names. -/
structure Field where
  names : List String
  type : TypeExpr
  tag : String := ""
  doc : Option String := none
  line : Int := 0

/-- A type as it is written. An array without a length is a slice; a shape the model does not cover
keeps the name of its syntax node and its text. -/
inductive TypeExpr where
  | named (name : String)
  | qualified (package name : String)
  | pointer (target : TypeExpr)
  | array (element : TypeExpr) (length : Option String)
  | map (key value : TypeExpr)
  | struct (fields : List Field)
  | unsupported (shape text : String)

end

instance : Inhabited TypeExpr := ⟨.named ""⟩

instance : Inhabited Field := ⟨{ names := [], type := default }⟩

/-- One entry between the braces of a composite literal; a positional entry has no key. -/
structure Element where
  value : String
  key : Option String := none
deriving DecidableEq, Repr, Inhabited

/-- An initial value. A basic literal carries its kind (`int`, `string`) and its text. -/
inductive Expr where
  | basic (kind value : String)
  | ident (name : String)
  | composite (type : TypeExpr) (elements : List Element)
  | unsupported (shape text : String)
deriving Inhabited

structure TypeSpec where
  name : String
  type : TypeExpr
  doc : Option String := none
  line : Int := 0
  isAlias : Bool := false
deriving Inhabited

/-- `const names [type] = values` or `var names [type] [= values]`. -/
structure ValueSpec where
  keyword : String
  names : List String
  type : Option TypeExpr := none
  values : List Expr := []
  doc : Option String := none
  line : Int := 0
deriving Inhabited

/-- A declaration that can enter the index. -/
inductive Decl where
  | type (spec : TypeSpec)
  | value (spec : ValueSpec)
deriving Inhabited

structure Import where
  path : String
  localName : Option String := none
deriving DecidableEq, Repr, Inhabited

/-- The declarations of one file, in source order. -/
structure GoFile where
  path : String := ""
  package : Option String := none
  imports : List Import := []
  decls : List Decl := []
deriving Inhabited

end SourceOutline
