import SourceOutline.Decl.Imports
import SourceOutline.Extract.Omission
import SourceOutline.Index.Alias
import SourceOutline.Model.Basic

/-! The forms of declared types, and the fields of structs. -/
namespace SourceOutline

/-- What names mean while a file is extracted. -/
structure Scope where
  index : Index := {}
  imports : ImportTable := []
deriving Inhabited

/-- The same index, seen from a file with its own imports. -/
def Scope.forFile (scope : Scope) (file : GoFile) : Scope :=
  { scope with imports := file.importTable }

structure Resolution where
  kind : String
  form : Model.Form := .var
  isPointer : Bool := false
  origin : Option Model.Origin := none
  subFields : Option (List Model.Field) := none
deriving Inhabited

def Scope.origin (scope : Scope) (package name : String) : Model.Origin :=
  { package := package, entity := name, path := scope.imports.lookup package }

def structKind : String := "struct"

/-- The element type named `name`, followed through its declarations. -/
def namedElement (scope : Scope) (name : String) : Except Reason Resolution :=
  match scope.index.resolve name with
  | .error cycle => .error (.aliasCycle cycle.name)
  | .ok (.named kind) => .ok { kind := kind, form := .slice }
  | .ok (.qualified package kind) =>
    .ok { kind := kind, form := .slice, origin := some (scope.origin package kind) }
  | .ok type => .error (.elementType type.text)

def qualifiedElement (scope : Scope) (package name : String) : Resolution :=
  { kind := name, form := .slice, origin := some (scope.origin package name) }

/-- A map is known by the type of its values. -/
def mapResolution (scope : Scope) : TypeExpr → Resolution
  | .qualified package name =>
    { kind := name, form := .map, origin := some (scope.origin package name) }
  | value => { kind := value.text, form := .map }

/-- A pointer to a name; pointers to anything else are not covered. -/
def pointerResolution : TypeExpr → Except Reason Resolution
  | .named name => .ok { kind := name, isPointer := true }
  | .array _ _ => .error .pointerToArray
  | .map _ _ => .error .pointerToMap
  | target => .error (.pointerTo target.text)

/-- The name of an embedded field: that of its type, or of the type it points to. -/
def embeddedName : TypeExpr → Option String
  | .named name => some name
  | .qualified _ name => some name
  | .pointer (.named name) => some name
  | .pointer (.qualified _ name) => some name
  | _ => none

def modelFields (names : List String) (tag : String) (doc : Option String) (r : Resolution) :
    List Model.Field :=
  names.map fun name =>
    { name := name, kind := r.kind, tag := tag, doc := doc, isPointer := r.isPointer
      origin := r.origin, subFields := r.subFields, form := r.form }

mutual

/-- What the elements of an array or slice come to. Inner arrays and then one pointer are passed
over. -/
def elementResolution (scope : Scope) : TypeExpr → Noted (Except Reason Resolution)
  | .array element _ => elementResolution scope element
  | .pointer target => targetResolution scope target
  | .named name => .pure (namedElement scope name)
  | .qualified package name => .pure (.ok (qualifiedElement scope package name))
  | .struct fields =>
    (extractFields scope fields).map fun sub =>
      .ok { kind := structKind, form := .slice, subFields := some sub }
  | .map key value => .pure (.error (.elementType (TypeExpr.map key value).text))
  | .unsupported shape text => .pure (.error (.elementType (TypeExpr.unsupported shape text).text))

/-- What elements come to that point to the given type. -/
def targetResolution (scope : Scope) : TypeExpr → Noted (Except Reason Resolution)
  | .named name => .pure (namedElement scope name)
  | .qualified package name => .pure (.ok (qualifiedElement scope package name))
  | .struct fields =>
    (extractFields scope fields).map fun sub =>
      .ok { kind := structKind, form := .slice, subFields := some sub }
  | .array element length => .pure (.error (.elementType (TypeExpr.array element length).text))
  | .pointer target => .pure (.error (.elementType (TypeExpr.pointer target).text))
  | .map key value => .pure (.error (.elementType (TypeExpr.map key value).text))
  | .unsupported shape text => .pure (.error (.elementType (TypeExpr.unsupported shape text).text))

/-- What a declared type comes to, by its shape. -/
def typeResolution (scope : Scope) : TypeExpr → Noted (Except Reason Resolution)
  | .named name => .pure (.ok { kind := name })
  | .qualified package name =>
    .pure (.ok { kind := name, origin := some (scope.origin package name) })
  | .map _ value => .pure (.ok (mapResolution scope value))
  | .struct fields =>
    (extractFields scope fields).map fun sub =>
      .ok { kind := structKind, form := .struct, subFields := some sub }
  | .array element _ => elementResolution scope element
  | .pointer target => .pure (pointerResolution target)
  | .unsupported shape _ => .pure (.error (.type shape))

/-- The model fields of one declaration: one for each name, or none and an omission. -/
def classifyField (scope : Scope) : Field → Noted (List Model.Field)
  | ⟨names, type, tag, doc, line⟩ =>
    match names, embeddedName type with
    | [], none => ⟨[], [⟨.field, "<embedded>", .embeddedType, line⟩]⟩
    | [], some name => settle [name] (typeResolution scope type) tag doc line
    | first :: rest, _ => settle (first :: rest) (typeResolution scope type) tag doc line
where
  /-- Turns the resolved type of a declaration into its fields or into an omission. -/
  settle (names : List String) (r : Noted (Except Reason Resolution)) (tag : String)
      (doc : Option String) (line : Int) : Noted (List Model.Field) :=
    match r.value with
    | .ok resolution => ⟨modelFields names tag doc resolution, r.omitted⟩
    | .error reason => ⟨[], r.omitted ++ [⟨.field, names.headD "", reason, line⟩]⟩

def extractFields (scope : Scope) : List Field → Noted (List Model.Field)
  | [] => .pure []
  | field :: rest =>
    let here := classifyField scope field
    let after := extractFields scope rest
    ⟨here.value ++ after.value, here.omitted ++ after.omitted⟩

end

end SourceOutline
