import SourceOutline.Extract.Types

/-! Entries for constants and variables. -/
namespace SourceOutline

def isBoolName (name : String) : Bool :=
  name == "true" || name == "false"

/-- Follows an identifier, having passed the identifiers `visited`, to the first value that is no
identifier. -/
def Index.follow (index : Index) (visited : List String) (name : String) : Except Reason Expr :=
  if isBoolName name then .ok (.basic "bool" name)
  else if _hv : name ∈ visited then .error (.referenceCycle name)
  else match _h : index.value? name with
    | none => .error (.unresolved name)
    | some (_, .ident next) => index.follow (name :: visited) next
    | some (_, value) => .ok value
termination_by Index.unvisited index.valueNames visited
decreasing_by exact Index.unvisited_cons_lt (Index.mem_valueNames_of_value? _h) _hv

/-- The value an initial value refers to. -/
def Index.dereference (index : Index) : Expr → Except Reason Expr
  | .ident name => index.follow [] name
  | value => .ok value

/-- The type of a composite literal; a name declared as a map or an array stands for it. -/
def compositeType (index : Index) : TypeExpr → TypeExpr
  | .named name =>
    match index.type? name with
    | some spec => match spec.type with
      | .map key value => .map key value
      | .array element length => .array element length
      | _ => .named name
    | none => .named name
  | type => type

def ValueSpec.plainForm (spec : ValueSpec) : Model.Form :=
  if spec.keyword == "const" then .const else .var

/-- Adds the entries of a map literal to those before them. The first value of a key counts; elements
without a key and repeated keys are left out. -/
def mapEntries (name : String) (line : Int) (before : List (String × String)) :
    List Element → Noted (List (String × String))
  | [] => .pure before
  | element :: rest =>
    match element.key with
    | none =>
      let after := mapEntries name line before rest
      ⟨after.value, ⟨.initializer, name, .keylessElement, line⟩ :: after.omitted⟩
    | some key =>
      if before.any (·.1 == key) then
        let after := mapEntries name line before rest
        ⟨after.value, ⟨.initializer, name, .duplicateKey key, line⟩ :: after.omitted⟩
      else mapEntries name line (before ++ [(key, element.value)]) rest

/-- The kind and the origin of a map literal, by the type of its values. The origin of a qualified type is the one
it has where it is declared. -/
def mapLiteralKind (scope : Scope) : TypeExpr → String × Option Model.Origin
  | .qualified package name =>
    (name, (typeResolution scope (.qualified package name)).value.toOption.bind (·.origin))
  | value => (value.text, none)

/-- Map literals are known by what declared maps are known by. -/
theorem mapLiteralKind_eq (scope : Scope) (value : TypeExpr) :
    mapLiteralKind scope value = ((mapResolution scope value).kind, (mapResolution scope value).origin) := by
  cases value <;> rfl

def mapEntry (scope : Scope) (name : String) (spec : ValueSpec) (value : TypeExpr)
    (elements : List Element) : Noted (Option Model.Entry) :=
  let type := mapLiteralKind scope value
  (mapEntries name spec.line [] elements).map fun pairs =>
    some { name := name, kind := type.1, value := .entries pairs, doc := spec.doc, form := .map
           origin := type.2 }

/-- A map literal looks nothing up in the index. -/
theorem mapEntry_of_imports {s t : Scope} (h : s.imports = t.imports) (name : String) (spec : ValueSpec)
    (value : TypeExpr) (elements : List Element) :
    mapEntry s name spec value elements = mapEntry t name spec value elements := by
  have hkind : mapResolution s value = mapResolution t value := by
    cases value with
    | qualified package other => simp only [mapResolution, Scope.origin, h]
    | _ => rfl
  simp only [mapEntry, mapLiteralKind_eq, hkind]

/-- The entry of a slice or array literal; one with indexed elements is left out. -/
def sliceEntry (scope : Scope) (name : String) (spec : ValueSpec) (element : TypeExpr)
    (elements : List Element) : Noted (Option Model.Entry) :=
  if elements.any (·.key.isSome) then
    ⟨none, [⟨.initializer, name, .indexedLiteral, spec.line⟩]⟩
  else
    let r := elementResolution scope element
    match r.value with
    | .error reason => ⟨none, r.omitted ++ [⟨.initializer, name, reason, spec.line⟩]⟩
    | .ok resolution =>
      ⟨some { name := name, kind := resolution.kind, value := .items (elements.map (·.value))
              doc := spec.doc, form := .slice, origin := resolution.origin }, r.omitted⟩

theorem exists_of_sliceEntry {scope : Scope} {name : String} {spec : ValueSpec} {element : TypeExpr}
    {elements : List Element} {entry : Model.Entry}
    (h : (sliceEntry scope name spec element elements).value = some entry) :
    ∃ r, (elementResolution scope element).value = .ok r ∧ entry =
      { name := name, kind := r.kind, value := .items (elements.map (·.value))
        doc := spec.doc, form := .slice, origin := r.origin } := by
  unfold sliceEntry at h
  split at h
  · cases h
  · cases hr : (elementResolution scope element).value with
    | error reason => simp [hr] at h
    | ok r =>
      simp only [hr] at h
      cases h
      exact ⟨r, rfl, rfl⟩

def valueEntry (scope : Scope) (name : String) (spec : ValueSpec) :
    Expr → Noted (Option Model.Entry)
  | .basic kind value =>
    .pure (some { name := name, kind := kind, value := .literal value, doc := spec.doc
                  form := spec.plainForm })
  | .composite type elements =>
    match compositeType scope.index type with
    | .map _ value => mapEntry scope name spec value elements
    | .array element _ => sliceEntry scope name spec element elements
    | _ => ⟨none, [⟨.initializer, name, .compositeType type.text, spec.line⟩]⟩
  | .unsupported shape _ => ⟨none, [⟨.initializer, name, .initializer shape, spec.line⟩]⟩
  | .ident other => ⟨none, [⟨.initializer, name, .unresolved other, spec.line⟩]⟩

/-- The entry of one initial value under a name, or none and an omission. -/
def initializerEntry (scope : Scope) (name : String) (spec : ValueSpec) (value : Expr) :
    Noted (Option Model.Entry) :=
  match scope.index.dereference value with
  | .error reason => ⟨none, [⟨.initializer, name, reason, spec.line⟩]⟩
  | .ok target => valueEntry scope name spec target

/-- The name that goes with the value at a place: the name at that place when there are as many names
as values, else the first name. -/
def ValueSpec.nameFor (spec : ValueSpec) (place : Nat) : String :=
  if spec.names.length = spec.values.length then spec.names.getD place ""
  else spec.names.headD ""

def valueEntries (scope : Scope) (spec : ValueSpec) : Noted (List Model.Entry) :=
  if spec.names.isEmpty then .pure []
  else
    let steps := spec.values.zipIdx.map fun (value, place) =>
      initializerEntry scope (spec.nameFor place) spec value
    (Noted.collect steps).map fun entries => entries.filterMap id

/-- The entries of variables that are declared with a type and no value. -/
def typedEntries (scope : Scope) (spec : ValueSpec) : Noted (List Model.Entry) :=
  match spec.type with
  | none => .pure []
  | some type =>
    if spec.values.isEmpty && spec.keyword == "var" then
      let r := typeResolution scope type
      match r.value with
      | .error reason =>
        ⟨[], r.omitted ++ spec.names.map fun name => ⟨.declaration, name, reason, spec.line⟩⟩
      | .ok resolution =>
        ⟨spec.names.map fun name =>
          { name := name, kind := resolution.kind, doc := spec.doc, form := resolution.form
            isPointer := resolution.isPointer, origin := resolution.origin }, r.omitted⟩
    else .pure []

end SourceOutline
