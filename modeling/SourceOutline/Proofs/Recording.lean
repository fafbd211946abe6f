import SourceOutline.Extract.Outline
import SourceOutline.Proofs.FieldAccount

/-!
Extraction with a sink at hand. Each omission goes into the sink, if there is one, at the moment it is met;
the result is the outline that the extraction gives without a sink, and the sink only grows.
-/
namespace SourceOutline

/-- A step that may put omissions into the sink at hand. -/
abbrev Recording := StateM (Option Sink)

/-- Hands on a result and puts what was left out on the way to it into the sink. -/
def Noted.into {α : Type} (x : Noted α) : Recording α :=
  fun sink => (x.value, Sink.record sink x.omitted)

namespace Recording

/-- Puts one omission into the sink. -/
def leaveOut (subject : Subject) (name : String) (reason : Reason) (line : Int) : Recording Unit :=
  modify (Sink.record · [⟨subject, name, reason, line⟩])

mutual

def element (scope : Scope) : TypeExpr → Recording (Except Reason Resolution)
  | .array inner _ => element scope inner
  | .pointer inner => target scope inner
  | .named name => return namedElement scope name
  | .qualified package name => return .ok (qualifiedElement scope package name)
  | .struct inner => do
    let sub ← fields scope inner
    return .ok { kind := structKind, form := .slice, subFields := some sub }
  | .map key value => return .error (.elementType (TypeExpr.map key value).text)
  | .unsupported shape text => return .error (.elementType (TypeExpr.unsupported shape text).text)

def target (scope : Scope) : TypeExpr → Recording (Except Reason Resolution)
  | .named name => return namedElement scope name
  | .qualified package name => return .ok (qualifiedElement scope package name)
  | .struct inner => do
    let sub ← fields scope inner
    return .ok { kind := structKind, form := .slice, subFields := some sub }
  | .array inner length => return .error (.elementType (TypeExpr.array inner length).text)
  | .pointer inner => return .error (.elementType (TypeExpr.pointer inner).text)
  | .map key value => return .error (.elementType (TypeExpr.map key value).text)
  | .unsupported shape text => return .error (.elementType (TypeExpr.unsupported shape text).text)

def type (scope : Scope) : TypeExpr → Recording (Except Reason Resolution)
  | .named name => return .ok { kind := name }
  | .qualified package name => return .ok { kind := name, origin := some (scope.origin package name) }
  | .map _ value => return .ok (mapResolution scope value)
  | .struct inner => do
    let sub ← fields scope inner
    return .ok { kind := structKind, form := .struct, subFields := some sub }
  | .array inner _ => element scope inner
  | .pointer inner => return pointerResolution inner
  | .unsupported shape _ => return .error (.type shape)

def field (scope : Scope) : Field → Recording (List Model.Field)
  | ⟨names, declared, tag, doc, line⟩ =>
    match if names.isEmpty then (embeddedName declared).toList else names with
    | [] => do
      leaveOut .field "<embedded>" .embeddedType line
      return []
    | first :: rest => do
      match ← type scope declared with
      | .ok resolution => return modelFields (first :: rest) tag doc resolution
      | .error reason =>
        leaveOut .field first reason line
        return []

def fields (scope : Scope) : List Field → Recording (List Model.Field)
  | [] => return []
  | first :: rest => do
    let here ← field scope first
    let after ← fields scope rest
    return here ++ after

end

def mapEntries (name : String) (line : Int) (before : List (String × String)) :
    List Element → Recording (List (String × String))
  | [] => return before
  | e :: rest =>
    match e.key with
    | none => do
      leaveOut .initializer name .keylessElement line
      mapEntries name line before rest
    | some key => do
      if before.any (·.1 == key) then
        leaveOut .initializer name (.duplicateKey key) line
        mapEntries name line before rest
      else mapEntries name line (before ++ [(key, e.value)]) rest

def mapEntry (scope : Scope) (name : String) (spec : ValueSpec) (value : TypeExpr)
    (elements : List Element) : Recording (Option Model.Entry) := do
  let pairs ← mapEntries name spec.line [] elements
  let r := mapResolution scope value
  return some { name := name, kind := r.kind, value := .entries pairs, doc := spec.doc, form := .map
                origin := r.origin }

def sliceEntry (scope : Scope) (name : String) (spec : ValueSpec) (inner : TypeExpr)
    (elements : List Element) : Recording (Option Model.Entry) := do
  if elements.any (·.key.isSome) then
    leaveOut .initializer name .indexedLiteral spec.line
    return none
  else
    match ← element scope inner with
    | .error reason =>
      leaveOut .initializer name reason spec.line
      return none
    | .ok r =>
      return some { name := name, kind := r.kind, value := .items (elements.map (·.value))
                    doc := spec.doc, form := .slice, origin := r.origin }

def valueEntry (scope : Scope) (name : String) (spec : ValueSpec) :
    Expr → Recording (Option Model.Entry)
  | .basic kind value =>
    return some { name := name, kind := kind, value := .literal value, doc := spec.doc
                  form := spec.plainForm }
  | .composite type elements =>
    match compositeType scope.index type with
    | .map _ value => mapEntry scope name spec value elements
    | .array inner _ => sliceEntry scope name spec inner elements
    | _ => do
      leaveOut .initializer name (.compositeType type.text) spec.line
      return none
  | .unsupported shape _ => do
    leaveOut .initializer name (.initializer shape) spec.line
    return none
  | .ident other => do
    leaveOut .initializer name (.unresolved other) spec.line
    return none

/-- The entry of an initial value, which follows identifiers one by one and knows those it has passed. -/
def initializer (scope : Scope) (name : String) (spec : ValueSpec) (visited : List String) :
    Expr → Recording (Option Model.Entry)
  | .ident other =>
    if isBoolName other then valueEntry scope name spec (.basic "bool" other)
    else if _hv : other ∈ visited then do
      leaveOut .initializer name (.referenceCycle other) spec.line
      return none
    else match _h : scope.index.value? other with
      | none => do
        leaveOut .initializer name (.unresolved other) spec.line
        return none
      | some (_, referenced) => initializer scope name spec (other :: visited) referenced
  | value => valueEntry scope name spec value
termination_by Index.unvisited scope.index.valueNames visited
decreasing_by exact Index.unvisited_cons_lt (Index.mem_valueNames_of_value? _h) _hv

def values (scope : Scope) (spec : ValueSpec) : Recording (List Model.Entry) := do
  if spec.names.isEmpty then return []
  let found ← spec.values.zipIdx.mapM fun (value, place) =>
    initializer scope (spec.nameFor place) spec [] value
  return found.filterMap id

def typed (scope : Scope) (spec : ValueSpec) : Recording (List Model.Entry) :=
  match spec.type with
  | none => return []
  | some declared => do
    if spec.values.isEmpty && spec.keyword == "var" then
      match ← type scope declared with
      | .error reason =>
        spec.names.forM fun name => leaveOut .declaration name reason spec.line
        return []
      | .ok r =>
        return spec.names.map fun name =>
          { name := name, kind := r.kind, doc := spec.doc, form := r.form, isPointer := r.isPointer
            origin := r.origin }
    else return []

def struct (scope : Scope) (spec : TypeSpec) : Recording (Option Model.Struct) :=
  match spec.type with
  | .struct inner => do
    let found ← fields scope inner
    return some { name := spec.name, doc := spec.doc, fields := found, line := spec.line }
  | _ => return none

def decl (scope : Scope) : Decl → Recording Model.Outline
  | .type spec => do
    let found ← struct scope spec
    return { structs := found.toList }
  | .value spec => do
    let entries ← if spec.values.isEmpty then typed scope spec else values scope spec
    return { entries := entries }

def file (index : Index) (f : GoFile) : Recording Model.Outline := do
  let outlines ← f.decls.mapM (decl { index := index, imports := f.importTable })
  return Model.Outline.join outlines

/-- The outlines of files that see each other's declarations, with one sink for all of them. -/
def files (fs : List GoFile) : Recording (List Model.Outline) :=
  fs.mapM (file (Index.ofFiles fs))

end Recording

@[simp] theorem Sink.record_nil (sink : Option Sink) : Sink.record sink [] = sink := by
  cases sink <;> simp [Sink.record]

@[simp] theorem Sink.record_record (sink : Option Sink) (first second : List Omission) :
    Sink.record (Sink.record sink first) second = Sink.record sink (first ++ second) := by
  cases sink <;> simp [Sink.record]

namespace Recording

section Into

variable {α β : Type}

theorem pure_eq (a : α) : (pure a : Recording α) = (Noted.pure a).into := by
  funext sink
  simp only [Noted.into, Noted.pure, Sink.record_nil]
  rfl

/-- One step after another leaves out what the first leaves out, and then what the second does. -/
theorem into_bind (x : Noted α) (f : α → Noted β) :
    (x.into >>= fun a => (f a).into) =
      Noted.into ⟨(f x.value).value, x.omitted ++ (f x.value).omitted⟩ := by
  funext sink
  simp only [Noted.into, ← Sink.record_record]
  rfl

theorem into_map (x : Noted α) (f : α → β) :
    (x.into >>= fun a => pure (f a)) = (x.map f).into := by
  simp only [pure_eq, into_bind, Noted.pure, List.append_nil, Noted.map]

/-- A step that turns on the result before it, where that result is known. -/
theorem into_bind_of {x : Noted α} {a : α} (hx : x.value = a) {f : α → Recording β} {y : Noted β}
    (hf : f a = y.into) : (x.into >>= f) = Noted.into ⟨y.value, x.omitted ++ y.omitted⟩ := by
  have h : (x.into >>= f) = x.into >>= fun _ => y.into := by
    funext sink
    change f x.value _ = y.into _
    rw [hx, hf]
  rw [h, into_bind]

/-- Leaving something out first, whatever comes then. -/
theorem leaveOut_bind (subject : Subject) (name : String) (reason : Reason) (line : Int)
    (x : Noted α) :
    (leaveOut subject name reason line >>= fun _ => x.into) =
      Noted.into ⟨x.value, ⟨subject, name, reason, line⟩ :: x.omitted⟩ :=
  into_bind ⟨(), [⟨subject, name, reason, line⟩]⟩ fun _ => x

theorem mapM_into (f : α → Noted β) (xs : List α) :
    xs.mapM (fun a => (f a).into) = (Noted.collect (xs.map f)).into := by
  induction xs with
  | nil => rw [List.mapM_nil, pure_eq]; rfl
  | cons x rest ih =>
    rw [List.mapM_cons, ih]
    simp only [into_map, into_bind]
    rfl

theorem forM_leaveOut (names : List String) (subject : Subject) (reason : Reason) (line : Int) :
    (names.forM fun name => leaveOut subject name reason line) =
      Noted.into ⟨(), names.map fun name => ⟨subject, name, reason, line⟩⟩ := by
  induction names with
  | nil => exact pure_eq ()
  | cons name rest ih =>
    change (leaveOut subject name reason line >>= fun _ => rest.forM _) = _
    rw [ih, leaveOut_bind]
    rfl

end Into

section Types

variable (scope : Scope)

mutual

theorem element_eq : (t : TypeExpr) → element scope t = (elementResolution scope t).into
  | .array inner _ => by rw [element, elementResolution, element_eq inner]
  | .pointer inner => by rw [element, elementResolution, target_eq inner]
  | .struct inner => by rw [element, elementResolution, fields_eq inner, into_map]
  | .named _ => by rw [element, elementResolution, pure_eq]
  | .qualified _ _ => by rw [element, elementResolution, pure_eq]
  | .map _ _ => by rw [element, elementResolution, pure_eq]
  | .unsupported _ _ => by rw [element, elementResolution, pure_eq]

theorem target_eq : (t : TypeExpr) → target scope t = (targetResolution scope t).into
  | .struct inner => by rw [target, targetResolution, fields_eq inner, into_map]
  | .named _ => by rw [target, targetResolution, pure_eq]
  | .qualified _ _ => by rw [target, targetResolution, pure_eq]
  | .array _ _ => by rw [target, targetResolution, pure_eq]
  | .pointer _ => by rw [target, targetResolution, pure_eq]
  | .map _ _ => by rw [target, targetResolution, pure_eq]
  | .unsupported _ _ => by rw [target, targetResolution, pure_eq]

theorem type_eq : (t : TypeExpr) → type scope t = (typeResolution scope t).into
  | .struct inner => by rw [type, typeResolution, fields_eq inner, into_map]
  | .array inner _ => by rw [type, typeResolution, element_eq inner]
  | .named _ => by rw [type, typeResolution, pure_eq]
  | .qualified _ _ => by rw [type, typeResolution, pure_eq]
  | .map _ _ => by rw [type, typeResolution, pure_eq]
  | .pointer _ => by rw [type, typeResolution, pure_eq]
  | .unsupported _ _ => by rw [type, typeResolution, pure_eq]

theorem field_eq : (f : Field) → field scope f = (classifyField scope f).into
  | ⟨names, declared, tag, doc, line⟩ => by
    -- by the cases of the names a field is declared under, as the embedded name counts as one of them
    rw [field, type_eq declared, classifyField_cases]
    simp only [pure_eq, leaveOut_bind, Field.declaredNames]
    split
    · next h => rw [h]; rfl
    · next first rest h =>
      rw [h]
      simp only [List.isEmpty_cons, Bool.false_eq_true, if_false, classifyField.settle]
      cases hv : (typeResolution scope declared).value with
      | ok r => rw [into_bind_of hv rfl, Noted.pure, List.append_nil]
      | error reason => rw [into_bind_of hv rfl]; rfl

theorem fields_eq : (fs : List Field) → fields scope fs = (extractFields scope fs).into
  | [] => by rw [fields, extractFields, pure_eq]
  | first :: rest => by
    rw [fields, extractFields, field_eq first, fields_eq rest]
    simp only [into_map, into_bind]
    rfl

end

end Types

section Values

variable (scope : Scope) (name : String) (spec : ValueSpec)

theorem mapEntries_eq (line : Int) (before : List (String × String)) (elements : List Element) :
    mapEntries name line before elements = (SourceOutline.mapEntries name line before elements).into := by
  induction elements generalizing before with
  | nil => rw [mapEntries, SourceOutline.mapEntries, pure_eq]
  | cons e rest ih =>
    rw [mapEntries, SourceOutline.mapEntries]
    cases e.key with
    | none => simp only [ih, leaveOut_bind]
    | some key =>
      by_cases hk : before.any (·.1 == key) = true
      · simp only [hk, if_true, ih, leaveOut_bind]
      · simp only [hk, ih]
        rfl

theorem mapEntry_eq (value : TypeExpr) (elements : List Element) :
    mapEntry scope name spec value elements =
      (SourceOutline.mapEntry scope name spec value elements).into := by
  rw [mapEntry, SourceOutline.mapEntry, mapLiteralKind_eq, mapEntries_eq, into_map]

theorem sliceEntry_eq (inner : TypeExpr) (elements : List Element) :
    sliceEntry scope name spec inner elements =
      (SourceOutline.sliceEntry scope name spec inner elements).into := by
  rw [sliceEntry, SourceOutline.sliceEntry, element_eq]
  simp only [pure_eq, leaveOut_bind]
  split
  · rfl
  · cases hv : (elementResolution scope inner).value with
    | ok r => rw [into_bind_of hv rfl, Noted.pure, List.append_nil]
    | error reason => rw [into_bind_of hv rfl]; rfl

theorem valueEntry_eq (e : Expr) :
    valueEntry scope name spec e = (SourceOutline.valueEntry scope name spec e).into := by
  cases e with
  | basic kind value => rw [valueEntry, SourceOutline.valueEntry, pure_eq]
  | composite type elements =>
    rw [valueEntry, SourceOutline.valueEntry]
    simp only [mapEntry_eq, sliceEntry_eq, pure_eq, leaveOut_bind]
    cases compositeType scope.index type <;> rfl
  | unsupported shape text =>
    rw [valueEntry, SourceOutline.valueEntry, pure_eq, leaveOut_bind]
    rfl
  | ident other =>
    rw [valueEntry, SourceOutline.valueEntry, pure_eq, leaveOut_bind]
    rfl

theorem initializer_step (visited : List String) (other : String) :
    initializer scope name spec visited (.ident other) =
      if isBoolName other then (SourceOutline.valueEntry scope name spec (.basic "bool" other)).into
      else if other ∈ visited then
        Noted.into ⟨none, [⟨.initializer, name, .referenceCycle other, spec.line⟩]⟩
      else match scope.index.value? other with
        | none => Noted.into ⟨none, [⟨.initializer, name, .unresolved other, spec.line⟩]⟩
        | some (_, referenced) => initializer scope name spec (other :: visited) referenced := by
  rw [initializer]
  simp only [valueEntry_eq, pure_eq, leaveOut_bind]
  split
  · rfl
  · split
    · rfl
    · split
      · next h => rw [h]; rfl
      · next h => rw [h]

/-- A value that is no identifier is not followed. -/
theorem initializer_of_not_ident (visited : List String) {e : Expr} (h : ∀ other, e ≠ .ident other) :
    initializer scope name spec visited e = (SourceOutline.valueEntry scope name spec e).into := by
  cases e with
  | ident other => exact absurd rfl (h other)
  | _ => rw [initializer, valueEntry_eq]; exact h

/-- Following identifiers one by one, with the sink at hand, comes to the entry of the value at their end. -/
theorem initializer_ident (visited : List String) (other : String) :
    initializer scope name spec visited (.ident other) =
      match scope.index.follow visited other with
      | .error reason => Noted.into ⟨none, [⟨.initializer, name, reason, spec.line⟩]⟩
      | .ok value => (SourceOutline.valueEntry scope name spec value).into := by
  -- both sides take the same branch at each name of the chain
  fun_induction Index.follow scope.index visited other with
  | case1 visited other hb => rw [initializer_step, if_pos hb]
  | case2 visited other hb hv => rw [initializer_step, if_neg hb, if_pos hv]
  | case3 visited other hb hv hn => rw [initializer_step, if_neg hb, if_neg hv, hn]
  | case4 visited other hb hv found next hs ih =>
    rw [initializer_step, if_neg hb, if_neg hv, hs]
    exact ih
  | case5 visited other hb hv found value hi hs =>
    rw [initializer_step, if_neg hb, if_neg hv, hs]
    exact initializer_of_not_ident scope name spec _ fun next heq => hi next heq

theorem initializer_eq (e : Expr) :
    initializer scope name spec [] e = (initializerEntry scope name spec e).into := by
  cases e with
  | ident other =>
    rw [initializer_ident, initializerEntry, Index.dereference]
    cases scope.index.follow [] other <;> rfl
  | _ =>
    rw [initializer_of_not_ident scope name spec [] (fun _ => Expr.noConfusion)]
    rfl

theorem values_eq : values scope spec = (valueEntries scope spec).into := by
  rw [values, valueEntries]
  simp only [initializer_eq, mapM_into, into_map]
  split
  · exact pure_eq _
  · rfl

theorem typed_eq : typed scope spec = (typedEntries scope spec).into := by
  rw [typed, typedEntries]
  cases spec.type with
  | none => exact pure_eq _
  | some declared =>
    simp only [type_eq, forM_leaveOut, into_map]
    simp only [pure_eq]
    split
    · cases hv : (typeResolution scope declared).value with
      | error reason => rw [into_bind_of hv rfl]; rfl
      | ok r => rw [into_bind_of hv rfl, Noted.pure, List.append_nil]
    · rfl

end Values

section Outlines

variable (scope : Scope)

theorem struct_eq (spec : TypeSpec) : struct scope spec = (structOf scope spec).into := by
  rw [struct, structOf]
  cases spec.type with
  | struct inner => simp only [fields_eq, into_map]
  | _ => exact pure_eq _

theorem decl_eq (d : Decl) : decl scope d = (declOutline scope d).into := by
  cases d with
  | type spec => rw [decl, declOutline, struct_eq, into_map]
  | value spec =>
    rw [decl, declOutline, typed_eq, values_eq]
    split
    · exact into_map _ _
    · exact into_map _ _

theorem file_eq (index : Index) (f : GoFile) : file index f = (fileOutline index f).into := by
  rw [file, fileOutline, funext (decl_eq _), mapM_into, into_map]

/-- Extraction with one sink for all files at hand is extraction and then the recording of what it left
out. -/
theorem files_eq (fs : List GoFile) : files fs = (Noted.collect (packageOutlines fs)).into := by
  rw [files, packageOutlines, funext (file_eq _), mapM_into]

theorem run_files (fs : List GoFile) (sink : Option Sink) :
    (files fs).run sink = extractFiles sink fs := by
  rw [files_eq]
  rfl

end Outlines

end Recording

/-- A sink changes nothing about the outlines: they are the same with no sink and with any, and a sink
gains, after what it holds, omissions that the files alone decide. This holds whether each omission is
put into the sink when it is met, or all of them in the end. -/
theorem outlines_of_any_sink (files : List GoFile) :
    ∃ outlines omitted, ∀ sink : Option Sink,
      (Recording.files files).run sink =
          (outlines, sink.map fun s => { s with omissions := s.omissions ++ omitted }) ∧
        extractFiles sink files =
          (outlines, sink.map fun s => { s with omissions := s.omissions ++ omitted }) := by
  refine ⟨(packageOutlines files).map (·.value), (packageOutlines files).flatMap (·.omitted),
    fun sink => ⟨?_, rfl⟩⟩
  exact Recording.run_files files sink

end SourceOutline
