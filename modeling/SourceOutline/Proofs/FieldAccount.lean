import SourceOutline.Proofs.Coverage

/-!
An account of the fields of a struct: each declared field is either in the model, once for each of its
names, or among the omissions, at whatever depth it is met.
-/
namespace SourceOutline

/-- The names a field is declared under: its own, or that of the type it embeds. -/
def Field.declaredNames (f : Field) : List String :=
  if f.names.isEmpty then (embeddedName f.type).toList else f.names

/-- The name that the omission of a field carries. -/
def Field.label (f : Field) : String :=
  f.declaredNames.headD "<embedded>"

/-- Whether a field has a place in the model: it has a name, and its type is covered. -/
def Field.classifiable (index : Index) (f : Field) : Bool :=
  !f.declaredNames.isEmpty && index.covers f.type

mutual

/-- The fields met in a type, in document order. -/
def TypeExpr.fieldsMet : TypeExpr → List Field
  | .struct fields => fieldsMet fields
  | .array element _ => element.elementFieldsMet
  | _ => []

def TypeExpr.elementFieldsMet : TypeExpr → List Field
  | .array element _ => element.elementFieldsMet
  | .pointer target => target.targetFieldsMet
  | .struct fields => fieldsMet fields
  | _ => []

def TypeExpr.targetFieldsMet : TypeExpr → List Field
  | .struct fields => fieldsMet fields
  | _ => []

/-- A field, and then the fields met in its type. The type of an embedded field is not entered. -/
def Field.met : Field → List Field
  | ⟨names, type, tag, doc, line⟩ =>
    ⟨names, type, tag, doc, line⟩ :: if names.isEmpty then [] else type.fieldsMet

/-- The fields of a list and those met in their types, in document order. -/
def fieldsMet : List Field → List Field
  | [] => []
  | field :: rest => field.met ++ fieldsMet rest

end

theorem TypeExpr.elementFieldsMet_eq (t : TypeExpr) :
    t.elementFieldsMet = t.innermost.pointee.targetFieldsMet := by
  fun_induction TypeExpr.innermost t with
  | case1 element length ih => rw [TypeExpr.elementFieldsMet, ih]
  | case2 t ht =>
    cases t with
    | array element length => exact absurd rfl (ht element length)
    | _ => rfl

theorem TypeExpr.fieldsMet_eq (t : TypeExpr) :
    t.fieldsMet = (t.anonymous?.map SourceOutline.fieldsMet).getD [] := by
  cases t with
  | array element length =>
    rw [TypeExpr.fieldsMet, TypeExpr.elementFieldsMet_eq, TypeExpr.anonymous?]
    cases element.innermost.pointee <;> rfl
  | _ => rfl

theorem TypeExpr.fieldsMet_of_embeddedName {t : TypeExpr} {name : String}
    (h : embeddedName t = some name) : t.fieldsMet = [] := by
  cases t with
  | struct fields => simp [embeddedName] at h
  | array element length => simp [embeddedName] at h
  | _ => rfl

section Account

/-- What an omission says apart from its reason. -/
def Omission.site (o : Omission) : Subject × String × Int :=
  (o.subject, o.name, o.line)

/-- Where the fields without a place in the model are reported. -/
def missedSites (index : Index) (met : List Field) : List (Subject × String × Int) :=
  (met.filter (!·.classifiable index)).map fun f => (.field, f.label, f.line)

variable (scope : Scope)

theorem missedSites_append (index : Index) (met more : List Field) :
    missedSites index (met ++ more) = missedSites index met ++ missedSites index more := by
  simp [missedSites]

theorem missedSites_cons (index : Index) (f : Field) (met : List Field) :
    missedSites index (f :: met) =
      if f.classifiable index then missedSites index met
      else (.field, f.label, f.line) :: missedSites index met := by
  by_cases hc : f.classifiable index
  · simp [missedSites, hc]
  · simp [missedSites, hc]

theorem classifyField_cases (f : Field) :
    classifyField scope f =
      if f.declaredNames.isEmpty then ⟨[], [⟨.field, "<embedded>", .embeddedType, f.line⟩]⟩
      else classifyField.settle f.declaredNames (typeResolution scope f.type) f.tag f.doc f.line := by
  obtain ⟨names, type, tag, doc, line⟩ := f
  unfold classifyField
  cases names with
  | nil =>
    cases he : embeddedName type with
    | none => simp [Field.declaredNames, he]
    | some name => simp [Field.declaredNames, he]
  | cons first rest => simp [Field.declaredNames]

theorem exists_of_mem_classifyField {f : Field} {m : Model.Field} (hm : m ∈ (classifyField scope f).value) :
    ∃ r, (typeResolution scope f.type).value = .ok r ∧ ∃ name ∈ f.declaredNames, m =
      { name := name, kind := r.kind, tag := f.tag, doc := f.doc, isPointer := r.isPointer
        origin := r.origin, subFields := r.subFields, form := r.form } := by
  rw [classifyField_cases] at hm
  split at hm
  · simp at hm
  · unfold classifyField.settle at hm
    cases hr : (typeResolution scope f.type).value with
    | error reason => simp [hr] at hm
    | ok r =>
      simp only [hr] at hm
      obtain ⟨name, hname, rfl⟩ := List.mem_map.1 hm
      exact ⟨r, rfl, name, hname, rfl⟩

theorem Field.met_eq {f : Field} (hn : f.declaredNames ≠ []) : f.met = f :: f.type.fieldsMet := by
  obtain ⟨names, type, tag, doc, line⟩ := f
  rw [Field.met]
  cases names with
  | nil =>
    cases he : embeddedName type with
    | none => simp [Field.declaredNames, he] at hn
    | some name => simp [TypeExpr.fieldsMet_of_embeddedName he]
  | cons first rest => rfl

theorem Field.met_of_unnamed {f : Field} (hn : f.declaredNames = []) : f.met = [f] := by
  obtain ⟨names, type, tag, doc, line⟩ := f
  rw [Field.met]
  cases names with
  | nil => rfl
  | cons first rest => simp [Field.declaredNames] at hn

/-- The account of one field follows from the account of its type. -/
theorem classifyField_sites {f : Field}
    (h : (typeResolution scope f.type).omitted.map Omission.site =
      missedSites scope.index f.type.fieldsMet) :
    (classifyField scope f).omitted.map Omission.site = missedSites scope.index f.met := by
  rw [classifyField_cases]
  by_cases hn : f.declaredNames = []
  · have hc : f.classifiable scope.index = false := by simp [Field.classifiable, hn]
    simp [hn, Field.met_of_unnamed hn, missedSites, hc, Field.label, Omission.site]
  · have hcovers := typeResolution_toBool scope f.type
    obtain ⟨first, rest, hnames⟩ := List.exists_cons_of_ne_nil hn
    rw [Field.met_eq hn]
    cases hv : (typeResolution scope f.type).value with
    | ok r =>
      have hc : f.classifiable scope.index = true := by
        simp [Field.classifiable, hn, ← hcovers, hv, Except.toBool]
      have homit : (classifyField.settle f.declaredNames (typeResolution scope f.type) f.tag f.doc
          f.line).omitted = (typeResolution scope f.type).omitted := by
        simp only [classifyField.settle, hv]
      rw [if_neg (by simpa using hn), homit, missedSites_cons, if_pos hc]
      exact h
    | error reason =>
      have hcov : scope.index.covers f.type = false := by simp [← hcovers, hv, Except.toBool]
      have hc : ¬f.classifiable scope.index = true := by simp [Field.classifiable, hcov]
      -- a type that is not covered holds no anonymous struct, so nothing was met before the field
      have hnone : f.type.fieldsMet = [] := by
        rw [TypeExpr.fieldsMet_eq]
        cases ha : f.type.anonymous? with
        | none => rfl
        | some inner => simp [Index.covers_of_anonymous? ha] at hcov
      have homit : (typeResolution scope f.type).omitted = [] := by
        rw [hnone] at h
        exact List.map_eq_nil_iff.1 h
      rw [if_neg (by simpa using hn), hnone, missedSites_cons, if_neg hc]
      simp [classifyField.settle, hv, homit, hnames, Omission.site, Field.label, missedSites]

mutual

theorem elementResolution_sites : (t : TypeExpr) →
    (elementResolution scope t).omitted.map Omission.site =
      missedSites scope.index t.elementFieldsMet
  | .array element _ => elementResolution_sites element
  | .pointer target => targetResolution_sites target
  | .struct fields => extractFields_sites fields
  | .named _ => rfl
  | .qualified _ _ => rfl
  | .map _ _ => rfl
  | .unsupported _ _ => rfl

theorem targetResolution_sites : (t : TypeExpr) →
    (targetResolution scope t).omitted.map Omission.site =
      missedSites scope.index t.targetFieldsMet
  | .struct fields => extractFields_sites fields
  | .named _ => rfl
  | .qualified _ _ => rfl
  | .array _ _ => rfl
  | .pointer _ => rfl
  | .map _ _ => rfl
  | .unsupported _ _ => rfl

theorem typeResolution_sites : (t : TypeExpr) →
    (typeResolution scope t).omitted.map Omission.site = missedSites scope.index t.fieldsMet
  | .struct fields => extractFields_sites fields
  | .array element _ => elementResolution_sites element
  | .named _ => rfl
  | .qualified _ _ => rfl
  | .map _ _ => rfl
  | .pointer _ => rfl
  | .unsupported _ _ => rfl

theorem field_sites : (f : Field) →
    (classifyField scope f).omitted.map Omission.site = missedSites scope.index f.met
  | ⟨_, type, _, _, _⟩ => classifyField_sites scope (typeResolution_sites type)

theorem extractFields_sites : (fields : List Field) →
    (extractFields scope fields).omitted.map Omission.site =
      missedSites scope.index (fieldsMet fields)
  | [] => rfl
  | field :: rest => by
    rw [extractFields, fieldsMet, missedSites_append, List.map_append, field_sites field,
      extractFields_sites rest]

end

theorem classifyField_value (f : Field) :
    (classifyField scope f).value.map (fun m => (m.name, m.tag, m.doc, m.subFields)) =
      if f.classifiable scope.index then
        f.declaredNames.map fun name =>
          (name, f.tag, f.doc, f.type.anonymous?.map fun inner => (extractFields scope inner).value)
      else [] := by
  have hcovers := typeResolution_toBool scope f.type
  rw [classifyField_cases]
  by_cases hn : f.declaredNames = []
  · simp [Field.classifiable, hn]
  · cases hv : (typeResolution scope f.type).value with
    | ok r =>
      have hc : f.classifiable scope.index = true := by
        simp [Field.classifiable, hn, ← hcovers, hv, Except.toBool]
      have hsub := typeResolution_subFields scope hv
      simp [hn, hc, classifyField.settle, hv, modelFields, hsub]
    | error reason =>
      have hc : f.classifiable scope.index = false := by
        simp [Field.classifiable, ← hcovers, hv, Except.toBool]
      simp [hn, hc, classifyField.settle, hv]

/-- No field of a struct is lost: the model has one field for each name of each classifiable field, in the
order of declaration, and the omissions are those of the other fields at every depth, in document order. -/
theorem extractFields_account (fields : List Field) :
    (extractFields scope fields).value.map (fun m => (m.name, m.tag, m.doc, m.subFields)) =
        ((fields.filter (·.classifiable scope.index)).flatMap fun f =>
          f.declaredNames.map fun name =>
            (name, f.tag, f.doc,
              f.type.anonymous?.map fun inner => (extractFields scope inner).value)) ∧
      (extractFields scope fields).omitted.map (fun o => (o.subject, o.name, o.line)) =
        ((fieldsMet fields).filter (!·.classifiable scope.index)).map fun f =>
          (Subject.field, f.label, f.line) := by
  refine ⟨?_, extractFields_sites scope fields⟩
  induction fields with
  | nil => rfl
  | cons field rest ih =>
    rw [extractFields, List.map_append, classifyField_value, ih]
    by_cases hc : field.classifiable scope.index
    · simp [hc]
    · simp [hc]

end Account

end SourceOutline
