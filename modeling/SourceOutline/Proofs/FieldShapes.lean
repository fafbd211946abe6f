import SourceOutline.Proofs.Provenance

/-!
The shapes that fields of the model have. A declared type comes to one of a few shapes; so the attributes of a field
fit together, at every depth, and each field can be traced to the declaration that it stands for.
-/
namespace SourceOutline

/-- The attributes of a field fit together. -/
structure Model.Field.WellFormed (m : Model.Field) : Prop where
  not_const : m.form ≠ .const
  of_pointer : m.isPointer = true → m.form = .var ∧ m.origin = none ∧ m.subFields = none
  of_origin : ∀ o, m.origin = some o → o.entity = m.kind ∧ m.subFields = none
  of_subFields : ∀ subs, m.subFields = some subs → m.kind = "struct" ∧ (m.form = .struct ∨ m.form = .slice)
  of_struct : m.form = .struct → ∃ subs, m.subFields = some subs

section Shape

variable {scope : Scope} {r : Resolution}

/-- What a declared type can come to: a plain name or a qualified one, which can be the type of a variable, of the
values of a map or of the elements of a slice; a pointer to a name; or an anonymous struct, alone or in a slice. -/
inductive Resolution.Shape : Resolution → Prop
  | named (kind : String) {form : Model.Form} (hform : form = .var ∨ form = .map ∨ form = .slice) :
      Shape { kind := kind, form := form }
  | imported (o : Model.Origin) {form : Model.Form} (hform : form = .var ∨ form = .map ∨ form = .slice) :
      Shape { kind := o.entity, form := form, origin := some o }
  | pointer (kind : String) : Shape { kind := kind, isPointer := true }
  | nested (subs : List Model.Field) {form : Model.Form} (hform : form = .struct ∨ form = .slice) :
      Shape { kind := structKind, form := form, subFields := some subs }

theorem namedElement_shape {name : String} (h : namedElement scope name = .ok r) :
    r.Shape ∧ r.form = .slice := by
  cases hresolve : scope.index.resolve name with
  | error cycle =>
    simp only [namedElement, hresolve] at h
    cases h
  | ok type =>
    rcases Index.walk_ok_shape hresolve with ⟨kind, rfl⟩ | ⟨package, kind, rfl⟩
    · simp only [namedElement, hresolve] at h
      cases h
      exact ⟨.named kind (Or.inr (Or.inr rfl)), rfl⟩
    · simp only [namedElement, hresolve] at h
      cases h
      exact ⟨.imported (scope.origin package kind) (Or.inr (Or.inr rfl)), rfl⟩

theorem elementResolution_shape {t : TypeExpr} (h : (elementResolution scope t).value = .ok r) :
    r.Shape ∧ r.form = .slice := by
  rw [elementResolution_eq] at h
  cases hcore : t.innermost.pointee with
  | named name =>
    rw [hcore, targetResolution] at h
    exact namedElement_shape h
  | qualified package name =>
    rw [hcore, targetResolution] at h
    cases h
    exact ⟨.imported (scope.origin package name) (Or.inr (Or.inr rfl)), rfl⟩
  | struct fields =>
    rw [hcore, targetResolution] at h
    cases h
    exact ⟨.nested _ (Or.inr rfl), rfl⟩
  | _ =>
    rw [hcore, targetResolution] at h
    cases h

theorem Resolution.Shape.not_pointer (h : r.Shape) (hform : r.form ≠ .var) : r.isPointer = false := by
  cases h with
  | pointer kind => exact absurd rfl hform
  | _ => rfl

/-- A declared type comes to one of the shapes, whatever it is declared as. -/
theorem typeResolution_shape {t : TypeExpr} (h : (typeResolution scope t).value = .ok r) : r.Shape := by
  cases t with
  | named name =>
    rw [typeResolution] at h
    cases h
    exact .named name (Or.inl rfl)
  | qualified package name =>
    rw [typeResolution] at h
    cases h
    exact .imported (scope.origin package name) (Or.inl rfl)
  | map key value =>
    rw [typeResolution] at h
    cases h
    cases value with
    | qualified package name => exact .imported (scope.origin package name) (Or.inr (Or.inl rfl))
    | _ => exact .named _ (Or.inr (Or.inl rfl))
  | struct fields =>
    rw [typeResolution] at h
    cases h
    exact .nested _ (Or.inl rfl)
  | array element length =>
    rw [typeResolution] at h
    exact (elementResolution_shape h).1
  | pointer target =>
    rw [typeResolution] at h
    cases target with
    | named name =>
      cases h
      exact .pointer name
    | _ => cases h
  | unsupported shape text =>
    rw [typeResolution] at h
    cases h

theorem Resolution.form_of_named {form : Model.Form} (h : form = .var ∨ form = .map ∨ form = .slice) :
    form ≠ .const ∧ form ≠ .struct := by
  rcases h with rfl | rfl | rfl <;> simp

/-- The attributes fit together in each of the shapes. -/
theorem Resolution.Shape.wellFormed (h : r.Shape) (name tag : String) (doc : Option String) :
    Model.Field.WellFormed
      { name := name, kind := r.kind, tag := tag, doc := doc, isPointer := r.isPointer
        origin := r.origin, subFields := r.subFields, form := r.form } := by
  cases h with
  | named kind hform =>
    obtain ⟨hconst, hstruct⟩ := form_of_named hform
    constructor
    · exact hconst
    · simp
    · simp
    · simp
    · intro h
      exact absurd h hstruct
  | imported o hform =>
    obtain ⟨hconst, hstruct⟩ := form_of_named hform
    constructor
    · exact hconst
    · simp
    · rintro other ⟨⟩
      exact ⟨rfl, rfl⟩
    · simp
    · intro h
      exact absurd h hstruct
  | pointer kind => constructor <;> simp
  | nested subs hform =>
    constructor
    · rcases hform with rfl | rfl <;> simp
    · simp
    · simp
    · rintro others ⟨⟩
      exact ⟨rfl, hform⟩
    · intro hstruct
      exact ⟨subs, rfl⟩

end Shape

section Declarations

/-- What a declaration gives to a field of the model as it is: a name, the tag and the doc. -/
structure Field.Labels (f : Field) (m : Model.Field) : Prop where
  name : m.name ∈ f.declaredNames
  tag : m.tag = f.tag
  doc : m.doc = f.doc

mutual

/-- A field of the model stands for a declaration: its attributes fit together, it has the name, tag and doc from
there, and its sub-fields stand for the declarations in the anonymous struct of the declared type. -/
inductive StandsFor (index : Index) : Model.Field → Field → Prop
  | plain {m : Model.Field} {f : Field} (hformed : m.WellFormed) (hlabels : f.Labels m)
      (hsub : m.subFields = none) : StandsFor index m f
  | nested {m : Model.Field} {f : Field} {subs : List Model.Field} {inner : List Field}
      (hformed : m.WellFormed) (hlabels : f.Labels m) (hsub : m.subFields = some subs)
      (hinner : f.type.anonymous? = some inner) (hbelow : StandForAll index subs inner) : StandsFor index m f

/-- Fields stand for a list of declarations: for each, in order, there is one field for each of its names, or none
where it cannot be classified. -/
inductive StandForAll (index : Index) : List Model.Field → List Field → Prop
  | nil : StandForAll index [] []
  | keep {here after : List Model.Field} {f : Field} {rest : List Field}
      (hf : f.classifiable index = true) (hnames : here.map (·.name) = f.declaredNames)
      (hhere : ∀ m ∈ here, StandsFor index m f) (hrest : StandForAll index after rest) :
      StandForAll index (here ++ after) (f :: rest)
  | drop {after : List Model.Field} {f : Field} {rest : List Field} (hf : f.classifiable index = false)
      (hrest : StandForAll index after rest) : StandForAll index after (f :: rest)

end

variable {index : Index}

mutual

theorem StandsFor.deep_wellFormed :
    {m : Model.Field} → {f : Field} → StandsFor index m f → ∀ k ∈ m.deep, k.WellFormed
  | m, _, .plain hformed _ hsub, k, hk => by
    rw [Model.Field.deep_eq, hsub] at hk
    obtain rfl : k = m := by simpa [Model.deepSub] using hk
    exact hformed
  | m, _, .nested hformed _ hsub _ hbelow, k, hk => by
    rw [Model.Field.deep_eq, hsub] at hk
    rcases List.mem_cons.1 hk with rfl | hin
    · exact hformed
    · exact hbelow.deep_wellFormed k hin

theorem StandForAll.deep_wellFormed :
    {ms : List Model.Field} → {fields : List Field} → StandForAll index ms fields →
      ∀ k ∈ Model.deepFields ms, k.WellFormed
  | _, _, .nil, k, hk => by simp [Model.deepFields] at hk
  | _, _, .keep _ _ hhere hrest, k, hk => by
    obtain ⟨top, htop, hin⟩ := Model.mem_deepFields.1 hk
    rcases List.mem_append.1 htop with hfirst | hlater
    · exact (hhere top hfirst).deep_wellFormed k hin
    · exact hrest.deep_wellFormed k (Model.mem_deepFields.2 ⟨top, hlater, hin⟩)
  | _, _, .drop _ hrest, k, hk => hrest.deep_wellFormed k hk

end

end Declarations

section Classified

variable (scope : Scope)

theorem classifyField_names (f : Field) :
    (classifyField scope f).value.map (·.name) =
      if f.classifiable scope.index then f.declaredNames else [] := by
  have hvalue := congrArg (List.map (·.1)) (classifyField_value scope f)
  rw [List.map_map] at hvalue
  have hsame : (classifyField scope f).value.map (·.name) = _ := hvalue
  rw [hsame]
  split
  · simp [Function.comp_def]
  · rfl

/-- The fields of one declaration stand for it, if those of its anonymous struct do. -/
theorem standsFor_of_inner {f : Field}
    (hinner : ∀ inner, f.type.anonymous? = some inner →
      StandForAll scope.index (extractFields scope inner).value inner)
    {m : Model.Field} (hm : m ∈ (classifyField scope f).value) : StandsFor scope.index m f := by
  obtain ⟨r, hr, name, hname, rfl⟩ := exists_of_mem_classifyField scope hm
  have hformed := (typeResolution_shape hr).wellFormed name f.tag f.doc
  have hsub := typeResolution_subFields scope hr
  cases ha : f.type.anonymous? with
  | none =>
    rw [ha] at hsub
    exact .plain hformed ⟨hname, rfl, rfl⟩ hsub
  | some inner =>
    rw [ha] at hsub
    exact .nested hformed ⟨hname, rfl, rfl⟩ hsub ha (hinner inner ha)

theorem standForAll_of_each {fields : List Field}
    (h : ∀ f ∈ fields, ∀ m ∈ (classifyField scope f).value, StandsFor scope.index m f) :
    StandForAll scope.index (extractFields scope fields).value fields := by
  induction fields with
  | nil => exact .nil
  | cons f rest ih =>
    have hrest := ih fun other hother => h other (List.mem_cons_of_mem _ hother)
    have hnames := classifyField_names scope f
    rw [extractFields]
    cases hf : f.classifiable scope.index with
    | true =>
      rw [if_pos hf] at hnames
      exact .keep hf hnames (h f List.mem_cons_self) hrest
    | false =>
      have hnone : (classifyField scope f).value = [] := by simpa [hf] using hnames
      rw [hnone]
      exact .drop hf hrest

/-- The fields of a struct stand for its declarations, by induction through the anonymous structs. -/
theorem extractFields_standForAll (fields : List Field) :
    StandForAll scope.index (extractFields scope fields).value fields := by
  induction fields using Field.nested_induction with
  | step fields ih =>
    apply standForAll_of_each
    intro f hf m hm
    exact standsFor_of_inner scope (ih f hf) hm

/-- Every field that a declaration comes to is well-formed, as are the fields inside it at every depth.

There is one field for each name of the declaration, or none where it cannot be classified. Each has the tag and
doc of the declaration, and each field inside it those of the declaration that it stands for in turn. -/
theorem classifyField_wellFormed (f : Field) :
    (classifyField scope f).value.map (·.name) =
        (if f.classifiable scope.index then f.declaredNames else []) ∧
      ∀ m ∈ (classifyField scope f).value, StandsFor scope.index m f ∧ ∀ k ∈ m.deep, k.WellFormed := by
  refine ⟨classifyField_names scope f, ?_⟩
  intro m hm
  have hstands := standsFor_of_inner scope (fun inner _ => extractFields_standForAll scope inner) hm
  exact ⟨hstands, hstands.deep_wellFormed⟩

end Classified

/-- Two fields of one struct in a slice, with an import, an embedded pointer, a struct and a pointer to an array. -/
private def legsField : Field :=
  { names := ["outward", "back"], tag := "json:legs", doc := some "both legs"
    type := .array (.pointer (.struct [
      { names := ["at"], type := .qualified "time" "Time", doc := some "departure" },
      { names := [], type := .pointer (.named "Train"), tag := "yaml:train" },
      { names := ["stops"], type := .struct [
        { names := ["hosts"], type := .map (.named "int") (.qualified "net" "Host"), tag := "json:hosts" }] },
      { names := ["seats"], type := .pointer (.array (.named "int") none) }])) none }

theorem classifyField_wellFormed_legs :
    (classifyField {} legsField).value.map (·.name) = ["outward", "back"] ∧
      ∃ m ∈ (classifyField {} legsField).value, StandsFor {} m legsField ∧
        m.deep.map (fun k => (k.name, k.tag)) =
          [("outward", "json:legs"), ("at", ""), ("Train", "yaml:train"), ("stops", ""),
            ("hosts", "json:hosts")] ∧
        ∀ k ∈ m.deep, k.WellFormed := by
  obtain ⟨hnames, hall⟩ := classifyField_wellFormed {} legsField
  refine ⟨hnames, _, List.mem_cons_self, ?_⟩
  obtain ⟨hstands, hdeep⟩ := hall _ List.mem_cons_self
  exact ⟨hstands, rfl, hdeep⟩

end SourceOutline
