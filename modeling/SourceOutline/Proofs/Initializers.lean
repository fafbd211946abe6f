import SourceOutline.Extract.Outline
import SourceOutline.Proofs.FieldAccount
import SourceOutline.Proofs.MapLiteral

/-!
An account of initial values: each comes to one entry or to one omission, and a map literal adds one
omission for each element that is not in the map.
-/
namespace SourceOutline

/-- Whether a reason is about an element of a literal and not about the literal. -/
def Reason.isElement : Reason → Bool
  | .keylessElement => true
  | .duplicateKey _ => true
  | _ => false

/-- Whether an omission stands for an initial value that has no entry. -/
def Omission.dropsInitializer (o : Omission) : Bool :=
  o.subject = .initializer && !o.reason.isElement

section Resolution

variable (scope : Scope)

theorem subject_of_missedSites {index : Index} {met : List Field} {omitted : List Omission}
    (h : omitted.map Omission.site = missedSites index met) {o : Omission} (ho : o ∈ omitted) :
    o.subject = .field := by
  have hs : o.site ∈ missedSites index met := h ▸ List.mem_map_of_mem ho
  obtain ⟨f, -, hf⟩ := List.mem_map.1 hs
  exact (congrArg Prod.fst hf).symm

theorem namedElement_error {name : String} {reason : Reason}
    (h : namedElement scope name = .error reason) : reason.isElement = false := by
  simp only [namedElement] at h
  split at h
  · cases h; rfl
  · cases h
  · cases h
  · cases h; rfl

theorem targetResolution_error {t : TypeExpr} {reason : Reason}
    (h : (targetResolution scope t).value = .error reason) :
    (targetResolution scope t).omitted = [] ∧ reason.isElement = false := by
  cases t with
  | named name =>
    rw [targetResolution] at h ⊢
    exact ⟨rfl, namedElement_error scope h⟩
  | qualified package name => rw [targetResolution] at h; cases h
  | struct fields => rw [targetResolution] at h; cases h
  | _ =>
    rw [targetResolution] at h ⊢
    cases h
    exact ⟨rfl, rfl⟩

/-- Elements that are not covered leave nothing else out. -/
theorem elementResolution_error {t : TypeExpr} {reason : Reason}
    (h : (elementResolution scope t).value = .error reason) :
    (elementResolution scope t).omitted = [] ∧ reason.isElement = false := by
  rw [elementResolution_eq] at h ⊢
  exact targetResolution_error scope h

end Resolution

/-- The elements of the map literal that an initial value is or refers to. -/
def Index.mapLiteral? (index : Index) (value : Expr) : Option (List Element) :=
  match index.dereference value with
  | .ok (.composite type elements) =>
    match compositeType index type with
    | .map _ _ => some elements
    | _ => none
  | _ => none

/-- The omissions for the elements of a literal that are not in the map. -/
def elementOmissions (name : String) (line : Int) (elements : List Element) : List Omission :=
  (droppedElements elements).map fun e => ⟨.initializer, name, e.fault, line⟩

/-- What came of an initial value under a name. Without an entry there is one omission, and it is about the
value as a whole. With an entry there are omissions of initial values only for the elements that the
map of a map literal does not have. -/
structure Accounted (index : Index) (name : String) (line : Int) (value : Expr)
    (found : Noted (Option Model.Entry)) : Prop where
  of_none : found.value = none →
    ∃ reason, reason.isElement = false ∧ found.omitted = [⟨.initializer, name, reason, line⟩]
  of_some : ∀ entry, found.value = some entry → entry.name = name ∧
    found.omitted.filter (·.subject = .initializer) =
      ((index.mapLiteral? value).map (elementOmissions name line)).getD []
  map_value : ∀ entry elements, found.value = some entry → index.mapLiteral? value = some elements →
    entry.value = .entries ((keptElements elements).filterMap Element.pair?)

section Initializer

variable (scope : Scope) (name : String) (spec : ValueSpec)

theorem Accounted.dropped {index : Index} {line : Int} {value : Expr} {reason : Reason}
    (hr : reason.isElement = false) :
    Accounted index name line value ⟨none, [⟨.initializer, name, reason, line⟩]⟩ where
  of_none _ := ⟨reason, hr, rfl⟩
  of_some _ h := nomatch h
  map_value _ _ h := nomatch h

theorem sliceEntry_accounted {value : Expr} (element : TypeExpr) (elements : List Element)
    (hm : scope.index.mapLiteral? value = none) :
    Accounted scope.index name spec.line value (sliceEntry scope name spec element elements) := by
  unfold sliceEntry
  split
  · exact .dropped name rfl
  · cases hv : (elementResolution scope element).value with
    | error reason =>
      obtain ⟨homit, hr⟩ := elementResolution_error scope hv
      simp only [hv, homit, List.nil_append]
      exact .dropped name hr
    | ok resolution =>
      simp only [hv]
      refine ⟨(fun h => nomatch h), fun entry h => ?_, fun entry elements h hs => ?_⟩
      · cases h
        refine ⟨rfl, ?_⟩
        rw [hm]
        refine List.filter_eq_nil_iff.2 fun o ho => ?_
        simp [subject_of_missedSites (elementResolution_sites scope element) ho]
      · rw [hm] at hs
        cases hs

theorem mapEntry_accounted {value : Expr} (type : TypeExpr) (elements : List Element)
    (hm : scope.index.mapLiteral? value = some elements) :
    Accounted scope.index name spec.line value (mapEntry scope name spec type elements) := by
  simp only [mapEntry, mapEntries_eq, Noted.map]
  refine ⟨fun h => ?_, fun entry h => ?_, fun entry others h hs => ?_⟩
  · cases h
  · cases h
    refine ⟨rfl, ?_⟩
    rw [hm, Option.map_some, Option.getD_some, elementOmissions, List.filter_eq_self]
    intro o ho
    obtain ⟨e, -, rfl⟩ := List.mem_map.1 ho
    rfl
  · cases h
    rw [hm] at hs
    cases hs
    rfl

theorem Index.dereference_error {index : Index} {value : Expr} {reason : Reason}
    (h : index.dereference value = .error reason) : reason.isElement = false := by
  cases value with
  | ident ident =>
    rcases Index.follow_error_shape h with ⟨other, rfl⟩ | ⟨other, rfl⟩
    · rfl
    · rfl
  | _ => cases h

/-- Every initial value is accounted for, however long the chain of references to it. -/
theorem initializerEntry_accounted (value : Expr) :
    Accounted scope.index name spec.line value (initializerEntry scope name spec value) := by
  unfold initializerEntry
  cases hd : scope.index.dereference value with
  | error reason => exact .dropped name (Index.dereference_error hd)
  | ok target =>
    cases target with
    | basic kind text =>
      have hm : scope.index.mapLiteral? value = none := by simp only [Index.mapLiteral?, hd]
      refine ⟨(fun h => nomatch h), fun entry h => ?_, fun entry elements _ hs => ?_⟩
      · cases h
        exact ⟨rfl, by rw [hm]; rfl⟩
      · rw [hm] at hs
        cases hs
    | ident other => exact .dropped name rfl
    | unsupported shape text => exact .dropped name rfl
    | composite type elements =>
      simp only [valueEntry]
      split
      · next key element ht =>
        exact mapEntry_accounted scope name spec element elements (by simp only [Index.mapLiteral?, hd, ht])
      · next element length ht =>
        exact sliceEntry_accounted scope name spec element elements
          (by simp only [Index.mapLiteral?, hd, ht])
      · exact .dropped name rfl

end Initializer

/-- An initial value comes to one entry or to one omission that drops it. -/
theorem Accounted.balance {index : Index} {name : String} {line : Int} {value : Expr}
    {found : Noted (Option Model.Entry)} (h : Accounted index name line value found) :
    found.value.toList.length + (found.omitted.filter (·.dropsInitializer)).length = 1 := by
  cases hv : found.value with
  | none =>
    obtain ⟨reason, hr, homit⟩ := h.of_none hv
    simp [homit, Omission.dropsInitializer, hr]
  | some entry =>
    have hnone : found.omitted.filter (·.dropsInitializer) = [] := by
      refine List.filter_eq_nil_iff.2 fun o ho hdrop => ?_
      simp only [Omission.dropsInitializer, Bool.and_eq_true, decide_eq_true_eq] at hdrop
      have hin : o ∈ found.omitted.filter (·.subject = .initializer) :=
        List.mem_filter.2 ⟨ho, by simp [hdrop.1]⟩
      rw [(h.of_some entry hv).2] at hin
      cases hm : index.mapLiteral? value with
      | none => simp [hm] at hin
      | some elements =>
        rw [hm, Option.map_some, Option.getD_some] at hin
        obtain ⟨e, -, rfl⟩ := List.mem_map.1 hin
        cases hk : e.key <;> simp [Element.fault, hk, Reason.isElement] at hdrop
    simp [hnone]

/-- The steps through the initial values of a spec, in order. -/
def ValueSpec.steps (scope : Scope) (spec : ValueSpec) : List (Noted (Option Model.Entry)) :=
  spec.values.zipIdx.map fun p => initializerEntry scope (spec.nameFor p.2) spec p.1

/-- The name at a place when there are as many names as values, else the first name. -/
def ValueSpec.nameAt? (spec : ValueSpec) (place : Nat) : Option String :=
  if spec.names.length = spec.values.length then spec.names[place]? else spec.names.head?

section Spec

variable (scope : Scope) {spec : ValueSpec}

theorem ValueSpec.nameAt?_eq (hnames : spec.names ≠ []) {place : Nat}
    (hp : place < spec.values.length) : spec.nameAt? place = some (spec.nameFor place) := by
  unfold ValueSpec.nameAt? ValueSpec.nameFor
  by_cases hlen : spec.names.length = spec.values.length
  · rw [if_pos hlen, if_pos hlen, List.getD_eq_getElem?_getD]
    have hin : place < spec.names.length := by omega
    rw [List.getElem?_eq_getElem hin, Option.getD_some]
  · rw [if_neg hlen, if_neg hlen]
    obtain ⟨first, rest, hcons⟩ := List.exists_cons_of_ne_nil hnames
    rw [hcons, List.head?_cons, List.headD_cons]

theorem ValueSpec.steps_getElem? {place : Nat} {value : Expr} (hv : spec.values[place]? = some value) :
    (spec.steps scope)[place]? = some (initializerEntry scope (spec.nameFor place) spec value) := by
  simp [ValueSpec.steps, hv]

theorem declOutline_of_values (hnames : spec.names ≠ []) (hvalues : spec.values ≠ []) :
    declOutline scope (.value spec) =
      ⟨{ entries := (spec.steps scope).filterMap (·.value) },
        (spec.steps scope).flatMap (·.omitted)⟩ := by
  have hn : ¬spec.names.isEmpty = true := by simpa using hnames
  have hv : ¬spec.values.isEmpty = true := by simpa using hvalues
  rw [declOutline, if_neg hv, valueEntries, if_neg hn]
  simp only [Noted.map, Noted.collect, List.filterMap_map, ValueSpec.steps]
  rfl

private theorem length_eq_of_balance {steps : List (Noted (Option Model.Entry))}
    (h : ∀ step ∈ steps,
      step.value.toList.length + (step.omitted.filter (·.dropsInitializer)).length = 1) :
    steps.length = (steps.filterMap (·.value)).length +
      ((steps.flatMap (·.omitted)).filter (·.dropsInitializer)).length := by
  induction steps with
  | nil => rfl
  | cons step rest ih =>
    have hstep := h step List.mem_cons_self
    have hrest := ih fun other ho => h other (List.mem_cons_of_mem _ ho)
    rw [List.length_cons, List.flatMap_cons, List.filter_append, List.length_append]
    cases hv : step.value with
    | none =>
      rw [hv] at hstep
      simp only [List.filterMap_cons, hv, Option.toList_none, List.length_nil] at hstep ⊢
      omega
    | some entry =>
      rw [hv] at hstep
      simp only [List.filterMap_cons, hv, Option.toList_some, List.length_cons,
        List.length_nil] at hstep ⊢
      omega

theorem ValueSpec.steps_balance :
    spec.values.length = ((spec.steps scope).filterMap (·.value)).length +
      (((spec.steps scope).flatMap (·.omitted)).filter (·.dropsInitializer)).length := by
  rw [← length_eq_of_balance]
  · simp [ValueSpec.steps]
  · intro step hstep
    obtain ⟨p, -, rfl⟩ := List.mem_map.1 hstep
    exact (initializerEntry_accounted scope _ spec p.1).balance

/-- Variables with a type and no values have an entry each, or are left out each, by their type. -/
theorem declOutline_of_typed {type : TypeExpr} (hv : spec.values = []) (hk : spec.keyword = "var")
    (ht : spec.type = some type) :
    (scope.index.covers type = true ∧
        (declOutline scope (.value spec)).value.entries.map (·.name) = spec.names ∧
        (declOutline scope (.value spec)).omitted.filter (·.subject = .declaration) = []) ∨
      (scope.index.covers type = false ∧ (declOutline scope (.value spec)).value.entries = [] ∧
        ∃ reason, (declOutline scope (.value spec)).omitted.filter (·.subject = .declaration) =
          spec.names.map fun name => ⟨.declaration, name, reason, spec.line⟩) := by
  have hcovers := typeResolution_toBool scope type
  have hfields : (typeResolution scope type).omitted.filter (·.subject = .declaration) = [] := by
    refine List.filter_eq_nil_iff.2 fun o ho => ?_
    simp [subject_of_missedSites (typeResolution_sites scope type) ho]
  cases hr : (typeResolution scope type).value with
  | ok resolution =>
    left
    have hout : declOutline scope (.value spec) =
        ⟨{ entries := spec.names.map fun name =>
            { name := name, kind := resolution.kind, doc := spec.doc, form := resolution.form
              isPointer := resolution.isPointer, origin := resolution.origin } },
          (typeResolution scope type).omitted⟩ := by
      simp [declOutline, typedEntries, hv, hk, ht, hr, Noted.map]
    rw [hout]
    refine ⟨by simp [← hcovers, hr, Except.toBool], ?_, hfields⟩
    simp [Function.comp_def]
  | error reason =>
    right
    have hout : declOutline scope (.value spec) =
        ⟨{}, (typeResolution scope type).omitted ++
          spec.names.map fun name => ⟨.declaration, name, reason, spec.line⟩⟩ := by
      simp [declOutline, typedEntries, hv, hk, ht, hr, Noted.map]
    rw [hout]
    refine ⟨by simp [← hcovers, hr, Except.toBool], rfl, reason, ?_⟩
    rw [List.filter_append, hfields, List.nil_append, List.filter_eq_self]
    intro o ho
    obtain ⟨name, -, rfl⟩ := List.mem_map.1 ho
    rfl

end Spec

/-- Initial values are conserved: those of a spec come one by one to an entry or to an omission under the
name that goes with them, and variables without values come all to entries or all to omissions. -/
theorem initializers_conserved (scope : Scope) (spec : ValueSpec) (hnames : spec.names ≠ []) :
    (spec.values ≠ [] →
      (declOutline scope (.value spec)).value.entries = (spec.steps scope).filterMap (·.value) ∧
      (declOutline scope (.value spec)).omitted = (spec.steps scope).flatMap (·.omitted) ∧
      (∀ place value, spec.values[place]? = some value →
        ∃ name, spec.nameAt? place = some name ∧
          (spec.steps scope)[place]? = some (initializerEntry scope name spec value) ∧
          Accounted scope.index name spec.line value (initializerEntry scope name spec value)) ∧
      spec.values.length = (declOutline scope (.value spec)).value.entries.length +
        ((declOutline scope (.value spec)).omitted.filter (·.dropsInitializer)).length) ∧
    (spec.values = [] → spec.keyword = "var" → ∀ type, spec.type = some type →
      (scope.index.covers type = true ∧
          (declOutline scope (.value spec)).value.entries.map (·.name) = spec.names ∧
          (declOutline scope (.value spec)).omitted.filter (·.subject = .declaration) = []) ∨
        (scope.index.covers type = false ∧ (declOutline scope (.value spec)).value.entries = [] ∧
          ∃ reason, (declOutline scope (.value spec)).omitted.filter (·.subject = .declaration) =
            spec.names.map fun name => ⟨.declaration, name, reason, spec.line⟩)) := by
  refine ⟨fun hvalues => ?_, fun hv hk type ht => declOutline_of_typed scope hv hk ht⟩
  rw [declOutline_of_values scope hnames hvalues]
  refine ⟨rfl, rfl, fun place value hv => ?_, ValueSpec.steps_balance scope⟩
  have hp : place < spec.values.length := (List.getElem?_eq_some_iff.1 hv).1
  exact ⟨spec.nameFor place, ValueSpec.nameAt?_eq hnames hp, ValueSpec.steps_getElem? scope hv,
    initializerEntry_accounted scope _ spec value⟩

/-- A cycle of references, a map with a repeated and a missing key, and a map to follow. -/
private def ledgerScope : Scope :=
  { index := ⟨[
      .value { keyword := "const", names := ["first", "second"]
               values := [.ident "second", .ident "first"] },
      .type { name := "Codes", type := .map (.named "string") (.named "int") },
      .value { keyword := "var", names := ["codes"]
               values := [.composite (.named "Codes")
                 [⟨"1", some "a"⟩, ⟨"2", some "a"⟩, ⟨"3", none⟩]] }]⟩ }

private def ledgerSpec : ValueSpec :=
  { keyword := "var", names := ["w", "x", "y", "z"]
    values := [.ident "first", .ident "codes",
      .composite (.array (.named "int") none) [⟨"1", some "0"⟩], .basic "string" "text"]
    line := 9 }

theorem initializers_conserved_ledger :
    ledgerSpec.names ≠ [] ∧ ledgerSpec.values ≠ [] ∧
      ledgerSpec.values.length = (declOutline ledgerScope (.value ledgerSpec)).value.entries.length +
        ((declOutline ledgerScope (.value ledgerSpec)).omitted.filter (·.dropsInitializer)).length := by
  have hnames : ledgerSpec.names ≠ [] := by decide
  have hvalues : ledgerSpec.values ≠ [] := List.cons_ne_nil _ _
  exact ⟨hnames, hvalues, ((initializers_conserved ledgerScope ledgerSpec hnames).1 hvalues).2.2.2⟩

end SourceOutline
