import SourceOutline.Proofs.ElementAliases
import SourceOutline.Proofs.FieldShapes
import SourceOutline.Proofs.Initializers

/-!
Composite literals and declared types. A map or array literal is classified as a variable is that is declared with
the type of the literal, and an array literal is refused for what the declaration is refused for.
-/
namespace SourceOutline

/-- The types whose literals can have entries. -/
inductive TypeExpr.IsContainer : TypeExpr → Prop
  | map (key value : TypeExpr) : IsContainer (.map key value)
  | array (element : TypeExpr) (length : Option String) : IsContainer (.array element length)

/-- An entry is classified as a declared type is, and neither is a pointer. -/
structure Model.Entry.ClassifiedAs (entry : Model.Entry) (r : Resolution) : Prop where
  kind : entry.kind = r.kind
  form : entry.form = r.form
  origin : entry.origin = r.origin
  entry_not_pointer : entry.isPointer = false
  type_not_pointer : r.isPointer = false

/-- How what came of a literal goes with the type of the literal. With an entry, the type is covered and classified
alike. Without one, the type is that of an array, and either an element has a key or the type is not covered; the
reason for the latter is recorded where no element has a key. -/
structure LiteralAgrees (scope : Scope) (name : String) (line : Int) (type : TypeExpr) (elements : List Element)
    (found : Noted (Option Model.Entry)) : Prop where
  of_some : ∀ entry, found.value = some entry →
    ∃ r, (typeResolution scope type).value = .ok r ∧ entry.ClassifiedAs r
  none_iff : found.value = none ↔ (∃ element length, type = .array element length) ∧
    ((∃ e ∈ elements, e.key ≠ none) ∨ ∃ reason, (typeResolution scope type).value = .error reason)
  of_error : ∀ reason, (typeResolution scope type).value = .error reason → (∀ e ∈ elements, e.key = none) →
    found.omitted = [⟨.initializer, name, reason, line⟩]

section Literals

variable (scope : Scope) (name : String) (spec : ValueSpec) (elements : List Element)

theorem mapEntry_agrees (key value : TypeExpr) :
    LiteralAgrees scope name spec.line (.map key value) elements
      (mapEntry scope name spec value elements) := by
  have hok : (typeResolution scope (.map key value)).value = .ok (mapResolution scope value) := rfl
  have hkind := mapLiteralKind_eq scope value
  constructor
  · rintro entry ⟨⟩
    refine ⟨_, hok, ?_, ?_, ?_, rfl, ?_⟩
    · exact congrArg Prod.fst hkind
    · cases value <;> rfl
    · exact congrArg Prod.snd hkind
    · cases value <;> rfl
  · simp [mapEntry, Noted.map]
  · intro reason herror
    rw [hok] at herror
    cases herror

variable {elements} in
theorem any_key_iff : elements.any (·.key.isSome) = true ↔ ∃ e ∈ elements, e.key ≠ none := by
  simp [Option.isSome_iff_ne_none]

theorem sliceEntry_of_error {element : TypeExpr} {reason : Reason} (hkey : ¬∃ e ∈ elements, e.key ≠ none)
    (herror : (elementResolution scope element).value = .error reason) :
    sliceEntry scope name spec element elements = ⟨none, [⟨.initializer, name, reason, spec.line⟩]⟩ := by
  have hnothing := (elementResolution_error scope herror).1
  simp only [sliceEntry, if_neg (mt any_key_iff.1 hkey), herror, hnothing, List.nil_append]

theorem sliceEntry_of_ok {element : TypeExpr} {r : Resolution} (hkey : ¬∃ e ∈ elements, e.key ≠ none)
    (hok : (elementResolution scope element).value = .ok r) :
    ∃ entry, (sliceEntry scope name spec element elements).value = some entry ∧ entry.ClassifiedAs r := by
  obtain ⟨hshape, hform⟩ := elementResolution_shape hok
  have hpointer := hshape.not_pointer (by simp [hform])
  simp only [sliceEntry, if_neg (mt any_key_iff.1 hkey), hok]
  exact ⟨_, rfl, rfl, hform.symm, rfl, rfl, hpointer⟩

theorem sliceEntry_agrees (element : TypeExpr) (length : Option String) :
    LiteralAgrees scope name spec.line (.array element length) elements
      (sliceEntry scope name spec element elements) := by
  have htype : typeResolution scope (.array element length) = elementResolution scope element := rfl
  by_cases hkey : ∃ e ∈ elements, e.key ≠ none
  · have hnone : (sliceEntry scope name spec element elements).value = none := by
      rw [sliceEntry, if_pos (any_key_iff.2 hkey)]
    constructor
    · intro entry hentry
      rw [hnone] at hentry
      cases hentry
    · simp [hnone, hkey]
    · intro reason _ hkeyless
      obtain ⟨e, he, hsome⟩ := hkey
      exact absurd (hkeyless e he) hsome
  · cases hr : (elementResolution scope element).value with
    | error reason =>
      rw [sliceEntry_of_error scope name spec elements hkey hr]
      constructor
      · rintro entry ⟨⟩
      · simp [htype, hr]
      · intro other hother _
        rw [htype, hr] at hother
        cases hother
        rfl
    | ok r =>
      obtain ⟨entry, hentry, hclass⟩ := sliceEntry_of_ok scope name spec elements hkey hr
      constructor
      · intro other hother
        rw [hentry] at hother
        cases hother
        exact ⟨r, hr, hclass⟩
      · simp [hentry, htype, hr, hkey]
      · intro reason herror
        rw [htype, hr] at herror
        cases herror

theorem composite_agrees {type T : TypeExpr} (htype : compositeType scope.index type = T)
    (hcontainer : T.IsContainer) :
    LiteralAgrees scope name spec.line T elements
      (initializerEntry scope name spec (.composite type elements)) := by
  have hentry : initializerEntry scope name spec (.composite type elements) =
      valueEntry scope name spec (.composite type elements) := rfl
  rw [hentry, valueEntry, htype]
  cases hcontainer with
  | map key value => exact mapEntry_agrees scope name spec elements key value
  | array element length => exact sliceEntry_agrees scope name spec elements element length

end Literals

/-- Variables that are declared with a type are classified as the entries are that are classified by it. -/
theorem Model.Entry.ClassifiedAs.typedEntries_eq {entry : Model.Entry} {r : Resolution}
    (h : entry.ClassifiedAs r) {scope : Scope} {type : TypeExpr}
    (hok : (typeResolution scope type).value = .ok r) {spec : ValueSpec} (hkeyword : spec.keyword = "var")
    (hvalues : spec.values = []) (htype : spec.type = some type) :
    (typedEntries scope spec).value.map (fun e => (e.name, e.kind, e.form, e.isPointer, e.origin)) =
      spec.names.map fun x => (x, entry.kind, entry.form, entry.isPointer, entry.origin) := by
  have hpointer := h.entry_not_pointer.trans h.type_not_pointer.symm
  simp [typedEntries, htype, hvalues, hkeyword, hok, h.kind, h.form, h.origin, hpointer]

/-- A composite literal and a declaration of the same type agree.

Let `T` be the type of a literal, a name being taken for the map or array that it is declared as. Where the literal
has an entry, `T` is covered, with the kind, form and origin of the entry and no pointer on either side, and so are
all variables that are declared with `T`. There is no entry exactly where `T` is an array and an element has a key or
`T` is not covered; in the latter case, when no element has a key, the one thing recorded is why `T` is not. -/
theorem initializerEntry_agrees_with_type (scope : Scope) (name : String) (spec : ValueSpec) {type T : TypeExpr}
    (elements : List Element) (htype : compositeType scope.index type = T) (hcontainer : T.IsContainer) :
    LiteralAgrees scope name spec.line T elements
        (initializerEntry scope name spec (.composite type elements)) ∧
      ∀ entry, (initializerEntry scope name spec (.composite type elements)).value = some entry →
        ∀ other : ValueSpec, other.keyword = "var" → other.values = [] → other.type = some T →
          (typedEntries scope other).value.map (fun e => (e.name, e.kind, e.form, e.isPointer, e.origin)) =
            other.names.map fun x => (x, entry.kind, entry.form, entry.isPointer, entry.origin) := by
  have hagrees := composite_agrees scope name spec elements htype hcontainer
  refine ⟨hagrees, ?_⟩
  intro entry hentry other hkeyword hvalues hother
  obtain ⟨r, hok, hclass⟩ := hagrees.of_some entry hentry
  exact hclass.typedEntries_eq hok hkeyword hvalues hother

/-- A map to a type of another package, and a slice of names that stand for each other. -/
private def waitScope : Scope :=
  { index := ⟨[.type { name := "Waits", type := .map (.named "string") (.qualified "time" "Duration") },
      .type { name := "Rings", type := .array (.named "Ring") none },
      .type { name := "Ring", type := .pointer (.named "Band") },
      .type { name := "Band", type := .named "Ring" }]⟩
    imports := [("time", "time")] }

private def waitSpec : ValueSpec :=
  { keyword := "var", names := ["w"], line := 4 }

private def plainWaits : ValueSpec :=
  { keyword := "var", names := ["x", "y"], type := some (.map (.named "string") (.qualified "time" "Duration")) }

theorem initializerEntry_agrees_with_type_waits :
    (∃ entry, (initializerEntry waitScope "w" waitSpec (.composite (.named "Waits") [⟨"1", some "a"⟩])).value =
        some entry ∧ entry.kind = "Duration" ∧
      (typedEntries waitScope plainWaits).value.map (fun e => (e.name, e.kind, e.form, e.isPointer, e.origin)) =
        [("x", entry.kind, entry.form, entry.isPointer, entry.origin),
          ("y", entry.kind, entry.form, entry.isPointer, entry.origin)]) ∧
    (initializerEntry waitScope "w" waitSpec (.composite (.named "Rings") [⟨"1", none⟩])).value = none ∧
    (initializerEntry waitScope "w" waitSpec (.composite (.named "Rings") [⟨"1", none⟩])).omitted =
      [⟨.initializer, "w", .aliasCycle "Ring", 4⟩] := by
  obtain ⟨-, htyped⟩ := @initializerEntry_agrees_with_type waitScope "w" waitSpec (.named "Waits") _
    [⟨"1", some "a"⟩] rfl (.map (.named "string") (.qualified "time" "Duration"))
  obtain ⟨hrings, -⟩ := @initializerEntry_agrees_with_type waitScope "w" waitSpec (.named "Rings") _
    [⟨"1", none⟩] rfl (.array (.named "Ring") none)
  have herror : (typeResolution waitScope (.array (.named "Ring") none)).value = .error (.aliasCycle "Ring") := by
    have hresolve := Option.some.inj (waitScope.index.turns_eq_resolve "Ring")
    rw [typeResolution, elementResolution, namedElement_of_error waitScope hresolve.symm]
    rfl
  refine ⟨⟨_, rfl, rfl, htyped _ rfl plainWaits rfl rfl rfl⟩, ?_, ?_⟩
  · exact hrings.none_iff.2 ⟨⟨_, _, rfl⟩, Or.inr ⟨_, herror⟩⟩
  · exact hrings.of_error _ herror (by simp)

end SourceOutline
