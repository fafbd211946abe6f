import SourceOutline.Proofs.MapLiteral
import SourceOutline.Proofs.ReferenceChains

/-!
References and what they refer to. A chain of references either ends at a value or does not, whatever name of
it is looked at; so a reference has an entry exactly when what it refers to has one, and the same value.
-/
namespace SourceOutline

namespace Index

variable {index : Index} {name : String} {e : Expr}

/-- What a name refers to is what its initial value refers to. -/
theorem dereference_ident {spec : ValueSpec} {value : Expr} (hbool : isBoolName name = false)
    (hvalue : index.value? name = some (spec, value)) :
    index.dereference (.ident name) = .ok e ↔ index.dereference value = .ok e := by
  by_cases hident : ∃ next, value = .ident next
  · obtain ⟨next, rfl⟩ := hident
    have hrefers : index.Refers name next := ⟨hbool, hvalue⟩
    rw [dereference, dereference, follow_eq_ok_iff, follow_eq_ok_iff]
    simp only [hrefers.endsWith_iff]
  · have hend : index.EndsAt name (some value) := .value hbool hvalue fun next h => hident ⟨next, h⟩
    rw [dereference, index.follow_searches.search_of_stops .refl ⟨_, hend, rfl⟩]
    rfl

theorem dereference_not_ident {value : Expr} (h : index.dereference value = .ok e) (next : String) :
    e ≠ .ident next := by
  cases value with
  | ident name =>
    obtain ⟨value, ⟨last, -, hlast⟩, hvalue⟩ := follow_eq_ok_iff.1 h
    obtain ⟨target, htarget, hnot, -⟩ := hlast.dereference_eq
    cases hvalue.symm.trans (htarget index)
    exact hnot next
  | _ =>
    cases h
    simp

/-- The first declaration of a name in the order of an index: its spec, and the place of the name in it. -/
structure FirstDeclares (index : Index) (name : String) (spec : ValueSpec) (place : Nat) : Prop where
  named : spec.names[place]? = some name
  not_earlier : name ∉ spec.names.take place
  not_before : ∃ before after, index.decls = before ++ .value spec :: after ∧
    ∀ other, .value other ∈ before → name ∉ other.names

theorem FirstDeclares.declared?_eq {spec : ValueSpec} {place : Nat}
    (h : index.FirstDeclares name spec place) (hblank : name ≠ "_") :
    index.declared? name = some (spec, place) := by
  obtain ⟨before, after, hdecls, hbefore⟩ := h.not_before
  have hnone : before.findSome? (·.valueNamed? name) = none := by
    rw [List.findSome?_eq_none_iff]
    intro d hd
    cases d with
    | type spec => rfl
    | value other =>
      rw [Decl.valueNamed?, if_neg hblank, List.idxOf?_eq_none_iff.2 (hbefore other hd)]
      rfl
  have hplace : spec.names.idxOf? name = some place := by
    obtain ⟨hlt, hat⟩ := List.getElem?_eq_some_iff.1 h.named
    refine List.idxOf?_eq_some_iff.2 ⟨hlt, hat, fun j hj hsame => h.not_earlier ?_⟩
    exact List.mem_take_iff_getElem.2 ⟨j, by omega, hsame⟩
  rw [declared?, hdecls, List.findSome?_append, hnone, Option.none_or, List.findSome?_cons,
    Decl.valueNamed?, if_neg hblank, hplace]
  rfl

theorem FirstDeclares.value?_eq {spec : ValueSpec} {place : Nat} {value : Expr}
    (h : index.FirstDeclares name spec place) (hblank : name ≠ "_")
    (hvalue : spec.values[place]? = some value) : index.value? name = some (spec, value) := by
  have hat : spec.valueAt? place = some value := by simp only [ValueSpec.valueAt?, hvalue]
  simp only [value?, h.declared?_eq hblank, Option.bind_some, hat, Option.map_some]

end Index

/-- An entry has the value of another one, under a name and in a spec of its own. -/
structure Model.Entry.Restates (e other : Model.Entry) (name : String) (spec : ValueSpec) : Prop where
  kind : e.kind = other.kind
  value : e.value = other.value
  isPointer : e.isPointer = other.isPointer
  origin : e.origin = other.origin
  name : e.name = name
  doc : e.doc = spec.doc
  form : e.form = if other.form = .map ∨ other.form = .slice then other.form else spec.plainForm

section Entry

variable (scope : Scope) (name other : String) (spec otherSpec : ValueSpec)

theorem ValueSpec.plainForm_ne (spec : ValueSpec) : ¬(spec.plainForm = .map ∨ spec.plainForm = .slice) := by
  unfold ValueSpec.plainForm
  split <;> simp

/-- What a value comes to under a name and in a spec, it comes to under another name in another spec. -/
theorem valueEntry_restates {target : Expr} (htarget : ∀ next, target ≠ .ident next) :
    ((valueEntry scope name spec target).value = none ∧
      (valueEntry scope other otherSpec target).value = none) ∨
    ∃ e e', (valueEntry scope name spec target).value = some e ∧
      (valueEntry scope other otherSpec target).value = some e' ∧ e'.Restates e other otherSpec := by
  cases target with
  | basic kind text =>
    refine Or.inr ⟨_, _, rfl, rfl, rfl, rfl, rfl, rfl, rfl, rfl, ?_⟩
    exact (if_neg spec.plainForm_ne).symm
  | ident next => exact absurd rfl (htarget next)
  | unsupported shape text => exact Or.inl ⟨rfl, rfl⟩
  | composite type elements =>
    rw [valueEntry, valueEntry]
    cases compositeType scope.index type with
    | map key value =>
      simp only [mapEntry, mapEntries_eq, Noted.map]
      exact Or.inr ⟨_, _, rfl, rfl, rfl, rfl, rfl, rfl, rfl, rfl, rfl⟩
    | array element length =>
      by_cases hindexed : elements.any (·.key.isSome) = true
      · dsimp only [sliceEntry]
        rw [if_pos hindexed, if_pos hindexed]
        exact Or.inl ⟨rfl, rfl⟩
      · dsimp only [sliceEntry]
        rw [if_neg hindexed, if_neg hindexed]
        cases (elementResolution scope element).value with
        | error reason => exact Or.inl ⟨rfl, rfl⟩
        | ok resolution => exact Or.inr ⟨_, _, rfl, rfl, rfl, rfl, rfl, rfl, rfl, rfl, rfl⟩
    | _ => exact Or.inl ⟨rfl, rfl⟩

/-- Initial values that refer to the same values come to the same. -/
theorem initializerEntry_restates {value otherValue : Expr}
    (hsame : ∀ target, scope.index.dereference otherValue = .ok target ↔
      scope.index.dereference value = .ok target) :
    ((initializerEntry scope name spec value).value = none ∧
      (initializerEntry scope other otherSpec otherValue).value = none) ∨
    ∃ e e', (initializerEntry scope name spec value).value = some e ∧
      (initializerEntry scope other otherSpec otherValue).value = some e' ∧
      e'.Restates e other otherSpec := by
  unfold initializerEntry
  cases hvalue : scope.index.dereference value with
  | error reason =>
    cases hother : scope.index.dereference otherValue with
    | error otherReason => exact Or.inl ⟨rfl, rfl⟩
    | ok target => cases hvalue.symm.trans ((hsame target).1 hother)
  | ok target =>
    rw [(hsame target).2 hvalue]
    exact valueEntry_restates scope name other spec otherSpec (Index.dereference_not_ident hvalue)

end Entry

/-- A reference has the value of what it refers to.

Where a name is declared first together with an initial value, a reference to it has an entry exactly when that
value has one under the name itself. Both have the same kind, value and origin; name, doc and plain form of the
reference are its own. -/
theorem initializerEntry_reference {files : List GoFile} {scope : Scope} {n : String} {s : ValueSpec}
    {i : Nat} (hindex : scope.index = .ofFiles files) (hlength : s.names.length = s.values.length)
    (hfirst : (Index.ofFiles files).FirstDeclares n s i) (hblank : n ≠ "_") (htrue : n ≠ "true")
    (hfalse : n ≠ "false") :
    ∃ value, s.values[i]? = some value ∧ s.nameFor i = n ∧ ∀ (m : String) (t : ValueSpec),
      ((initializerEntry scope m t (.ident n)).value.isSome ↔
        (initializerEntry scope n s value).value.isSome) ∧
      ∀ e e', (initializerEntry scope n s value).value = some e →
        (initializerEntry scope m t (.ident n)).value = some e' → e'.Restates e m t := by
  obtain ⟨hplace, -⟩ := List.getElem?_eq_some_iff.1 hfirst.named
  obtain ⟨value, hvalue⟩ : ∃ value, s.values[i]? = some value :=
    ⟨_, List.getElem?_eq_getElem (hlength ▸ hplace)⟩
  have hbool : isBoolName n = false := by simp [isBoolName, htrue, hfalse]
  have hsame : ∀ target, scope.index.dereference (.ident n) = .ok target ↔
      scope.index.dereference value = .ok target := by
    intro target
    rw [hindex]
    exact Index.dereference_ident hbool (hfirst.value?_eq hblank hvalue)
  refine ⟨value, hvalue, ?_, fun m t => ?_⟩
  · rw [ValueSpec.nameFor, if_pos hlength, List.getD_eq_getElem?_getD, hfirst.named, Option.getD_some]
  · rcases initializerEntry_restates scope n m s t hsame with ⟨hown, href⟩ | ⟨e, e', hown, href, hrestates⟩
    · rw [hown, href]
      exact ⟨Iff.rfl, fun e e' h => nomatch h⟩
    · rw [hown, href]
      refine ⟨Iff.rfl, ?_⟩
      rintro _ _ ⟨⟩ ⟨⟩
      exact hrestates

private def topSpec : ValueSpec :=
  { keyword := "const", names := ["top"], values := [.ident "middle"], doc := some "the top" }

private def middleSpec : ValueSpec :=
  { keyword := "var", names := ["spare", "middle"], values := [.ident "top", .ident "low"] }

/-- A reference to a name that refers to a name of another file, which declares the first one again. -/
private def limitFiles : List GoFile :=
  [{ decls := [.value topSpec] }, { decls := [.value middleSpec] },
    { decls := [.value { keyword := "const", names := ["low", "middle"]
                         values := [.basic "int" "1", .ident "middle"] }] }]

theorem initializerEntry_reference_limits :
    (Index.ofFiles limitFiles).FirstDeclares "middle" middleSpec 1 ∧
      ∃ e e' : Model.Entry,
        (initializerEntry ⟨.ofFiles limitFiles, []⟩ "middle" middleSpec (.ident "low")).value = some e ∧
        (initializerEntry ⟨.ofFiles limitFiles, []⟩ "top" topSpec (.ident "middle")).value = some e' ∧
        e.form = .var ∧ e'.value = .literal "1" ∧ e'.name = "top" ∧ e'.form = .const := by
  have hfirst : (Index.ofFiles limitFiles).FirstDeclares "middle" middleSpec 1 := by
    refine ⟨rfl, by decide, [.value topSpec], _, rfl, fun other hother => ?_⟩
    obtain rfl : other = topSpec := by simpa using hother
    decide
  have hend : (Index.ofFiles limitFiles).EndsWith "low" (.basic "int" "1") :=
    ⟨"low", .refl, .value (by decide) rfl (by simp)⟩
  have hown : (initializerEntry ⟨.ofFiles limitFiles, []⟩ "middle" middleSpec (.ident "low")).value =
      some { name := "middle", kind := "int", value := .literal "1", form := .var } := by
    rw [initializerEntry, Index.dereference, Index.follow_eq_ok_iff.2 ⟨_, hend, rfl⟩]
    rfl
  obtain ⟨value, hvalue, -, hreference⟩ := @initializerEntry_reference limitFiles
    ⟨.ofFiles limitFiles, []⟩ "middle" middleSpec 1 rfl rfl hfirst (by decide) (by decide) (by decide)
  obtain rfl : Expr.ident "low" = value := Option.some.inj hvalue
  obtain ⟨hiff, hrestates⟩ := hreference "top" topSpec
  obtain ⟨e', he'⟩ := Option.isSome_iff_exists.1 (hiff.2 (by rw [hown]; rfl))
  have h := hrestates _ e' hown he'
  exact ⟨hfirst, _, e', hown, he', rfl, h.value, h.name, h.form⟩

end SourceOutline
