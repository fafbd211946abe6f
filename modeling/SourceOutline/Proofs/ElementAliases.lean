import SourceOutline.Proofs.AliasHops
import SourceOutline.Proofs.Coverage

/-!
Element types and the names that are declared for them. A name stands for its declared type, down to which of
them is refused for running in a circle; and a kind that was found is found again under its own name.
-/
namespace SourceOutline

namespace Index

variable {index : Index} {name target : String} {type : TypeExpr}

theorem Hops.stopsWith_iff (h : index.Hops name target) :
    index.StopsWith name type ↔ index.StopsWith target type := by
  constructor
  · rintro ⟨last, hreach, hlast⟩
    exact ⟨last, index.walk_searches.reaches_of_step h hreach ⟨type, hlast, rfl⟩, hlast⟩
  · rintro ⟨last, hreach, hlast⟩
    exact ⟨last, hreach.head h, hlast⟩

/-- A name and the one it hops to are resolved alike, or are refused for the same cycle. -/
theorem Hops.resolve_cases (h : index.Hops name target) :
    index.resolve name = index.resolve target ∨
      ∃ a b, index.resolve name = .error ⟨a⟩ ∧ index.resolve target = .error ⟨b⟩ ∧
        Relation.TransGen index.Hops a b ∧ Relation.TransGen index.Hops b a := by
  cases hname : index.resolve name with
  | ok type =>
    have htarget := resolve_of_stopsWith (h.stopsWith_iff.1 (stopsWith_of_resolve hname))
    exact Or.inl htarget.symm
  | error cycle =>
    -- the path from the second name is the one from the first, begun a step later
    obtain ⟨path, hpath⟩ := along_of_resolve hname
    have hfirst := hpath.step 0
    rw [hpath.start] at hfirst
    have hone : path 1 = target := index.hops_rightUnique hfirst h
    have hlater := hpath.shift
    rw [hone] at hlater
    obtain ⟨a, ⟨i, j, hij, hi, hj, -⟩, ha⟩ := resolve_of_along hpath
    obtain ⟨b, ⟨k, l, hkl, hk, hl, -⟩, hb⟩ := resolve_of_along hlater
    have hab := hpath.transGen_of_repeat index.hops_rightUnique (by omega : k + 1 < l + 1) (hk.trans hl.symm) i
    have hba := hpath.transGen_of_repeat index.hops_rightUnique hij (hi.trans hj.symm) (k + 1)
    rw [hi] at hab hba
    exact Or.inr ⟨a, b, hname ▸ ha, hb, hk ▸ hab, hk ▸ hba⟩

/-- A name that is stopped with is its own last name. -/
theorem StopsAt.eq_of_named {kind : String} (h : index.StopsAt name (.named kind)) : name = kind := by
  cases h <;> rfl

theorem StopsWith.kind_stopsWith {kind : String} (h : index.StopsWith name (.named kind)) :
    index.StopsWith kind (.named kind) := by
  obtain ⟨last, -, hlast⟩ := h
  have hsame := hlast.eq_of_named
  exact ⟨kind, .refl, hsame ▸ hlast⟩

end Index

section Elements

variable (scope : Scope)

/-- An element type comes to what is left of it when it is stripped. -/
theorem TypeExpr.Stripped.elementResolution_eq {t core : TypeExpr} (h : t.Stripped core) :
    elementResolution scope t = targetResolution scope core := by
  rw [SourceOutline.elementResolution_eq, h.core_eq]

theorem namedElement_of_error {name cycle : String} (h : scope.index.resolve name = .error ⟨cycle⟩) :
    namedElement scope name = .error (.aliasCycle cycle) := by
  simp only [namedElement, h]

theorem namedElement_of_named {name kind : String} (h : scope.index.resolve name = .ok (.named kind)) :
    namedElement scope name = .ok { kind := kind, form := .slice } := by
  simp only [namedElement, h]

theorem namedElement_of_qualified {name package kind : String}
    (h : scope.index.resolve name = .ok (.qualified package kind)) :
    namedElement scope name = .ok (qualifiedElement scope package kind) := by
  simp only [namedElement, h]
  rfl

/-- A name that is found without an origin is found under a kind that stands for itself. -/
theorem namedElement_kind {name : String} {r : Resolution} (h : namedElement scope name = .ok r)
    (horigin : r.origin = none) : namedElement scope r.kind = .ok r := by
  cases hresolve : scope.index.resolve name with
  | error cycle =>
    rw [namedElement_of_error scope hresolve] at h
    cases h
  | ok type =>
    rcases Index.walk_ok_shape hresolve with ⟨kind, rfl⟩ | ⟨package, kind, rfl⟩
    · rw [namedElement_of_named scope hresolve] at h
      cases h
      have hstops := (Index.stopsWith_of_resolve hresolve).kind_stopsWith
      exact namedElement_of_named scope (Index.resolve_of_stopsWith hstops)
    · rw [namedElement_of_qualified scope hresolve] at h
      cases h
      cases horigin

/-- Elements are seen through the names that are declared for them, and what they come to stands for itself.

A name whose declared type strips to a plain or qualified name comes to what its declared type comes to, with one
exception: where one of them is refused as a cyclic alias, both are, and the names they are refused for lie on
one cycle. An element that comes to a kind without an origin and without sub-fields is what the kind, read as a
name, comes to. -/
theorem elementResolution_sees_through :
    (∀ (name : String) (spec : TypeSpec) (core : TypeExpr), isPredeclared name = false →
      scope.index.type? name = some spec → spec.type.Stripped core → core.IsName →
      elementResolution scope (.named name) = elementResolution scope spec.type ∨
      ∃ a b, elementResolution scope (.named name) = .pure (.error (.aliasCycle a)) ∧
        elementResolution scope spec.type = .pure (.error (.aliasCycle b)) ∧
        Relation.TransGen scope.index.Hops a b ∧ Relation.TransGen scope.index.Hops b a) ∧
    ∀ (element : TypeExpr) (r : Resolution), (elementResolution scope element).value = .ok r →
      r.origin = none → r.subFields = none →
      elementResolution scope (.named r.kind) = elementResolution scope element := by
  constructor
  · intro name spec core hpredeclared hspec hcore hname
    rw [hcore.elementResolution_eq]
    rcases hname with ⟨target, rfl⟩ | ⟨package, target, rfl⟩
    · have hhops : scope.index.Hops name target := ⟨hpredeclared, hspec, hcore⟩
      rw [elementResolution, targetResolution]
      rcases hhops.resolve_cases with hsame | ⟨a, b, ha, hb, hab, hba⟩
      · left
        simp only [namedElement, hsame]
      · right
        rw [namedElement_of_error scope ha, namedElement_of_error scope hb]
        exact ⟨a, b, rfl, rfl, hab, hba⟩
    · have hstops : scope.index.StopsWith name (.qualified package target) :=
        ⟨name, .refl, .qualified hpredeclared hspec hcore⟩
      left
      rw [elementResolution, targetResolution,
        namedElement_of_qualified scope (Index.resolve_of_stopsWith hstops)]
  · intro element r hr horigin hsub
    have hcore := element.stripped_core
    generalize element.innermost.pointee = core at hcore
    rw [hcore.elementResolution_eq] at hr ⊢
    cases core with
    | named name =>
      rw [targetResolution] at hr ⊢
      have hnamed : namedElement scope name = .ok r := hr
      rw [elementResolution, hnamed, namedElement_kind scope hnamed horigin]
    | qualified package name =>
      rw [targetResolution] at hr
      cases hr
      cases horigin
    | struct fields =>
      rw [targetResolution] at hr
      cases hr
      cases hsub
    | _ =>
      rw [targetResolution] at hr
      cases hr

end Elements

/-- Readings in layers of arrays and pointers, and two names that stand for each other. -/
private def weatherScope : Scope :=
  { index := ⟨[.type { name := "Celsius", type := .named "float64" },
      .type { name := "Readings", type := .array (.array (.pointer (.named "Celsius")) none) (some "7") },
      .type { name := "Cell", type := .pointer (.named "Unit") },
      .type { name := "Unit", type := .array (.named "Cell") none }]⟩ }

theorem elementResolution_sees_through_readings :
    elementResolution weatherScope (.named "Readings") =
        elementResolution weatherScope (.array (.array (.pointer (.named "Celsius")) none) (some "7")) ∧
      elementResolution weatherScope (.named "float64") = elementResolution weatherScope (.named "Readings") ∧
      elementResolution weatherScope (.named "Cell") = .pure (.error (.aliasCycle "Cell")) ∧
      elementResolution weatherScope (.pointer (.named "Unit")) = .pure (.error (.aliasCycle "Unit")) ∧
      Relation.TransGen weatherScope.index.Hops "Cell" "Unit" := by
  obtain ⟨hthrough, hagain⟩ := elementResolution_sees_through weatherScope
  have hreadings : elementResolution weatherScope (.named "Readings") =
      .pure (.ok { kind := "float64", form := .slice }) := by
    have hresolve := Option.some.inj (weatherScope.index.turns_eq_resolve "Readings")
    rw [elementResolution, namedElement_of_named weatherScope hresolve.symm]
  have hcell : elementResolution weatherScope (.named "Cell") = .pure (.error (.aliasCycle "Cell")) := by
    have hresolve := Option.some.inj (weatherScope.index.turns_eq_resolve "Cell")
    rw [elementResolution, namedElement_of_error weatherScope hresolve.symm]
  have hunit : elementResolution weatherScope (.pointer (.named "Unit")) =
      .pure (.error (.aliasCycle "Unit")) := by
    have hresolve := Option.some.inj (weatherScope.index.turns_eq_resolve "Unit")
    rw [elementResolution, targetResolution, namedElement_of_error weatherScope hresolve.symm]
  refine ⟨?_, ?_, hcell, hunit, ?_⟩
  · rcases hthrough "Readings" _ (.named "Celsius") (by decide) rfl (.array (.array .pointer))
      (Or.inl ⟨_, rfl⟩) with hsame | ⟨a, b, ha, -⟩
    · exact hsame
    · rw [hreadings] at ha
      cases ha
  · exact hagain _ { kind := "float64", form := .slice } (by rw [hreadings]; rfl) rfl rfl
  · rcases hthrough "Cell" _ (.named "Unit") (by decide) rfl .pointer (Or.inl ⟨_, rfl⟩) with
      hsame | ⟨a, b, ha, hb, hab, -⟩
    · rw [hcell, hunit] at hsame
      have hnames : "Cell" = "Unit" := Reason.aliasCycle.inj (Except.error.inj (congrArg Noted.value hsame))
      exact absurd hnames (by decide)
    · rw [hcell] at ha
      rw [hunit] at hb
      cases ha
      cases hb
      exact hab

end SourceOutline
