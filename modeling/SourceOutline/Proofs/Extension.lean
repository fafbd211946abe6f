import Mathlib.Data.List.Basic
import SourceOutline.Proofs.ElementAliases
import SourceOutline.Proofs.References

/-!
Indexes that know more names. A chain of references that ends goes on ending where it did, so plain values and maps
stay as they are. Slices may come, change or go, since their elements are resolved by the types that are known.
-/
namespace SourceOutline

namespace Index

/-- Another index gives every name that this one knows the declaration that it has here. It may know more names. -/
structure ExtendedBy (I J : Index) : Prop where
  types : ∀ name spec, I.type? name = some spec → J.type? name = some spec
  values : ∀ name found, I.declared? name = some found → J.declared? name = some found

variable {I J : Index}

theorem extendedBy_append (I : Index) (more : List Decl) : I.ExtendedBy ⟨I.decls ++ more⟩ := by
  constructor
  · intro name spec h
    rw [type?, List.findSome?_append]
    exact Option.or_eq_some_iff.2 (Or.inl h)
  · intro name found h
    rw [declared?, List.findSome?_append]
    exact Option.or_eq_some_iff.2 (Or.inl h)

namespace ExtendedBy

theorem value? (h : I.ExtendedBy J) {name : String} {found : ValueSpec × Expr}
    (hvalue : I.value? name = some found) : J.value? name = some found := by
  obtain ⟨declared, hdeclared, hfound⟩ := Option.bind_eq_some_iff.1 hvalue
  exact Option.bind_eq_some_iff.2 ⟨declared, h.values name declared hdeclared, hfound⟩

/-- A chain of references that ends takes the same steps to the same end. -/
theorem endsWith (h : I.ExtendedBy J) {name : String} {e : Expr} (hend : I.EndsWith name e) :
    J.EndsWith name e := by
  have hrefers : ∀ name next, I.Refers name next → J.Refers name next := by
    rintro name next ⟨hname, hvalue⟩
    exact ⟨hname, h.value? hvalue⟩
  obtain ⟨last, hreach, hlast⟩ := hend
  refine ⟨last, Relation.ReflTransGen.mono hrefers _ _ hreach, ?_⟩
  cases hlast with
  | literal hname => exact .literal hname
  | value hname hvalue he => exact .value hname (h.value? hvalue) he

theorem dereference (h : I.ExtendedBy J) {value e : Expr} (hvalue : I.dereference value = .ok e) :
    J.dereference value = .ok e := by
  cases value with
  | ident name =>
    obtain ⟨target, hend, htarget⟩ := follow_eq_ok_iff.1 hvalue
    refine follow_eq_ok_iff.2 ⟨target, h.endsWith hend, ?_⟩
    obtain ⟨last, -, hlast⟩ := hend
    obtain ⟨value, hsame, -⟩ := hlast.dereference_eq
    rw [hsame J, ← hsame I]
    exact htarget
  | _ => exact hvalue

/-- A literal that is of a map type stays so. -/
theorem compositeType_map (h : I.ExtendedBy J) {type key value : TypeExpr}
    (hmap : compositeType I type = .map key value) : compositeType J type = .map key value := by
  cases type with
  | named name =>
    cases hspec : I.type? name with
    | none => simp [compositeType, hspec] at hmap
    | some spec =>
      simp only [compositeType, hspec] at hmap
      simp only [compositeType, h.types name spec hspec]
      exact hmap
  | _ => exact hmap

end ExtendedBy

end Index

/-- Whether an entry holds a literal or a map. -/
def Model.Entry.isPlainOrMap (entry : Model.Entry) : Bool :=
  match entry.value with
  | .literal _ => true
  | .entries _ => true
  | _ => false

section Entries

variable {I J : Index} (imports : ImportTable) (name : String) (spec : ValueSpec) {entry : Model.Entry}

/-- A value that has a plain entry or a map under an index comes to the same under one that knows more. -/
theorem valueEntry_of_extendedBy (h : I.ExtendedBy J) {e : Expr}
    (hentry : (valueEntry ⟨I, imports⟩ name spec e).value = some entry) (hkeeps : entry.isPlainOrMap = true) :
    valueEntry ⟨J, imports⟩ name spec e = valueEntry ⟨I, imports⟩ name spec e := by
  cases e with
  | composite type elements =>
    cases hc : compositeType I type with
    | map key value =>
      simp only [valueEntry, hc, h.compositeType_map hc]
      exact mapEntry_of_imports rfl name spec value elements
    | array element length =>
      simp only [valueEntry, hc] at hentry
      obtain ⟨r, -, rfl⟩ := exists_of_sliceEntry hentry
      cases hkeeps
    | _ =>
      simp only [valueEntry, hc] at hentry
      cases hentry
  | _ => rfl

theorem initializerEntry_of_extendedBy (h : I.ExtendedBy J) {value : Expr}
    (hentry : (initializerEntry ⟨I, imports⟩ name spec value).value = some entry)
    (hkeeps : entry.isPlainOrMap = true) :
    initializerEntry ⟨J, imports⟩ name spec value = initializerEntry ⟨I, imports⟩ name spec value := by
  unfold initializerEntry at hentry ⊢
  cases hd : I.dereference value with
  | error reason => simp [hd] at hentry
  | ok target =>
    simp only [hd] at hentry
    simp only [h.dereference hd]
    exact valueEntry_of_extendedBy imports name spec h hentry hkeeps

end Entries

/-- The entry that goes with the initial value at a place of a spec. -/
def ValueSpec.entryAt? (scope : Scope) (spec : ValueSpec) (place : Nat) : Option Model.Entry :=
  if spec.names.isEmpty then none
  else spec.values[place]?.bind fun value => (initializerEntry scope (spec.nameFor place) spec value).value

/-- The entries of a spec are those of its places, in order. -/
theorem valueEntries_eq_places (scope : Scope) (spec : ValueSpec) :
    (valueEntries scope spec).value = (List.range spec.values.length).filterMap (spec.entryAt? scope) := by
  by_cases hnames : spec.names.isEmpty = true
  · have hnone : spec.entryAt? scope = fun _ => none := by
      funext place
      rw [ValueSpec.entryAt?, if_pos hnames]
    rw [valueEntries, if_pos hnames, hnone, List.filterMap_none]
    rfl
  · rw [valueEntries, if_neg hnames, List.range_eq_range', ← List.zipIdx_map_snd, List.filterMap_map]
    simp only [Noted.map, Noted.collect, List.filterMap_map, List.map_map]
    apply List.filterMap_congr
    intro p hp
    have hat : spec.values[p.2]? = some p.1 := List.mem_zipIdx_iff_getElem?.1 hp
    simp only [Function.comp_apply, ValueSpec.entryAt?, if_neg hnames, hat, Option.bind_some, id_eq]

private theorem filter_filterMap_sublist {α β : Type} {f g : α → Option β} {p : β → Bool}
    (h : ∀ a b, f a = some b → p b = true → g a = some b) (l : List α) :
    ((l.filterMap f).filter p).Sublist (l.filterMap g) := by
  induction l with
  | nil => exact .slnil
  | cons a rest ih =>
    have hskip : ((rest.filterMap f).filter p).Sublist ((a :: rest).filterMap g) :=
      ih.trans ((List.sublist_cons_self a rest).filterMap g)
    cases hf : f a with
    | none =>
      rw [List.filterMap_cons_none hf]
      exact hskip
    | some b =>
      rw [List.filterMap_cons_some hf]
      cases hp : p b with
      | true =>
        rw [List.filter_cons_of_pos hp, List.filterMap_cons_some (h a b hf hp)]
        exact ih.cons_cons b
      | false =>
        rw [List.filter_cons_of_neg (by simp [hp])]
        exact hskip

/-- More declarations never spoil a plain value or a map.

The entries of a spec are those of its places, in order. Where a place has a literal or a map under an index, it has
the same entry under every index that keeps the declarations of that one; so the entries with a literal or a map are,
in order, among the entries under the other. -/
theorem valueEntries_of_extendedBy {I J : Index} (h : I.ExtendedBy J) (imports : ImportTable) (spec : ValueSpec) :
    (∀ scope : Scope,
      (valueEntries scope spec).value = (List.range spec.values.length).filterMap (spec.entryAt? scope)) ∧
    (∀ place entry, spec.entryAt? ⟨I, imports⟩ place = some entry → entry.isPlainOrMap = true →
      spec.entryAt? ⟨J, imports⟩ place = some entry) ∧
    ((valueEntries ⟨I, imports⟩ spec).value.filter (·.isPlainOrMap)).Sublist
      (valueEntries ⟨J, imports⟩ spec).value := by
  have hplaces : ∀ place entry, spec.entryAt? ⟨I, imports⟩ place = some entry → entry.isPlainOrMap = true →
      spec.entryAt? ⟨J, imports⟩ place = some entry := by
    intro place entry hentry hkeeps
    by_cases hnames : spec.names.isEmpty = true
    · rw [ValueSpec.entryAt?, if_pos hnames] at hentry
      cases hentry
    · rw [ValueSpec.entryAt?, if_neg hnames] at hentry ⊢
      obtain ⟨value, hvalue, hfound⟩ := Option.bind_eq_some_iff.1 hentry
      rw [hvalue, Option.bind_some, initializerEntry_of_extendedBy imports _ spec h hfound hkeeps]
      exact hfound
  refine ⟨fun scope => valueEntries_eq_places scope spec, hplaces, ?_⟩
  rw [valueEntries_eq_places, valueEntries_eq_places]
  exact filter_filterMap_sublist hplaces _

private def codesLiteral : Expr :=
  .composite (.named "Codes") [⟨"1", some "x"⟩]

private def codesIndex : Index :=
  ⟨[.type { name := "Codes", type := .map (.named "string") (.named "int") },
    .value { keyword := "const", names := ["top"], values := [.ident "codes"] },
    .value { keyword := "var", names := ["codes"], values := [codesLiteral] }]⟩

/-- The same index with a type that is made of itself, and with a second declaration of a name. -/
private def laterIndex : Index :=
  ⟨codesIndex.decls ++ [.type { name := "Unit", type := .array (.named "Unit") none },
    .value { keyword := "const", names := ["codes"], values := [.basic "int" "7"] }]⟩

private def codesSpec : ValueSpec :=
  { keyword := "var", names := ["a", "b"]
    values := [.composite (.array (.named "Unit") none) [⟨"1", none⟩], .ident "top"] }

theorem valueEntries_of_extendedBy_codes :
    codesIndex.ExtendedBy laterIndex ∧
      codesSpec.entryAt? ⟨codesIndex, []⟩ 0 =
        some { name := "a", kind := "Unit", value := .items ["1"], form := .slice } ∧
      codesSpec.entryAt? ⟨laterIndex, []⟩ 0 = none ∧
      codesSpec.entryAt? ⟨laterIndex, []⟩ 1 =
        some { name := "b", kind := "int", value := .entries [("x", "1")], form := .map } := by
  have hextended : codesIndex.ExtendedBy laterIndex := codesIndex.extendedBy_append _
  obtain ⟨-, hplaces, -⟩ := valueEntries_of_extendedBy hextended [] codesSpec
  refine ⟨hextended, ?_, ?_, hplaces 1 _ ?_ rfl⟩
  · have hresolve := Option.some.inj (codesIndex.turns_eq_resolve "Unit")
    have helement := namedElement_of_named ⟨codesIndex, []⟩ hresolve.symm
    change (sliceEntry ⟨codesIndex, []⟩ "a" codesSpec (.named "Unit") [⟨"1", none⟩]).value = _
    simp only [sliceEntry, elementResolution, helement]
    rfl
  · have hresolve := Option.some.inj (laterIndex.turns_eq_resolve "Unit")
    have helement := namedElement_of_error ⟨laterIndex, []⟩ hresolve.symm
    change (sliceEntry ⟨laterIndex, []⟩ "a" codesSpec (.named "Unit") [⟨"1", none⟩]).value = _
    simp only [sliceEntry, elementResolution, helement]
    rfl
  · have hend : codesIndex.EndsWith "top" codesLiteral :=
      ⟨_, .single ⟨by decide, rfl⟩, .value (by decide) rfl (by simp [codesLiteral])⟩
    have hfollow := Index.follow_eq_ok_iff.2 ⟨_, hend, rfl⟩
    change (initializerEntry ⟨codesIndex, []⟩ "b" codesSpec (.ident "top")).value = _
    rw [initializerEntry, Index.dereference, hfollow]
    rfl

end SourceOutline
