import SourceOutline.Index.Alias
import SourceOutline.Extract.Values

/-! The names that types, initial values, declarations and files mention. -/
namespace SourceOutline

mutual

/-- The type names a type is written with, at any depth. Qualified names belong to other packages. -/
def TypeExpr.mentions : TypeExpr → List String
  | .named name => [name]
  | .qualified _ _ => []
  | .pointer target => target.mentions
  | .array element _ => element.mentions
  | .map key value => key.mentions ++ value.mentions
  | .struct fields => fieldMentions fields
  | .unsupported _ _ => []

def Field.mentions : Field → List String
  | ⟨_, type, _, _, _⟩ => type.mentions

def fieldMentions : List Field → List String
  | [] => []
  | field :: rest => field.mentions ++ fieldMentions rest

end

/-- The type names of an initial value: those of the type of a composite literal. -/
def Expr.typeMentions : Expr → List String
  | .composite type _ => type.mentions
  | _ => []

/-- The constant or variable that an initial value refers to. -/
def Expr.identMentions : Expr → List String
  | .ident name => [name]
  | _ => []

def Decl.typeMentions : Decl → List String
  | .type spec => spec.type.mentions
  | .value spec =>
    (spec.type.map TypeExpr.mentions).getD [] ++ spec.values.flatMap Expr.typeMentions

def Decl.identMentions : Decl → List String
  | .type _ => []
  | .value spec => spec.values.flatMap Expr.identMentions

def GoFile.typeMentions (file : GoFile) : List String :=
  file.decls.flatMap Decl.typeMentions

def GoFile.identMentions (file : GoFile) : List String :=
  file.decls.flatMap Decl.identMentions

/-- Every name that the declarations of a file mention. -/
def GoFile.mentions (file : GoFile) : List String :=
  file.typeMentions ++ file.identMentions

@[simp] theorem TypeExpr.mentions_named (name : String) : (TypeExpr.named name).mentions = [name] := rfl

@[simp] theorem Expr.identMentions_ident (name : String) : (Expr.ident name).identMentions = [name] := rfl

theorem TypeExpr.mentions_innermost_subset : (t : TypeExpr) → t.innermost.mentions ⊆ t.mentions
  | .array element _ => mentions_innermost_subset element
  | .named _ => List.Subset.refl _
  | .qualified _ _ => List.Subset.refl _
  | .pointer _ => List.Subset.refl _
  | .map _ _ => List.Subset.refl _
  | .struct _ => List.Subset.refl _
  | .unsupported _ _ => List.Subset.refl _

theorem TypeExpr.mentions_pointee_subset (t : TypeExpr) : t.pointee.mentions ⊆ t.mentions := by
  cases t with
  | pointer target => simp only [TypeExpr.pointee, TypeExpr.mentions]; exact List.Subset.refl _
  | _ => exact List.Subset.refl _

/-- What is left below the array layers and one pointer of a type mentions no further names. -/
theorem TypeExpr.mentions_core_subset (t : TypeExpr) :
    t.innermost.pointee.mentions ⊆ t.mentions :=
  List.Subset.trans (mentions_pointee_subset _) (mentions_innermost_subset t)

theorem Index.mem_decls_of_type? {index : Index} {name : String} {spec : TypeSpec}
    (h : index.type? name = some spec) : .type spec ∈ index.decls := by
  obtain ⟨d, hd, he⟩ := List.exists_of_findSome?_eq_some h
  cases d with
  | value other => simp [Decl.typeNamed?] at he
  | type other =>
    simp only [Decl.typeNamed?, Option.ite_none_right_eq_some, Option.some.injEq] at he
    exact he.2 ▸ hd

theorem ValueSpec.mem_values_of_valueAt? {spec : ValueSpec} {place : Nat} {e : Expr}
    (h : spec.valueAt? place = some e) : e ∈ spec.values := by
  unfold ValueSpec.valueAt? at h
  split at h
  · next value hv =>
    have he : value = e := Option.some.inj h
    exact he ▸ List.mem_of_getElem? hv
  · split at h
    · next value hv =>
      have he : value = e := Option.some.inj h
      rw [hv, he]
      exact List.mem_singleton_self e
    · simp at h

theorem Index.mem_decls_of_value? {index : Index} {name : String} {spec : ValueSpec} {e : Expr}
    (h : index.value? name = some (spec, e)) : .value spec ∈ index.decls ∧ e ∈ spec.values := by
  obtain ⟨⟨found, place⟩, hd, hv⟩ := Option.bind_eq_some_iff.1 h
  obtain ⟨value, hat, heq⟩ := Option.map_eq_some_iff.1 hv
  obtain ⟨rfl, rfl⟩ := Prod.mk.inj heq
  refine ⟨?_, ValueSpec.mem_values_of_valueAt? hat⟩
  obtain ⟨d, hmem, he⟩ := List.exists_of_findSome?_eq_some hd
  cases d with
  | type other => simp [Decl.valueNamed?] at he
  | value other =>
    simp only [Decl.valueNamed?, Option.ite_none_left_eq_some, Option.map_eq_some_iff,
      Prod.mk.injEq] at he
    obtain ⟨-, i, -, rfl, -⟩ := he
    exact hmem

end SourceOutline
