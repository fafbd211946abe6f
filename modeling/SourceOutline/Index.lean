import SourceOutline.Decl.Basic

/-! The index of declarations, in which names are looked up; the first declaration of a name counts. -/
namespace SourceOutline

/-- The declarations that names can refer to, in order. -/
structure Index where
  decls : List Decl := []
deriving Inhabited

namespace Index

def ofFiles (files : List GoFile) : Index :=
  ⟨files.flatMap (·.decls)⟩

/-- Adds a declaration; names declared before keep their meaning. -/
def add (index : Index) (d : Decl) : Index :=
  ⟨index.decls ++ [d]⟩

end Index

def Decl.typeNamed? (name : String) : Decl → Option TypeSpec
  | .type spec => if spec.name = name then some spec else none
  | .value _ => none

/-- The value spec of a declaration that declares `name`, and the place of the name in it. The name
`_` is declared nowhere. -/
def Decl.valueNamed? (name : String) : Decl → Option (ValueSpec × Nat)
  | .type _ => none
  | .value spec =>
    if name = "_" then none else (spec.names.idxOf? name).map fun place => (spec, place)

/-- The initial value that goes with a place among the names: the value at that place, or the only
value there is. -/
def ValueSpec.valueAt? (spec : ValueSpec) (place : Nat) : Option Expr :=
  match spec.values[place]? with
  | some value => some value
  | none =>
    match spec.values with
    | [value] => some value
    | _ => none

namespace Index

def type? (index : Index) (name : String) : Option TypeSpec :=
  index.decls.findSome? (·.typeNamed? name)

/-- The first declaration of a constant or variable, and the place of its name. -/
def declared? (index : Index) (name : String) : Option (ValueSpec × Nat) :=
  index.decls.findSome? (·.valueNamed? name)

/-- The spec that declares a name, and the name's initial value. -/
def value? (index : Index) (name : String) : Option (ValueSpec × Expr) :=
  (index.declared? name).bind fun (spec, place) => (spec.valueAt? place).map fun e => (spec, e)

/-- The names of the declared types, repeated where a type is declared again. -/
def typeNames (index : Index) : List String :=
  index.decls.filterMap fun
    | .type spec => some spec.name
    | .value _ => none

/-- The names of the declared constants and variables, repeated where declared again. -/
def valueNames (index : Index) : List String :=
  index.decls.flatMap fun
    | .type _ => []
    | .value spec => spec.names.filter (· ≠ "_")

/-- How many types and how many values the index knows. -/
def counts (index : Index) : Nat × Nat :=
  (index.typeNames.eraseDups.length, index.valueNames.eraseDups.length)

theorem mem_typeNames_of_type? {index : Index} {name : String} {spec : TypeSpec}
    (h : index.type? name = some spec) : name ∈ index.typeNames := by
  obtain ⟨d, hd, he⟩ := List.exists_of_findSome?_eq_some h
  cases d with
  | value => simp [Decl.typeNamed?] at he
  | type s =>
    simp only [Decl.typeNamed?, Option.ite_none_right_eq_some] at he
    exact List.mem_filterMap.2 ⟨_, hd, by simp [he.1]⟩

theorem mem_valueNames_of_declared? {index : Index} {name : String} {p : ValueSpec × Nat}
    (h : index.declared? name = some p) : name ∈ index.valueNames := by
  obtain ⟨d, hd, he⟩ := List.exists_of_findSome?_eq_some h
  cases d with
  | type => simp [Decl.valueNamed?] at he
  | value s =>
    simp only [Decl.valueNamed?, Option.ite_none_left_eq_some] at he
    obtain ⟨hn, hp⟩ := he
    refine List.mem_flatMap.2 ⟨_, hd, List.mem_filter.2 ⟨?_, by simpa using hn⟩⟩
    obtain ⟨i, hi, -⟩ := Option.map_eq_some_iff.1 hp
    refine Decidable.byContradiction fun hmem => ?_
    rw [List.idxOf?_eq_none_iff.2 hmem] at hi
    simp at hi

theorem declared?_of_value? {index : Index} {name : String} {p : ValueSpec × Expr}
    (h : index.value? name = some p) : ∃ q, index.declared? name = some q := by
  obtain ⟨q, hq, -⟩ := Option.bind_eq_some_iff.1 h
  exact ⟨q, hq⟩

theorem mem_valueNames_of_value? {index : Index} {name : String} {p : ValueSpec × Expr}
    (h : index.value? name = some p) : name ∈ index.valueNames := by
  obtain ⟨q, hq⟩ := declared?_of_value? h
  exact mem_valueNames_of_declared? hq

def unvisited (names visited : List String) : Nat :=
  (names.filter (· ∉ visited)).length

theorem unvisited_cons_lt {names visited : List String} {name : String} (hm : name ∈ names)
    (hv : name ∉ visited) : unvisited names (name :: visited) < unvisited names visited := by
  have step : names.filter (· ∉ name :: visited) =
      (names.filter (· ∉ visited)).filter (· ≠ name) := by
    rw [List.filter_filter]
    exact List.filter_congr fun a _ => by simp [List.mem_cons, not_or]
  unfold unvisited
  rw [step, List.length_filter_lt_length_iff_exists]
  exact ⟨name, List.mem_filter.2 ⟨hm, decide_eq_true hv⟩, by simp⟩

end Index

end SourceOutline
