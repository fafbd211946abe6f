import Mathlib.Data.List.Induction
import SourceOutline.Proofs.AliasHops
import SourceOutline.Proofs.FieldAccount
import SourceOutline.Proofs.Grouping
import SourceOutline.Proofs.Mentions
import SourceOutline.Proofs.ReferenceChains

/-!
The files that qualified names are written in. The names of types, constants and variables lead from file to
file of a package; a qualified name is written in the file in which the last of them is declared.
-/
namespace SourceOutline

section Nested

theorem TypeExpr.sizeOf_innermost : (t : TypeExpr) → sizeOf t.innermost ≤ sizeOf t
  | .array element _ => by
    have h := sizeOf_innermost element
    simp only [TypeExpr.innermost, TypeExpr.array.sizeOf_spec]
    omega
  | .named _ => Nat.le_refl _
  | .qualified _ _ => Nat.le_refl _
  | .pointer _ => Nat.le_refl _
  | .map _ _ => Nat.le_refl _
  | .struct _ => Nat.le_refl _
  | .unsupported _ _ => Nat.le_refl _

theorem TypeExpr.sizeOf_pointee (t : TypeExpr) : sizeOf t.pointee ≤ sizeOf t := by
  cases t with
  | pointer target => simp only [TypeExpr.pointee, TypeExpr.pointer.sizeOf_spec]; omega
  | _ => exact Nat.le_refl _

theorem TypeExpr.sizeOf_anonymous? {t : TypeExpr} {inner : List Field} (h : t.anonymous? = some inner) :
    sizeOf inner < sizeOf t := by
  cases t with
  | struct fields =>
    cases h
    simp only [TypeExpr.struct.sizeOf_spec]
    omega
  | array element length =>
    have hcore := Nat.le_trans (sizeOf_pointee element.innermost) (sizeOf_innermost element)
    rw [TypeExpr.anonymous?] at h
    cases hc : element.innermost.pointee with
    | struct fields =>
      rw [hc] at h hcore
      cases h
      simp only [TypeExpr.struct.sizeOf_spec, TypeExpr.array.sizeOf_spec] at hcore ⊢
      omega
    | _ => simp [hc, TypeExpr.struct?] at h
  | _ => cases h

/-- Induction over lists of fields through the anonymous structs in their types. -/
theorem Field.nested_induction {motive : List Field → Prop}
    (step : ∀ fields, (∀ f ∈ fields, ∀ inner, f.type.anonymous? = some inner → motive inner) →
      motive fields) (fields : List Field) : motive fields :=
  step fields fun f hf inner h =>
    have : sizeOf inner < sizeOf fields := by
      have htype := TypeExpr.sizeOf_anonymous? h
      have hfield := List.sizeOf_lt_of_mem hf
      have hsize : sizeOf f.type < sizeOf f := by cases f; simp only [Field.mk.sizeOf_spec]; omega
      omega
    Field.nested_induction step inner
termination_by sizeOf fields

theorem fieldsMet_eq_flatMap (fields : List Field) : fieldsMet fields = fields.flatMap Field.met := by
  induction fields with
  | nil => rfl
  | cons field rest ih => rw [fieldsMet, ih, List.flatMap_cons]

/-- A field that is met in a list stands in the list, or is met in an anonymous struct of one that does. -/
theorem exists_of_mem_fieldsMet {f : Field} {fields : List Field} (h : f ∈ fieldsMet fields) :
    ∃ top ∈ fields, f = top ∨ ∃ inner, top.type.anonymous? = some inner ∧ f ∈ fieldsMet inner := by
  rw [fieldsMet_eq_flatMap] at h
  obtain ⟨top, htop, hmet⟩ := List.mem_flatMap.1 h
  refine ⟨top, htop, ?_⟩
  by_cases hn : top.declaredNames = []
  · rw [Field.met_of_unnamed hn] at hmet
    exact .inl (List.mem_singleton.1 hmet)
  · rw [Field.met_eq hn, TypeExpr.fieldsMet_eq] at hmet
    rcases List.mem_cons.1 hmet with rfl | hin
    · exact .inl rfl
    · cases ha : top.type.anonymous? with
      | none => simp [ha] at hin
      | some inner => exact .inr ⟨inner, rfl, by simpa [ha] using hin⟩

end Nested

section Imports

/-- The path that the imports of a file bind to a qualifier: that of the last import with the qualifier. -/
def GoFile.pathOf? (file : GoFile) (qualifier : String) : Option String :=
  (file.imports.reverse.find? (·.qualifier == qualifier)).map (·.path)

theorem GoFile.pathOf?_eq_none {file : GoFile} {qualifier : String} :
    file.pathOf? qualifier = none ↔ ∀ i ∈ file.imports, i.qualifier ≠ qualifier := by
  simp [pathOf?]

private theorem lookup_rebind_of_ne {qualifier other : String} (ho : other ≠ qualifier) (path : String)
    (table : ImportTable) :
    (table.map fun entry => if entry.1 == qualifier then (qualifier, path) else entry).lookup other =
      table.lookup other := by
  induction table with
  | nil => rfl
  | cons entry rest ih =>
    obtain ⟨key, value⟩ := entry
    simp only [beq_iff_eq] at ih
    by_cases hk : key = qualifier
    · simp [hk, lookup_cons_eq, ih, ho]
    · simp [hk, lookup_cons_eq, ih]

private theorem lookup_rebind {table : ImportTable} {qualifier : String}
    (h : table.any (·.1 == qualifier) = true) (path : String) :
    (table.map fun entry => if entry.1 == qualifier then (qualifier, path) else entry).lookup qualifier =
      some path := by
  induction table with
  | nil => simp at h
  | cons entry rest ih =>
    obtain ⟨key, value⟩ := entry
    by_cases hk : key = qualifier
    · simp [hk]
    · have hrest : rest.any (·.1 == qualifier) = true := by simpa [hk] using h
      simpa [hk, lookup_cons_eq, Ne.symm hk] using ih hrest

/-- Binding a qualifier changes what it stands for, and no other. -/
theorem ImportTable.lookup_bind (table : ImportTable) (qualifier path other : String) :
    (table.bind qualifier path).lookup other =
      if other = qualifier then some path else table.lookup other := by
  unfold ImportTable.bind
  by_cases ho : other = qualifier
  · subst ho
    rw [if_pos rfl]
    split
    · next h => exact lookup_rebind h path
    · next h =>
      have hnone : table.lookup other = none := by
        rw [List.lookup_eq_none_iff]
        intro entry hin
        rw [bne_iff_ne]
        exact fun heq => h (List.any_eq_true.2 ⟨entry, hin, beq_iff_eq.2 heq.symm⟩)
      simp [List.lookup_append, hnone]
  · rw [if_neg ho]
    split
    · exact lookup_rebind_of_ne ho path table
    · simp [List.lookup_append, ho]

/-- The table of a file binds each qualifier to the path of its last import. -/
theorem GoFile.lookup_importTable (file : GoFile) (qualifier : String) :
    file.importTable.lookup qualifier = file.pathOf? qualifier := by
  unfold importTable ImportTable.ofPairs pathOf?
  induction file.imports using List.reverseRecOn with
  | nil => rfl
  | append_singleton before i ih =>
    rw [List.map_append, List.foldl_append, List.map_singleton, List.foldl_cons, List.foldl_nil,
      ImportTable.lookup_bind, ih, List.reverse_append, List.reverse_singleton, List.singleton_append,
      List.find?_cons]
    by_cases h : i.qualifier = qualifier
    · simp [h]
    · simp [beq_false_of_ne h, Ne.symm h]

end Imports

section Homes

/-- The first file with a declaration in which something is found. -/
def homeOf? {α : Type} (files : List GoFile) (find : Decl → Option α) : Option GoFile :=
  files.find? fun file => (file.decls.findSome? find).isSome

/-- What is found among the declarations of some files is found in its home. -/
theorem exists_home {α : Type} {files : List GoFile} {find : Decl → Option α} {found : α}
    (h : (Index.ofFiles files).decls.findSome? find = some found) :
    ∃ home ∈ files, homeOf? files find = some home ∧ home.decls.findSome? find = some found := by
  induction files with
  | nil => simp [Index.ofFiles] at h
  | cons file rest ih =>
    simp only [Index.ofFiles, List.flatMap_cons, List.findSome?_append] at h
    rw [homeOf?, List.find?_cons]
    cases hf : file.decls.findSome? find with
    | some here =>
      rw [hf, Option.some_or] at h
      exact ⟨file, List.mem_cons_self, rfl, hf.trans h⟩
    | none =>
      rw [hf, Option.none_or] at h
      obtain ⟨home, hin, hhome, hfound⟩ := ih h
      exact ⟨home, List.mem_cons_of_mem _ hin, hhome, hfound⟩

/-- The file whose declaration of a type counts. -/
def typeHome? (files : List GoFile) (name : String) : Option GoFile :=
  homeOf? files (·.typeNamed? name)

/-- The file whose declaration of a constant or variable counts. -/
def valueHome? (files : List GoFile) (name : String) : Option GoFile :=
  homeOf? files (·.valueNamed? name)

theorem typeHome?_of_type? {files : List GoFile} {name : String} {spec : TypeSpec}
    (h : (Index.ofFiles files).type? name = some spec) :
    ∃ home ∈ files, typeHome? files name = some home ∧ .type spec ∈ home.decls := by
  obtain ⟨home, hin, hhome, hfound⟩ := exists_home h
  have htype : (⟨home.decls⟩ : Index).type? name = some spec := hfound
  exact ⟨home, hin, hhome, Index.mem_decls_of_type? htype⟩

theorem valueHome?_of_value? {files : List GoFile} {name : String} {spec : ValueSpec} {e : Expr}
    (h : (Index.ofFiles files).value? name = some (spec, e)) :
    ∃ home ∈ files, valueHome? files name = some home ∧ .value spec ∈ home.decls ∧ e ∈ spec.values := by
  obtain ⟨found, hd, hv⟩ := Option.bind_eq_some_iff.1 h
  obtain ⟨home, hin, hhome, hfound⟩ := exists_home hd
  have hvalue : (⟨home.decls⟩ : Index).value? name = some (spec, e) :=
    Option.bind_eq_some_iff.2 ⟨found, hfound, hv⟩
  exact ⟨home, hin, hhome, Index.mem_decls_of_value? hvalue⟩

end Homes

namespace Index

/-- The name that a type name hops to. -/
def hopTarget? (index : Index) (name : String) : Option String :=
  match index.hop name with
  | .next target => some target
  | .stop _ => none

/-- The name that a constant or variable refers to. -/
def referent? (index : Index) (name : String) : Option String :=
  match isBoolName name, index.value? name with
  | false, some (_, .ident next) => some next
  | _, _ => none

/-- The last name of the hops from a type name. -/
def lastType (index : Index) (name : String) : String :=
  lastName index.typeNames index.hopTarget? [] name

/-- The last name of the chain of references from a constant or variable. -/
def lastValue (index : Index) (name : String) : String :=
  lastName index.valueNames index.referent? [] name

variable {index : Index} {name last : String}

theorem StopsAt.hopTarget?_eq {type : TypeExpr} (h : index.StopsAt name type) :
    index.hopTarget? name = none := by
  rw [hopTarget?, h.hop_eq]

theorem hops_iff {target : String} : index.Hops name target ↔ index.hopTarget? name = some target := by
  constructor
  · intro h
    rw [hopTarget?, h.hop_eq]
  · intro h
    rcases index.hops_or_stopsAt name with ⟨other, hother⟩ | ⟨type, htype⟩
    · rw [hopTarget?, hother.hop_eq] at h
      exact Option.some.inj h ▸ hother
    · rw [htype.hopTarget?_eq] at h
      cases h

theorem lastType_eq {type : TypeExpr} (hreach : Relation.ReflTransGen index.Hops name last)
    (hlast : index.StopsAt last type) : index.lastType name = last := by
  have hsearch := lastName_searches (R := index.Hops) hops_iff index.walk_searches.finite
  exact hsearch.search_of_stops hreach ⟨hlast.hopTarget?_eq, rfl⟩

theorem hop_lastType {type : TypeExpr} (h : index.resolve name = .ok type) :
    index.hop (index.lastType name) = .stop type := by
  obtain ⟨last, hreach, hlast⟩ := stopsWith_of_resolve h
  rw [lastType_eq hreach hlast]
  exact hlast.hop_eq

theorem refers_iff {next : String} : index.Refers name next ↔ index.referent? name = some next := by
  unfold referent?
  constructor
  · rintro ⟨hname, hvalue⟩
    rw [hname, hvalue]
  · intro h
    split at h
    · next hname hvalue =>
      cases h
      exact ⟨hname, hvalue⟩
    · cases h

theorem EndsAt.referent?_eq {e? : Option Expr} (h : index.EndsAt name e?) : index.referent? name = none := by
  rw [Option.eq_none_iff_forall_ne_some]
  intro next hnext
  exact h.not_refers (refers_iff.2 hnext)

theorem lastValue_eq {e? : Option Expr} (hreach : Relation.ReflTransGen index.Refers name last)
    (hlast : index.EndsAt last e?) : index.lastValue name = last := by
  have hsearch := lastName_searches (R := index.Refers) refers_iff index.follow_searches.finite
  exact hsearch.search_of_stops hreach ⟨hlast.referent?_eq, rfl⟩

/-- A chain of references that ends in a value ends at the name that has the value, or at a literal. -/
theorem value?_lastValue {value : Expr} (h : index.dereference (.ident name) = .ok value) :
    if isBoolName (index.lastValue name) then value = .basic "bool" (index.lastValue name)
    else ∃ spec, index.value? (index.lastValue name) = some (spec, value) := by
  obtain ⟨e, ⟨last, hreach, hlast⟩, he⟩ := follow_eq_ok_iff.1 h
  obtain ⟨target, htarget, -, hhome⟩ := hlast.dereference_eq
  cases he.symm.trans (htarget index)
  rw [lastValue_eq hreach hlast]
  exact hhome

theorem hop_qualified {package entity : String}
    (h : index.hop name = .stop (.qualified package entity)) :
    ∃ spec, index.type? name = some spec ∧ spec.type.innermost.pointee = .qualified package entity := by
  unfold Index.hop at h
  split at h
  · cases h
  · split at h
    · cases h
    · next spec hs =>
      refine ⟨spec, hs, ?_⟩
      split at h
      · cases h
      · next ht => cases h; exact ht
      · cases h

end Index

/-- A qualified name, and the file it is written in. -/
structure Foreign where
  home : GoFile
  package : String
  entity : String

/-- What a qualified name is to a file: its path is the one that the imports of this file bind. -/
def Foreign.seenFrom (s : Foreign) (reader : GoFile) : Model.Origin :=
  { package := s.package, entity := s.entity, path := reader.pathOf? s.package }

section Sources

variable (files : List GoFile)

/-- The qualified name that a type written in a file is. -/
def TypeExpr.foreign? (home : GoFile) : TypeExpr → Option Foreign
  | .qualified package entity => some ⟨home, package, entity⟩
  | _ => none

/-- The qualified name that a type name stands for. It is written where the last name of the walk from it
is declared. -/
def aliasSource? (name : String) : Option Foreign :=
  let last := (Index.ofFiles files).lastType name
  match (Index.ofFiles files).hop last with
  | .stop (.qualified package entity) =>
    (typeHome? files last).map fun home => ⟨home, package, entity⟩
  | _ => none

def targetSource? (home : GoFile) : TypeExpr → Option Foreign
  | .named name => aliasSource? files name
  | type => type.foreign? home

/-- The qualified name of the elements of an array whose element type is written in a file. -/
def elementSource? (home : GoFile) (element : TypeExpr) : Option Foreign :=
  targetSource? files home element.innermost.pointee

/-- The qualified name of what a map or an array holds. -/
def containerSource? (home : GoFile) : TypeExpr → Option Foreign
  | .map _ value => value.foreign? home
  | .array element _ => elementSource? files home element
  | _ => none

/-- The qualified name that a declared type is known by. -/
def typeSource? (home : GoFile) : TypeExpr → Option Foreign
  | .qualified package entity => some ⟨home, package, entity⟩
  | type => containerSource? files home type

/-- The qualified name that a composite literal is known by. A literal of a named type is known by the
declaration of the type, in the file that has it. -/
def literalSource? (home : GoFile) : TypeExpr → Option Foreign
  | .named name =>
    match typeHome? files name, (Index.ofFiles files).type? name with
    | some other, some spec => containerSource? files other spec.type
    | _, _ => none
  | type => containerSource? files home type

def exprSource? (home : GoFile) : Expr → Option Foreign
  | .composite type _ => literalSource? files home type
  | _ => none

/-- The qualified name that an initial value is known by. A reference is known by the value it leads to, in
the file that has it. -/
def initializerSource? (home : GoFile) : Expr → Option Foreign
  | .ident name =>
    let last := (Index.ofFiles files).lastValue name
    if isBoolName last then none
    else match valueHome? files last, (Index.ofFiles files).value? last with
      | some other, some (_, value) => exprSource? files other value
      | _, _ => none
  | value => exprSource? files home value

end Sources

section Written

mutual

/-- The qualified names that a type is written with, at any depth. -/
def TypeExpr.qualifiedNames : TypeExpr → List (String × String)
  | .named _ => []
  | .qualified package entity => [(package, entity)]
  | .pointer target => target.qualifiedNames
  | .array element _ => element.qualifiedNames
  | .map key value => key.qualifiedNames ++ value.qualifiedNames
  | .struct fields => fieldsQualifiedNames fields
  | .unsupported _ _ => []

def Field.qualifiedNames : Field → List (String × String)
  | ⟨_, type, _, _, _⟩ => type.qualifiedNames

def fieldsQualifiedNames : List Field → List (String × String)
  | [] => []
  | field :: rest => field.qualifiedNames ++ fieldsQualifiedNames rest

end

def Expr.qualifiedNames : Expr → List (String × String)
  | .composite type _ => type.qualifiedNames
  | _ => []

def Decl.qualifiedNames : Decl → List (String × String)
  | .type spec => spec.type.qualifiedNames
  | .value spec =>
    (spec.type.map TypeExpr.qualifiedNames).getD [] ++ spec.values.flatMap Expr.qualifiedNames

/-- The qualified names that the declarations of a file are written with. -/
def GoFile.qualifiedNames (file : GoFile) : List (String × String) :=
  file.decls.flatMap Decl.qualifiedNames

theorem TypeExpr.qualifiedNames_innermost : (t : TypeExpr) →
    t.innermost.qualifiedNames ⊆ t.qualifiedNames
  | .array element _ => qualifiedNames_innermost element
  | .named _ => List.Subset.refl _
  | .qualified _ _ => List.Subset.refl _
  | .pointer _ => List.Subset.refl _
  | .map _ _ => List.Subset.refl _
  | .struct _ => List.Subset.refl _
  | .unsupported _ _ => List.Subset.refl _

theorem TypeExpr.qualifiedNames_pointee (t : TypeExpr) : t.pointee.qualifiedNames ⊆ t.qualifiedNames := by
  cases t with
  | pointer target => simp only [TypeExpr.pointee, TypeExpr.qualifiedNames]; exact List.Subset.refl _
  | _ => exact List.Subset.refl _

theorem TypeExpr.qualifiedNames_core (t : TypeExpr) :
    t.innermost.pointee.qualifiedNames ⊆ t.qualifiedNames :=
  List.Subset.trans (qualifiedNames_pointee _) (qualifiedNames_innermost t)

theorem TypeExpr.qualifiedNames_anonymous? {t : TypeExpr} {inner : List Field}
    (h : t.anonymous? = some inner) : fieldsQualifiedNames inner ⊆ t.qualifiedNames := by
  cases t with
  | struct fields =>
    cases h
    exact List.Subset.refl _
  | array element length =>
    have hcore := TypeExpr.qualifiedNames_core element
    rw [TypeExpr.anonymous?] at h
    cases hc : element.innermost.pointee with
    | struct fields =>
      rw [hc] at h hcore
      cases h
      exact hcore
    | _ => simp [hc, TypeExpr.struct?] at h
  | _ => cases h

theorem qualifiedNames_subset_of_mem {f : Field} {fields : List Field} (hf : f ∈ fields) :
    f.type.qualifiedNames ⊆ fieldsQualifiedNames fields := by
  induction fields with
  | nil => simp at hf
  | cons field rest ih =>
    rw [fieldsQualifiedNames]
    rcases List.mem_cons.1 hf with rfl | hin
    · obtain ⟨names, type, tag, doc, line⟩ := f
      exact List.subset_append_left _ _
    · exact List.subset_append_of_subset_right _ (ih hin)

/-- The fields met in a list of fields are written with the qualified names of the list. -/
theorem qualifiedNames_fieldsMet (fields : List Field) : ∀ f ∈ fieldsMet fields,
    f.type.qualifiedNames ⊆ fieldsQualifiedNames fields := by
  induction fields using Field.nested_induction with
  | step fields ih =>
    intro f hf
    obtain ⟨top, htop, hmet⟩ := exists_of_mem_fieldsMet hf
    rcases hmet with rfl | ⟨inner, ha, hin⟩
    · exact qualifiedNames_subset_of_mem htop
    · refine List.Subset.trans (ih top htop inner ha f hin) ?_
      exact List.Subset.trans (TypeExpr.qualifiedNames_anonymous? ha) (qualifiedNames_subset_of_mem htop)

/-- A declaration of the file writes the qualified name, and the file belongs to the package. -/
structure Foreign.Written (s : Foreign) (files : List GoFile) : Prop where
  mem : s.home ∈ files
  written : (s.package, s.entity) ∈ s.home.qualifiedNames

/-- A file of the package, and some qualified names that its declarations are written with. -/
structure Writes (files : List GoFile) (home : GoFile) (names : List (String × String)) : Prop where
  mem : home ∈ files
  subset : names ⊆ home.qualifiedNames

theorem Writes.mono {files : List GoFile} {home : GoFile} {names more : List (String × String)}
    (h : Writes files home more) (hsub : names ⊆ more) : Writes files home names :=
  ⟨h.mem, List.Subset.trans hsub h.subset⟩

theorem Writes.of_decl {files : List GoFile} {home : GoFile} (hmem : home ∈ files) {d : Decl}
    (hd : d ∈ home.decls) : Writes files home d.qualifiedNames :=
  ⟨hmem, fun _ hq => List.mem_flatMap.2 ⟨d, hd, hq⟩⟩

variable {files : List GoFile} {home : GoFile} {s : Foreign}

theorem Foreign.written_of_foreign? {t : TypeExpr} (hw : Writes files home t.qualifiedNames)
    (h : t.foreign? home = some s) : s.Written files := by
  cases t with
  | qualified package entity =>
    cases h
    exact ⟨hw.mem, hw.subset (List.mem_singleton_self _)⟩
  | _ => cases h

theorem Foreign.written_of_aliasSource? {name : String} (h : aliasSource? files name = some s) :
    s.Written files := by
  simp only [aliasSource?] at h
  split at h
  · next package entity hop =>
    obtain ⟨spec, hs, htype⟩ := Index.hop_qualified hop
    obtain ⟨other, hin, hhome, hdecl⟩ := typeHome?_of_type? hs
    rw [hhome] at h
    cases h
    have hwrites := (Writes.of_decl hin hdecl).mono (TypeExpr.qualifiedNames_core spec.type)
    rw [htype] at hwrites
    exact ⟨hin, hwrites.subset (List.mem_singleton_self _)⟩
  · cases h

theorem Foreign.written_of_elementSource? {t : TypeExpr} (hw : Writes files home t.qualifiedNames)
    (h : elementSource? files home t = some s) : s.Written files := by
  unfold elementSource? targetSource? at h
  split at h
  · exact written_of_aliasSource? h
  · exact written_of_foreign? (hw.mono (TypeExpr.qualifiedNames_core t)) h

theorem Foreign.written_of_containerSource? {t : TypeExpr} (hw : Writes files home t.qualifiedNames)
    (h : containerSource? files home t = some s) : s.Written files := by
  cases t with
  | map key value =>
    exact written_of_foreign? (hw.mono (List.subset_append_right _ _)) h
  | array element length => exact written_of_elementSource? hw h
  | _ => cases h

theorem Foreign.written_of_typeSource? {t : TypeExpr} (hw : Writes files home t.qualifiedNames)
    (h : typeSource? files home t = some s) : s.Written files := by
  cases t with
  | qualified package entity =>
    cases h
    exact ⟨hw.mem, hw.subset (List.mem_singleton_self _)⟩
  | _ => exact written_of_containerSource? hw h

theorem Foreign.written_of_exprSource? {e : Expr} (hw : Writes files home e.qualifiedNames)
    (h : exprSource? files home e = some s) : s.Written files := by
  cases e with
  | composite type elements =>
    cases type with
    | named name =>
      simp only [exprSource?, literalSource?] at h
      split at h
      · next other spec hhome hs =>
        obtain ⟨found, hin, hfound, hdecl⟩ := typeHome?_of_type? hs
        obtain rfl : found = other := Option.some.inj (hfound.symm.trans hhome)
        exact written_of_containerSource? (Writes.of_decl hin hdecl) h
      · cases h
    | _ => exact written_of_containerSource? hw h
  | _ => cases h

/-- The name that an initial value is known by is written in a file of the package. -/
theorem Foreign.written_of_initializerSource? {e : Expr} (hw : Writes files home e.qualifiedNames)
    (h : initializerSource? files home e = some s) : s.Written files := by
  cases e with
  | ident name =>
    simp only [initializerSource?] at h
    split at h
    · cases h
    · split at h
      · next other spec value hhome hs =>
        obtain ⟨found, hin, hfound, hdecl, hvalue⟩ := valueHome?_of_value? hs
        obtain rfl : found = other := Option.some.inj (hfound.symm.trans hhome)
        have hsub : value.qualifiedNames ⊆ (Decl.value spec).qualifiedNames := fun q hq =>
          List.mem_append_right _ (List.mem_flatMap.2 ⟨value, hvalue, hq⟩)
        exact written_of_exprSource? ((Writes.of_decl hin hdecl).mono hsub) h
      · cases h
  | _ => exact written_of_exprSource? hw h

end Written

end SourceOutline
