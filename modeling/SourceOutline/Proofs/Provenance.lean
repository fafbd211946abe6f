import SourceOutline.Extract.Outline
import SourceOutline.Proofs.Sources

/-!
Where the origins in an outline come from. A qualified name may be written in another file than the one
whose outline it ends up in; the path that goes with it is looked up in the imports of the latter.
-/
namespace SourceOutline

section Origins

variable {files : List GoFile} {reader : GoFile}

/-- What names mean while a file of a package is extracted. -/
abbrev readingScope (files : List GoFile) (reader : GoFile) : Scope :=
  { index := Index.ofFiles files, imports := reader.importTable }

theorem origin_seenFrom (home : GoFile) (package entity : String) :
    (readingScope files reader).origin package entity =
      Foreign.seenFrom ⟨home, package, entity⟩ reader := by
  rw [Scope.origin, Foreign.seenFrom, GoFile.lookup_importTable]

theorem namedElement_origin {name : String} {r : Resolution}
    (h : namedElement (readingScope files reader) name = .ok r) :
    r.origin = (aliasSource? files name).map (·.seenFrom reader) := by
  unfold namedElement at h
  cases hw : (Index.ofFiles files).resolve name with
  | error cycle => simp [hw] at h
  | ok type =>
    have hlast := Index.hop_lastType hw
    simp only [aliasSource?, hlast]
    rcases Index.walk_ok_shape hw with ⟨kind, rfl⟩ | ⟨package, kind, rfl⟩
    · simp only [hw] at h
      cases h
      rfl
    · simp only [hw] at h
      cases h
      obtain ⟨spec, hs, -⟩ := Index.hop_qualified hlast
      obtain ⟨home, -, hhome, -⟩ := typeHome?_of_type? hs
      simp [hhome, origin_seenFrom home]

theorem targetResolution_origin (home : GoFile) {t : TypeExpr} {r : Resolution}
    (h : (targetResolution (readingScope files reader) t).value = .ok r) :
    r.origin = (targetSource? files home t).map (·.seenFrom reader) := by
  cases t with
  | named name => exact namedElement_origin h
  | qualified package name =>
    cases h
    simp [targetSource?, TypeExpr.foreign?, qualifiedElement, origin_seenFrom home]
  | struct fields => cases h; rfl
  | _ => cases h

theorem elementResolution_origin (home : GoFile) {t : TypeExpr} {r : Resolution}
    (h : (elementResolution (readingScope files reader) t).value = .ok r) :
    r.origin = (elementSource? files home t).map (·.seenFrom reader) := by
  rw [elementResolution_eq] at h
  exact targetResolution_origin home h

theorem mapResolution_origin (home : GoFile) (value : TypeExpr) :
    (mapResolution (readingScope files reader) value).origin =
      (value.foreign? home).map (·.seenFrom reader) := by
  cases value with
  | qualified package name => simp [mapResolution, TypeExpr.foreign?, origin_seenFrom home]
  | _ => rfl

theorem typeResolution_origin (home : GoFile) {t : TypeExpr} {r : Resolution}
    (h : (typeResolution (readingScope files reader) t).value = .ok r) :
    r.origin = (typeSource? files home t).map (·.seenFrom reader) := by
  cases t with
  | named name => cases h; rfl
  | qualified package name =>
    cases h
    simp [typeSource?, origin_seenFrom home]
  | pointer target =>
    cases target with
    | named name => cases h; rfl
    | _ => cases h
  | array element length => exact elementResolution_origin home h
  | map key value => cases h; exact mapResolution_origin home value
  | struct fields => cases h; rfl
  | unsupported shape text => cases h

theorem mapEntry_origin (home : GoFile) {name : String} {spec : ValueSpec} {value : TypeExpr}
    {elements : List Element} {entry : Model.Entry}
    (h : (mapEntry (readingScope files reader) name spec value elements).value = some entry) :
    entry.name = name ∧ entry.origin = (value.foreign? home).map (·.seenFrom reader) := by
  rw [mapEntry, mapLiteralKind_eq] at h
  cases h
  exact ⟨rfl, mapResolution_origin home value⟩

theorem sliceEntry_origin (home : GoFile) {name : String} {spec : ValueSpec} {element : TypeExpr}
    {elements : List Element} {entry : Model.Entry}
    (h : (sliceEntry (readingScope files reader) name spec element elements).value = some entry) :
    entry.name = name ∧ entry.origin = (elementSource? files home element).map (·.seenFrom reader) := by
  obtain ⟨r, hr, rfl⟩ := exists_of_sliceEntry h
  exact ⟨rfl, elementResolution_origin home hr⟩

/-- A composite literal is known by what its type comes to, in the file that this is written in. -/
theorem exists_literalSource? (files : List GoFile) (home : GoFile) (t : TypeExpr) :
    ∃ other, literalSource? files home t =
      containerSource? files other (compositeType (Index.ofFiles files) t) := by
  cases t with
  | named name =>
    cases hs : (Index.ofFiles files).type? name with
    | none =>
      refine ⟨home, ?_⟩
      simp only [literalSource?, compositeType, hs]
      cases typeHome? files name <;> rfl
    | some spec =>
      obtain ⟨other, -, hhome, -⟩ := typeHome?_of_type? hs
      refine ⟨other, ?_⟩
      simp only [literalSource?, compositeType, hs, hhome]
      cases spec.type <;> rfl
  | _ => exact ⟨home, rfl⟩

theorem valueEntry_origin (home : GoFile) {name : String} {spec : ValueSpec} {e : Expr}
    {entry : Model.Entry}
    (h : (valueEntry (readingScope files reader) name spec e).value = some entry) :
    entry.name = name ∧ entry.origin = (exprSource? files home e).map (·.seenFrom reader) := by
  cases e with
  | basic kind value => cases h; exact ⟨rfl, rfl⟩
  | composite type elements =>
    obtain ⟨other, hother⟩ := exists_literalSource? files home type
    rw [exprSource?, hother]
    unfold valueEntry at h
    dsimp only at h
    split at h
    · next key value hc =>
      rw [hc]
      exact mapEntry_origin other h
    · next element length hc =>
      rw [hc]
      exact sliceEntry_origin other h
    · cases h
  | ident other => cases h
  | unsupported shape text => cases h

theorem initializerEntry_origin (home : GoFile) {name : String} {spec : ValueSpec} {e : Expr}
    {entry : Model.Entry}
    (h : (initializerEntry (readingScope files reader) name spec e).value = some entry) :
    entry.name = name ∧ entry.origin = (initializerSource? files home e).map (·.seenFrom reader) := by
  unfold initializerEntry at h
  cases hd : (Index.ofFiles files).dereference e with
  | error reason => simp [hd] at h
  | ok target =>
    simp only [hd] at h
    cases e with
    | ident other =>
      have hlast := Index.value?_lastValue hd
      unfold initializerSource?
      dsimp only
      split at hlast
      · next hb =>
        rw [if_pos hb]
        subst hlast
        exact valueEntry_origin home h
      · next hb =>
        obtain ⟨found, hv⟩ := hlast
        -- the origin is the same whichever file the value is taken to be written in
        obtain ⟨other, -, hhome, -⟩ := valueHome?_of_value? hv
        rw [if_neg hb, hhome, hv]
        exact valueEntry_origin other h
    | _ =>
      cases hd
      exact valueEntry_origin home h

end Origins

namespace Model

mutual

/-- A field and the fields below it, at every depth. -/
def Field.deep : Field → List Field
  | ⟨name, kind, tag, doc, isPointer, origin, subFields, form⟩ =>
    ⟨name, kind, tag, doc, isPointer, origin, subFields, form⟩ :: deepSub subFields

def deepSub : Option (List Field) → List Field
  | none => []
  | some fields => deepFields fields

/-- Fields and the fields below them, at every depth. -/
def deepFields : List Field → List Field
  | [] => []
  | field :: rest => field.deep ++ deepFields rest

end

theorem Field.deep_eq (m : Field) : m.deep = m :: deepSub m.subFields := by
  cases m
  rfl

theorem mem_deepFields {m : Field} {fields : List Field} :
    m ∈ deepFields fields ↔ ∃ top ∈ fields, m ∈ top.deep := by
  induction fields with
  | nil => simp [deepFields]
  | cons field rest ih => simp [deepFields, ih]

theorem Outline.join_eq (outlines : List Outline) :
    Outline.join outlines =
      { structs := outlines.flatMap (·.structs), entries := outlines.flatMap (·.entries) } := by
  suffices h : ∀ before : Outline, outlines.foldl Outline.append before =
      { structs := before.structs ++ outlines.flatMap (·.structs)
        entries := before.entries ++ outlines.flatMap (·.entries) } by
    simpa [Outline.join] using h {}
  induction outlines with
  | nil => simp
  | cons o rest ih => intro before; simp [ih, Outline.append]

end Model

section Deep

variable (scope : Scope)

theorem mem_classifyField {f : Field} {m : Model.Field} (hm : m ∈ (classifyField scope f).value) :
    ∃ r, (typeResolution scope f.type).value = .ok r ∧ m.name ∈ f.declaredNames ∧
      m.origin = r.origin ∧ m.subFields = r.subFields := by
  obtain ⟨r, hr, name, hname, rfl⟩ := exists_of_mem_classifyField scope hm
  exact ⟨r, hr, hname, rfl, rfl⟩

theorem extractFields_value (fields : List Field) :
    (extractFields scope fields).value = fields.flatMap fun f => (classifyField scope f).value := by
  induction fields with
  | nil => rfl
  | cons field rest ih => rw [extractFields, ih, List.flatMap_cons]

/-- Every field of a model, at any depth, is that of a field met in the declaration. -/
theorem extractFields_deep (fields : List Field) :
    ∀ m ∈ Model.deepFields (extractFields scope fields).value,
      ∃ f ∈ fieldsMet fields, m ∈ (classifyField scope f).value := by
  induction fields using Field.nested_induction with
  | step fields ih =>
    intro m hm
    rw [extractFields_value] at hm
    obtain ⟨top, htop, hdeep⟩ := Model.mem_deepFields.1 hm
    obtain ⟨f, hf, hin⟩ := List.mem_flatMap.1 htop
    obtain ⟨r, hr, hname, -, hsub⟩ := mem_classifyField scope hin
    -- a field below `top` is one of the sub-fields, which are those of the anonymous struct in its type
    suffices h : ∃ g ∈ f.met, m ∈ (classifyField scope g).value by
      obtain ⟨g, hg, hmem⟩ := h
      rw [fieldsMet_eq_flatMap]
      exact ⟨g, List.mem_flatMap.2 ⟨f, hf, hg⟩, hmem⟩
    rw [Field.met_eq (List.ne_nil_of_mem hname), TypeExpr.fieldsMet_eq]
    rw [Model.Field.deep_eq] at hdeep
    rcases List.mem_cons.1 hdeep with rfl | hbelow
    · exact ⟨f, List.mem_cons_self, hin⟩
    · rw [hsub, typeResolution_subFields scope hr] at hbelow
      cases ha : f.type.anonymous? with
      | none => simp [ha, Model.deepSub] at hbelow
      | some inner =>
        rw [ha] at hbelow
        obtain ⟨g, hg, hmem⟩ := ih f hf inner ha m hbelow
        exact ⟨g, List.mem_cons_of_mem _ hg, hmem⟩

end Deep

section Outlines

/-- The names that a file gives to fields, constants and variables, each with the qualified name that it is
known by. -/
inductive Known (files : List GoFile) (reader : GoFile) : String → Option Foreign → Prop
  | field {spec : TypeSpec} {fields : List Field} {f : Field} {name : String}
      (hdecl : .type spec ∈ reader.decls) (hstruct : spec.type = .struct fields)
      (hmet : f ∈ fieldsMet fields) (hname : name ∈ f.declaredNames) :
      Known files reader name (typeSource? files reader f.type)
  | value {spec : ValueSpec} {place : Nat} {e : Expr} (hdecl : .value spec ∈ reader.decls)
      (hvalue : spec.values[place]? = some e) :
      Known files reader (spec.nameFor place) (initializerSource? files reader e)
  | typed {spec : ValueSpec} {type : TypeExpr} {name : String} (hdecl : .value spec ∈ reader.decls)
      (hvalues : spec.values = []) (htype : spec.type = some type) (hname : name ∈ spec.names) :
      Known files reader name (typeSource? files reader type)

variable {files : List GoFile} {reader : GoFile}

/-- What a name is known by is written in a file of the package. -/
theorem Known.written (hr : reader ∈ files) {name : String} {s : Foreign}
    (h : Known files reader name (some s)) : s.Written files := by
  generalize hs : some s = source at h
  cases h with
  | field hdecl hstruct hmet hname =>
    have hw := Writes.of_decl hr hdecl
    rw [Decl.qualifiedNames, hstruct] at hw
    exact Foreign.written_of_typeSource? (hw.mono (qualifiedNames_fieldsMet _ _ hmet)) hs.symm
  | value hdecl hvalue =>
    refine Foreign.written_of_initializerSource? ((Writes.of_decl hr hdecl).mono fun q hq => ?_) hs.symm
    exact List.mem_append_right _ (List.mem_flatMap.2 ⟨_, List.mem_of_getElem? hvalue, hq⟩)
  | typed hdecl hvalues htype hname =>
    refine Foreign.written_of_typeSource? ((Writes.of_decl hr hdecl).mono fun q hq => ?_) hs.symm
    rw [Decl.qualifiedNames, htype]
    exact List.mem_append_left _ hq

theorem fileOutline_value (files : List GoFile) (reader : GoFile) :
    (fileOutline (Index.ofFiles files) reader).value =
      { structs := reader.decls.flatMap fun d => (declOutline (readingScope files reader) d).value.structs
        entries := reader.decls.flatMap fun d => (declOutline (readingScope files reader) d).value.entries }
    := by
  simp only [fileOutline, Noted.map, Noted.collect, Model.Outline.join_eq, List.map_map, List.flatMap_map,
    Function.comp_apply]

/-- The fields of a struct, at any depth, are known by the types they are declared with. -/
theorem known_of_struct {struct : Model.Struct} {m : Model.Field}
    (hstruct : struct ∈ (fileOutline (Index.ofFiles files) reader).value.structs)
    (hm : m ∈ Model.deepFields struct.fields) :
    ∃ source, Known files reader m.name source ∧ m.origin = source.map (·.seenFrom reader) := by
  rw [fileOutline_value] at hstruct
  obtain ⟨d, hd, hin⟩ := List.mem_flatMap.1 hstruct
  cases d with
  | value spec => simp [declOutline, Noted.map] at hin
  | type spec =>
    simp only [declOutline, structOf, Noted.map] at hin
    cases ht : spec.type with
    | struct fields =>
      simp only [ht, Option.toList_some, List.mem_singleton] at hin
      subst hin
      obtain ⟨f, hf, hmem⟩ := extractFields_deep _ fields m hm
      obtain ⟨r, hr, hname, horigin, -⟩ := mem_classifyField _ hmem
      exact ⟨_, .field hd ht hf hname, horigin.trans (typeResolution_origin reader hr)⟩
    | _ => simp [ht, Noted.pure] at hin

theorem known_of_valueEntries {spec : ValueSpec} (hdecl : .value spec ∈ reader.decls)
    {entry : Model.Entry} (h : entry ∈ (valueEntries (readingScope files reader) spec).value) :
    ∃ source, Known files reader entry.name source ∧
      entry.origin = source.map (·.seenFrom reader) := by
  unfold valueEntries at h
  split at h
  · simp [Noted.pure] at h
  · simp only [Noted.map, Noted.collect, List.map_map, List.mem_filterMap, List.mem_map, id_eq] at h
    obtain ⟨found, ⟨⟨e, place⟩, hin, hstep⟩, rfl⟩ := h
    obtain ⟨hname, horigin⟩ := initializerEntry_origin reader hstep
    rw [hname]
    exact ⟨_, .value hdecl (List.mem_zipIdx_iff_getElem?.1 hin), horigin⟩

theorem known_of_typedEntries {spec : ValueSpec} (hdecl : .value spec ∈ reader.decls)
    {entry : Model.Entry} (h : entry ∈ (typedEntries (readingScope files reader) spec).value) :
    ∃ source, Known files reader entry.name source ∧
      entry.origin = source.map (·.seenFrom reader) := by
  unfold typedEntries at h
  split at h
  · simp [Noted.pure] at h
  · next type htype =>
    split at h
    · next hempty =>
      cases hr : (typeResolution (readingScope files reader) type).value with
      | error reason => simp [hr] at h
      | ok r =>
        simp only [hr] at h
        obtain ⟨name, hname, rfl⟩ := List.mem_map.1 h
        have hvalues : spec.values = [] := by
          rw [Bool.and_eq_true] at hempty
          exact List.isEmpty_iff.1 hempty.1
        exact ⟨_, .typed hdecl hvalues htype hname, typeResolution_origin reader hr⟩
    · simp [Noted.pure] at h

/-- The entries of a file are known by their initial values or by the types they are declared with. -/
theorem known_of_entry {entry : Model.Entry}
    (hentry : entry ∈ (fileOutline (Index.ofFiles files) reader).value.entries) :
    ∃ source, Known files reader entry.name source ∧
      entry.origin = source.map (·.seenFrom reader) := by
  rw [fileOutline_value] at hentry
  obtain ⟨d, hd, hin⟩ := List.mem_flatMap.1 hentry
  cases d with
  | type spec => simp [declOutline, Noted.map] at hin
  | value spec =>
    simp only [declOutline, Noted.map] at hin
    split at hin
    · exact known_of_typedEntries hd hin
    · exact known_of_valueEntries hd hin

end Outlines

/-- The origins in the outline of a file. The qualified name that a field, at any depth, or an entry is known
by is written in a file of the package, which need not be the file outlined. The path that goes with it is
the one that the file outlined imports under the qualifier, and none exactly when it imports nothing under
it. So it is the path that the writing file imports exactly when the two import the same. -/
theorem origins_of_reader (files : List GoFile) (reader : GoFile) (hr : reader ∈ files) :
    (∀ struct ∈ (fileOutline (Index.ofFiles files) reader).value.structs,
      ∀ m ∈ Model.deepFields struct.fields,
        ∃ source, Known files reader m.name source ∧ m.origin = source.map (·.seenFrom reader)) ∧
    (∀ entry ∈ (fileOutline (Index.ofFiles files) reader).value.entries,
      ∃ source, Known files reader entry.name source ∧ entry.origin = source.map (·.seenFrom reader)) ∧
    ∀ name s, Known files reader name (some s) →
      s.Written files ∧
      ((s.seenFrom reader).path = none ↔ ∀ i ∈ reader.imports, i.qualifier ≠ s.package) ∧
      (s.seenFrom reader = s.seenFrom s.home ↔
        reader.pathOf? s.package = s.home.pathOf? s.package) := by
  refine ⟨fun struct hstruct m hm => known_of_struct hstruct hm, fun entry he => known_of_entry he, ?_⟩
  intro name s hs
  refine ⟨hs.written hr, GoFile.pathOf?_eq_none, ?_⟩
  simp [Foreign.seenFrom]

/-- A file that reads `time.Time` off a declaration of another file, with an import `time` of its own. -/
private def calendarFile : GoFile :=
  { path := "a.go", package := some "shop", imports := [{ path := "example.com/shop/time" }]
    decls := [
      .value { keyword := "var", names := ["Zone"], type := some (.qualified "time" "Zone"), line := 5 },
      .value { keyword := "var", names := ["Days"], type := some (.array (.named "Stamp") none)
               line := 7 }] }

private def stampFile : GoFile :=
  { path := "b.go", package := some "shop", imports := [{ path := "time" }]
    decls := [.type { name := "Stamp", type := .qualified "time" "Time", line := 5 }] }

/-- The entry for `Days` in the outline of the first file. -/
private def daysEntry : Model.Entry :=
  { name := "Days", kind := "Time", form := .slice
    origin := some { package := "time", entity := "Time", path := some "example.com/shop/time" } }

private theorem stopsAt_stamp :
    (Index.ofFiles [calendarFile, stampFile]).StopsAt "Stamp" (.qualified "time" "Time") :=
  .qualified (by decide) rfl (.plain (by simp) (by simp))

private theorem daysEntry_mem :
    daysEntry ∈ (fileOutline (Index.ofFiles [calendarFile, stampFile]) calendarFile).value.entries := by
  have hresolve : (Index.ofFiles [calendarFile, stampFile]).resolve "Stamp" =
      .ok (.qualified "time" "Time") := by
    exact Index.resolve_of_stopsWith ⟨"Stamp", .refl, stopsAt_stamp⟩
  have horigin : (readingScope [calendarFile, stampFile] calendarFile).origin "time" "Time" =
      { package := "time", entity := "Time", path := some "example.com/shop/time" } := by
    decide
  rw [fileOutline_value]
  refine List.mem_flatMap.2 ⟨_, List.mem_cons_of_mem _ List.mem_cons_self, ?_⟩
  simp [declOutline, typedEntries, typeResolution, elementResolution, namedElement, Noted.map, Noted.pure,
    hresolve, horigin, daysEntry]

theorem origins_of_reader_calendar :
    ∃ source, Known [calendarFile, stampFile] calendarFile "Days" source ∧
      daysEntry.origin = source.map (·.seenFrom calendarFile) :=
  (origins_of_reader [calendarFile, stampFile] calendarFile List.mem_cons_self).2.1 daysEntry daysEntry_mem

/-- The path of `Days` is not the one that goes with `time.Time` where it is written. -/
theorem origin_not_of_home :
    ∃ entry ∈ (fileOutline (Index.ofFiles [calendarFile, stampFile]) calendarFile).value.entries,
      ∃ s : Foreign, s.home = stampFile ∧
        Known [calendarFile, stampFile] calendarFile entry.name (some s) ∧
        entry.origin ≠ some (s.seenFrom s.home) := by
  have hsource : typeSource? [calendarFile, stampFile] calendarFile (.array (.named "Stamp") none) =
      some ⟨stampFile, "time", "Time"⟩ := by
    have hlast : (Index.ofFiles [calendarFile, stampFile]).lastType "Stamp" = "Stamp" :=
      Index.lastType_eq .refl stopsAt_stamp
    have hhome : typeHome? [calendarFile, stampFile] "Stamp" = some stampFile := rfl
    simp [typeSource?, containerSource?, elementSource?, targetSource?, aliasSource?, TypeExpr.innermost,
      TypeExpr.pointee, hlast, stopsAt_stamp.hop_eq, hhome]
  refine ⟨daysEntry, daysEntry_mem, ⟨stampFile, "time", "Time"⟩, rfl, ?_, by decide⟩
  rw [← hsource]
  exact .typed (List.mem_cons_of_mem _ List.mem_cons_self) rfl rfl List.mem_cons_self

end SourceOutline
