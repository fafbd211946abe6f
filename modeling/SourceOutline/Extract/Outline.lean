import SourceOutline.Extract.Values

/-! The outline of declarations, files and packages. -/
namespace SourceOutline

/-- The struct a type declares; none when it declares another type. -/
def structOf (scope : Scope) (spec : TypeSpec) : Noted (Option Model.Struct) :=
  match spec.type with
  | .struct fields =>
    (extractFields scope fields).map fun found =>
      some { name := spec.name, doc := spec.doc, fields := found, line := spec.line }
  | _ => .pure none

def declOutline (scope : Scope) : Decl → Noted Model.Outline
  | .type spec =>
    (structOf scope spec).map fun found => { structs := found.toList }
  | .value spec =>
    (if spec.values.isEmpty then typedEntries scope spec else valueEntries scope spec).map
      fun entries => { entries := entries }

/-- The outline of a file whose names are looked up in a shared index. -/
def fileOutline (index : Index) (file : GoFile) : Noted Model.Outline :=
  let scope : Scope := { index := index, imports := file.importTable }
  (Noted.collect (file.decls.map (declOutline scope))).map Model.Outline.join

/-- The outlines of files that see each other's declarations, in order. -/
def packageOutlines (files : List GoFile) : List (Noted Model.Outline) :=
  files.map (fileOutline (Index.ofFiles files))

/-- A sink for omissions: the source it is named for and what it holds. -/
structure Sink where
  source : String := ""
  omissions : List Omission := []

def Sink.record (sink : Option Sink) (omitted : List Omission) : Option Sink :=
  sink.map fun s => { s with omissions := s.omissions ++ omitted }

def extractFiles (sink : Option Sink) (files : List GoFile) : List Model.Outline × Option Sink :=
  let outlines := packageOutlines files
  (outlines.map (·.value), Sink.record sink (outlines.flatMap (·.omitted)))

end SourceOutline
