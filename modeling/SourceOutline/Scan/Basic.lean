import SourceOutline.Extract.Outline
import SourceOutline.Model.Written
import SourceOutline.Scan.Load

/-! Scans: the outline of a file with its path, and what was left out on request. -/
namespace SourceOutline.Scan

open SourceOutline.Log (Note Level)

/-- The scan of one file. Omissions are present when they are recorded. -/
structure FileScan where
  path : String
  package : Option String
  outline : Model.Outline
  errorCount : Nat := 0
  omissions : Option (List Omission) := none

def FileScan.folders (s : FileScan) : List String :=
  Path.folders s.path

def FileScan.payload (s : FileScan) : Payload :=
  .object ([("file_path", .text s.path), ("package", .ofText? s.package)] ++ s.outline.parts ++
    match s.omissions with
    | none => []
    | some omissions => [("omissions", .list (omissions.map (·.payload)))])

/-- The scan of a loaded file whose names are looked up in a shared index. -/
def fileScan (index : Index) (record : Bool) (l : Loaded) : FileScan :=
  let outline := fileOutline index l.file
  { path := l.file.path, package := l.file.package, outline := outline.value
    errorCount := l.errorCount, omissions := if record then some outline.omitted else none }

def indexOf (files : List Loaded) : Index :=
  Index.ofFiles (files.map (·.file))

/-- The scans of files that see each other's declarations, in order. -/
def scanGroup (record : Bool) (files : List Loaded) : List FileScan :=
  files.map (fileScan (indexOf files) record)

def indexNote (index : Index) : Note :=
  let (types, values) := index.counts
  ⟨Level.debug, "scanner.lookup", s!"Built declaration index: {types} types, {values} values"⟩

/-- The message about something left out of a source. -/
def omissionNote (source : String) (o : Omission) : Note :=
  ⟨Level.debug, "scanner.diagnostics",
    s!"Skipped {o.subject.label} '" ++ o.name ++ s!"' at {shownPath source}:{o.line} " ++
      s!"({o.reason.text})"⟩

/-- The messages about a declaration; what is left out is told only into a sink, which is named for a
source. -/
def declNotes (scope : Scope) (sink : Option String) (d : Decl) : List Note :=
  let outline := declOutline scope d
  let skipped := match sink with
    | none => []
    | some source => outline.omitted.map (omissionNote source)
  skipped ++ match d, outline.value.structs with
    | .type spec, found :: _ =>
      let declared := match spec.type with
        | .struct fields => fields.length
        | _ => 0
      [⟨Level.debug, "scanner.structs",
        s!"Extracted struct {spec.name} with {found.fields.length}/{declared} fields"⟩]
    | .type spec, [] =>
      [⟨Level.debug, "scanner.traversal",
        s!"Type {spec.name} is not a struct; nothing to extract"⟩]
    | .value _, _ => []

def fileNotes (index : Index) (sink : Option String) (file : GoFile) : List Note :=
  let scope : Scope := { index := index, imports := file.importTable }
  file.decls.flatMap (declNotes scope sink)

def scanNote (s : FileScan) : Note :=
  ⟨Level.info, "scanner.extractor",
    s!"Extracted {s.outline.structs.length} structs and {s.outline.entries.length} values from {s.path}"⟩

/-- The messages about scanning files that see each other's declarations. -/
def groupNotes (record : Bool) (files : List Loaded) : List Note :=
  let index := indexOf files
  indexNote index :: files.flatMap fun l =>
    fileNotes index (if record then some l.file.path else none) l.file ++
      [scanNote (fileScan index record l)]

end SourceOutline.Scan
