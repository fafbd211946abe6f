import SourceOutline.Scan.Basic

/-!
Scans of all Go files below a folder. Files that load are grouped, by folder or each on its own, and the
files of a group see each other's declarations.
-/
namespace SourceOutline.Scan

open SourceOutline.Files (FileTree)
open SourceOutline.Log (Note Told Level)

variable [GoParser]

structure Options where
  root : Option String := none
  continueOnError : Bool := true
  perPackage : Bool := true
  recordOmissions : Bool := false
  includeTests : Bool := false

structure Stats where
  processed : Nat := 0
  failed : Nat := 0
  structs : Nat := 0
  entries : Nat := 0
  parseErrors : Nat := 0
  omissions : Nat := 0
deriving DecidableEq, Repr

namespace Stats

def add (s : Stats) (scan : FileScan) : Stats :=
  { s with
    processed := s.processed + 1
    structs := s.structs + scan.outline.structs.length
    entries := s.entries + scan.outline.entries.length
    parseErrors := s.parseErrors + scan.errorCount
    omissions := s.omissions + (scan.omissions.map List.length).getD 0 }

def payload (s : Stats) : Payload :=
  .object [("files_processed", .int s.processed), ("files_failed", .int s.failed),
    ("structs_extracted", .int s.structs), ("types_extracted", .int s.entries),
    ("parse_errors", .int s.parseErrors), ("omissions", .int s.omissions)]

def text (s : Stats) : String :=
  s!"ExtractionStats(processed={s.processed}, failed={s.failed}, structs={s.structs}, " ++
    s!"types={s.entries}, parse_errors={s.parseErrors})"

end Stats

/-- Adds an element to the group of its key; a new key starts a group at the end. -/
def addToGroup {α : Type} (key : String) (x : α) :
    List (String × List α) → List (String × List α)
  | [] => [(key, [x])]
  | group :: rest =>
    if group.1 == key then (group.1, group.2 ++ [x]) :: rest else group :: addToGroup key x rest

/-- Elements grouped by key, the groups in the order of their first elements. -/
def grouped {α : Type} (elements : List (String × α)) : List (List α) :=
  (elements.foldl (fun groups (key, x) => addToGroup key x groups) []).map (·.2)

/-- A folder's Go files and what came of loading them. -/
structure FolderScan where
  folder : String
  options : Options
  attempts : List Attempt

namespace FolderScan

/-- Finds and loads the Go files below a folder given by its absolute path. -/
def of (t : FileTree) (options : Options) (folder : String) : FolderScan :=
  let root := match options.root with
    | none => folder
    | some root => Path.absolute t.cwd root
  { folder := folder, options := options
    attempts := (t.goFiles options.includeTests folder).map (attempt t (some root)) }

def groupKey (s : FolderScan) (path : String) : String :=
  if s.options.perPackage then Path.parent path else path

def loadedFiles (s : FolderScan) : List (String × Loaded) :=
  s.attempts.filterMap fun a =>
    match a.loaded with
    | .ok l => some (s.groupKey a.path, l)
    | .error _ => none

def groups (s : FolderScan) : List (List Loaded) :=
  grouped s.loadedFiles

def failures (s : FolderScan) : List Failure :=
  s.attempts.filterMap fun a =>
    match a.opened with
    | .ok _ => none
    | .error f => some f

def scans (s : FolderScan) : List FileScan :=
  s.groups.flatMap (scanGroup s.options.recordOmissions)

def stats (s : FolderScan) : Stats :=
  s.scans.foldl Stats.add { failed := s.failures.length }

/-- The scans and their statistics; unless failures are passed over, the first one counts. -/
def result (s : FolderScan) : Except Failure (List FileScan × Stats) :=
  match s.options.continueOnError, s.failures with
  | false, f :: _ => .error f
  | _, _ => .ok (s.scans, s.stats)

def note (level : Level) (message : String) : Note :=
  ⟨level, "scanner.extractor", message⟩

def failureNote (path : String) (f : Failure) : Note :=
  note Level.error
    (if f.isMissing || f.isValue then s!"Invalid file: {f.message}"
      else s!"Unexpected error processing {path}: {f.message}")

/-- The messages about loading files, up to the first failure unless failures are passed over. -/
def attemptNotes (continueOnError : Bool) : List Attempt → List Note
  | [] => []
  | a :: rest =>
    match a.opened with
    | .ok _ => a.notes ++ attemptNotes continueOnError rest
    | .error f =>
      a.notes ++ failureNote a.path f ::
        if continueOnError then attemptNotes continueOnError rest else []

def searchNote (folder : String) : Note :=
  note Level.info s!"Discovering Go files in {folder}"

def discoveryNotes (folder : String) (count : Nat) : List Note :=
  [searchNote folder, note Level.info s!"Found {count} Go files"]

def notes (s : FolderScan) : List Note :=
  let count := s.attempts.length
  discoveryNotes s.folder count ++
    if count = 0 then [note Level.warning s!"No Go files found in {s.folder}"]
    else
      note Level.info s!"Processing {count} Go files from {s.folder}" ::
        attemptNotes s.options.continueOnError s.attempts ++
        match s.result with
        | .error _ => []
        | .ok (_, stats) =>
          s.groups.flatMap (groupNotes s.options.recordOmissions) ++
            [note Level.info s!"Extraction complete: {stats.text}"]

end FolderScan

/-- Finds the Go files below a folder; there are none below one that is not there, but a path that is none
is a failure. -/
def discover (t : FileTree) (includeTests : Bool) (folder : String) :
    Told (Except Failure (List String)) :=
  let folder := Path.absolute t.cwd folder
  let found : Told (Except Failure (List String)) :=
    let files := t.goFiles includeTests folder
    { value := .ok files, notes := FolderScan.discoveryNotes folder files.length }
  match t.entry folder with
  | .ok _ => found
  | .error cause =>
    let e : Files.FileError := ⟨cause, folder⟩
    if e.isTextual then { value := .error (.file e), notes := [FolderScan.searchNote folder] }
    else found

def scanFolder (t : FileTree) (options : Options) (folder : String) :
    Told (Except Failure (List FileScan × Stats)) :=
  let folder := Path.absolute t.cwd folder
  if t.isFolder folder then
    let scan := FolderScan.of t options folder
    { value := scan.result, notes := scan.notes }
  else { value := .error (.folderNotFound folder) }

def scanOne (t : FileTree) (root? : Option String) (record : Bool) (path : String) :
    Told (Except Failure FileScan) :=
  let a := attempt t root? path
  match a.loaded with
  | .error f => { value := .error f, notes := a.notes }
  | .ok l =>
    { value := .ok (fileScan (indexOf [l]) record l), notes := a.notes ++ groupNotes record [l] }

/-- The outline of one file and what it leaves out, with the messages about it. What is left out is told
only into a sink, which is named for a source. -/
def outlineOne (t : FileTree) (root? : Option String) (sink : Option String) (path : String) :
    Told (Except Failure (Noted Model.Outline)) :=
  let a := attempt t root? path
  match a.loaded with
  | .error f =>
    { value := .error f
      notes := a.notes ++ [FolderScan.note Level.error
        s!"Error extracting declarations from {path}: {f.message}"] }
  | .ok l =>
    let index := indexOf [l]
    { value := .ok (fileOutline index l.file)
      notes := a.notes ++ indexNote index :: fileNotes index sink l.file }

def scanAny (t : FileTree) (root? : Option String) (perPackage : Bool) (path : String) :
    Told (Except Failure (List FileScan)) :=
  let path := Path.absolute t.cwd path
  if t.isFile path then
    let told := scanOne t root? false path
    { value := told.value.map ([·]), notes := told.notes }
  else if t.isFolder path then
    let told := scanFolder t { root := root?, perPackage := perPackage } path
    match told.value with
    | .error f => { value := .error f, notes := told.notes }
    | .ok (scans, stats) =>
      { value := .ok scans
        notes := told.notes ++ [FolderScan.note Level.info s!"Extraction stats: {stats.text}"] }
  else { value := .error (.sourceNotFound path) }

end SourceOutline.Scan
