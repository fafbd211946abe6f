import SourceOutline.Run.Results
import SourceOutline.Scan.Folder
import SourceOutline.Settings.Load

/-! A run: all Go files of a folder are scanned, and one result file is written for each. -/
namespace SourceOutline.Run

open SourceOutline.Files (FileTree)
open SourceOutline.Log (Note Told Level)
open SourceOutline.Scan (FileScan Stats)

variable [GoParser] [YamlReader]

structure Workspace where
  files : FileTree
  environment : Settings.Environment := []
  keyOrder : Settings.KeyOrder := default
  log : Log.State := {}
  runsStarted : Nat := 0

/-- What a run takes from its surroundings: names for runs, and the time. -/
structure Host where
  freshId : Nat → String
  timestamp : String
  seconds : Payload
  shortSeconds : String

namespace Workspace

def tell (w : Workspace) (notes : List Note) : Workspace :=
  { w with log := w.log.writeAll notes }

def say (w : Workspace) (level : Level) (message : String) : Workspace :=
  w.tell [⟨level, "run_scan", message⟩]

def settings (w : Workspace) (strict : Bool) (path? : Option String)
    (arguments : List (String × Datum)) : Except Failure Settings × Workspace :=
  let told := Settings.load w.files w.environment strict path? arguments w.keyOrder
  (told.value, w.tell told.notes)

end Workspace

inductive Status where
  | success
  | incomplete
  | failed
deriving DecidableEq, Repr

def Status.name : Status → String
  | .success => "success"
  | .incomplete => "partial"
  | .failed => "failed"

/-- A result file and whether it was written. -/
structure Delivery where
  path : String
  written : Bool
deriving DecidableEq, Repr

structure Summary where
  sourceDir : String
  resultRoot : String
  stats : Stats
  deliveries : List Delivery

namespace Summary

def written (s : Summary) : List String :=
  (s.deliveries.filter (·.written)).map (·.path)

def unwritten (s : Summary) : List String :=
  (s.deliveries.filter (!·.written)).map (·.path)

/-- A run fails when it has results and none is written, and is incomplete when anything failed. -/
def status (s : Summary) : Status :=
  if !s.deliveries.isEmpty && s.written.isEmpty then .failed
  else if !s.unwritten.isEmpty || s.stats.failed != 0 then .incomplete
  else .success

def report (s : Summary) (seconds : Payload) : List (String × Payload) :=
  [("status", .text s.status.name), ("source_dir", .text s.sourceDir),
    ("result_root", .text s.resultRoot), ("extraction_seconds", seconds),
    ("stats", s.stats.payload), ("written", .list (s.written.map .text)),
    ("write_failures", .list (s.unwritten.map .text))]

end Summary

def resultText (s : FileScan) : String :=
  s.payload.render {}

def resultPath (root : String) (s : FileScan) : String :=
  Path.resultPath s.path root ".json"

/-- Writes the result of one scan, in the scope of its file. -/
@[irreducible]
def deliver (root : String) (w : Workspace) (s : FileScan) : Except Failure Delivery × Workspace :=
  let path := resultPath root s
  let told := writeResult w.files (resultText s) path s.folders root
  let log := ((w.log.enter s.path s.package).writeAll told.notes).leave
  let delivery := told.value.1.map (Delivery.mk path)
  (delivery.mapError .file, { w with files := told.value.2, log := log })

def deliverAll (root : String) : Workspace → List FileScan → Except Failure (List Delivery) × Workspace
  | w, [] => (.ok [], w)
  | w, s :: rest =>
    match deliver root w s with
    | (.error f, w) => (.error f, w)
    | (.ok delivery, w) =>
      let (more, w) := deliverAll root w rest
      (more.map (delivery :: ·), w)

/-- Writes the results of all scans. Without a folder for them, none is written. -/
def deliverResults (root : String) (w : Workspace) (scans : List FileScan) :
    Except Failure (List Delivery) × Workspace :=
  if scans.isEmpty then (.ok [], w)
  else
    let made := makeRoot w.files root
    let w := { w with files := made.value.2 }.tell made.notes
    match made.value.1 with
    | .error e => (.error (.file e), w)
    | .ok true => deliverAll root w scans
    | .ok false => (.ok (scans.map fun s => ⟨resultPath root s, false⟩), w)

def scanOptions (s : Settings) : Scan.Options :=
  { perPackage := s.perPackageIndex, recordOmissions := s.recordOmissions
    includeTests := s.includeTests }

/-- Scans the source folder and writes one result file for each Go file. -/
def runScan (host : Host) (settings : Settings) (w : Workspace) :
    Except Failure Summary × Workspace :=
  if !w.files.isFolder settings.sourceDir then
    (.error (.sourceFolderNotFound settings.sourceDir), w)
  else
    let source := Path.absolute w.files.cwd settings.sourceDir
    let root := Path.absolute w.files.cwd settings.resultRoot
    let w := (w.say Level.info s!"Source directory : {source}").say Level.info
      s!"Result root      : {root}"
    let told := Scan.scanFolder w.files (scanOptions settings) settings.sourceDir
    let w := w.tell told.notes
    match told.value with
    | .error f => (.error f, w)
    | .ok (scans, stats) =>
      let w := w.say Level.info s!"Extraction completed in {host.shortSeconds}s: {stats.text}"
      match deliverResults settings.resultRoot w scans with
      | (.error f, w) => (.error f, w)
      | (.ok deliveries, w) =>
        let summary : Summary := ⟨source, root, stats, deliveries⟩
        let w := w.say Level.info
          s!"Wrote {summary.written.length} result files to {settings.resultRoot}"
        let w := if summary.unwritten.isEmpty then w
          else w.say Level.error s!"{summary.unwritten.length} result files could not be written"
        (.ok summary, w)

end SourceOutline.Run
