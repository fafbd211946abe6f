import SourceOutline.Grammar.SourceFile
import SourceOutline.Run.Basic
import SourceOutline.Run.CommandLine
import SourceOutline.Yaml.Load

/-!
The whole program: a command line, settings, a run, and a report on it. Whatever goes wrong with the
settings or the run is reported too.
-/
namespace SourceOutline.Run

open SourceOutline.Log (Level)

variable [GoParser] [YamlReader]

inductive Ending where
  | refused (r : Refusal)
  | exit (code : Nat)
  | failed (f : Failure)

def Arguments.settings (a : Arguments) : List (String × Datum) :=
  let text := fun (v : Option String) => (v.map Datum.text).getD .null
  [("source_dir", text a.sourceDir), ("result_root", text a.resultRoot),
    ("report_dir", text a.reportDir),
    ("record_omissions", if a.recordOmissions then .bool true else .null),
    ("per_package_index", if a.fileIndex then .bool false else .null),
    ("log_level", if a.verbose then .text "DEBUG" else .null)]

def Workspace.settingsFor (w : Workspace) (a : Arguments) : Except Failure Settings × Workspace :=
  w.settings a.strictConfig a.config a.settings

/-- Reads a command line; the environment says whether settings are read strictly by default. -/
def Workspace.arguments (w : Workspace) (argv : List String) : Except Refusal Arguments :=
  Arguments.ofCommandLine (Settings.isStrict w.environment false) argv

/-- Where the report goes before the settings are known. -/
def Arguments.earlyReportDir (a : Arguments) : String :=
  match a.reportDir with
  | none => ({} : Settings).reportDir
  | some "" => ({} : Settings).reportDir
  | some folder => folder

def openReport (runId : String) : List (String × Payload) :=
  [("run_id", .text runId), ("pipeline", .text "go_declaration_scan"),
    ("status", .text Status.failed.name)]

/-- A report with what is known later. -/
def updated (report later : List (String × Payload)) : List (String × Payload) :=
  later.foldl (fun report (key, value) => Payload.withValue key value report) report

def Workspace.writeReport (w : Workspace) (host : Host) (report : List (String × Payload))
    (runId folder : String) : Except Failure String × Workspace :=
  let (files, path) := Run.writeReport w.files host.timestamp report runId folder
  (path.mapError .file, { w with files := files })

def reportFailure (host : Host) (runId folder : String) (report : List (String × Payload))
    (f : Failure) (w : Workspace) : Ending × Workspace :=
  let w := w.say Level.error
    (if f.isMissing then s!"File error: {f.message}" else s!"Scan failed: {f.message}")
  let report := updated report [("error", .text f.message)]
  match w.writeReport host report runId folder with
  | (.error f, w) => (.failed f, w)
  | (.ok _, w) => (.exit 1, w)

def reportSummary (host : Host) (runId folder : String) (summary : Summary) (w : Workspace) :
    Ending × Workspace :=
  let report := updated (openReport runId) (summary.report host.seconds)
  match w.writeReport host report runId folder with
  | (.error f, w) => reportFailure host runId folder report f w
  | (.ok path, w) =>
    let w := w.say Level.info s!"Run report written: {path}"
    (.exit (if summary.status = .failed then 1 else 0), w)

/-- A run under the settings that a command line asks for. -/
def runWith (host : Host) (runId : String) (a : Arguments) (w : Workspace) : Ending × Workspace :=
  match w.settingsFor a with
  | (.error f, w) => reportFailure host runId a.earlyReportDir (openReport runId) f w
  | (.ok settings, w) =>
    let w := { w with log := w.log.configure (Level.ofName settings.logLevel) }
    match runScan host settings w with
    | (.error f, w) => reportFailure host runId settings.reportDir (openReport runId) f w
    | (.ok summary, w) => reportSummary host runId settings.reportDir summary w

def program (host : Host) (argv : List String) (w : Workspace) : Ending × Workspace :=
  match w.arguments argv with
  | .error r => (.refused r, w)
  | .ok a =>
    let runId := host.freshId w.runsStarted
    let log := (w.log.configure (if a.verbose then Level.debug else Level.info)).setRunId runId
    runWith host runId a { w with log := log, runsStarted := w.runsStarted + 1 }

end SourceOutline.Run
