import SourceOutline.Proofs.Delivery
import SourceOutline.Proofs.FolderMaking
import SourceOutline.Proofs.ReportText
import SourceOutline.Run.Program

/-!
The report of a run. A run that ends with an exit code has written one report, and the code and the report
agree; a run that cannot write its report has written none.
-/
namespace SourceOutline.Run

open SourceOutline.Files (FileTree FileError)
open SourceOutline.Log (Level)
open Payload Text

/-- What a run has done when its report is to be written, and the folder that the report goes to. -/
structure Work where
  folder : String
  result : Except Failure Summary
  workspace : Workspace

/-- Settings and, if there are any, a scan under them. -/
def work [GoParser] [YamlReader] (host : Host) (a : Arguments) (w : Workspace) : Work :=
  match w.settingsFor a with
  | (.error f, w) => ⟨a.earlyReportDir, .error f, w⟩
  | (.ok settings, w) =>
    let scanned := runScan host settings { w with log := w.log.configure (Level.ofName settings.logLevel) }
    ⟨settings.reportDir, scanned.1, scanned.2⟩

/-- Reports on work. -/
def Work.report (host : Host) (runId : String) (done : Work) : Ending × Workspace :=
  match done.result with
  | .error f => reportFailure host runId done.folder (openReport runId) f done.workspace
  | .ok summary => reportSummary host runId done.folder summary done.workspace

theorem runWith_eq [GoParser] [YamlReader] (host : Host) (runId : String) (a : Arguments) (w : Workspace) :
    runWith host runId a w = (work host a w).report host runId := by
  unfold runWith work Work.report
  cases hsettings : w.settingsFor a with
  | mk result w₁ =>
    cases result with
    | error f => rfl
    | ok settings =>
      dsimp only
      cases hscan : runScan host settings
          { w₁ with log := w₁.log.configure (Level.ofName settings.logLevel) } with
      | mk result w₂ => cases result <;> rfl

section Write

variable {timestamp runId folder : String} {report : List (String × Payload)} {t t' : FileTree}

/-- What comes of writing a report: a folder cannot be made, or the file is written, or it cannot be. -/
theorem writeReport_cases (h : IsReport runId report) (t : FileTree) (timestamp folder : String) :
    (∃ made e, t.makeFolders folder = (made, some e) ∧
      writeReport t timestamp report runId folder = (made, .error e)) ∨
    ∃ made, t.makeFolders folder = (made, none) ∧
      ((∃ t', made.write (reportPath folder runId) (Utf8.encode (reportText timestamp runId report)) = .ok t' ∧
          writeReport t timestamp report runId folder = (t', .ok (reportPath folder runId))) ∨
        ∃ e, made.write (reportPath folder runId) (Utf8.encode (reportText timestamp runId report)) = .error e ∧
          writeReport t timestamp report runId folder = (made, .error e)) := by
  have hencode := (h.text_isAscii timestamp).encodeError?_eq
  unfold writeReport
  cases hmake : t.makeFolders folder with
  | mk made error =>
    cases error with
    | some e => exact Or.inl ⟨made, e, rfl, rfl⟩
    | none =>
      refine Or.inr ⟨made, rfl, ?_⟩
      cases hwrite : made.write (reportPath folder runId) (Utf8.encode (reportText timestamp runId report)) with
      | ok t' => exact Or.inl ⟨t', rfl, by simp only [writeText, hencode, hwrite]⟩
      | error e => exact Or.inr ⟨e, rfl, by simp only [writeText, hencode, hwrite]⟩

theorem writeReport_ok (hreport : IsReport runId report) {path : String}
    (h : writeReport t timestamp report runId folder = (t', .ok path)) :
    t.WroteAlone (reportPath folder runId) (Utf8.encode (reportText timestamp runId report)) t' := by
  rcases writeReport_cases hreport t timestamp folder with
    ⟨made, e, -, heq⟩ | ⟨made, hmake, hwritten | ⟨e, -, heq⟩⟩
  · rw [heq] at h
    cases h
  · obtain ⟨written, hwrite, heq⟩ := hwritten
    rw [heq] at h
    obtain ⟨rfl, -⟩ := Prod.mk.inj h
    have hmade : made.fileAt? = t.fileAt? := by
      have hfolders := FileTree.makeFolders_fileAt? t folder
      rwa [hmake] at hfolders
    obtain ⟨here, hplace, hread, hfiles⟩ := FileTree.write_wroteAlone hwrite
    exact ⟨here, hplace, hread, fun there => by rw [hfiles there, hmade]⟩
  · rw [heq] at h
    cases h

/-- A report that cannot be written leaves the files as they are, and no other can be written in its place. -/
theorem writeReport_error (hreport : IsReport runId report) {e : FileError}
    (h : writeReport t timestamp report runId folder = (t', .error e)) :
    t'.fileAt? = t.fileAt? ∧ ∀ other, IsReport runId other →
      ∃ e', writeReport t' timestamp other runId folder = (t', .error e') := by
  obtain ⟨error, hmake, hblocked⟩ : ∃ error, t.makeFolders folder = (t', error) ∧ (error = none →
      ∃ e content, t'.write (reportPath folder runId) content = .error e) := by
    rcases writeReport_cases hreport t timestamp folder with
      ⟨made, e, hmake, heq⟩ | ⟨made, hmake, ⟨written, -, heq⟩ | ⟨e, hwrite, heq⟩⟩
    · rw [heq] at h
      obtain ⟨rfl, -⟩ := Prod.mk.inj h
      exact ⟨_, hmake, by simp⟩
    · rw [heq] at h
      cases h
    · rw [heq] at h
      obtain ⟨rfl, -⟩ := Prod.mk.inj h
      exact ⟨_, hmake, fun _ => ⟨e, _, hwrite⟩⟩
  constructor
  · have hfolders := FileTree.makeFolders_fileAt? t folder
    rwa [hmake] at hfolders
  · intro other hother
    -- The folders are as they were left, and the file is refused whatever goes into it.
    obtain ⟨hsame, hfails⟩ := FileTree.makeFolders_again hmake
    rcases writeReport_cases hother t' timestamp folder with
      ⟨made, e', hagain, heq⟩ | ⟨made, hagain, hwritten⟩
    · obtain rfl : made = t' := by rw [← hsame, hagain]
      exact ⟨e', heq⟩
    · obtain rfl : made = t' := by rw [← hsame, hagain]
      have hnone : error = none := by
        by_contra hsome
        exact hfails hsome (by rw [hagain])
      obtain ⟨e', content, hrefused⟩ := hblocked hnone
      have hrefused' := FileTree.write_error hrefused
      rcases hwritten with ⟨written, hwrite, -⟩ | ⟨e'', -, heq⟩
      · rw [hrefused'] at hwrite
        cases hwrite
      · exact ⟨e'', heq⟩

end Write

section Reports

variable {host : Host} {runId folder : String} {report : List (String × Payload)} {w w' : Workspace}

theorem openReport_isReport (runId : String) : IsReport runId (openReport runId) := by
  have hkeys : ["run_id", "pipeline", "status"].Nodup := by decide
  refine ⟨hkeys, ?_, rfl⟩
  simp only [openReport, PlainEntries, PlainEntry, plain_text, and_self]

theorem IsReport.updated (h : IsReport runId report) {later : List (String × Payload)}
    (hkeys : "run_id" ∉ later.map (·.1)) (hlater : PlainEntries later) :
    IsReport runId (updated report later) := by
  induction later generalizing report with
  | nil => exact h
  | cons entry rest ih =>
    obtain ⟨key, value⟩ := entry
    obtain ⟨hkey, hrest⟩ := List.ne_and_not_mem_of_not_mem_cons hkeys
    exact ih (h.withValue (Ne.symm hkey) hlater.1) hrest hlater.2

theorem IsReport.failure (h : IsReport runId report) (f : Failure) :
    IsReport runId (Run.updated report [("error", .text f.message)]) := by
  have hkeys : "run_id" ∉ ["error"] := by decide
  refine h.updated hkeys ?_
  simp only [PlainEntries, PlainEntry, plain_text, and_self]

theorem summary_isReport (runId : String) (summary : Summary) {seconds : Payload} (hseconds : seconds.Plain) :
    IsReport runId (updated (openReport runId) (summary.report seconds)) := by
  have htexts : ∀ texts : List String, (Payload.list (texts.map .text)).Plain := by
    intro texts
    rw [Plain, plainItems_iff]
    intro value hvalue
    obtain ⟨s, -, rfl⟩ := List.mem_map.1 hvalue
    exact plain_text s
  have hstats : summary.stats.payload.Plain := by
    simp only [Scan.Stats.payload, Plain, PlainEntries, PlainEntry, and_self]
  have hkeys : "run_id" ∉ ["status", "source_dir", "result_root", "extraction_seconds", "stats", "written",
    "write_failures"] := by decide
  refine (openReport_isReport runId).updated hkeys ?_
  simp only [Summary.report, PlainEntries, PlainEntry, plain_text, hseconds, hstats, htexts, and_self]

theorem reportFailure_cases (hreport : IsReport runId report) {f : Failure} {ending : Ending}
    (h : reportFailure host runId folder report f w = (ending, w')) :
    (∃ f', ending = .failed f' ∧ w'.files.fileAt? = w.files.fileAt?) ∨
      ending = .exit 1 ∧ w.files.WroteAlone (reportPath folder runId)
        (Utf8.encode (reportText host.timestamp runId (updated report [("error", .text f.message)])))
        w'.files := by
  unfold reportFailure Workspace.writeReport at h
  simp only [Workspace.files_say] at h
  cases hwrite : writeReport w.files host.timestamp (updated report [("error", .text f.message)])
      runId folder with
  | mk t result =>
    cases result with
    | ok path =>
      simp only [hwrite, Except.mapError, Prod.mk.injEq] at h
      obtain ⟨rfl, rfl⟩ := h
      exact Or.inr ⟨rfl, writeReport_ok (hreport.failure f) hwrite⟩
    | error e =>
      simp only [hwrite, Except.mapError, Prod.mk.injEq] at h
      obtain ⟨rfl, rfl⟩ := h
      exact Or.inl ⟨_, rfl, (writeReport_error (hreport.failure f) hwrite).1⟩

theorem reportSummary_cases {summary : Summary} (hseconds : host.seconds.Plain) {ending : Ending}
    (h : reportSummary host runId folder summary w = (ending, w')) :
    (∃ f', ending = .failed f' ∧ w'.files.fileAt? = w.files.fileAt?) ∨
      ending = .exit (if summary.status = .failed then 1 else 0) ∧
        w.files.WroteAlone (reportPath folder runId) (Utf8.encode (reportText host.timestamp runId
          (updated (openReport runId) (summary.report host.seconds)))) w'.files := by
  have hreport := summary_isReport runId summary hseconds
  unfold reportSummary Workspace.writeReport at h
  cases hwrite : writeReport w.files host.timestamp
      (updated (openReport runId) (summary.report host.seconds)) runId folder with
  | mk t result =>
    cases result with
    | ok path =>
      simp only [hwrite, Except.mapError, Prod.mk.injEq] at h
      obtain ⟨rfl, rfl⟩ := h
      exact Or.inr ⟨rfl, writeReport_ok hreport hwrite⟩
    | error e =>
      simp only [hwrite, Except.mapError] at h
      obtain ⟨hkept, hagain⟩ := writeReport_error hreport hwrite
      obtain ⟨e', he'⟩ := hagain _ (hreport.failure (.file e))
      unfold reportFailure Workspace.writeReport at h
      simp only [Workspace.files_say, he', Except.mapError, Prod.mk.injEq] at h
      obtain ⟨rfl, rfl⟩ := h
      exact Or.inl ⟨_, rfl, hkept⟩

theorem IsReport.lookup_text (h : IsReport runId report) (timestamp : String) {key s : String}
    (hkey : report.lookup key = some (.text s)) :
    (reportDocument timestamp runId report).lookup key = some (.text s) := by
  rw [h.lookup_document timestamp hkey]
  simp only [sorted]

theorem lookup_failure (report : List (String × Payload)) (f : Failure) (key : String) :
    (updated report [("error", .text f.message)]).lookup key =
      if key = "error" then some (.text f.message) else report.lookup key :=
  lookup_withValue "error" (.text f.message) report key

theorem lookup_summary (runId : String) (summary : Summary) (seconds : Payload) :
    (updated (openReport runId) (summary.report seconds)).lookup "status" =
      some (.text summary.status.name) := by
  simp [updated, Summary.report, lookup_withValue]

theorem Status.name_eq_failed {status : Status} : status.name = "failed" ↔ status = .failed := by
  cases status <;> decide

end Reports

/-- The workspace with which a run starts. -/
def Workspace.started (w : Workspace) (host : Host) (a : Arguments) : Workspace :=
  { w with
    log := (w.log.configure (if a.verbose then Level.debug else Level.info)).setRunId
      (host.freshId w.runsStarted)
    runsStarted := w.runsStarted + 1 }

theorem program_eq [GoParser] [YamlReader] {host : Host} {argv : List String} {a : Arguments} {w : Workspace}
    (h : w.arguments argv = .ok a) :
    program host argv w = (work host a (w.started host a)).report host (host.freshId w.runsStarted) := by
  unfold program
  rw [h]
  exact runWith_eq _ _ _ _

section Missing

variable {host : Host} {a : Arguments} {w : Workspace}

theorem result_of_settings_error [GoParser] [YamlReader] {f : Failure} (h : (w.settingsFor a).1 = .error f) :
    (work host a (w.started host a)).result = .error f := by
  have hsettings : (w.started host a).settingsFor a = (.error f, ((w.started host a).settingsFor a).2) :=
    Prod.ext h rfl
  rw [work, hsettings]

theorem work_of_source_missing [GoParser] [YamlReader] {settings : Settings} (h : (w.settingsFor a).1 = .ok settings)
    (hsource : w.files.isFolder settings.sourceDir = false) :
    ∃ w₁, w₁.files = w.files ∧ work host a (w.started host a) =
      ⟨settings.reportDir, .error (.sourceFolderNotFound settings.sourceDir), w₁⟩ := by
  obtain ⟨w₁, hsettings, hfiles⟩ : ∃ w₁, (w.started host a).settingsFor a = (.ok settings, w₁) ∧
      w₁.files = w.files := ⟨_, Prod.ext h rfl, rfl⟩
  refine ⟨{ w₁ with log := w₁.log.configure (Level.ofName settings.logLevel) }, hfiles, ?_⟩
  rw [work, hsettings]
  dsimp only
  rw [runScan, hfiles, hsource]
  rfl

theorem result_of_source_missing [GoParser] [YamlReader] {settings : Settings} (h : (w.settingsFor a).1 = .ok settings)
    (hsource : w.files.isFolder settings.sourceDir = false) :
    (work host a (w.started host a)).result = .error (.sourceFolderNotFound settings.sourceDir) := by
  obtain ⟨w₁, -, hwork⟩ := @work_of_source_missing host a w _ _ settings h hsource
  rw [hwork]

end Missing

/-- The octets of a document. -/
def documentOctets (document : List (String × Payload)) : ByteArray :=
  Utf8.encode ((Payload.object document).render { ascii := true })

/-- The program writes one report or, if that cannot be done, none.

Apart from the report, the files are as the work left them. The report is on that run, the exit code is 1 if the
report tells of a failure and 0 otherwise, and settings that cannot be had and a missing source folder are
failures that the report gives in words. -/
theorem program_report [GoParser] [YamlReader] {host : Host} {argv : List String} {a : Arguments} {w w' : Workspace} {ending : Ending}
    (hseconds : host.seconds.Plain) (hargs : w.arguments argv = .ok a)
    (h : program host argv w = (ending, w')) :
    let runId := host.freshId w.runsStarted
    let done := work host a (w.started host a)
    (∃ f, ending = .failed f ∧ w'.files.fileAt? = done.workspace.files.fileAt?) ∨
      ∃ code status document, ending = .exit code ∧
        done.workspace.files.WroteAlone (reportPath done.folder runId) (documentOctets document) w'.files ∧
        document.lookup "run_id" = some (.text runId) ∧
        document.lookup "status" = some (.text status) ∧
        (code = 1 ↔ status = "failed") ∧ (code ≠ 1 → code = 0) ∧
        (∀ summary, done.result = .ok summary → status = summary.status.name) ∧
        (∀ f, (w.settingsFor a).1 = .error f →
          status = "failed" ∧ document.lookup "error" = some (.text f.message)) ∧
        ∀ settings, (w.settingsFor a).1 = .ok settings → w.files.isFolder settings.sourceDir = false →
          status = "failed" ∧
            document.lookup "error" = some (.text ("Source directory not found: " ++ settings.sourceDir)) := by
  intro runId done
  rw [program_eq hargs] at h
  change done.report host runId = (ending, w') at h
  unfold Work.report at h
  cases hresult : done.result with
  | error f =>
    simp only [hresult] at h
    rcases reportFailure_cases (openReport_isReport runId) h with hfailed | ⟨rfl, hwrote⟩
    · exact Or.inl hfailed
    · have hreport := (openReport_isReport runId).failure f
      have herror := hreport.lookup_text host.timestamp (lookup_failure _ f "error")
      rw [reportText_eq] at hwrote
      refine Or.inr ⟨1, "failed", _, rfl, hwrote, hreport.lookup_text _ hreport.name,
        hreport.lookup_text _ (lookup_failure _ f _), by simp, by simp, by simp, fun f' hf' => ?_,
        fun settings hsettings hsource => ?_⟩
      · obtain ⟨⟩ := hresult.symm.trans (result_of_settings_error hf')
        exact ⟨rfl, herror⟩
      · obtain ⟨⟩ := hresult.symm.trans (result_of_source_missing hsettings hsource)
        exact ⟨rfl, herror⟩
  | ok summary =>
    simp only [hresult] at h
    rcases reportSummary_cases hseconds h with hfailed | ⟨rfl, hwrote⟩
    · exact Or.inl hfailed
    · have hreport := summary_isReport runId summary hseconds
      rw [reportText_eq] at hwrote
      refine Or.inr ⟨_, summary.status.name, _, rfl, hwrote, hreport.lookup_text _ hreport.name,
        hreport.lookup_text _ (lookup_summary _ _ _), ?_, ?_, ?_, ?_, ?_⟩
      · rw [Status.name_eq_failed]
        split <;> simp_all
      · split <;> simp
      · rintro other ⟨⟩
        rfl
      · intro f hf
        cases hresult.symm.trans (result_of_settings_error hf)
      · intro settings hsettings hsource
        cases hresult.symm.trans (result_of_source_missing hsettings hsource)

/-- A folder with nothing in it, and a command line that names a source folder. -/
private def emptyTree : FileTree where
  root := .folder []
  cwd := "/"

private def goneArgv : List String := ["--source-dir", "/gone", "--report-dir", "/"]

private def goneArguments : Arguments := { sourceDir := some "/gone", reportDir := some "/" }

private def clockHost : Host := .ofClock (Moment.ofSeconds 0 0) 1500 fun _ => "r1"

private theorem place_emptyTree :
    emptyTree.place true Settings.defaultFile = .ok (.vacant [] "godmt.yaml") ∧
      emptyTree.place true "/gone" = .ok (.vacant [] "gone") ∧
      emptyTree.place true "/r1.json" = .ok (.vacant [] "r1.json") ∧
      ∀ whole, emptyTree.place whole "/" = .ok (.found []) := by
  refine ⟨?_, ?_, ?_, fun whole => ?_⟩
  · rw [Settings.defaultFile, FileTree.place_of_usable ⟨by decide, by simp, by decide, by decide⟩,
      FileTree.startOf, if_neg (by simp)]
    rfl
  · rw [FileTree.place_absolute (by decide) ⟨by decide, by simp, by decide, by decide⟩]
    rfl
  · rw [FileTree.place_absolute (by decide) ⟨by decide, by simp, by decide, by decide⟩]
    rfl
  · rw [FileTree.place_absolute (by decide) ⟨by decide, by simp, by decide, by decide⟩]
    rfl

private theorem settings_gone :
    (({ files := emptyTree } : Workspace).settingsFor goneArguments).1 =
      .ok { sourceDir := "/gone", reportDir := "/" } := by
  have hfile : emptyTree.isFile Settings.defaultFile = false := by
    rw [FileTree.isFile, FileTree.entry, place_emptyTree.1]
    rfl
  unfold Workspace.settingsFor Workspace.settings Settings.load Settings.settle Settings.fileLayers
    Settings.filePath?
  simp only [hfile]
  rfl

private theorem makeFolders_emptyTree : emptyTree.makeFolders "/" = (emptyTree, none) := by
  obtain ⟨-, -, -, hroot⟩ := place_emptyTree
  have hnot : ∀ head tail, ¬FileTree.Climbs emptyTree ['/'] head tail := by
    intro head tail hclimb
    have hcut : FileTree.cutLastName ['/'] = (['/'], []) := by decide
    exact hclimb.name (Prod.mk.inj (hclimb.cut.symm.trans hcut)).2
  have hfolder : emptyTree.isFolder "/" = true := by
    rw [FileTree.isFolder, FileTree.entry, hroot true]
    simp [bind, Except.bind, emptyTree, Files.Entry.isFolder]
  have hmake : emptyTree.makeFolder "/" = .error ⟨.present, "/"⟩ := by
    rw [FileTree.makeFolder, FileTree.create, hroot false]
  have hall : emptyTree.makeFolders "/" = emptyTree.ensureFolder "/" :=
    FileTree.makeFoldersWith_of_not_climbs hnot _
  rw [hall, FileTree.ensureFolder, hmake]
  dsimp only
  rw [hfolder]
  rfl

private theorem writeReport_emptyTree {report : List (String × Payload)} (h : IsReport "r1" report)
    (timestamp : String) :
    ∃ t', writeReport emptyTree timestamp report "r1" "/" = (t', .ok "/r1.json") := by
  obtain ⟨-, -, hvacant, -⟩ := place_emptyTree
  have hpath : reportPath "/" "r1" = "/r1.json" := by decide
  have hslash : "/r1.json".endsWith "/" = false := by decide +kernel
  have hwrite : ∀ content, emptyTree.write "/r1.json" content =
      .ok (emptyTree.setAt ["r1.json"] (.file content)) := by
    intro content
    rw [FileTree.write, hslash, hvacant]
    rfl
  rcases writeReport_cases h emptyTree timestamp "/" with
    ⟨made, e, hmake, -⟩ | ⟨made, hmake, ⟨t', -, heq⟩ | ⟨e, hrefused, -⟩⟩
  · rw [makeFolders_emptyTree] at hmake
    cases hmake
  · exact ⟨t', by rw [heq, hpath]⟩
  · rw [makeFolders_emptyTree] at hmake
    obtain ⟨rfl, -⟩ := Prod.mk.inj hmake
    rw [hpath, hwrite] at hrefused
    cases hrefused

theorem program_report_gone :
    ∃ w' document, program clockHost goneArgv { files := emptyTree } = (.exit 1, w') ∧
      emptyTree.WroteAlone "/r1.json" (documentOctets document) w'.files ∧
      document.lookup "run_id" = some (.text "r1") ∧ document.lookup "status" = some (.text "failed") ∧
      document.lookup "error" = some (.text "Source directory not found: /gone") := by
  have hargs : ({ files := emptyTree } : Workspace).arguments goneArgv = .ok goneArguments := by decide +kernel
  have hsource : emptyTree.isFolder "/gone" = false := by
    rw [FileTree.isFolder, FileTree.entry, place_emptyTree.2.1]
    rfl
  obtain ⟨w₁, hfiles, hwork⟩ := @work_of_source_missing clockHost _ _ _ _ _ settings_gone hsource
  have hempty : w₁.files = emptyTree := hfiles
  have hending : (program clockHost goneArgv { files := emptyTree }).1 = .exit 1 := by
    have hreport := (openReport_isReport "r1").failure (.sourceFolderNotFound "/gone")
    obtain ⟨t', hwritten⟩ := writeReport_emptyTree hreport clockHost.timestamp
    rw [program_eq hargs, hwork]
    change (reportFailure clockHost "r1" "/" (openReport "r1") (.sourceFolderNotFound "/gone") w₁).1 = _
    unfold reportFailure Workspace.writeReport
    simp only [Workspace.files_say, hempty, hwritten, Except.mapError]
  have hprogram : program clockHost goneArgv { files := emptyTree } =
      (.exit 1, (program clockHost goneArgv { files := emptyTree }).2) := Prod.ext hending rfl
  have hplain : clockHost.seconds.Plain := ofClock_plain _ _ _
  rcases program_report hplain hargs hprogram with ⟨f, habsurd, -⟩ | hreported
  · cases habsurd
  · obtain ⟨code, status, document, -, hwrote, hrun, hstatus, -, -, -, -, hmissing⟩ := hreported
    obtain ⟨rfl, herror⟩ := hmissing _ settings_gone hsource
    rw [hwork] at hwrote
    dsimp only at hwrote
    rw [hempty] at hwrote
    have hpath : reportPath "/" "r1" = "/r1.json" := by decide
    exact ⟨_, document, hprogram, hpath ▸ hwrote, hrun, hstatus, herror⟩

end SourceOutline.Run
