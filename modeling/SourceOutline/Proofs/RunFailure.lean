import SourceOutline.Proofs.RunReport
import SourceOutline.Run.Program

/-! Runs that write nothing: when they count as failed, and how the program ends then. -/
namespace SourceOutline.Run

open SourceOutline.Files (FileTree)
open SourceOutline.Scan (FileScan Stats discover scanFolder load)

section NothingWritten

variable {host : Host} {settings : Settings} {w w' : Workspace} {summary : Summary}

/-- Where nothing is written, a run has failed exactly when some file loads. -/
theorem failed_iff_of_nothing_written [GoParser] (ht : w.files.Proper)
    (h : runScan host settings w = (.ok summary, w')) (hnone : summary.written = []) :
    summary.status = .failed ↔
      ∃ source ∈ w.files.goFiles settings.includeTests (Path.absolute w.files.cwd settings.sourceDir),
        ∃ l, load w.files (some settings.sourceDir) source = .ok l := by
  obtain ⟨scans, hscan, hdelivered, -⟩ := runScan_results ht h
  have hsome : summary.deliveries = [] ↔ scans = [] := by
    rw [← List.map_eq_nil_iff, hdelivered.paths, List.map_eq_nil_iff]
  rw [summary.status_eq_failed_iff, Ne, hsome, Scan.scans_eq_nil_iff ht hscan]
  push Not
  exact and_iff_left hnone

theorem ne_success_of_nothing_written [GoParser] (ht : w.files.Proper)
    (h : runScan host settings w = (.ok summary, w')) (hnone : summary.written = [])
    (hfound : w.files.goFiles settings.includeTests (Path.absolute w.files.cwd settings.sourceDir) ≠ []) :
    summary.status ≠ .success := by
  obtain ⟨scans, hscan, -, hperm, -⟩ := runScan_results ht h
  obtain ⟨hprocessed, hcount⟩ := Scan.counts_of_scanFolder ht rfl hscan
  rw [Ne, summary.status_eq_success_iff]
  rintro ⟨hunwritten, hfailed⟩
  have hlength := hperm.length_eq
  rw [hnone, hunwritten, List.length_map] at hlength
  rw [hfailed, hprocessed, ← hlength] at hcount
  exact hfound (List.eq_nil_of_length_eq_zero hcount.symm)

theorem runWith_of_runScan [GoParser] [YamlReader] {w₀ w₁ : Workspace} {a : Arguments} (runId : String)
    (hsettings : w₀.settingsFor a = (.ok settings, w₁))
    (h : runScan host settings { w₁ with log := w₁.log.configure (Log.Level.ofName settings.logLevel) } =
      (.ok summary, w')) :
    runWith host runId a w₀ = reportSummary host runId settings.reportDir summary w' := by
  unfold runWith
  simp only [hsettings, h]

theorem reportFailure_ending (host : Host) (runId folder : String) (report : List (String × Payload))
    (f : Failure) (w : Workspace) :
    (reportFailure host runId folder report f w).1 = .exit 1 ∨
      ∃ f', (reportFailure host runId folder report f w).1 = .failed f' := by
  unfold reportFailure
  dsimp only
  split
  · next f' w' _ => exact Or.inr ⟨f', rfl⟩
  · exact Or.inl rfl

theorem reportSummary_ending (host : Host) (runId folder : String) (summary : Summary) (w : Workspace) :
    (reportSummary host runId folder summary w).1 = .exit (if summary.status = .failed then 1 else 0) ∨
      (reportSummary host runId folder summary w).1 = .exit 1 ∨
      ∃ f, (reportSummary host runId folder summary w).1 = .failed f := by
  unfold reportSummary
  dsimp only
  split
  · exact Or.inr (reportFailure_ending ..)
  · exact Or.inl rfl

/-- A run that finds files and writes none has failed exactly when some of the files load; it is incomplete
where none of them does.

The program then ends with code one in the first case, and in the second with code zero if the report can be
written. -/
theorem runScan_nothing_written [GoParser] [YamlReader] {found : List String} (ht : w.files.Proper)
    (h : runScan host settings w = (.ok summary, w'))
    (hfound : (discover w.files settings.includeTests settings.sourceDir).value = .ok found)
    (hsome : found ≠ []) (hnone : summary.written = []) :
    (summary.status = .failed ↔
      ∃ source ∈ found, ∃ l, load w.files (some settings.sourceDir) source = .ok l) ∧
    (summary.status = .incomplete ↔
      ∀ source ∈ found, ∀ l, load w.files (some settings.sourceDir) source ≠ .ok l) ∧
    ∀ (w₀ w₁ : Workspace) (a : Arguments) (runId : String), w₀.settingsFor a = (.ok settings, w₁) →
      w = { w₁ with log := w₁.log.configure (Log.Level.ofName settings.logLevel) } →
      (summary.status = .failed →
        (runWith host runId a w₀).1 = .exit 1 ∨ ∃ f, (runWith host runId a w₀).1 = .failed f) ∧
      ∀ path w₂, summary.status = .incomplete →
        w'.writeReport host (updated (openReport runId) (summary.report host.seconds)) runId
          settings.reportDir = (.ok path, w₂) →
        (runWith host runId a w₀).1 = .exit 0 := by
  obtain ⟨scans, hscan, -⟩ := runScan_results ht h
  rw [Scan.discover_value (Scan.isFolder_of_scanFolder hscan), Except.ok.injEq] at hfound
  have hfailed := failed_iff_of_nothing_written ht h hnone
  have hsuccess := ne_success_of_nothing_written ht h hnone (hfound ▸ hsome)
  rw [hfound] at hfailed
  refine ⟨hfailed, ?_, ?_⟩
  · have hother : summary.status = .incomplete ↔ ¬summary.status = .failed := by
      cases hstatus : summary.status with
      | success => exact absurd hstatus hsuccess
      | incomplete => simp
      | failed => simp
    rw [hother, hfailed]
    push Not
    exact Iff.rfl
  · rintro w₀ w₁ a runId hsettings rfl
    rw [runWith_of_runScan runId hsettings h]
    refine ⟨fun hstatus => ?_, fun path w₂ hstatus hreport => ?_⟩
    · rcases reportSummary_ending host runId settings.reportDir summary w' with hend | hend
      · exact Or.inl (by simpa [hstatus] using hend)
      · exact hend
    · unfold reportSummary
      simp only [hreport, hstatus]
      rfl

end NothingWritten

theorem makeRoot_of_error {t : FileTree} {root : String} {cause : Files.Cause}
    (h : t.place false root = .error cause) (htextual : (Files.FileError.mk cause root).isTextual = false)
    (hcause : cause ≠ .present) : (makeRoot t root).value = (.ok false, t) := by
  unfold makeRoot FileTree.makeFolder FileTree.create
  simp [h, htextual, hcause]

theorem deliverResults_rootless {root : String} {w : Workspace} {scans : List FileScan} (hscans : scans ≠ [])
    (h : (makeRoot w.files root).value = (.ok false, w.files)) :
    (deliverResults root w scans).1 = .ok (scans.map fun s => ⟨resultPath root s, false⟩) := by
  unfold deliverResults
  rw [if_neg (by simpa using hscans)]
  simp only [h]

/-- A Go file alone, whose results are to go below the file itself. -/
private def singleTree : FileTree where
  root := .folder [("a.go", .file ByteArray.empty)]
  cwd := "/"

private def blockedArguments : Arguments := { sourceDir := some "/", resultRoot := some "/a.go/out" }

private def blockedSettings : Settings := { sourceDir := "/", resultRoot := "/a.go/out" }

private theorem settings_blocked :
    (({ files := singleTree } : Workspace).settingsFor blockedArguments).1 = .ok blockedSettings := by
  have hplace : singleTree.place true Settings.defaultFile = .ok (.vacant [] "godmt.yaml") := by
    rw [Settings.defaultFile, FileTree.place_of_usable ⟨by decide, by simp, by decide, by decide⟩,
      FileTree.startOf, if_neg (by simp)]
    rfl
  have hfile : singleTree.isFile Settings.defaultFile = false := by
    rw [FileTree.isFile, FileTree.entry, hplace]
    rfl
  unfold Workspace.settingsFor Workspace.settings Settings.load Settings.settle Settings.fileLayers
    Settings.filePath?
  simp only [hfile]
  rfl

private theorem load_single :
    singleTree.goFiles false (Path.absolute singleTree.cwd "/") = ["/a.go"] ∧
      ∃ l, load singleTree (some "/") "/a.go" = .ok l := by
  have hwanted : Files.isWanted false "a.go" = true := by decide
  have hjoin : Path.join "/" "a.go" = "/a.go" := by decide
  have hplace : singleTree.place true "/a.go" = .ok (.found ["a.go"]) := by
    rw [FileTree.place_absolute (by decide) ⟨by decide, by simp, by decide, by decide⟩]
    rfl
  refine ⟨?_, Scan.exists_load (by decide) hplace rfl (by decide +kernel) (by decide) (some "/")⟩
  rw [show Path.absolute singleTree.cwd "/" = "/" by decide, FileTree.goFiles, FileTree.entry_root rfl]
  simp [singleTree, Files.goFilesIn, Files.goFilesAmong, Files.goFilesOf, hwanted, hjoin]

private theorem runScan_blocked (host : Host) {w : Workspace} (hw : w.files = singleTree) :
    ∃ summary w', runScan host blockedSettings w = (.ok summary, w') ∧ summary.written = [] := by
  have hproper : singleTree.Proper := ⟨rfl, by decide, by decide⟩
  obtain ⟨hgo, l, hl⟩ := load_single
  have hfolder : singleTree.isFolder "/" = true := Scan.isFolder_root rfl
  have hsource : singleTree.isFolder (Path.absolute singleTree.cwd blockedSettings.sourceDir) = true := by
    rw [show Path.absolute singleTree.cwd blockedSettings.sourceDir = "/" by decide, hfolder]
  obtain ⟨scans, stats, hscan⟩ := Scan.scanFolder_ok hsource
    (show (scanOptions blockedSettings).continueOnError = true from rfl)
  have hsome : scans ≠ [] := by
    rintro rfl
    have hmem : "/a.go" ∈ singleTree.goFiles false (Path.absolute singleTree.cwd "/") := by rw [hgo]; simp
    exact (Scan.scans_eq_nil_iff hproper hscan).1 rfl "/a.go" hmem l hl
  have hmade : (makeRoot singleTree "/a.go/out").value = (.ok false, singleTree) := by
    have hplace : singleTree.place false "/a.go/out" = .error .notFolder := by
      rw [FileTree.place_absolute (by decide) ⟨by decide, by simp, by decide, by decide⟩]
      rfl
    exact makeRoot_of_error hplace rfl (by decide)
  have hdeliver : ∀ w₁ w₂ result, w₁.files = w.files →
      deliverResults blockedSettings.resultRoot w₁ scans = (result, w₂) →
      result = .ok (scans.map fun s => ⟨resultPath blockedSettings.resultRoot s, false⟩) := by
    intro w₁ w₂ result hfiles hd
    have hw₁ : (makeRoot w₁.files "/a.go/out").value = (.ok false, w₁.files) := by rw [hfiles, hw, hmade]
    have hrootless := deliverResults_rootless hsome hw₁
    exact (congrArg Prod.fst hd).symm.trans hrootless
  rw [← hw] at hfolder hscan
  obtain ⟨w', hrun⟩ := runScan_returns host blockedSettings w hfolder hscan hdeliver
  exact ⟨_, w', hrun, by simp [Summary.written]⟩

theorem runScan_nothing_written_blocked :
    ∃ (w w' : Workspace) (summary : Summary), w.files = singleTree ∧
      runScan quietHost blockedSettings w = (.ok summary, w') ∧ summary.written = [] ∧
      summary.status = .failed ∧
      ((runWith quietHost "run" blockedArguments { files := singleTree }).1 = .exit 1 ∨
        ∃ f, (runWith quietHost "run" blockedArguments { files := singleTree }).1 = .failed f) := by
  obtain ⟨w₁, hw₁⟩ : ∃ w₁, ({ files := singleTree } : Workspace).settingsFor blockedArguments =
      (.ok blockedSettings, w₁) := ⟨_, Prod.ext settings_blocked rfl⟩
  have hfiles : w₁.files = singleTree := (congrArg (·.2.files) hw₁).symm
  obtain ⟨w, hw⟩ : ∃ w, w = { w₁ with log := w₁.log.configure (Log.Level.ofName blockedSettings.logLevel) } :=
    ⟨_, rfl⟩
  have hwfiles : w.files = singleTree := by rw [hw, ← hfiles]
  have hproper : w.files.Proper := by rw [hwfiles]; exact ⟨rfl, by decide, by decide⟩
  obtain ⟨hgo, l, hl⟩ := load_single
  obtain ⟨summary, w', hrun, hnone⟩ := runScan_blocked quietHost hwfiles
  have hsource : w.files.isFolder (Path.absolute w.files.cwd blockedSettings.sourceDir) = true := by
    rw [hwfiles, show Path.absolute singleTree.cwd blockedSettings.sourceDir = "/" by decide,
      Scan.isFolder_root rfl]
  have hfound : (discover w.files blockedSettings.includeTests blockedSettings.sourceDir).value =
      .ok ["/a.go"] := by
    rw [Scan.discover_value hsource, hwfiles]
    exact congrArg _ hgo
  obtain ⟨hfailed, -, hend⟩ := runScan_nothing_written hproper hrun hfound (by simp) hnone
  have hstatus : summary.status = .failed := by
    refine hfailed.2 ⟨"/a.go", by simp, l, ?_⟩
    rw [hwfiles]
    exact hl
  exact ⟨w, w', summary, hwfiles, hrun, hnone, hstatus, (hend _ w₁ _ "run" hw₁ hw).1 hstatus⟩

/-- A link that leads nowhere. -/
private def danglingTree : FileTree where
  root := .folder [("a.go", .link "gone.go")]
  cwd := "/"

private theorem load_dangling :
    danglingTree.goFiles false (Path.absolute danglingTree.cwd "/") = ["/a.go"] ∧
      load danglingTree (some "/") "/a.go" = .error (.fileNotFound "/a.go") := by
  have hwanted : Files.isWanted false "a.go" = true := by decide
  have hjoin : Path.join "/" "a.go" = "/a.go" := by decide
  have hentry : danglingTree.entry "/a.go" = .error .missing := by
    have hwalk : Files.walk danglingTree.root true [] (Files.names "/a.go") = .link [] "gone.go" [] := rfl
    rw [FileTree.entry, FileTree.place_absolute (by decide) ⟨by decide, by simp, by decide, by decide⟩,
      show Files.linkLimit = 39 + 1 from rfl, Files.resolve_link hwalk, Files.linkStart, if_neg (by simp)]
    rfl
  have hlink : danglingTree.isFolder "/a.go" = false := by rw [FileTree.isFolder, hentry]
  refine ⟨?_, Scan.load_missing (by decide) (by rw [FileTree.isFile, hentry]) (some "/")⟩
  rw [show Path.absolute danglingTree.cwd "/" = "/" by decide, FileTree.goFiles, FileTree.entry_root rfl]
  simp only [danglingTree] at hlink ⊢
  simp [Files.goFilesIn, Files.goFilesAmong, Files.goFilesOf, hwanted, hjoin, hlink]

/-- A run that finds a file and writes none need not have failed: where the file is a link that leads
nowhere, it is incomplete. -/
theorem runScan_incomplete_dangling :
    ∃ (w' : Workspace) (summary : Summary),
      runScan quietHost { sourceDir := "/" } { files := danglingTree } = (.ok summary, w') ∧
      (discover danglingTree false "/").value = .ok ["/a.go"] ∧
      summary.written = [] ∧ summary.status = .incomplete := by
  have hproper : danglingTree.Proper := ⟨rfl, by decide, by decide⟩
  obtain ⟨hgo, hload⟩ := load_dangling
  have hfolder : danglingTree.isFolder "/" = true := Scan.isFolder_root rfl
  have hsource : danglingTree.isFolder (Path.absolute danglingTree.cwd "/") = true := by
    rw [show Path.absolute danglingTree.cwd "/" = "/" by decide, hfolder]
  obtain ⟨scans, stats, hscan⟩ := Scan.scanFolder_ok hsource
    (show (scanOptions { sourceDir := "/" }).continueOnError = true from rfl)
  obtain rfl : scans = [] := by
    refine (Scan.scans_eq_nil_iff hproper hscan).2 fun source hmem l hl => ?_
    obtain rfl : source = "/a.go" := List.mem_singleton.1 (hgo ▸ hmem)
    cases hload.symm.trans hl
  obtain ⟨hprocessed, hcount⟩ := Scan.counts_of_scanFolder hproper rfl hscan
  have hfailed : stats.failed = 1 := by
    have hone : stats.processed + stats.failed = 1 := hcount.trans (congrArg List.length hgo)
    rw [hprocessed] at hone
    simpa using hone
  have hdeliver : ∀ w₁ w₂ result, w₁.files = danglingTree →
      deliverResults "result" w₁ [] = (result, w₂) → result = .ok [] :=
    fun w₁ w₂ result _ hd => (congrArg Prod.fst hd).symm
  obtain ⟨w', hrun⟩ :=
    runScan_returns quietHost { sourceDir := "/" } { files := danglingTree } hfolder hscan hdeliver
  exact ⟨w', _, hrun, (Scan.discover_value hsource false).trans (congrArg _ hgo), rfl,
    by simp [Summary.status, Summary.written, Summary.unwritten, hfailed]⟩

end SourceOutline.Run
