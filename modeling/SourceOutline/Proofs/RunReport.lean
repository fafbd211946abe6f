import SourceOutline.Proofs.Delivery
import SourceOutline.Proofs.ResultPaths

/-!
The report of a run: every file that loads has its result reported as written or as not written, and the
status says whether all files came through.
-/
namespace SourceOutline

open SourceOutline.Files (FileTree)

namespace Run

open SourceOutline.Scan (FileScan Stats discover scanFolder load loadable)

namespace Summary

theorem written_sublist (s : Summary) : s.written.Sublist (s.deliveries.map (·.path)) :=
  List.filter_sublist.map _

theorem unwritten_sublist (s : Summary) : s.unwritten.Sublist (s.deliveries.map (·.path)) :=
  List.filter_sublist.map _

theorem perm (s : Summary) : (s.written ++ s.unwritten).Perm (s.deliveries.map (·.path)) := by
  unfold written unwritten
  rw [← List.map_append]
  exact (List.filter_append_perm (·.written) s.deliveries).map _

theorem status_eq_failed_iff (s : Summary) :
    s.status = .failed ↔ s.deliveries ≠ [] ∧ s.written = [] := by
  unfold status
  by_cases hfailed : s.deliveries ≠ [] ∧ s.written = []
  · simp [hfailed]
  · rw [if_neg (by simpa using hfailed)]
    split <;> simp [hfailed]

theorem status_eq_success_iff (s : Summary) :
    s.status = .success ↔ s.unwritten = [] ∧ s.stats.failed = 0 := by
  -- where all results are written and there are some, some are written
  have hnone : s.written = [] → s.unwritten = [] → s.deliveries = [] := by
    intro hwritten hunwritten
    have hperm := s.perm
    rw [hwritten, hunwritten] at hperm
    exact List.map_eq_nil_iff.1 hperm.symm.eq_nil
  by_cases hfailed : s.status = .failed
  · obtain ⟨hsome, hwritten⟩ := s.status_eq_failed_iff.1 hfailed
    simp only [hfailed, reduceCtorEq, false_iff]
    exact fun h => hsome (hnone hwritten h.1)
  · have hnot := hfailed
    rw [status_eq_failed_iff] at hnot
    unfold status
    rw [if_neg (by simpa using hnot)]
    by_cases hall : s.unwritten = [] ∧ s.stats.failed = 0
    · simp [hall]
    · simp only [hall, iff_false]
      split
      · simp
      · next h => exact absurd (by simpa using h) hall

end Summary

/-- The results of a run that comes to its end, with paths of their own. -/
theorem runScan_results [GoParser] {host : Host} {settings : Settings} {w w' : Workspace} {summary : Summary}
    (ht : w.files.Proper) (h : runScan host settings w = (.ok summary, w')) :
    ∃ scans : List FileScan,
      (scanFolder w.files (scanOptions settings) settings.sourceDir).value = .ok (scans, summary.stats) ∧
      Delivered settings.resultRoot w.files scans summary.deliveries w'.files ∧
      (summary.written ++ summary.unwritten).Perm (scans.map (resultPath settings.resultRoot)) ∧
      (summary.written ++ summary.unwritten).Nodup := by
  obtain ⟨scans, hscan, hdelivered⟩ := runScan_ok h
  have hperm : (summary.written ++ summary.unwritten).Perm (scans.map (resultPath settings.resultRoot)) :=
    hdelivered.paths ▸ summary.perm
  refine ⟨scans, hscan, hdelivered, hperm, hperm.nodup_iff.2 ?_⟩
  exact .of_map Files.names (nodup_names_of_scanFolder ht hscan settings.resultRoot)

end Run

namespace Scan

/-- The scan of a file without declarations. -/
def emptyScan (path : String) : FileScan :=
  { path := path, package := none, outline := ⟨[], []⟩ }

theorem parseSource_empty :
    Grammar.parseSource ⟨ByteArray.empty⟩ = .mk "source_file" true false 0 0 0 0 none [] := by
  have hoctets : Grammar.octets ⟨ByteArray.empty⟩ = [] := by
    simp [Grammar.octets, ByteArray.toList, ByteArray.toList.loop]
  unfold Grammar.parseSource Grammar.tokens
  rw [hoctets]
  rfl

/-- An empty file has an empty scan. -/
theorem fileScan_empty {t : FileTree} {root? : Option String} {path : String} {here : Files.Location}
    (hpath : Path.absolute t.cwd path = path) (hplace : t.place true path = .ok (.found here))
    (hface : t.root.faceAt? here = some (.file ByteArray.empty)) (hslash : path.endsWith "/" = false)
    (hext : Path.extension path = Files.goExtension) {l : Loaded} (h : load t root? path = .ok l)
    (index : Index) :
    fileScan index false l = emptyScan (Path.reported t.cwd path root?) := by
  have hopened : (attempt t root? path).opened =
      .ok { source := ⟨ByteArray.empty⟩, root := .mk "source_file" true false 0 0 0 0 none [] } := by
    unfold attempt openGo parseFile
    dsimp only
    rw [hpath, Files.FileTree.isFile_of_place hplace hface hslash,
      Files.FileTree.read_of_place hplace hface hslash, hext]
    simp [Except.map, Except.mapError, GoParser.parse, parseSource_empty]
  unfold load Attempt.loaded at h
  rw [hopened] at h
  obtain rfl := Except.ok.inj h
  have hshown : (attempt t root? path).shown = Path.reported t.cwd path root? := by
    unfold attempt
    rw [hpath]
  have herrors : (Syntax.Node.mk "source_file" true false 0 0 0 0 none []).errorCount = 0 := by
    simp [Syntax.Node.errorCount, Syntax.countErrors, Syntax.Node.isError]
  simp only [hshown, fileScan, Parsed.loaded, Parsed.errorCount, herrors]
  rfl

end Scan

namespace Run

open SourceOutline.Scan (FileScan Stats discover scanFolder load loadable)

/-- A run returns where its source folder is there and its results can be dealt with. -/
theorem runScan_returns [GoParser] (host : Host) (settings : Settings) (w : Workspace) {scans : List FileScan}
    {stats : Stats} {ds : List Delivery} (hsource : w.files.isFolder settings.sourceDir = true)
    (hscan : (scanFolder w.files (scanOptions settings) settings.sourceDir).value = .ok (scans, stats))
    (hdeliver : ∀ w₁ w₂ result, w₁.files = w.files →
      deliverResults settings.resultRoot w₁ scans = (result, w₂) → result = .ok ds) :
    ∃ w', runScan host settings w = (.ok ⟨Path.absolute w.files.cwd settings.sourceDir,
      Path.absolute w.files.cwd settings.resultRoot, stats, ds⟩, w') := by
  unfold runScan
  simp only [hsource, Bool.not_true, Bool.false_eq_true, if_false, Workspace.files_say, hscan]
  split
  · next f w₂ hd => cases hdeliver _ _ _ (by simp only [Workspace.files_say, Workspace.files_tell]) hd
  · next ds' w₂ hd =>
    obtain rfl : ds' = ds :=
      Except.ok.inj (hdeliver _ _ _ (by simp only [Workspace.files_say, Workspace.files_tell]) hd)
    exact ⟨_, rfl⟩

def quietHost : Host := ⟨fun _ => "", "", .null, ""⟩

theorem deliver_of_writeResult (root : String) {w : Workspace} (s : FileScan) {written : Bool} {t' : FileTree}
    (h : (writeResult w.files (resultText s) (resultPath root s) s.folders root).value = (.ok written, t')) :
    ∃ w', deliver root w s = (.ok ⟨resultPath root s, written⟩, w') ∧ w'.files = t' := by
  unfold deliver
  simp only [h, Except.map, Except.mapError]
  exact ⟨_, rfl, rfl⟩

/-- A folder that has the name of a result. -/
def shelf : FileTree where
  root := .folder [("a.go", .file ByteArray.empty), ("a.json", .folder [("b.go", .file ByteArray.empty)])]
  cwd := "/"

/-- The results go to the folder itself. -/
def shelfSettings : Settings := { sourceDir := "/", resultRoot := "/" }

def shelfScans : List FileScan :=
  [Scan.emptyScan "a.go", Scan.emptyScan "a.json/b.go"]

theorem place_shelf :
    shelf.place true "/a.go" = .ok (.found ["a.go"]) ∧
      shelf.place true "/a.json/b.go" = .ok (.found ["a.json", "b.go"]) := by
  constructor
  · rw [FileTree.place_absolute (by decide) ⟨by decide, by simp, by decide, by decide⟩]
    rfl
  · rw [FileTree.place_absolute (by decide) ⟨by decide, by simp, by decide, by decide⟩]
    rfl

theorem goFiles_shelf : shelf.goFiles false (Path.absolute shelf.cwd "/") = ["/a.go", "/a.json/b.go"] := by
  have hwanted : Files.isWanted false "a.go" = true ∧ Files.isWanted false "b.go" = true := by decide
  have hentered : Files.isEntered "a.json" = true := by decide +kernel
  have hjoin : Path.join "/" "a.go" = "/a.go" ∧ Path.join "/" "a.json" = "/a.json" ∧
      Path.join "/a.json" "b.go" = "/a.json/b.go" := by decide
  have hfound : Files.goFilesIn shelf.isFolder false "/" shelf.root = ["/a.go", "/a.json/b.go"] := by
    simp [shelf, Files.goFilesIn, Files.goFilesAmong, Files.goFilesOf, hwanted, hentered, hjoin]
  rw [show Path.absolute shelf.cwd "/" = "/" by decide, FileTree.goFiles, FileTree.entry_root rfl]
  dsimp only
  rw [hfound]
  exact List.mergeSort_of_pairwise (by decide)

private theorem isFolder_shelf : shelf.isFolder (Path.absolute shelf.cwd "/") = true := by
  rw [show Path.absolute shelf.cwd "/" = "/" by decide, Scan.isFolder_root rfl]

theorem discover_shelf : (discover shelf false "/").value = .ok ["/a.go", "/a.json/b.go"] := by
  rw [Scan.discover_value isFolder_shelf, goFiles_shelf]

theorem scanFolder_shelf :
    ∃ stats, (scanFolder shelf (scanOptions shelfSettings) "/").value = .ok (shelfScans, stats) := by
  have hproper : shelf.Proper := ⟨rfl, by decide, by decide⟩
  obtain ⟨scans, stats, hscan⟩ := Scan.scanFolder_ok isFolder_shelf
    (show (scanOptions shelfSettings).continueOnError = true from rfl)
  obtain ⟨hfirst, hsecond⟩ := place_shelf
  obtain ⟨first, h₁⟩ := Scan.exists_load (by decide) hfirst rfl (by decide +kernel) (by decide) (some "/")
  obtain ⟨second, h₂⟩ := Scan.exists_load (by decide) hsecond rfl (by decide +kernel) (by decide) (some "/")
  have hfiles : [("/a.go", first), ("/a.json/b.go", second)] =
      loadable shelf (some "/") (shelf.goFiles false (Path.absolute shelf.cwd "/")) := by
    rw [goFiles_shelf]
    simp [loadable, h₁, h₂, Except.toOption]
  obtain ⟨order, -, hscans, horder, -⟩ := @Scan.FolderScan.exists_order shelf (scanOptions shelfSettings) "/" _
    hproper _ hfiles
  have hparents : Path.parent "/a.go" = "/" ∧ Path.parent "/a.json/b.go" = "/a.json" := by decide
  have hall : order = [("/a.go", first), ("/a.json/b.go", second)] := by
    rw [horder rfl]
    simp [Scan.foldersOf, Scan.ofFolder, hparents, List.eraseDups_cons]
  refine ⟨stats, ?_⟩
  rw [hscan, Scan.scans_of_scanFolder hscan, hscans, hall]
  simp only [List.map_cons, List.map_nil, show (scanOptions shelfSettings).recordOmissions = false from rfl]
  rw [Scan.fileScan_empty (by decide) hfirst rfl (by decide +kernel) (by decide) h₁,
    Scan.fileScan_empty (by decide) hsecond rfl (by decide +kernel) (by decide) h₂]
  rfl

private theorem writeText_shelf :
    (∀ text, Text.encodeError? text = none →
      writeText shelf text "/a.json" = (.error ⟨.isFolder, "/a.json"⟩, shelf)) ∧
    (∀ text, Text.encodeError? text = none →
      writeText shelf text "/a.json/b.json" =
        (.ok (), shelf.setAt ["a.json", "b.json"] (.file (Text.Utf8.encode text)))) := by
  have hfolder : shelf.place true "/a.json" = .ok (.found ["a.json"]) := by
    rw [FileTree.place_absolute (by decide) ⟨by decide, by simp, by decide, by decide⟩]
    rfl
  have hvacant : shelf.place true "/a.json/b.json" = .ok (.vacant ["a.json"] "b.json") := by
    rw [FileTree.place_absolute (by decide) ⟨by decide, by simp, by decide, by decide⟩]
    rfl
  constructor
  · intro text htext
    have hwrite : ∀ content, shelf.write "/a.json" content = .error ⟨.isFolder, "/a.json"⟩ := by
      intro content
      rw [FileTree.write, if_neg (by decide +kernel), hfolder]
      rfl
    simp only [writeText, htext, hwrite]
  · intro text htext
    have hwrite : ∀ content, shelf.write "/a.json/b.json" content =
        .ok (shelf.setAt ["a.json", "b.json"] (.file content)) := by
      intro content
      rw [FileTree.write, if_neg (by decide +kernel), hvacant]
      rfl
    simp only [writeText, htext, hwrite]

private theorem makeFolder_shelf :
    (makeRoot shelf "/").value = (.ok true, shelf) ∧ shelf.makeFolders "/a.json" = (shelf, none) := by
  have hplace : ∀ whole, shelf.place whole "/a.json" = .ok (.found ["a.json"]) := by
    intro whole
    rw [FileTree.place_absolute (by decide) ⟨by decide, by simp, by decide, by decide⟩]
    rfl
  have hhas : shelf.has "/" = true := by
    rw [FileTree.has, FileTree.entry_root rfl]
    rfl
  have hmade : ∀ path here, shelf.place false path = .ok (.found here) →
      shelf.makeFolder path = .error ⟨.present, path⟩ := by
    intro path here h
    rw [FileTree.makeFolder, FileTree.create, h]
  have hfolder : shelf.isFolder "/a.json" = true := by
    rw [FileTree.isFolder, FileTree.entry, hplace, show "/a.json".endsWith "/" = false by decide +kernel]
    rfl
  constructor
  · unfold makeRoot
    rw [hmade _ _ (FileTree.place_root shelf false)]
    rfl
  · unfold FileTree.makeFolders
    rw [show "/a.json".length = 6 + 1 from rfl, FileTree.makeFoldersWith]
    have hcut : FileTree.cutLastName "/a.json".toList = (['/'], "a.json".toList) := by decide
    rw [hcut]
    simp [hhas, FileTree.ensureFolder, hmade _ _ (hplace false), hfolder]

private theorem writeResult_shelf :
    (writeResult shelf (resultText (Scan.emptyScan "a.go")) "/a.json" [] "/").value = (.ok false, shelf) ∧
      ∃ t', (writeResult shelf (resultText (Scan.emptyScan "a.json/b.go")) "/a.json/b.json" ["a.json"]
        "/").value = (.ok true, t') := by
  obtain ⟨-, hfolder⟩ := makeFolder_shelf
  have hfirst : Text.encodeError? (resultText (Scan.emptyScan "a.go")) = none := by decide
  have hsecond : Text.encodeError? (resultText (Scan.emptyScan "a.json/b.go")) = none := by decide
  constructor
  · unfold writeResult makePackageFolder
    simp only [List.isEmpty_nil, if_true, writeText_shelf.1 _ hfirst]
    rfl
  · unfold writeResult makePackageFolder
    simp only [show Path.joinAll "/" ["a.json"] = "/a.json" by decide, hfolder, List.isEmpty_cons,
      Bool.false_eq_true, if_false, writeText_shelf.2 _ hsecond]
    exact ⟨_, rfl⟩

private theorem deliverAll_shelf {w : Workspace} (hw : w.files = shelf) :
    (deliverAll "/" w shelfScans).1 = .ok [⟨"/a.json", false⟩, ⟨"/a.json/b.json", true⟩] := by
  obtain ⟨hfirst, t', hsecond⟩ := writeResult_shelf
  rw [← hw] at hfirst
  obtain ⟨w₁, hw₁, hfiles⟩ := deliver_of_writeResult "/" (Scan.emptyScan "a.go") hfirst
  rw [← hw, ← hfiles] at hsecond
  obtain ⟨w₂, hw₂, -⟩ := deliver_of_writeResult "/" (Scan.emptyScan "a.json/b.go") hsecond
  simp only [shelfScans, deliverAll, hw₁, hw₂]
  rfl

private theorem deliverResults_shelf {w w' : Workspace} {result : Except Failure (List Delivery)}
    (hw : w.files = shelf) (h : deliverResults "/" w shelfScans = (result, w')) :
    result = .ok [⟨"/a.json", false⟩, ⟨"/a.json/b.json", true⟩] := by
  obtain ⟨hroot, -⟩ := makeFolder_shelf
  rw [← hw] at hroot
  unfold deliverResults at h
  rw [if_neg (by simp [shelfScans])] at h
  simp only [hroot] at h
  have hall := congrArg Prod.fst h
  rw [deliverAll_shelf (by rw [Workspace.files_tell, hw])] at hall
  exact hall.symm

theorem runScan_shelf (host : Host) :
    ∃ stats w', runScan host shelfSettings { files := shelf } =
      (.ok ⟨"/", "/", stats, [⟨"/a.json", false⟩, ⟨"/a.json/b.json", true⟩]⟩, w') := by
  obtain ⟨stats, hscan⟩ := scanFolder_shelf
  obtain ⟨w', hrun⟩ := runScan_returns host shelfSettings { files := shelf } (Scan.isFolder_root rfl) hscan
    fun w₁ w₂ result hfiles hd => deliverResults_shelf hfiles hd
  exact ⟨stats, w', hrun⟩

/-- A run succeeds exactly when every file loads and has its result written. -/
theorem success_iff_all_written [GoParser] {t : FileTree} {settings : Settings} {scans : List FileScan} {summary : Summary}
    (ht : t.Proper)
    (hscan : (scanFolder t (scanOptions settings) settings.sourceDir).value = .ok (scans, summary.stats))
    (hperm : (summary.written ++ summary.unwritten).Perm (scans.map (resultPath settings.resultRoot)))
    (hdisjoint : summary.written.Disjoint summary.unwritten) :
    summary.status = .success ↔
      ∀ source ∈ t.goFiles settings.includeTests (Path.absolute t.cwd settings.sourceDir), ∃ l,
        load t (some settings.sourceDir) source = .ok l ∧
          Path.resultPath l.file.path settings.resultRoot ".json" ∈ summary.written := by
  rw [summary.status_eq_success_iff, Scan.failed_eq_zero_iff ht rfl hscan]
  constructor
  · rintro ⟨hunwritten, hload⟩ source hsource
    obtain ⟨l, hl⟩ := hload source hsource
    refine ⟨l, hl, ?_⟩
    have hmem := hperm.mem_iff.2 ((mem_resultPaths ht hscan _).2 ⟨source, hsource, l, hl, rfl⟩)
    rwa [hunwritten, List.append_nil] at hmem
  · intro hall
    refine ⟨List.eq_nil_iff_forall_not_mem.2 fun path hpath => ?_, fun source hsource => ?_⟩
    · obtain ⟨source, hsource, l, hl, rfl⟩ :=
        (mem_resultPaths ht hscan _).1 (hperm.mem_iff.1 (List.mem_append_right _ hpath))
      obtain ⟨l', hl', hwritten⟩ := hall source hsource
      rw [hl, Except.ok.injEq] at hl'
      exact hdisjoint (hl' ▸ hwritten) hpath
    · obtain ⟨l, hl, -⟩ := hall source hsource
      exact ⟨l, hl⟩

/-- The report of a run accounts for every file.

The results that were written and those that were not are the results of all scans, in their order, and none
is both. A run succeeds exactly when every Go file that is found loads and its result is written. -/
theorem runScan_report [GoParser] {host : Host} {settings : Settings} {w w' : Workspace} {summary : Summary}
    (ht : w.files.Proper) (h : runScan host settings w = (.ok summary, w')) :
    ∃ (found : List String) (scans : List FileScan),
      (discover w.files settings.includeTests settings.sourceDir).value = .ok found ∧
      (scanFolder w.files (scanOptions settings) settings.sourceDir).value = .ok (scans, summary.stats) ∧
      summary.written.Sublist (scans.map (resultPath settings.resultRoot)) ∧
      summary.unwritten.Sublist (scans.map (resultPath settings.resultRoot)) ∧
      (summary.written ++ summary.unwritten).Perm (scans.map (resultPath settings.resultRoot)) ∧
      summary.written.Disjoint summary.unwritten ∧
      summary.written.length + summary.unwritten.length = summary.stats.processed ∧
      (summary.status = .success ↔ ∀ source ∈ found, ∃ l,
        load w.files (some settings.sourceDir) source = .ok l ∧
          Path.resultPath l.file.path settings.resultRoot ".json" ∈ summary.written) ∧
      ∀ path ∈ summary.written, w'.files.isFile path = true := by
  obtain ⟨scans, hscan, hdelivered, hperm, hnodup⟩ := runScan_results ht h
  have hpaths := hdelivered.paths
  have hdisjoint := List.disjoint_of_nodup_append hnodup
  obtain ⟨hprocessed, -⟩ := Scan.counts_of_scanFolder ht rfl hscan
  refine ⟨_, scans, Scan.discover_value (Scan.isFolder_of_scanFolder hscan) _, hscan,
    hpaths ▸ summary.written_sublist, hpaths ▸ summary.unwritten_sublist, hperm, hdisjoint, ?_,
    success_iff_all_written ht hscan hperm hdisjoint, ?_⟩
  · rw [hprocessed, ← List.length_append, hperm.length_eq, List.length_map]
  · intro path hpath
    obtain ⟨d, hd, rfl⟩ := List.mem_map.1 hpath
    obtain ⟨hmem, hwritten⟩ := List.mem_filter.1 hd
    exact hdelivered.isFile ht.root_folder hmem hwritten

theorem runScan_report_shelf :
    ∃ (summary : Summary) (w' : Workspace),
      runScan quietHost shelfSettings { files := shelf } = (.ok summary, w') ∧
      summary.written = ["/a.json/b.json"] ∧ summary.unwritten = ["/a.json"] ∧
      summary.stats.processed = 2 ∧ summary.status ≠ .success ∧
      w'.files.isFile "/a.json/b.json" = true := by
  have hproper : shelf.Proper := ⟨rfl, by decide, by decide⟩
  obtain ⟨stats, w', hrun⟩ := runScan_shelf quietHost
  obtain ⟨found, scans, hfound, -, -, -, -, -, hcount, hsuccess, hfiles⟩ :=
    @runScan_report _ quietHost shelfSettings { files := shelf } w' _ hproper hrun
  obtain rfl : ["/a.go", "/a.json/b.go"] = found := Except.ok.inj (discover_shelf.symm.trans hfound)
  refine ⟨_, w', hrun, rfl, rfl, hcount.symm, fun hstatus => ?_, hfiles _ List.mem_cons_self⟩
  obtain ⟨l, hl, hwritten⟩ := hsuccess.1 hstatus "/a.go" List.mem_cons_self
  have hshown : l.file.path = "a.go" := (Scan.load_path hl).trans (by decide)
  rw [hshown] at hwritten
  have hamong : Path.resultPath "a.go" "/" ".json" ∈ ["/a.json/b.json"] := hwritten
  exact absurd hamong (by decide)

end Run

end SourceOutline
