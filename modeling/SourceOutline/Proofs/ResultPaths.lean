import Mathlib.Data.List.Basic
import Mathlib.Data.List.Nodup
import SourceOutline.Proofs.FolderAccount
import SourceOutline.Run.Basic

/-!
The paths of results: each file that is found and loads has one, by the names that lead to the file, and no
two files share one.
-/
namespace SourceOutline

open SourceOutline.Files (FileTree FoundAt)
open SourceOutline.Path (IsName)

namespace Path

/-- The result of a Go file goes to a place where no other Go file's result goes. -/
theorem names_resultPath_inj {above others : List String} {name other root : String}
    (habove : ∀ n ∈ above, IsName n) (hname : IsName name) (hothers : ∀ n ∈ others, IsName n)
    (hother : IsName other) (hext : extension name = extension other)
    (h : Files.names (resultPath (ofNames (above ++ [name])) root ".json") =
      Files.names (resultPath (ofNames (others ++ [other])) root ".json")) :
    above ++ [name] = others ++ [other] := by
  rw [Files.names_resultPath root habove hname, Files.names_resultPath root hothers hother] at h
  have hplaces := List.append_cancel_left h
  obtain ⟨rfl, hlast⟩ := List.append_inj' hplaces (by rw [List.length_singleton, List.length_singleton])
  have hstems := List.singleton_inj.1 hlast
  have hstem : stem name = stem other := by
    rw [String.ext_iff, String.toList_append, String.toList_append] at hstems
    exact String.toList_inj.1 (List.append_cancel_right hstems)
  rw [← stem_append_extension hname.noSlash, ← stem_append_extension hother.noSlash, hstem, hext]

end Path

namespace Scan

theorem Parsed.path_loaded (p : Parsed) (path : String) : (p.loaded path).file.path = path := rfl

theorem Attempt.path_loaded {a : Attempt} {l : Loaded} (h : a.loaded = .ok l) : l.file.path = a.shown := by
  obtain ⟨path, shown, opened⟩ := a
  cases opened with
  | error f => cases h
  | ok p =>
    simp only [Attempt.loaded, Except.map, Except.ok.injEq] at h
    rw [← h, p.path_loaded]

theorem load_path [GoParser] {t : FileTree} {root? : Option String} {path : String} {l : Loaded}
    (h : load t root? path = .ok l) :
    l.file.path = Path.reported t.cwd (Path.absolute t.cwd path) root? := by
  unfold load at h
  rw [Attempt.path_loaded h, attempt]

/-- A file that is found and loads is reported by the names that lead to it from the folder. -/
theorem load_located [GoParser] {t : FileTree} (ht : t.Proper) {includeTests : Bool} {folder path : String} {l : Loaded}
    (hpath : path ∈ t.goFiles includeTests (Path.absolute t.cwd folder))
    (h : load t (some folder) path = .ok l) :
    ∃ e here, t.entry (Path.absolute t.cwd folder) = .ok e ∧ FoundAt includeTests e here ∧
      path = Path.joinAll (Path.absolute t.cwd folder) here ∧ l.file.path = Path.ofNames here := by
  obtain ⟨slashes, cs, hroot⟩ := Path.rooted_absolute ht.cwd folder
  obtain ⟨e, here, hentry, hfound, rfl⟩ := (FileTree.goFiles_found ht hroot includeTests).2 path hpath
  have hne : here ≠ [] := by
    obtain ⟨above, name, rfl, -⟩ := hfound.wanted
    simp
  refine ⟨e, here, hentry, hfound, rfl, ?_⟩
  unfold load at h
  rw [← attempt_absolute ht.cwd] at h
  rw [load_path h, (hroot.joinAll hfound.names).absolute_eq, Path.reported_joinAll hroot hfound.names hne]

theorem length_loadable_eq_iff [GoParser] {t : FileTree} {root? : Option String} {paths : List String} :
    (loadable t root? paths).length = paths.length ↔ ∀ path ∈ paths, ∃ l, load t root? path = .ok l := by
  unfold loadable
  rw [List.filterMap_length_eq_length]
  refine forall₂_congr fun path _ => ?_
  cases load t root? path <;> simp [Except.toOption]

theorem loadable_eq_nil_iff [GoParser] {t : FileTree} {root? : Option String} {paths : List String} :
    loadable t root? paths = [] ↔ ∀ path ∈ paths, ∀ l, load t root? path ≠ .ok l := by
  rw [List.eq_nil_iff_forall_not_mem]
  constructor
  · intro h path hpath l hl
    exact h (path, l) (mem_loadable.2 ⟨hpath, hl⟩)
  · intro h f hf
    exact h f.1 (mem_loadable.1 hf).1 f.2 (mem_loadable.1 hf).2

/-- Two files that are found and load have results in different places. -/
theorem nodup_names_resultPaths [GoParser] {t : FileTree} (ht : t.Proper) (includeTests : Bool) (folder root : String) :
    (((loadable t (some folder) (t.goFiles includeTests (Path.absolute t.cwd folder))).map fun f =>
      Path.resultPath f.2.file.path root ".json").map Files.names).Nodup := by
  obtain ⟨slashes, cs, hroot⟩ := Path.rooted_absolute ht.cwd folder
  obtain ⟨hnodup, -⟩ := FileTree.goFiles_found ht hroot includeTests
  rw [List.map_map]
  refine List.Nodup.map_on ?_ (.of_map _ (hnodup.sublist (loadable_sublist t (some folder) _)))
  intro f hf g hg heq
  obtain ⟨hfmem, hfload⟩ := mem_loadable.1 hf
  obtain ⟨hgmem, hgload⟩ := mem_loadable.1 hg
  obtain ⟨_, here, -, hfound, hfpath, hfshown⟩ := load_located ht hfmem hfload
  obtain ⟨_, there, -, hfound', hgpath, hgshown⟩ := load_located ht hgmem hgload
  obtain ⟨above, name, rfl, hname⟩ := hfound.wanted
  obtain ⟨others, other, rfl, hother⟩ := hfound'.wanted
  have hsame : above ++ [name] = others ++ [other] := by
    rw [Function.comp_apply, Function.comp_apply, hfshown, hgshown] at heq
    exact Path.names_resultPath_inj (fun n hn => hfound.names n (List.mem_append_left _ hn))
      (hfound.names name (by simp)) (fun n hn => hfound'.names n (List.mem_append_left _ hn))
      (hfound'.names other (by simp))
      ((Files.extension_of_isWanted hname).trans (Files.extension_of_isWanted hother).symm) heq
  have hpaths : f.1 = g.1 := by rw [hfpath, hgpath, hsame]
  rw [hpaths, hgload] at hfload
  exact Prod.ext hpaths (Except.ok.inj hfload).symm

section ScanFolder

variable {t : FileTree} {options : Options} {folder : String} {scans : List FileScan} {stats : Stats}

theorem isFolder_of_scanFolder [GoParser] {result : List FileScan × Stats}
    (h : (scanFolder t options folder).value = .ok result) :
    t.isFolder (Path.absolute t.cwd folder) = true := by
  by_contra hfolder
  unfold scanFolder at h
  dsimp only at h
  rw [if_neg hfolder] at h
  cases h

/-- Every file that is found counts, as processed where there is a scan of it. -/
theorem counts_of_scanFolder [GoParser] (ht : t.Proper) (hpass : options.continueOnError = true)
    (h : (scanFolder t options folder).value = .ok (scans, stats)) :
    stats.processed = scans.length ∧ stats.processed + stats.failed =
      (t.goFiles options.includeTests (Path.absolute t.cwd folder)).length := by
  rw [scanFolder_value (isFolder_of_scanFolder h) hpass, Except.ok.injEq, Prod.mk.injEq] at h
  obtain ⟨rfl, rfl⟩ := h
  obtain ⟨hprocessed, hfailed, -⟩ :=
    FolderScan.stats_eq (FolderScan.of t options (Path.absolute t.cwd folder))
  rw [FolderScan.attempts_of ht.cwd, List.length_map] at hfailed
  exact ⟨hprocessed, hfailed⟩

/-- The paths of the scans are those of the files that load. -/
theorem paths_perm [GoParser] (ht : t.Proper) (h : (scanFolder t options folder).value = .ok (scans, stats)) :
    (scans.map (·.path)).Perm
      ((loadable t (some (options.root.getD folder))
        (t.goFiles options.includeTests (Path.absolute t.cwd folder))).map (·.2.file.path)) := by
  obtain ⟨files, hfiles⟩ : ∃ files, files = loadable t (some (options.root.getD folder))
      (t.goFiles options.includeTests (Path.absolute t.cwd folder)) := ⟨_, rfl⟩
  obtain ⟨order, hperm, hscans, -⟩ := FolderScan.exists_order ht hfiles
  rw [scans_of_scanFolder h, hscans, List.map_map, ← hfiles]
  exact hperm.map _

/-- There are no scans exactly when no file loads. -/
theorem scans_eq_nil_iff [GoParser] (ht : t.Proper) (h : (scanFolder t options folder).value = .ok (scans, stats)) :
    scans = [] ↔ ∀ path ∈ t.goFiles options.includeTests (Path.absolute t.cwd folder),
      ∀ l, load t (some (options.root.getD folder)) path ≠ .ok l := by
  have hlength := (paths_perm ht h).length_eq
  rw [List.length_map, List.length_map] at hlength
  rw [← loadable_eq_nil_iff, ← List.length_eq_zero_iff, hlength, List.length_eq_zero_iff]

/-- Nothing failed exactly when all files load. -/
theorem failed_eq_zero_iff [GoParser] (ht : t.Proper) (hpass : options.continueOnError = true)
    (h : (scanFolder t options folder).value = .ok (scans, stats)) :
    stats.failed = 0 ↔ ∀ path ∈ t.goFiles options.includeTests (Path.absolute t.cwd folder),
      ∃ l, load t (some (options.root.getD folder)) path = .ok l := by
  have hlength := (paths_perm ht h).length_eq
  rw [List.length_map, List.length_map] at hlength
  obtain ⟨hprocessed, hfailed⟩ := counts_of_scanFolder ht hpass h
  rw [← length_loadable_eq_iff]
  omega

end ScanFolder

end Scan

namespace Run

open SourceOutline.Scan (FileScan Stats scanFolder load loadable)

section ScanFolder

variable {t : FileTree} {settings : Settings} {scans : List FileScan} {stats : Stats}

/-- The result paths of a run are those of the files that load. -/
theorem resultPaths_perm [GoParser] (ht : t.Proper)
    (h : (scanFolder t (scanOptions settings) settings.sourceDir).value = .ok (scans, stats))
    (root : String) :
    (scans.map (resultPath root)).Perm
      ((loadable t (some settings.sourceDir)
        (t.goFiles settings.includeTests (Path.absolute t.cwd settings.sourceDir))).map fun f =>
        Path.resultPath f.2.file.path root ".json") := by
  have hperm := (Scan.paths_perm ht h).map fun path => Path.resultPath path root ".json"
  rw [List.map_map, List.map_map] at hperm
  exact hperm

theorem mem_resultPaths [GoParser] (ht : t.Proper)
    (h : (scanFolder t (scanOptions settings) settings.sourceDir).value = .ok (scans, stats))
    (root : String) {path : String} :
    path ∈ scans.map (resultPath root) ↔
      ∃ source ∈ t.goFiles settings.includeTests (Path.absolute t.cwd settings.sourceDir),
        ∃ l, load t (some settings.sourceDir) source = .ok l ∧
          Path.resultPath l.file.path root ".json" = path := by
  rw [(resultPaths_perm ht h root).mem_iff, List.mem_map]
  constructor
  · rintro ⟨f, hf, heq⟩
    obtain ⟨hmem, hload⟩ := Scan.mem_loadable.1 hf
    exact ⟨f.1, hmem, f.2, hload, heq⟩
  · rintro ⟨source, hmem, l, hload, heq⟩
    exact ⟨(source, l), Scan.mem_loadable.2 ⟨hmem, hload⟩, heq⟩

/-- The results of a run go to different places. -/
theorem nodup_names_of_scanFolder [GoParser] (ht : t.Proper)
    (h : (scanFolder t (scanOptions settings) settings.sourceDir).value = .ok (scans, stats))
    (root : String) :
    ((scans.map (resultPath root)).map Files.names).Nodup := by
  have hperm := (resultPaths_perm ht h root).map Files.names
  exact hperm.nodup_iff.2 (Scan.nodup_names_resultPaths ht _ _ root)

end ScanFolder

end Run

end SourceOutline
