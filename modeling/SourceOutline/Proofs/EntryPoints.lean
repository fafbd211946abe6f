import Mathlib.Data.List.Basic
import SourceOutline.Grammar.SourceFile
import SourceOutline.Proofs.Locality
import SourceOutline.Proofs.PathNormal
import SourceOutline.Proofs.Recording

/-!
The ways to scan files agree: together with one sink or with a sink for each file, and alone or among the
files of a folder that do not see each other's declarations.
-/
namespace SourceOutline

open SourceOutline.Files (FileTree)
open SourceOutline.Scan

namespace Recording

/-- Scans a file with a sink of its own, which is named for its path. There is a sink only where omissions
are recorded. -/
def scan (index : Index) (record : Bool) (l : Loaded) : FileScan :=
  let (outline, sink) :=
    (file index l.file).run (if record then some { source := l.file.path } else none)
  { path := l.file.path, package := l.file.package, outline := outline
    errorCount := l.errorCount, omissions := sink.map (·.omissions) }

theorem scan_eq (index : Index) (record : Bool) (l : Loaded) :
    scan index record l = fileScan index record l := by
  rw [scan, file_eq]
  cases record <;> rfl

end Recording

namespace Files.FileTree

theorem place_root (t : FileTree) (whole : Bool) : t.place whole "/" = .ok (.found []) := by
  have hname : Text.nameError? "/" = none := by decide
  have hnull : "/".contains (Char.ofNat 0) = false := by simp
  have hempty : ¬"/" = "" := by decide
  have hlimit : ¬pathLimit ≤ Text.octetCount "/" := by decide
  have hstart : "/".startsWith "/" = true := by simp
  have hnames : names "/" = [] := by decide
  rw [place, placeOf, hname, hnull, hnames, hstart, if_neg hempty, if_neg hlimit]
  rfl

/-- The path `/` leads to the root. -/
theorem entry_root {t : FileTree} (h : t.root.isFolder = true) : t.entry "/" = .ok t.root := by
  rw [entry, place_root]
  simp [bind, Except.bind, h]

end Files.FileTree

namespace Scan

/-- The omissions of scans are those of the files, each in the place of its file. -/
theorem omissions_scanGroup (record : Bool) (files : List Loaded) :
    (scanGroup record files).map (·.omissions) =
      ((packageOutlines (files.map (·.file))).map (·.omitted)).map
        fun omitted => if record then some omitted else none := by
  simp [scanGroup, packageOutlines, fileScan, indexOf]

theorem outline_scanGroup (record : Bool) (files : List Loaded) :
    (scanGroup record files).map (·.outline) =
      (packageOutlines (files.map (·.file))).map (·.value) := by
  simp [scanGroup, packageOutlines, fileScan, indexOf]

theorem scanOne_value [GoParser] (t : FileTree) (root? : Option String) (record : Bool) (path : String) :
    (scanOne t root? record path).value =
      (attempt t root? path).loaded.map fun l => fileScan (indexOf [l]) record l := by
  unfold scanOne
  cases h : (attempt t root? path).loaded with
  | error f => simp [h, Except.map]
  | ok l => simp [h, Except.map]

theorem outlineOne_value [GoParser] (t : FileTree) (root? sink : Option String) (path : String) :
    (outlineOne t root? sink path).value =
      (attempt t root? path).loaded.map fun l => fileOutline (indexOf [l]) l.file := by
  unfold outlineOne
  cases h : (attempt t root? path).loaded with
  | error f => simp [h, Except.map]
  | ok l => simp [h, Except.map]

/-- A root counts by its absolute normal form only. -/
theorem attempt_absolute [GoParser] {t : FileTree} (hcwd : Path.IsAbsolute t.cwd) (root path : String) :
    attempt t (some (Path.absolute t.cwd root)) path = attempt t (some root) path := by
  simp only [attempt, Path.reported, Path.absolute_absolute hcwd]

namespace FolderScan

variable {t : FileTree} {options : Options} {folder : String}

/-- The files of a folder are tried as each of them is on its own. Where no root is given, it is the
folder. -/
theorem attempts_of [GoParser] (hcwd : Path.IsAbsolute t.cwd) :
    (FolderScan.of t options (Path.absolute t.cwd folder)).attempts =
      (t.goFiles options.includeTests (Path.absolute t.cwd folder)).map
        (attempt t (some (options.root.getD folder))) := by
  rw [← funext (attempt_absolute hcwd (options.root.getD folder))]
  unfold FolderScan.of
  cases options.root with
  | none => simp only [Option.getD_none]
  | some root => simp only [Option.getD_some]

theorem loadedFiles_map_snd (s : FolderScan) :
    s.loadedFiles.map (·.2) = s.attempts.filterMap (·.loaded.toOption) := by
  rw [loadedFiles, List.map_filterMap]
  refine List.filterMap_congr fun a _ => ?_
  cases a.loaded <;> rfl

/-- Where files are scanned each on its own, the scans are those of the files alone. -/
theorem scans_single [GoParser] :
    (FolderScan.of t { options with perPackage := false } folder).scans.Perm
      ((FolderScan.of t options folder).attempts.filterMap fun a =>
        (a.loaded.map fun l => fileScan (indexOf [l]) options.recordOmissions l).toOption) := by
  have hscans : (FolderScan.of t { options with perPackage := false } folder).scans =
      (FolderScan.of t { options with perPackage := false } folder).groups.flatten.map
        fun l => fileScan (indexOf [l]) options.recordOmissions l := by
    -- a group holds copies of one file, so what its members see is what the file sees alone
    rw [scans, List.map_flatten, List.flatMap]
    congr 1
    refine List.map_congr_left fun group hg => ?_
    exact List.map_congr_left fun l hl => fileScan_single_group hg hl _
  rw [hscans]
  refine ((flatten_grouped _).map _).trans (.of_eq ?_)
  rw [loadedFiles_map_snd, List.map_filterMap]
  refine List.filterMap_congr fun a _ => ?_
  cases a.loaded <;> rfl

end FolderScan

/-- A folder that is there is scanned to the end where failures are passed over. -/
theorem scanFolder_ok [GoParser] {t : FileTree} {options : Options} {folder : String}
    (hfolder : t.isFolder (Path.absolute t.cwd folder) = true)
    (hpass : options.continueOnError = true) :
    ∃ scans stats, (scanFolder t options folder).value = .ok (scans, stats) := by
  unfold scanFolder
  dsimp only
  rw [if_pos hfolder]
  have hs : (FolderScan.of t options (Path.absolute t.cwd folder)).options.continueOnError = true := hpass
  unfold FolderScan.result
  rw [hs]
  exact ⟨_, _, rfl⟩

theorem scans_of_scanFolder [GoParser] {t : FileTree} {options : Options} {folder : String} {scans : List FileScan}
    {stats : Stats} (h : (scanFolder t options folder).value = .ok (scans, stats)) :
    scans = (FolderScan.of t options (Path.absolute t.cwd folder)).scans := by
  unfold scanFolder at h
  dsimp only at h
  split at h
  · unfold FolderScan.result at h
    split at h
    · cases h
    · exact (Prod.mk.inj (Except.ok.inj h)).1.symm
  · cases h

/-- The ways to scan files agree.

Files that see each other come to the same outlines whether each has a sink of its own or all share one,
and the shared sink holds what the others hold, one after the other.

The scans of a folder whose files do not see each other are the scans of its files alone, under the same
root, which is the folder itself where none is given; relative roots are seen from a working folder that is
absolute. The scan of a file alone has its outline and, where omissions are recorded, what a fresh sink gets
of it. -/
theorem entryPoints_agree [GoParser] (t : FileTree) :
    (∀ (record : Bool) (source : String) (files : List Loaded),
      scanGroup record files = files.map (Recording.scan (indexOf files) record) ∧
      ∃ omitted : List (List Omission),
        (scanGroup record files).map (·.omissions) =
          omitted.map (fun os => if record then some os else none) ∧
        extractFiles (some { source := source }) (files.map (·.file)) =
          ((scanGroup record files).map (·.outline),
            some { source := source, omissions := omitted.flatten })) ∧
    (∀ (options : Options) (folder : String) (scans : List FileScan) (stats : Stats),
      Path.IsAbsolute t.cwd →
      (scanFolder t { options with perPackage := false } folder).value = .ok (scans, stats) →
      scans.Perm ((t.goFiles options.includeTests (Path.absolute t.cwd folder)).filterMap fun path =>
        (scanOne t (some (options.root.getD folder)) options.recordOmissions path).value.toOption)) ∧
    (∀ (root? : Option String) (record : Bool) (source path : String),
      (scanOne t root? record path).value.map (fun scan => (scan.outline, scan.omissions)) =
        (outlineOne t root? (some source) path).value.map fun outline =>
          (outline.value, if record then
            (Sink.record (some { source := source }) outline.omitted).map (·.omissions) else none)) := by
  refine ⟨fun record source files => ⟨?_, _, omissions_scanGroup record files, ?_⟩, ?_, ?_⟩
  · rw [funext (Recording.scan_eq _ record)]
    rfl
  · rw [outline_scanGroup]
    simp [extractFiles, Sink.record, List.flatMap]
  · intro options folder scans stats hcwd h
    rw [scans_of_scanFolder h]
    refine FolderScan.scans_single.trans (.of_eq ?_)
    rw [FolderScan.attempts_of hcwd, List.filterMap_map]
    refine List.filterMap_congr fun path _ => ?_
    rw [scanOne_value, Function.comp_apply]
  · intro root? record source path
    rw [scanOne_value, outlineOne_value]
    cases (attempt t root? path).loaded with
    | error f => rfl
    | ok l => cases record <;> rfl

/-- A folder of two Go files. -/
private def pairTree : FileTree where
  root := .folder [("a.go", .file "package a".toUTF8), ("b.go", .file "package b".toUTF8)]
  cwd := "/"

private theorem goFiles_pairTree : pairTree.goFiles false "/" = ["/a.go", "/b.go"] := by
  have hfound : Files.goFilesIn pairTree.isFolder false "/" pairTree.root = ["/a.go", "/b.go"] := by
    have hwanted : Files.isWanted false "a.go" = true ∧ Files.isWanted false "b.go" = true := by decide
    have hjoin : Path.join "/" "a.go" = "/a.go" ∧ Path.join "/" "b.go" = "/b.go" := by decide
    simp [pairTree, Files.goFilesIn, Files.goFilesAmong, Files.goFilesOf, hwanted, hjoin]
  rw [FileTree.goFiles, FileTree.entry_root rfl]
  dsimp only
  rw [hfound]
  exact List.mergeSort_of_pairwise (by decide)

theorem entryPoints_agree_pair :
    ∃ scans stats,
      (scanFolder pairTree { recordOmissions := true, perPackage := false } ".").value =
        .ok (scans, stats) ∧
      scans.Perm (["/a.go", "/b.go"].filterMap fun path =>
        (scanOne pairTree (some ".") true path).value.toOption) := by
  have hroot : Path.absolute pairTree.cwd "." = "/" := by decide
  have hfolder : pairTree.isFolder (Path.absolute pairTree.cwd ".") = true := by
    rw [hroot, FileTree.isFolder, FileTree.entry_root rfl]
    rfl
  obtain ⟨scans, stats, h⟩ := scanFolder_ok hfolder
    (show ({ recordOmissions := true, perPackage := false } : Options).continueOnError = true from rfl)
  have hperm := (entryPoints_agree pairTree).2.1 { recordOmissions := true } "." scans stats (by decide) h
  rw [hroot, goFiles_pairTree] at hperm
  exact ⟨scans, stats, h, hperm⟩

end Scan

end SourceOutline
