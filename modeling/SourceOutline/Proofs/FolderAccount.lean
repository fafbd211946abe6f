import Mathlib.Algebra.GroupWithZero.Nat
import Mathlib.Data.List.Basic
import Mathlib.Data.List.Nodup
import SourceOutline.Grammar.SourceFile
import SourceOutline.Proofs.Discovery
import SourceOutline.Proofs.EntryPoints
import SourceOutline.Proofs.Placement

/-!
The account of a folder: one scan for each file that is found and loads, in groups that keep the order of
paths, and statistics that add up.
-/
namespace SourceOutline.Scan

open SourceOutline.Files (FileTree)

/-- The files of some paths that load, each with its path. -/
def loadable [GoParser] (t : FileTree) (root? : Option String) (paths : List String) : List (String × Loaded) :=
  paths.filterMap fun path => (load t root? path).toOption.map (path, ·)

/-- The folders of files, in the order of the first file of each. -/
def foldersOf (files : List (String × Loaded)) : List String :=
  (files.map fun f => Path.parent f.1).eraseDups

/-- The files of one folder. -/
def ofFolder (files : List (String × Loaded)) (folder : String) : List (String × Loaded) :=
  files.filter fun f => Path.parent f.1 == folder

/-- The files whose declarations a file sees: those of its folder, or itself alone. -/
def seenBy (perPackage : Bool) (files : List (String × Loaded)) (f : String × Loaded) : List Loaded :=
  if perPackage then (ofFolder files (Path.parent f.1)).map (·.2) else [f.2]

theorem mem_loadable [GoParser] {t : FileTree} {root? : Option String} {paths : List String} {f : String × Loaded} :
    f ∈ loadable t root? paths ↔ f.1 ∈ paths ∧ load t root? f.1 = .ok f.2 := by
  have hsome : ∀ (r : Except Failure Loaded) (l : Loaded), r.toOption = some l ↔ r = .ok l := by
    intro r l
    cases r <;> simp [Except.toOption]
  obtain ⟨path, l⟩ := f
  simp [loadable, List.mem_filterMap, Option.map_eq_some_iff, hsome]

theorem loadable_sublist [GoParser] (t : FileTree) (root? : Option String) (paths : List String) :
    ((loadable t root? paths).map (·.1)).Sublist paths := by
  induction paths with
  | nil => exact .slnil
  | cons path rest ih =>
    unfold loadable at ih ⊢
    cases h : load t root? path with
    | error f => simpa [h, Except.toOption] using ih.cons path
    | ok l => simpa [h, Except.toOption] using ih.cons_cons path

/-- A file that can be read loads. -/
theorem exists_load [GoParser] {t : FileTree} {path : String} {here : Files.Location} {content : ByteArray}
    (hpath : Path.absolute t.cwd path = path) (hplace : t.place true path = .ok (.found here))
    (hface : t.root.faceAt? here = some (.file content)) (hslash : path.endsWith "/" = false)
    (hext : Path.extension path = Files.goExtension) (root? : Option String) :
    ∃ l, load t root? path = .ok l := by
  have hopened : ∃ p, (attempt t root? path).opened = .ok p := by
    unfold attempt openGo parseFile
    dsimp only
    rw [hpath, Files.FileTree.isFile_of_place hplace hface hslash,
      Files.FileTree.read_of_place hplace hface hslash, hext]
    exact ⟨_, rfl⟩
  obtain ⟨p, hp⟩ := hopened
  unfold load Attempt.loaded
  rw [hp]
  exact ⟨_, rfl⟩

/-- A path that leads nowhere does not load. -/
theorem load_missing [GoParser] {t : FileTree} {path : String} (hpath : Path.absolute t.cwd path = path)
    (hfile : t.isFile path = false) (root? : Option String) :
    load t root? path = .error (.fileNotFound path) := by
  have hopened : (attempt t root? path).opened = .error (.fileNotFound path) := by
    unfold attempt openGo
    dsimp only
    rw [hpath, hfile]
    rfl
  unfold load Attempt.loaded
  rw [hopened]
  rfl

section Groups

variable {α : Type} (key : α → String)

/-- Groups by a key of the elements themselves. -/
theorem grouped_by (xs : List α) :
    grouped (xs.map fun x => (key x, x)) = (xs.map key).eraseDups.map fun k => xs.filter (key · == k) := by
  rw [grouped_eq, List.map_map]
  refine List.map_congr_left fun k _ => ?_
  rw [under, List.filter_map, List.map_map]
  exact List.map_id _

/-- The groups together are all elements. -/
theorem flatMap_filter_perm (xs : List α) :
    ((xs.map key).eraseDups.flatMap fun k => xs.filter (key · == k)).Perm xs := by
  have h := flatten_grouped (xs.map fun x => (key x, x))
  rw [grouped_by, List.map_map] at h
  exact h.trans (.of_eq (List.map_id xs))

variable {key}

theorem filter_key_eq_singleton {xs : List α} (hnodup : (xs.map key).Nodup) {x : α} (hx : x ∈ xs) :
    xs.filter (key · == key x) = [x] := by
  induction xs with
  | nil => simp at hx
  | cons y rest ih =>
    obtain ⟨hy, hrest⟩ := List.nodup_cons.1 hnodup
    rcases List.mem_cons.1 hx with rfl | hin
    · have hnone : rest.filter (key · == key x) = [] := by
        refine List.filter_eq_nil_iff.2 fun z hz heq => hy ?_
        exact List.mem_map.2 ⟨z, hz, by simpa using heq⟩
      simp [hnone]
    · have hne : ¬key y = key x := fun heq => hy (List.mem_map.2 ⟨x, hin, heq.symm⟩)
      simp [hne, ih hrest hin]

theorem eraseDups_of_nodup {keys : List String} (h : keys.Nodup) : keys.eraseDups = keys := by
  induction keys with
  | nil => rfl
  | cons k rest ih =>
    obtain ⟨hk, hrest⟩ := List.nodup_cons.1 h
    have hall : (rest.filter fun m => !m == k) = rest := by
      refine List.filter_eq_self.2 fun m hm => ?_
      have hne : m ≠ k := fun heq => hk (heq ▸ hm)
      simpa using hne
    rw [List.eraseDups_cons, hall, ih hrest]

/-- Where all keys are different, every element is its own group. -/
theorem flatMap_filter_eq {xs : List α} (hnodup : (xs.map key).Nodup) :
    ((xs.map key).eraseDups.flatMap fun k => xs.filter (key · == k)) = xs := by
  rw [eraseDups_of_nodup hnodup, List.flatMap_map]
  calc xs.flatMap (fun x => xs.filter (key · == key x))
      = xs.flatMap (fun x => [x]) := by
        simp only [List.flatMap]
        congr 1
        exact List.map_congr_left fun x hx => filter_key_eq_singleton hnodup hx
    _ = xs := by simp

end Groups

/-- The files of all folders are all files. -/
theorem flatMap_ofFolder_perm (files : List (String × Loaded)) :
    ((foldersOf files).flatMap (ofFolder files)).Perm files := by
  unfold foldersOf ofFolder
  exact flatMap_filter_perm (fun f : String × Loaded => Path.parent f.1) files

namespace FolderScan

variable {t : FileTree} {options : Options} {folder : String}

/-- The files that loaded, in a folder that is scanned. -/
theorem loadedFiles_of [GoParser] (ht : t.Proper) :
    (FolderScan.of t options (Path.absolute t.cwd folder)).loadedFiles =
      (loadable t (some (options.root.getD folder))
        (t.goFiles options.includeTests (Path.absolute t.cwd folder))).map
        fun f => (if options.perPackage then Path.parent f.1 else f.1, f.2) := by
  obtain ⟨slashes, cs, hroot⟩ := Path.rooted_absolute ht.cwd folder
  rw [loadedFiles, attempts_of ht.cwd, loadable, List.filterMap_map, List.map_filterMap]
  refine List.filterMap_congr fun path hpath => ?_
  have hself : (attempt t (some (options.root.getD folder)) path).path = path :=
    Files.FileTree.absolute_of_mem_goFiles ht hroot hpath
  simp only [Function.comp_apply, load, hself]
  cases (attempt t (some (options.root.getD folder)) path).loaded <;> rfl

theorem length_failures (s : FolderScan) :
    s.failures.length + (s.attempts.filterMap (·.loaded.toOption)).length = s.attempts.length := by
  unfold failures
  induction s.attempts with
  | nil => rfl
  | cons a rest ih =>
    simp only [Attempt.loaded] at ih ⊢
    cases h : a.opened with
    | error f =>
      simp [h, Except.map, Except.toOption] at ih ⊢
      omega
    | ok p =>
      simp [h, Except.map, Except.toOption] at ih ⊢
      omega

end FolderScan

/-- Counting scans adds up what each of them has. -/
theorem Stats.foldl_add (scans : List FileScan) (s : Stats) :
    scans.foldl Stats.add s =
      { processed := s.processed + scans.length
        failed := s.failed
        structs := s.structs + (scans.map (·.outline.structs.length)).sum
        entries := s.entries + (scans.map (·.outline.entries.length)).sum
        parseErrors := s.parseErrors + (scans.map (·.errorCount)).sum
        omissions := s.omissions + (scans.map fun scan => (scan.omissions.map List.length).getD 0).sum } := by
  induction scans generalizing s with
  | nil => simp
  | cons scan rest ih =>
    rw [List.foldl_cons, ih]
    simp only [Stats.add, List.map_cons, List.sum_cons, List.length_cons]
    congr 1 <;> omega

theorem isFolder_iff {t : FileTree} {path : String} :
    t.isFolder path = true ↔ ∃ items, t.entry path = .ok (.folder items) := by
  unfold Files.FileTree.isFolder
  cases t.entry path with
  | error cause => simp
  | ok e => cases e <;> simp [Files.Entry.isFolder]

theorem isFolder_root {t : FileTree} (h : t.root.isFolder = true) : t.isFolder "/" = true := by
  rw [FileTree.isFolder, FileTree.entry_root h]
  exact h

theorem discover_value {t : FileTree} {folder : String}
    (hfolder : t.isFolder (Path.absolute t.cwd folder) = true) (includeTests : Bool) :
    (discover t includeTests folder).value = .ok (t.goFiles includeTests (Path.absolute t.cwd folder)) := by
  obtain ⟨items, hentry⟩ := isFolder_iff.1 hfolder
  unfold discover
  simp only [hentry]

theorem scanFolder_value [GoParser] {t : FileTree} {options : Options} {folder : String}
    (hfolder : t.isFolder (Path.absolute t.cwd folder) = true) (hpass : options.continueOnError = true) :
    (scanFolder t options folder).value =
      .ok ((FolderScan.of t options (Path.absolute t.cwd folder)).scans,
        (FolderScan.of t options (Path.absolute t.cwd folder)).stats) := by
  have hs : (FolderScan.of t options (Path.absolute t.cwd folder)).options.continueOnError = true := hpass
  unfold scanFolder
  dsimp only
  rw [if_pos hfolder, FolderScan.result, hs]

/-- The scans of files in groups, each with what its file sees. -/
theorem flatMap_scanGroup (record : Bool) (files : List (String × Loaded))
    (key : String × Loaded → String) (keys : List String) :
    keys.flatMap (fun k => scanGroup record ((files.filter (key · == k)).map (·.2))) =
      (keys.flatMap fun k => files.filter (key · == k)).map fun f =>
        fileScan (indexOf ((files.filter (key · == key f)).map (·.2))) record f.2 := by
  rw [List.map_flatMap]
  simp only [List.flatMap]
  congr 1
  refine List.map_congr_left fun k _ => ?_
  rw [scanGroup, List.map_map]
  refine List.map_congr_left fun f hf => ?_
  obtain rfl : key f = k := by simpa using (List.mem_filter.1 hf).2
  rfl

namespace FolderScan

variable {t : FileTree} {options : Options} {folder : String}

/-- The scans of a folder, by a key that tells its groups apart. -/
theorem scans_by_key [GoParser] (ht : t.Proper) {key : String × Loaded → String}
    (hkey : ∀ f, key f = if options.perPackage then Path.parent f.1 else f.1)
    {files : List (String × Loaded)}
    (hfiles : files = loadable t (some (options.root.getD folder))
      (t.goFiles options.includeTests (Path.absolute t.cwd folder))) :
    (FolderScan.of t options (Path.absolute t.cwd folder)).scans =
      ((files.map key).eraseDups.flatMap fun k => files.filter (key · == k)).map fun f =>
        fileScan (indexOf ((files.filter (key · == key f)).map (·.2))) options.recordOmissions f.2 := by
  have hloaded : (FolderScan.of t options (Path.absolute t.cwd folder)).loadedFiles =
      files.map fun f => (key f, f.2) := by
    rw [loadedFiles_of ht, ← hfiles]
    exact List.map_congr_left fun f _ => by rw [hkey f]
  have hgroups : (FolderScan.of t options (Path.absolute t.cwd folder)).groups =
      (files.map key).eraseDups.map fun k => (files.filter (key · == k)).map (·.2) := by
    rw [groups, hloaded, grouped_eq, List.map_map]
    refine List.map_congr_left fun k _ => ?_
    rw [under, List.filter_map, List.map_map]
    rfl
  rw [scans, hgroups, List.flatMap_map]
  exact flatMap_scanGroup _ files key _

/-- By folder, the scans come folder by folder. -/
theorem scans_by_folder [GoParser] (ht : t.Proper) (hmode : options.perPackage = true)
    {files : List (String × Loaded)}
    (hfiles : files = loadable t (some (options.root.getD folder))
      (t.goFiles options.includeTests (Path.absolute t.cwd folder))) :
    (FolderScan.of t options (Path.absolute t.cwd folder)).scans =
      ((foldersOf files).flatMap (ofFolder files)).map fun f =>
        fileScan (indexOf (seenBy options.perPackage files f)) options.recordOmissions f.2 := by
  have hkey : ∀ f : String × Loaded,
      Path.parent f.1 = if options.perPackage then Path.parent f.1 else f.1 := by simp [hmode]
  rw [scans_by_key ht hkey hfiles, hmode]
  rfl

/-- Each on its own, the files are scanned in the order in which they are found. -/
theorem scans_by_file [GoParser] (ht : t.Proper) (hmode : options.perPackage = false)
    {files : List (String × Loaded)}
    (hfiles : files = loadable t (some (options.root.getD folder))
      (t.goFiles options.includeTests (Path.absolute t.cwd folder)))
    (hdistinct : (files.map (·.1)).Nodup) :
    (FolderScan.of t options (Path.absolute t.cwd folder)).scans =
      files.map fun f =>
        fileScan (indexOf (seenBy options.perPackage files f)) options.recordOmissions f.2 := by
  have hkey : ∀ f : String × Loaded, f.1 = if options.perPackage then Path.parent f.1 else f.1 := by
    simp [hmode]
  rw [scans_by_key ht hkey hfiles, flatMap_filter_eq hdistinct, hmode]
  refine List.map_congr_left fun f hf => ?_
  rw [filter_key_eq_singleton hdistinct hf]
  rfl

/-- There is one scan for each file that loads, with what the file sees. -/
theorem exists_order [GoParser] (ht : t.Proper) {files : List (String × Loaded)}
    (hfiles : files = loadable t (some (options.root.getD folder))
      (t.goFiles options.includeTests (Path.absolute t.cwd folder))) :
    ∃ order : List (String × Loaded), order.Perm files ∧
      (FolderScan.of t options (Path.absolute t.cwd folder)).scans = order.map (fun f =>
        fileScan (indexOf (seenBy options.perPackage files f)) options.recordOmissions f.2) ∧
      (options.perPackage = true → order = (foldersOf files).flatMap (ofFolder files)) ∧
      (options.perPackage = false → order = files) := by
  by_cases hmode : options.perPackage = true
  · exact ⟨(foldersOf files).flatMap (ofFolder files), flatMap_ofFolder_perm files,
      scans_by_folder ht hmode hfiles, fun _ => rfl, by simp [hmode]⟩
  · obtain ⟨slashes, cs, hroot⟩ := Path.rooted_absolute ht.cwd folder
    obtain ⟨hnodup, -⟩ := Files.FileTree.goFiles_found ht hroot options.includeTests
    have hdistinct : (files.map (·.1)).Nodup := hnodup.sublist (hfiles ▸ loadable_sublist t _ _)
    exact ⟨files, .refl files, scans_by_file ht (eq_false_of_ne_true hmode) hfiles hdistinct,
      fun h => absurd h hmode, fun _ => rfl⟩

/-- There are as many scans as files that load. -/
theorem length_scans (s : FolderScan) : s.failures.length + s.scans.length = s.attempts.length := by
  have hscans : s.scans.length = s.groups.flatten.length := by
    simp only [scans, List.length_flatMap, List.length_flatten, scanGroup, List.length_map]
  have hgroups : s.groups.flatten.length = (s.attempts.filterMap (·.loaded.toOption)).length := by
    rw [groups, (flatten_grouped _).length_eq, loadedFiles_map_snd]
  rw [hscans, hgroups, length_failures]

theorem stats_eq (s : FolderScan) :
    s.stats.processed = s.scans.length ∧ s.stats.processed + s.stats.failed = s.attempts.length ∧
      s.stats.structs = (s.scans.map (·.outline.structs.length)).sum ∧
      s.stats.entries = (s.scans.map (·.outline.entries.length)).sum ∧
      s.stats.parseErrors = (s.scans.map (·.errorCount)).sum ∧
      s.stats.omissions = (s.scans.map fun scan => (scan.omissions.map List.length).getD 0).sum := by
  have hlength := length_scans s
  rw [stats, Stats.foldl_add]
  refine ⟨Nat.zero_add _, ?_, Nat.zero_add _, Nat.zero_add _, Nat.zero_add _, Nat.zero_add _⟩
  dsimp only
  omega

end FolderScan

/-- The scan of a folder that is there, where failures are passed over, loses nothing and takes nothing
twice.

There is one scan for each file that is found and loads. By folder, the folders come in the order of their
first such file, and each scan looks names up among exactly the files of its folder. All counts are sums over
the scans, and with the failures there are as many scans as files were found. -/
theorem scanFolder_account [GoParser] {t : FileTree} {options : Options} {folder : String} (ht : t.Proper)
    (hfolder : t.isFolder (Path.absolute t.cwd folder) = true) (hpass : options.continueOnError = true) :
    ∃ (found : List String) (files order : List (String × Loaded)) (scans : List FileScan) (stats : Stats),
      (discover t options.includeTests folder).value = .ok found ∧
      found.Pairwise Text.Before ∧
      files = loadable t (some (options.root.getD folder)) found ∧
      (scanFolder t options folder).value = .ok (scans, stats) ∧
      order.Perm files ∧
      scans = order.map (fun f =>
        fileScan (indexOf (seenBy options.perPackage files f)) options.recordOmissions f.2) ∧
      (options.perPackage = true → order = (foldersOf files).flatMap (ofFolder files)) ∧
      (options.perPackage = false → order = files) ∧
      stats.processed = scans.length ∧
      stats.processed + stats.failed = found.length ∧
      stats.structs = (scans.map (·.outline.structs.length)).sum ∧
      stats.entries = (scans.map (·.outline.entries.length)).sum ∧
      stats.parseErrors = (scans.map (·.errorCount)).sum ∧
      stats.omissions = (scans.map fun scan => (scan.omissions.map List.length).getD 0).sum := by
  obtain ⟨slashes, cs, hroot⟩ := Path.rooted_absolute ht.cwd folder
  have hattempts : (FolderScan.of t options (Path.absolute t.cwd folder)).attempts.length =
      (t.goFiles options.includeTests (Path.absolute t.cwd folder)).length := by
    rw [FolderScan.attempts_of ht.cwd, List.length_map]
  obtain ⟨hprocessed, hfailed, hsums⟩ :=
    FolderScan.stats_eq (FolderScan.of t options (Path.absolute t.cwd folder))
  obtain ⟨files, hfiles⟩ : ∃ files, files = loadable t (some (options.root.getD folder))
      (t.goFiles options.includeTests (Path.absolute t.cwd folder)) := ⟨_, rfl⟩
  obtain ⟨order, hperm, hscans, hby, hsingle⟩ := FolderScan.exists_order ht hfiles
  refine ⟨t.goFiles options.includeTests (Path.absolute t.cwd folder), files, order,
    (FolderScan.of t options (Path.absolute t.cwd folder)).scans,
    (FolderScan.of t options (Path.absolute t.cwd folder)).stats,
    discover_value hfolder options.includeTests, Files.FileTree.goFiles_sorted ht hroot options.includeTests,
    hfiles, scanFolder_value hfolder hpass, hperm, hscans, hby, hsingle, hprocessed, ?_, hsums⟩
  rw [hfailed, hattempts]

/-- Two folders, one within the other, and a link that leads nowhere. -/
private def nestedTree : FileTree where
  root := .folder
    [("a", .folder [("b.go", .file ByteArray.empty), ("b", .folder [("c.go", .file ByteArray.empty)]),
      ("c.go", .file ByteArray.empty)]), ("z.go", .link "gone.go")]
  cwd := "/"

private theorem isFile_dangling :
    nestedTree.isFile "/z.go" = false ∧ nestedTree.isFolder "/z.go" = false := by
  have hplace : nestedTree.place true "/z.go" = .ok (.vacant [] "gone.go") := by
    have hwalk : Files.walk nestedTree.root true [] (Files.names "/z.go") = .link [] "gone.go" [] := rfl
    rw [FileTree.place_absolute (by decide) ⟨by decide, by simp, by decide, by decide⟩,
      show Files.linkLimit = 39 + 1 from rfl, Files.resolve_link hwalk, Files.linkStart, if_neg (by simp)]
    rfl
  have hentry : nestedTree.entry "/z.go" = .error .missing := by
    rw [FileTree.entry, hplace]
    rfl
  rw [FileTree.isFile, FileTree.isFolder, hentry]
  exact ⟨rfl, rfl⟩

private theorem goFiles_nestedTree :
    nestedTree.goFiles false "/" = ["/a/b.go", "/a/b/c.go", "/a/c.go", "/z.go"] := by
  have hfound : Files.goFilesIn nestedTree.isFolder false "/" nestedTree.root =
      ["/a/b.go", "/a/b/c.go", "/a/c.go", "/z.go"] := by
    have hlink := isFile_dangling.2
    have hwanted : Files.isWanted false "b.go" = true ∧ Files.isWanted false "c.go" = true ∧
        Files.isWanted false "z.go" = true := by decide
    have hentered : Files.isEntered "a" = true ∧ Files.isEntered "b" = true := by decide +kernel
    have hjoin : Path.join "/" "a" = "/a" ∧ Path.join "/" "z.go" = "/z.go" ∧ Path.join "/a" "b" = "/a/b" ∧
        Path.join "/a" "b.go" = "/a/b.go" ∧ Path.join "/a" "c.go" = "/a/c.go" ∧
        Path.join "/a/b" "c.go" = "/a/b/c.go" := by decide
    simp only [nestedTree] at hlink ⊢
    simp [Files.goFilesIn, Files.goFilesAmong, Files.goFilesOf, hwanted, hentered, hjoin, hlink]
  rw [FileTree.goFiles, FileTree.entry_root rfl]
  dsimp only
  rw [hfound]
  exact List.mergeSort_of_pairwise (by decide)

private theorem load_nestedTree :
    ∃ first second third,
      loadable nestedTree (some "/") ["/a/b.go", "/a/b/c.go", "/a/c.go", "/z.go"] =
        [("/a/b.go", first), ("/a/b/c.go", second), ("/a/c.go", third)] := by
  have hfirst : nestedTree.place true "/a/b.go" = .ok (.found ["a", "b.go"]) := by
    rw [FileTree.place_absolute (by decide) ⟨by decide, by simp, by decide, by decide⟩]
    rfl
  have hsecond : nestedTree.place true "/a/b/c.go" = .ok (.found ["a", "b", "c.go"]) := by
    rw [FileTree.place_absolute (by decide) ⟨by decide, by simp, by decide, by decide⟩]
    rfl
  have hthird : nestedTree.place true "/a/c.go" = .ok (.found ["a", "c.go"]) := by
    rw [FileTree.place_absolute (by decide) ⟨by decide, by simp, by decide, by decide⟩]
    rfl
  obtain ⟨first, h₁⟩ := exists_load (by decide) hfirst rfl (by decide +kernel) (by decide) (some "/")
  obtain ⟨second, h₂⟩ := exists_load (by decide) hsecond rfl (by decide +kernel) (by decide) (some "/")
  obtain ⟨third, h₃⟩ := exists_load (by decide) hthird rfl (by decide +kernel) (by decide) (some "/")
  have h₄ := load_missing (by decide) isFile_dangling.1 (some "/")
  exact ⟨first, second, third, by simp [loadable, h₁, h₂, h₃, h₄, Except.toOption]⟩

theorem scanFolder_account_nested :
    ∃ (files order : List (String × Loaded)) (scans : List FileScan) (stats : Stats),
      (scanFolder nestedTree {} "/").value = .ok (scans, stats) ∧
      files.map (·.1) = ["/a/b.go", "/a/b/c.go", "/a/c.go"] ∧
      order.map (·.1) = ["/a/b.go", "/a/c.go", "/a/b/c.go"] ∧
      scans = order.map (fun f =>
        fileScan (indexOf ((ofFolder files (Path.parent f.1)).map (·.2))) false f.2) ∧
      stats.processed = 3 ∧ stats.failed = 1 := by
  have hroot : Path.absolute nestedTree.cwd "/" = "/" := by decide
  have hfolder : nestedTree.isFolder (Path.absolute nestedTree.cwd "/") = true := by
    rw [hroot, isFolder_root rfl]
  have hproper : nestedTree.Proper := ⟨rfl, by decide, by decide⟩
  obtain ⟨found, files, order, scans, stats, hdiscover, -, hfiles, hscan, -, hscans, horder, -, hprocessed,
    hcount, -⟩ := @scanFolder_account _ nestedTree {} "/" hproper hfolder rfl
  rw [discover_value hfolder, hroot, goFiles_nestedTree, Except.ok.injEq] at hdiscover
  subst hdiscover
  obtain ⟨first, second, third, hload⟩ := load_nestedTree
  replace hfiles := hfiles.trans hload
  have hparents : Path.parent "/a/b.go" = "/a" ∧ Path.parent "/a/b/c.go" = "/a/b" ∧
      Path.parent "/a/c.go" = "/a" := by decide
  have hgroups : order = [("/a/b.go", first), ("/a/c.go", third), ("/a/b/c.go", second)] := by
    rw [horder rfl, hfiles]
    simp [foldersOf, ofFolder, hparents, List.eraseDups_cons]
  have hthree : scans.length = 3 := by rw [hscans, hgroups]; rfl
  refine ⟨files, order, scans, stats, hscan, by rw [hfiles]; rfl, by rw [hgroups]; rfl, hscans,
    hprocessed.trans hthree, ?_⟩
  have hfour : 3 + stats.failed = 4 := by rw [hprocessed, hthree] at hcount; exact hcount
  omega

end SourceOutline.Scan
