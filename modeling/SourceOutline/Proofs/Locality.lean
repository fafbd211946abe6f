import SourceOutline.Grammar.SourceFile
import SourceOutline.Proofs.Agreement
import SourceOutline.Proofs.Grouping

/-!
A file that mentions no name declared in the other files of its package is scanned in the package as it is
scanned on its own.
-/
namespace SourceOutline

@[simp] theorem Index.ofFiles_singleton (file : GoFile) : Index.ofFiles [file] = ⟨file.decls⟩ := by
  simp [Index.ofFiles]

/-- The names a file declares, as types or as constants and variables. -/
def GoFile.declaredNames (file : GoFile) : List String :=
  (Index.ofFiles [file]).typeNames ++ (Index.ofFiles [file]).valueNames

/-- No other file declares a name that the file mentions. Copies of the file itself are no other files. -/
def GoFile.SelfContained (file : GoFile) (files : List GoFile) : Prop :=
  ∀ other ∈ files, other ≠ file → ∀ name ∈ file.mentions, name ∉ other.declaredNames

/-- A search that finds nothing in the other files finds what it finds in the file itself. -/
private theorem findSome?_flatMap_decls {α : Type} {f : Decl → Option α} {file : GoFile}
    {files : List GoFile} (hmem : file ∈ files)
    (hothers : ∀ other ∈ files, other ≠ file → other.decls.findSome? f = none) :
    (files.flatMap (·.decls)).findSome? f = file.decls.findSome? f := by
  cases hf : file.decls.findSome? f with
  | none =>
    rw [List.findSome?_eq_none_iff]
    intro d hd
    obtain ⟨other, ho, hin⟩ := List.mem_flatMap.1 hd
    by_cases heq : other = file
    · subst heq
      exact List.findSome?_eq_none_iff.1 hf d hin
    · exact List.findSome?_eq_none_iff.1 (hothers other ho heq) d hin
  | some found =>
    induction files with
    | nil => simp at hmem
    | cons first rest ih =>
      rw [List.flatMap_cons, List.findSome?_append]
      by_cases heq : first = file
      · rw [heq, hf, Option.some_or]
      · have hrest : file ∈ rest := (List.mem_cons.1 hmem).resolve_left fun h => heq h.symm
        rw [hothers first List.mem_cons_self heq, Option.none_or]
        exact ih hrest fun other ho => hothers other (List.mem_cons_of_mem _ ho)

namespace GoFile.SelfContained

variable {file : GoFile} {files : List GoFile}

theorem type?_eq (h : file.SelfContained files) (hmem : file ∈ files) {name : String}
    (hn : name ∈ file.typeMentions) :
    (Index.ofFiles files).type? name = (Index.ofFiles [file]).type? name := by
  rw [Index.ofFiles_singleton]
  refine findSome?_flatMap_decls hmem fun other ho hne => ?_
  rw [Option.eq_none_iff_forall_ne_some]
  intro spec hs
  refine h other ho hne name (List.mem_append_left _ hn) (List.mem_append_left _ ?_)
  rw [Index.ofFiles_singleton]
  exact Index.mem_typeNames_of_type? hs

theorem value?_eq (h : file.SelfContained files) (hmem : file ∈ files) {name : String}
    (hn : name ∈ file.identMentions) :
    (Index.ofFiles files).value? name = (Index.ofFiles [file]).value? name := by
  have hd : (Index.ofFiles files).declared? name = (Index.ofFiles [file]).declared? name := by
    rw [Index.ofFiles_singleton]
    refine findSome?_flatMap_decls hmem fun other ho hne => ?_
    rw [Option.eq_none_iff_forall_ne_some]
    intro found hs
    refine h other ho hne name (List.mem_append_right _ hn) (List.mem_append_right _ ?_)
    rw [Index.ofFiles_singleton]
    exact Index.mem_valueNames_of_declared? hs
  unfold Index.value?
  rw [hd]

/-- Every lookup that starts from a self-contained file stays in the file. -/
theorem agreeOn (h : file.SelfContained files) (hmem : file ∈ files) :
    Index.AgreeOn (· ∈ file.typeMentions) (· ∈ file.identMentions) (Index.ofFiles files)
      (Index.ofFiles [file]) where
  type_eq _ hn := h.type?_eq hmem hn
  value_eq _ hn := h.value?_eq hmem hn
  type_mentions name spec hn hs m hm := by
    rw [h.type?_eq hmem hn, Index.ofFiles_singleton] at hs
    exact List.mem_flatMap.2 ⟨_, Index.mem_decls_of_type? hs, hm⟩
  literal_mentions name spec e hn hs m hm := by
    rw [h.value?_eq hmem hn, Index.ofFiles_singleton] at hs
    obtain ⟨hd, he⟩ := Index.mem_decls_of_value? hs
    exact List.mem_flatMap.2 ⟨_, hd, List.mem_append_right _ (List.mem_flatMap.2 ⟨e, he, hm⟩)⟩
  ident_mentions name spec e hn hs m hm := by
    rw [h.value?_eq hmem hn, Index.ofFiles_singleton] at hs
    obtain ⟨hd, he⟩ := Index.mem_decls_of_value? hs
    exact List.mem_flatMap.2 ⟨_, hd, List.mem_flatMap.2 ⟨e, he, hm⟩⟩

theorem fileOutline_eq (h : file.SelfContained files) (hmem : file ∈ files) :
    fileOutline (Index.ofFiles files) file = fileOutline (Index.ofFiles [file]) file :=
  (h.agreeOn hmem).fileOutline_eq file (fun _ hm => hm) (fun _ hm => hm)

end GoFile.SelfContained

namespace Scan

open SourceOutline.Files (FileTree)

/-- What a self-contained file comes to in its group is its scan alone. -/
private theorem fileScan_indexOf_eq (record : Bool) {files : List Loaded} {l : Loaded} (hmem : l ∈ files)
    (h : l.file.SelfContained (files.map (·.file))) :
    fileScan (indexOf files) record l = fileScan (indexOf [l]) record l := by
  have hfile : l.file ∈ files.map (·.file) := List.mem_map_of_mem hmem
  simp only [fileScan, indexOf, h.fileOutline_eq hfile, List.map_cons, List.map_nil]

theorem FolderScan.mem_loadedFiles {s : FolderScan} {key : String} {l : Loaded} :
    (key, l) ∈ s.loadedFiles ↔ ∃ a ∈ s.attempts, a.loaded = .ok l ∧ s.groupKey a.path = key := by
  unfold FolderScan.loadedFiles
  rw [List.mem_filterMap]
  constructor
  · rintro ⟨a, ha, hl⟩
    cases hload : a.loaded with
    | error f => simp [hload] at hl
    | ok found =>
      simp only [hload, Option.some.injEq, Prod.mk.injEq] at hl
      exact ⟨a, ha, by rw [hload, hl.2], hl.1⟩
  · rintro ⟨a, ha, hl, rfl⟩
    exact ⟨a, ha, by simp [hl]⟩

/-- The files of a group are those that loaded under one key. -/
theorem FolderScan.mem_of_mem_groups {s : FolderScan} {group : List Loaded} (hg : group ∈ s.groups) :
    ∃ key, ∀ l, l ∈ group ↔ (key, l) ∈ s.loadedFiles := by
  obtain ⟨key, -, rfl⟩ := mem_grouped.1 hg
  exact ⟨key, fun l => mem_under⟩

theorem FolderScan.exists_group {s : FolderScan} {key : String} {l : Loaded}
    (h : (key, l) ∈ s.loadedFiles) : ∃ group ∈ s.groups, l ∈ group :=
  ⟨under key s.loadedFiles, mem_grouped.2 ⟨key, List.mem_map.2 ⟨_, h, rfl⟩, rfl⟩, mem_under.2 h⟩

/-- A try to load a file is known by its absolute path. -/
theorem attempt_eq_of_path_eq [GoParser] {t : FileTree} {root? : Option String} {p q : String}
    (h : (attempt t root? p).path = (attempt t root? q).path) :
    attempt t root? p = attempt t root? q := by
  have hpath : Path.absolute t.cwd p = Path.absolute t.cwd q := h
  simp only [attempt, hpath]

/-- Where files are scanned each on its own, a group holds copies of one file. -/
theorem FolderScan.eq_of_mem_single_group [GoParser] {t : FileTree} {options : Options} {folder : String}
    {group : List Loaded}
    (hg : group ∈ (FolderScan.of t { options with perPackage := false } folder).groups) {l m : Loaded}
    (hl : l ∈ group) (hm : m ∈ group) : m = l := by
  obtain ⟨key, hkey⟩ := FolderScan.mem_of_mem_groups hg
  obtain ⟨a, ha, hal, hak⟩ := FolderScan.mem_loadedFiles.1 ((hkey l).1 hl)
  obtain ⟨b, hb, hbl, hbk⟩ := FolderScan.mem_loadedFiles.1 ((hkey m).1 hm)
  obtain ⟨p, -, rfl⟩ := List.mem_map.1 ha
  obtain ⟨q, -, rfl⟩ := List.mem_map.1 hb
  have hpath : (attempt t _ p).path = (attempt t _ q).path := hak.trans hbk.symm
  rw [attempt_eq_of_path_eq hpath] at hal
  exact Except.ok.inj (hbl.symm.trans hal)

/-- Where files are scanned each on its own, a scan is the scan of the file alone. -/
theorem FolderScan.fileScan_single_group [GoParser] {t : FileTree} {options : Options} {folder : String}
    {group : List Loaded}
    (hg : group ∈ (FolderScan.of t { options with perPackage := false } folder).groups) {l : Loaded}
    (hl : l ∈ group) (record : Bool) :
    fileScan (indexOf group) record l = fileScan (indexOf [l]) record l := by
  refine fileScan_indexOf_eq record hl ?_
  intro other ho hne
  obtain ⟨m, hm, rfl⟩ := List.mem_map.1 ho
  rw [FolderScan.eq_of_mem_single_group hg hl hm] at hne
  exact absurd rfl hne

/-- The scan of a file on its own is among the scans of a folder whose files are scanned each on its own. -/
theorem FolderScan.fileScan_mem_single_scans [GoParser] {t : FileTree} {options : Options} {folder : String}
    {a : Attempt} (ha : a ∈ (FolderScan.of t options folder).attempts) {l : Loaded}
    (hl : a.loaded = .ok l) :
    fileScan (indexOf [l]) options.recordOmissions l ∈
      (FolderScan.of t { options with perPackage := false } folder).scans := by
  have hin : (a.path, l) ∈ (FolderScan.of t { options with perPackage := false } folder).loadedFiles :=
    FolderScan.mem_loadedFiles.2 ⟨a, ha, hl, rfl⟩
  obtain ⟨group, hg, hmem⟩ := FolderScan.exists_group hin
  rw [← FolderScan.fileScan_single_group hg hmem]
  exact List.mem_flatMap.2 ⟨group, hg, List.mem_map_of_mem hmem⟩

/-- The scan of a self-contained file in its group is the scan of the file alone. So the file is scanned
alike whether the files of a folder see each other's declarations or not. -/
theorem scan_of_selfContained [GoParser] (record : Bool) (files : List Loaded) (place : Nat) (l : Loaded)
    (hl : files[place]? = some l) (h : l.file.SelfContained (files.map (·.file))) :
    ∃ scan, (scanGroup record files)[place]? = some scan ∧ scanGroup record [l] = [scan] ∧
      ∀ (t : FileTree) (options : Options) (folder : String), options.recordOmissions = record →
        files ∈ (FolderScan.of t { options with perPackage := true } folder).groups →
        scan ∈ (FolderScan.of t { options with perPackage := true } folder).scans ∧
          scan ∈ (FolderScan.of t { options with perPackage := false } folder).scans := by
  have hmem : l ∈ files := List.mem_of_getElem? hl
  have heq := fileScan_indexOf_eq record hmem h
  refine ⟨fileScan (indexOf [l]) record l, ?_, rfl, ?_⟩
  · rw [scanGroup, List.getElem?_map, hl, Option.map_some, heq]
  · rintro t options folder rfl hg
    constructor
    · rw [← heq]
      exact List.mem_flatMap.2 ⟨files, hg, List.mem_map_of_mem hmem⟩
    · obtain ⟨key, hkey⟩ := FolderScan.mem_of_mem_groups hg
      obtain ⟨a, ha, hal, -⟩ := FolderScan.mem_loadedFiles.1 ((hkey l).1 hmem)
      exact FolderScan.fileScan_mem_single_scans ha hal

/-- Two files of a package: the first goes through its own aliases and references, the second refers to
the first. -/
private def weatherFiles : List Loaded :=
  [{ file :=
      { path := "a.go", package := some "weather"
        decls := [
          .type { name := "Celsius", type := .named "float64" },
          .type { name := "Row", type := .array (.named "Celsius") none },
          .type { name := "Day", type := .struct [
            { names := ["Rows"], type := .array (.pointer (.named "Row")) none, line := 4 },
            { names := ["Feed"], type := .unsupported "channel_type" "chan int", line := 5 }] },
          .value { keyword := "const", names := ["first"], values := [.ident "second"] },
          .value { keyword := "const", names := ["second"], values := [.basic "int" "1"] }] }
     errorCount := 0 },
   { file :=
      { path := "b.go", package := some "weather"
        decls := [
          .type { name := "Night", type := .named "Day" },
          .value { keyword := "var", names := ["third"], values := [.ident "first"] }] }
     errorCount := 1 }]

theorem scan_of_selfContained_weather :
    ∃ l scan, weatherFiles[0]? = some l ∧ l.file.SelfContained (weatherFiles.map (·.file)) ∧
      (scanGroup true weatherFiles)[0]? = some scan ∧ scanGroup true [l] = [scan] := by
  have hself : (weatherFiles[0]).file.SelfContained (weatherFiles.map (·.file)) := by
    intro other ho hne
    simp only [weatherFiles, List.map_cons, List.map_nil, List.mem_cons, List.not_mem_nil,
      or_false] at ho
    rcases ho with rfl | rfl
    · exact absurd rfl hne
    · decide
  obtain ⟨scan, hscan, halone, -⟩ := scan_of_selfContained true weatherFiles 0 _ rfl hself
  exact ⟨_, scan, rfl, hself, hscan, halone⟩

end Scan

end SourceOutline
