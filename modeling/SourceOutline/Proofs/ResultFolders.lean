import Mathlib.Data.List.Basic
import Mathlib.Data.List.TakeWhile
import SourceOutline.Proofs.PathNames
import SourceOutline.Run.Results

/-!
The folder that is made for a result is the folder that the result is written to. The folders of a source path
and the path of its result are computed apart, and both come from the components of its normal form.
-/
namespace SourceOutline

namespace Path

theorem IsPart.head?_ne {name : String} (h : IsPart name) : name.toList.head? ≠ some '/' :=
  fun heq => h.2 (List.mem_of_mem_head? heq)

theorem isPart_toList {names : List String} (h : ∀ n ∈ names, IsPart n) :
    ∀ c ∈ names.map String.toList, c ≠ [] ∧ '/' ∉ c := by
  intro c hc
  obtain ⟨n, hn, rfl⟩ := List.mem_map.1 hc
  exact h n hn

/-- Joining parts one by one is joining all of them at once. -/
theorem joinAll_toList {names : List String} (hnames : ∀ n ∈ names, IsPart n) (hne : names ≠ []) (root : String) :
    (joinAll root names).toList = lead root.toList ++ (ofNames names).toList := by
  induction names generalizing root with
  | nil => exact absurd rfl hne
  | cons n rest ih =>
    have hn := hnames n List.mem_cons_self
    have hstep : (join root n).toList = lead root.toList ++ n.toList := by
      rw [join, String.toList_ofList, joinChars_eq_lead _ hn.head?_ne]
    cases rest with
    | nil => simpa [joinAll, ofNames, List.intercalate] using hstep
    | cons m rest =>
      have hrest := ih (fun m hm => hnames m (List.mem_cons_of_mem _ hm)) (List.cons_ne_nil m rest) (join root n)
      rw [hstep, lead_append_part _ hn.1 hn.2] at hrest
      simpa [joinAll, ofNames, List.intercalate] using hrest

/-- A path of parts is joined to a root as its parts are, one by one. -/
theorem join_ofNames {names : List String} (hnames : ∀ n ∈ names, IsPart n) (hne : names ≠ []) (root : String) :
    join root (ofNames names) = joinAll root names := by
  have hhead : (ofNames names).toList.head? ≠ some '/' := by
    rw [ofNames, String.toList_ofList]
    exact head?_intercalate_parts (isPart_toList hnames)
  apply String.toList_inj.1
  rw [joinAll_toList hnames hne, join, String.toList_ofList, joinChars_eq_lead _ hhead]

theorem joinAll_concat (root : String) (names : List String) (name : String) :
    joinAll root (names ++ [name]) = join (joinAll root names) name := by
  rw [joinAll, List.foldl_append]
  rfl

section Parent

theorem dropSlashes_concat (init : List Char) {d : Char} (hd : d ≠ '/') :
    dropSlashes (init ++ [d]) = init ++ [d] := by
  unfold dropSlashes
  split
  · rfl
  · simp [Text.dropEndWhile, hd]

theorem dropSlashes_concat_slash (init : List Char) {d : Char} (hd : d ≠ '/') :
    dropSlashes (init ++ [d] ++ ['/']) = init ++ [d] := by
  have hall : (init ++ [d] ++ ['/']).all (· == '/') = false := by simp [hd]
  rw [dropSlashes, hall]
  simp [Text.dropEndWhile, hd]

theorem dropSlashes_lead (root : List Char) : dropSlashes (lead root) = dropSlashes root := by
  unfold lead
  split
  · rfl
  · next h =>
    obtain ⟨hne, hlast⟩ := not_or.1 h
    obtain ⟨init, d, rfl⟩ : ∃ init d, root = init ++ [d] := ⟨_, _, (List.dropLast_concat_getLast hne).symm⟩
    have hd : d ≠ '/' := by simpa using hlast
    rw [dropSlashes_concat_slash init hd, dropSlashes_concat init hd]

/-- The folder of a name that is joined to a path is that path, slashes at its end apart. -/
theorem parent_join {name : String} (hname : IsPart name) (path : String) :
    parent (join path name) = String.ofList (dropSlashes path.toList) := by
  rw [parent, join, String.toList_ofList, joinChars_eq_lead _ hname.head?_ne, parentChars,
    splitLast_append (lead_cases _) hname.2, dropSlashes_lead]

/-- The folder of a name that is joined after others is that of the others. -/
theorem parent_joinAll {names : List String} {name : String} (hnames : ∀ n ∈ names, IsPart n)
    (hname : IsPart name) (hne : names ≠ []) (root : String) :
    parent (joinAll root (names ++ [name])) = joinAll root names := by
  obtain ⟨before, last, rfl⟩ : ∃ before last, names = before ++ [last] :=
    ⟨_, _, (List.dropLast_concat_getLast hne).symm⟩
  have hlast : IsPart last := hnames last (by simp)
  have hends : (joinAll root (before ++ [last])).toList = lead (joinAll root before).toList ++ last.toList := by
    rw [joinAll_concat, join, String.toList_ofList, joinChars_eq_lead _ hlast.head?_ne]
  obtain ⟨init, d, hchars, hd⟩ := exists_concat_of_part (lead (joinAll root before).toList) hlast.1 hlast.2
  rw [joinAll_concat, parent_join hname, hends, hchars, dropSlashes_concat init hd, ← hchars, ← hends,
    String.ofList_toList]

/-- The folder of a relative path of parts is made of all of them but the last. -/
theorem parent_ofNames {names : List String} {name : String} (hnames : ∀ n ∈ names, IsPart n)
    (hname : IsPart name) : parent (ofNames (names ++ [name])) = ofNames names := by
  have hplain : ∀ ns : List String, (∀ n ∈ ns, IsPart n) → ns ≠ [] → joinAll "" ns = ofNames ns := by
    intro ns hns hne
    exact String.toList_inj.1 (joinAll_toList hns hne "")
  have hall : ∀ n ∈ names ++ [name], IsPart n :=
    List.forall_mem_append.2 ⟨hnames, List.forall_mem_singleton.2 hname⟩
  rw [← hplain _ hall (by simp)]
  by_cases hne : names = []
  · rw [hne, List.nil_append]
    exact parent_join hname ""
  · rw [parent_joinAll hnames hname hne, hplain names hnames hne]

end Parent

section Relative

theorem Normal.ne_here {rooted : Bool} {done : List (List Char)} {c : List Char} (h : Normal rooted done)
    (hc : c ∈ done) : c ≠ ['.'] := by
  induction h with
  | nil => simp at hc
  | up _ _ _ ih =>
    rcases List.mem_cons.1 hc with rfl | hin
    · decide
    · exact ih hin
  | name _ hdot _ _ _ ih =>
    rcases List.mem_cons.1 hc with rfl | hin
    · exact hdot
    · exact ih hin

theorem leadingSlashes_relative {path : List Char} (h : path.head? ≠ some '/') : leadingSlashes path = 0 := by
  unfold leadingSlashes
  split <;> simp_all

/-- The normal form of a relative path: the folders it goes through, and a last component. -/
theorem normalize_relative {path : String} (hpath : ¬IsAbsolute path) :
    ∃ above last, normalize path = ofNames (above ++ [last]) ∧ (∀ n ∈ above, IsPart n ∧ n ≠ ".") ∧
      IsPart last := by
  have hslashes : leadingSlashes path.toList = 0 := leadingSlashes_relative hpath
  have hnormal := normal_normalComponents path.toList
  rw [hslashes] at hnormal
  have hform : normalize path = String.ofList (assemble 0 (normalComponents path.toList)) := by
    rw [normalize, normalizeChars, hslashes]
  cases hcs : (normalComponents path.toList).reverse with
  | nil =>
    rw [List.reverse_eq_nil_iff] at hcs
    rw [hcs] at hform
    exact ⟨[], ".", hform, by simp, by decide, by decide⟩
  | cons last before =>
    have hsplit : normalComponents path.toList = before.reverse ++ [last] := by
      rw [← List.reverse_reverse (normalComponents path.toList), hcs, List.reverse_cons]
    have hnames : (before.reverse ++ [last]).map String.ofList =
        before.reverse.map String.ofList ++ [String.ofList last] := by simp
    refine ⟨before.reverse.map String.ofList, String.ofList last, ?_, ?_, ?_⟩
    · rw [hform, assemble_zero hnormal (by rw [hsplit]; simp), ofNames, ← hnames, Text.map_toList_ofList, hsplit]
    · intro n hn
      obtain ⟨c, hc, rfl⟩ := List.mem_map.1 hn
      have hin : c ∈ (normalComponents path.toList).reverse := by
        rw [hcs]
        exact List.mem_cons_of_mem _ (List.mem_reverse.1 hc)
      refine ⟨?_, fun heq => hnormal.ne_here hin ?_⟩
      · rw [IsPart, String.toList_ofList]
        exact hnormal.mem hin
      · rw [← String.toList_ofList (l := c), heq]
        rfl
    · rw [IsPart, String.toList_ofList]
      exact hnormal.mem (by rw [hcs]; exact List.mem_cons_self)

/-- The folders of a relative path are the components of its normal form but the last. -/
theorem folders_of_normalize {path : String} {above : List String} {last : String}
    (hform : normalize path = ofNames (above ++ [last])) (habove : ∀ n ∈ above, IsPart n ∧ n ≠ ".")
    (hlast : IsPart last) : folders path = above := by
  have hparts : ∀ n ∈ above, IsPart n := fun n hn => (habove n hn).1
  have hfolder : parentChars (normalizeChars path.toList) = (ofNames above).toList := by
    rw [← parent_ofNames hparts hlast, ← hform, parent, normalize, String.toList_ofList, String.toList_ofList]
  unfold folders
  rw [hfolder]
  by_cases hne : above = []
  · rw [hne]
    rfl
  · have hcomponents : components (ofNames above).toList = above.map String.toList := by
      rw [ofNames, String.toList_ofList]
      exact List.splitOn_intercalate '/' (fun c hc => (isPart_toList hparts c hc).2) (by simpa using hne)
    have hkept : ∀ c ∈ above.map String.toList, c ≠ [] ∧ c ≠ ['.'] := by
      intro c hc
      obtain ⟨n, hn, rfl⟩ := List.mem_map.1 hc
      exact ⟨(hparts n hn).1, fun heq => (habove n hn).2 (String.toList_inj.1 heq)⟩
    have hfull : ¬((ofNames above).toList = [] ∨ (ofNames above).toList = ['.']) := by
      rintro (heq | heq)
      · have hmem : [] ∈ above.map String.toList := by
          rw [← hcomponents, heq]
          decide
        exact (hkept [] hmem).1 rfl
      · have hmem : ['.'] ∈ above.map String.toList := by
          rw [← hcomponents, heq]
          decide
        exact (hkept ['.'] hmem).2 rfl
    rw [if_neg hfull, hcomponents, List.filter_eq_self.2 (by simpa using hkept), Text.map_ofList_toList]

/-- The result of a relative path goes through the same folders, to the stem of its last component. -/
theorem resultPath_of_normalize {path : String} {above : List String} {last : String}
    (hform : normalize path = ofNames (above ++ [last])) (habove : ∀ n ∈ above, IsPart n) (hlast : IsPart last)
    {suffix : String} (hslash : '/' ∉ suffix.toList) (root : String) :
    resultPath path root suffix = joinAll root (above ++ [stem last ++ suffix]) := by
  have hresult : IsPart (stem last ++ suffix) := (isPart_stem hlast).append hslash
  have hparts : ∀ n ∈ above ++ [stem last ++ suffix], IsPart n :=
    List.forall_mem_append.2 ⟨habove, List.forall_mem_singleton.2 hresult⟩
  rw [resultPath, hform, stem_ofNames above hlast.2, join_ofNames hparts (by simp)]

end Relative

end Path

namespace Run

open SourceOutline.Path (IsAbsolute IsName folders resultPath joinAll parent)
open SourceOutline.Files (FileTree)

theorem makePackageFolder_tree {names : List String} (hne : names ≠ []) (t : FileTree) (root : String) :
    (makePackageFolder t root names).value.2 = (t.makeFolders (joinAll root names)).1 := by
  unfold makePackageFolder
  rw [if_neg (by simpa using hne)]
  dsimp only
  cases hmade : t.makeFolders (joinAll root names) with
  | mk tree failure =>
    cases failure with
    | none => rfl
    | some e =>
      dsimp only
      split <;> rfl

/-- The folder that is made for the result of a source path is the one that the result is written to; without a
folder of its own, the result is directly in the root. -/
theorem packageFolder_eq_parent {path suffix : String} (hpath : ¬IsAbsolute path)
    (hslash : '/' ∉ suffix.toList) (root : String) :
    (folders path ≠ [] →
      joinAll root (folders path) = parent (resultPath path root suffix) ∧
        ∀ t : FileTree, (makePackageFolder t root (folders path)).value.2 =
          (t.makeFolders (parent (resultPath path root suffix))).1) ∧
    (folders path = [] →
      parent (resultPath path root suffix) = String.ofList (Path.dropSlashes root.toList) ∧
        (∃ name, Path.IsPart name ∧ resultPath path root suffix = Path.join root name ∧
          (Path.normalize path ≠ "." → Path.normalize path ≠ ".." → IsName name)) ∧
        ∀ t : FileTree, (makePackageFolder t root (folders path)).value = (.ok (), t)) := by
  obtain ⟨above, last, hform, habove, hlast⟩ := Path.normalize_relative hpath
  have hparts : ∀ n ∈ above, Path.IsPart n := fun n hn => (habove n hn).1
  have hname : Path.IsPart (Path.stem last ++ suffix) := (Path.isPart_stem hlast).append hslash
  rw [Path.folders_of_normalize hform habove hlast, Path.resultPath_of_normalize hform hparts hlast hslash]
  constructor
  · intro hne
    have hfolder := Path.parent_joinAll hparts hname hne root
    refine ⟨hfolder.symm, fun t => ?_⟩
    rw [hfolder, makePackageFolder_tree hne]
  · rintro rfl
    refine ⟨Path.parent_join hname root, ⟨_, hname, rfl, fun hhere hup => ?_⟩, fun t => rfl⟩
    have hform' : Path.normalize path = last := hform.trans (by simp [Path.ofNames, List.intercalate])
    rw [hform'] at hhere hup
    have hlastName : IsName last :=
      ⟨hlast.1, fun heq => hhere (String.toList_inj.1 heq), fun heq => hup (String.toList_inj.1 heq), hlast.2⟩
    exact (Path.isName_stem hlastName).append hslash

theorem packageFolder_eq_parent_dotted :
    folders "../a.b//./c/../d.go/" = ["..", "a.b"] ∧
      resultPath "../a.b//./c/../d.go/" "out//" ".json" = "out//../a.b/d.json" ∧
      joinAll "out//" ["..", "a.b"] = parent "out//../a.b/d.json" ∧
      (∀ t : FileTree, (makePackageFolder t "out//" ["..", "a.b"]).value.2 =
        (t.makeFolders (parent "out//../a.b/d.json")).1) ∧
      folders "c/../d.go" = [] ∧ parent (resultPath "c/../d.go" "out//" ".json") = "out" := by
  have hfolders : folders "../a.b//./c/../d.go/" = ["..", "a.b"] ∧ folders "c/../d.go" = [] := by decide
  have hpath : resultPath "../a.b//./c/../d.go/" "out//" ".json" = "out//../a.b/d.json" := by decide
  obtain ⟨hjoin, hmade⟩ :=
    (@packageFolder_eq_parent "../a.b//./c/../d.go/" ".json" (by decide) (by decide) "out//").1
      (by rw [hfolders.1]; simp)
  have hroot := ((@packageFolder_eq_parent "c/../d.go" ".json" (by decide) (by decide) "out//").2 hfolders.2).1
  rw [hfolders.1, hpath] at hjoin hmade
  refine ⟨hfolders.1, hpath, hjoin, hmade, hfolders.2, hroot.trans ?_⟩
  decide

end Run

end SourceOutline
