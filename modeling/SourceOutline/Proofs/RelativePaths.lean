import Mathlib.Data.List.Basic
import SourceOutline.Proofs.ResultFolders

/-!
Paths seen from a root. Joining the root with the relative path and normalizing undoes it, so no two files share
one, and it goes up exactly when the file is not at or below the root.
-/
namespace SourceOutline.Path

section CommonLength

variable (as bs : List (List Char))

theorem commonLength_le : commonLength as bs ≤ as.length := by
  induction as generalizing bs with
  | nil => simp [commonLength]
  | cons a as ih =>
    cases bs with
    | nil => simp [commonLength]
    | cons b bs =>
      have hrest := ih bs
      rw [commonLength, List.length_cons]
      split <;> omega

theorem take_commonLength : bs.take (commonLength as bs) = as.take (commonLength as bs) := by
  induction as generalizing bs with
  | nil => simp [commonLength]
  | cons a as ih =>
    cases bs with
    | nil => simp [commonLength]
    | cons b bs =>
      rw [commonLength]
      split
      · next heq => rw [heq, List.take_succ_cons, List.take_succ_cons, ih]
      · rfl

theorem commonLength_eq_length_iff : commonLength as bs = as.length ↔ as <+: bs := by
  constructor
  · intro h
    have htake := take_commonLength as bs
    rw [h, List.take_length] at htake
    exact htake ▸ List.take_prefix _ _
  · rintro ⟨rest, rfl⟩
    exact commonLength_append as rest

end CommonLength

section Push

variable {done : List (List Char)}

theorem Normal.isName_of_rooted (h : Normal true done) {c : List Char} (hc : c ∈ done) :
    IsName (String.ofList c) := by
  have hname : c ≠ [] ∧ c ≠ ['.'] ∧ c ≠ ['.', '.'] ∧ '/' ∉ c := by
    induction h with
    | nil => simp at hc
    | up hroot _ _ _ => cases hroot
    | name hempty hdot hup hslash _ ih =>
      rcases List.mem_cons.1 hc with rfl | hin
      · exact ⟨hempty, hdot, hup, hslash⟩
      · exact ih hin
  constructor <;> simp only [String.toList_ofList] <;> tauto

/-- Going up takes components off the end. -/
theorem foldl_push_ups (h : Normal true done) {n : Nat} (hn : n ≤ done.length) :
    (List.replicate n ['.', '.']).foldl (pushComponent true) done = done.drop n := by
  induction n generalizing done with
  | zero => rfl
  | succ n ih =>
    cases h with
    | nil => simp at hn
    | up hroot _ _ => cases hroot
    | @name c before hempty hdot hup hslash hdone =>
      have hstep : pushComponent true (c :: before) ['.', '.'] = before := by simp [pushComponent, hup]
      have hle : n ≤ before.length := by simpa using hn
      rw [List.replicate_succ, List.foldl_cons, hstep, ih hdone hle, List.drop_succ_cons]

/-- Names are put to the end. -/
theorem foldl_push_names {cs : List (List Char)} (hcs : ∀ c ∈ cs, IsName (String.ofList c)) (rooted : Bool)
    (done : List (List Char)) : cs.foldl (pushComponent rooted) done = cs.reverse ++ done := by
  induction cs generalizing done with
  | nil => rfl
  | cons c rest ih =>
    obtain ⟨hempty, hdot, hup, -⟩ := hcs c List.mem_cons_self
    rw [String.toList_ofList] at hempty hdot hup
    have hstep : pushComponent rooted done c = c :: done := by simp [pushComponent, hempty, hdot, hup]
    rw [List.foldl_cons, hstep, ih fun d hd => hcs d (List.mem_cons_of_mem _ hd), List.reverse_cons,
      List.append_assoc, List.singleton_append]

/-- A relative path that is joined to a root is taken into the normal form after the root. -/
theorem foldl_components_joinChars (rooted : Bool) (root : List Char) {rest : List Char}
    (hrest : rest.head? ≠ some '/') (done : List (List Char)) :
    (components (joinChars root rest)).foldl (pushComponent rooted) done =
      (components rest).foldl (pushComponent rooted)
        ((components root).foldl (pushComponent rooted) done) := by
  have hsplit : ∀ init after : List Char, (components (init ++ '/' :: after)).foldl (pushComponent rooted) done =
      (components after).foldl (pushComponent rooted) ((components init).foldl (pushComponent rooted) done) := by
    intro init after
    rw [components, List.splitOn_append_cons_self, List.foldl_append]
    rfl
  rw [joinChars_eq_lead root hrest, lead]
  split
  · next hroot =>
    rcases hroot with rfl | hlast
    · rfl
    · obtain ⟨init, rfl⟩ := List.getLast?_eq_some_iff.1 hlast
      rw [List.append_assoc, List.singleton_append, hsplit, hsplit]
      rfl
  · rw [List.append_assoc, List.singleton_append, hsplit]

end Push

section Way

/-- The components of the way from the folder of components `ds` to that of components `cs`. -/
def wayParts (ds cs : List (List Char)) : List (List Char) :=
  List.replicate (ds.length - commonLength ds cs) ['.', '.'] ++ cs.drop (commonLength ds cs)

variable {ds cs : List (List Char)}

theorem wayParts_isPart (hcs : Normal true cs.reverse) : ∀ c ∈ wayParts ds cs, c ≠ [] ∧ '/' ∉ c := by
  intro c hc
  rcases List.mem_append.1 hc with hup | hdown
  · rw [List.eq_of_mem_replicate hup]
    decide
  · exact hcs.mem (List.mem_reverse.2 (List.mem_of_mem_drop hdown))

/-- The way leads from the one to the other. -/
theorem foldl_wayParts (hds : Normal true ds.reverse) (hcs : Normal true cs.reverse) :
    (wayParts ds cs).foldl (pushComponent true) ds.reverse = cs.reverse := by
  have hle := commonLength_le ds cs
  have hnames : ∀ c ∈ cs.drop (commonLength ds cs), IsName (String.ofList c) := fun c hc =>
    hcs.isName_of_rooted (List.mem_reverse.2 (List.mem_of_mem_drop hc))
  have hups : ds.reverse.drop (ds.length - commonLength ds cs) = (ds.take (commonLength ds cs)).reverse :=
    List.reverse_take.symm
  rw [wayParts, List.foldl_append, foldl_push_ups hds (by simp), hups, foldl_push_names hnames,
    ← List.reverse_append, ← take_commonLength, List.take_append_drop]

/-- The way goes up unless it starts at or above its end. -/
theorem up_mem_wayParts_iff (hcs : Normal true cs.reverse) : ['.', '.'] ∈ wayParts ds cs ↔ ¬ds <+: cs := by
  have hle := commonLength_le ds cs
  have hdown : ['.', '.'] ∉ cs.drop (commonLength ds cs) := by
    intro hmem
    have hname := hcs.isName_of_rooted (List.mem_reverse.2 (List.mem_of_mem_drop hmem))
    exact hname.notUp (String.toList_ofList)
  rw [← commonLength_eq_length_iff, wayParts, List.mem_append, or_iff_left hdown, List.mem_replicate]
  constructor
  · intro h heq
    omega
  · intro h
    exact ⟨by omega, rfl⟩

/-- The text of a way has the components of the way, or stays. -/
theorem components_way (hcs : Normal true cs.reverse) :
    components (assemble 0 (wayParts ds cs)) = if wayParts ds cs = [] then [['.']] else wayParts ds cs := by
  have hparts : ∀ c ∈ wayParts ds cs, c ≠ [] ∧ '/' ∉ c := wayParts_isPart hcs
  split
  · next hnil =>
    rw [hnil]
    rfl
  · next hne =>
    rw [assemble_zero_parts hparts hne, components, List.splitOn_intercalate '/' (fun c hc => (hparts c hc).2) hne]

theorem foldl_components_way (hds : Normal true ds.reverse) (hcs : Normal true cs.reverse) :
    (components (assemble 0 (wayParts ds cs))).foldl (pushComponent true) ds.reverse = cs.reverse := by
  have hfold := foldl_wayParts hds hcs
  rw [components_way hcs]
  split
  · next hnil =>
    rw [hnil] at hfold
    exact hfold
  · exact hfold

theorem up_mem_components_way_iff (hcs : Normal true cs.reverse) :
    ['.', '.'] ∈ components (assemble 0 (wayParts ds cs)) ↔ ¬ds <+: cs := by
  have hup : ['.', '.'] ∈ wayParts ds cs ↔ ¬ds <+: cs := up_mem_wayParts_iff hcs
  rw [components_way hcs, ← hup]
  split
  · next hnil =>
    rw [hnil]
    decide
  · rfl

theorem head?_way (hcs : Normal true cs.reverse) : (assemble 0 (wayParts ds cs)).head? ≠ some '/' := by
  by_cases hne : wayParts ds cs = []
  · rw [hne]
    decide
  · rw [assemble_zero_parts (wayParts_isPart hcs) hne]
    exact head?_intercalate_parts (wayParts_isPart hcs)

end Way

/-- An absolute path in normal form, with a single slash at its start. -/
structure IsPlain (path : String) : Prop where
  normal : normalize path = path
  single : leadingSlashes path.toList = 1

instance (path : String) : Decidable (IsPlain path) :=
  decidable_of_iff (normalize path = path ∧ leadingSlashes path.toList = 1)
    ⟨fun h => ⟨h.1, h.2⟩, fun h => ⟨h.normal, h.single⟩⟩

/-- A path that is reached from a folder by going down through names. -/
def IsBelow (folder path : String) : Prop :=
  ∃ names : List String, names ≠ [] ∧ (∀ n ∈ names, IsName n) ∧ path = joinAll folder names

section Seen

variable {root path : String}

theorem isAbsolute_of_single (h : leadingSlashes path.toList = 1) : IsAbsolute path := by
  by_contra habs
  rw [leadingSlashes_relative habs] at h
  cases h

theorem rooted_normalize (h : leadingSlashes path.toList = 1) :
    Rooted (normalize path) 1 (normalComponents path.toList) := by
  have hnormal := normal_normalComponents path.toList
  rw [h] at hnormal
  refine ⟨by decide, by decide, hnormal, ?_⟩
  rw [normalize, String.toList_ofList, normalizeChars, h]

theorem IsPlain.rooted (h : IsPlain path) : Rooted path 1 (normalComponents path.toList) := by
  have hrooted := rooted_normalize h.single
  rwa [h.normal] at hrooted

theorem absolute_of_single (h : leadingSlashes path.toList = 1) (cwd : String) :
    absolute cwd path = normalize path := by
  rw [absolute, join_of_isAbsolute (isAbsolute_of_single h)]

/-- A path seen from a root is the way to its components from those of the root. -/
theorem reported_eq_way (hroot : leadingSlashes root.toList = 1) (hpath : IsPlain path) (cwd : String) :
    (reported cwd path (some root)).toList =
      assemble 0 (wayParts (normalComponents root.toList) (normalComponents path.toList)) := by
  have hr := rooted_normalize hroot
  have hp := hpath.rooted
  have hfull : path ≠ "" := by
    rintro rfl
    exact absurd hpath.single (by decide)
  have hup : (components (normalize root).toList).filter (· ≠ []) = normalComponents root.toList := by
    rw [hr.eq, components_assemble hr.pos hr.normal]
  have hdown : (components path.toList).filter (· ≠ []) = normalComponents path.toList := by
    have hassembled := components_assemble hp.pos hp.normal
    rwa [← hp.eq] at hassembled
  simp only [reported, relativeTo?, absolute_of_single hroot, hr.absolute_eq, hp.absolute_eq, if_neg hfull,
    Option.getD_some, String.toList_ofList, wayTo, hup, hdown, wayParts]

theorem leadingSlashes_append {a b : List Char} (h : leadingSlashes a = 1)
    (hb : a = ['/'] → b.head? ≠ some '/') : leadingSlashes (a ++ b) = 1 := by
  unfold leadingSlashes at h
  split at h
  · rfl
  · cases h
  · next rest hthree htwo =>
    cases rest with
    | nil =>
      have hhead := hb rfl
      cases b with
      | nil => rfl
      | cons c b => simp_all [leadingSlashes]
    | cons c rest =>
      have hc : c ≠ '/' := by
        rintro rfl
        exact htwo rest rfl
      simp [leadingSlashes, hc]
  · cases h

/-- The root and the relative path lead to the path again. -/
theorem normalize_join_reported (hroot : leadingSlashes root.toList = 1) (hpath : IsPlain path)
    (cwd : String) : normalize (join root (reported cwd path (some root))) = path := by
  have hr := rooted_normalize hroot
  have hp := hpath.rooted
  have hway := reported_eq_way hroot hpath cwd
  have hhead : (reported cwd path (some root)).toList.head? ≠ some '/' := by
    rw [hway]
    exact head?_way hp.normal
  have hslashes : leadingSlashes (joinChars root.toList (reported cwd path (some root)).toList) = 1 := by
    rw [joinChars_eq_lead _ hhead, lead]
    split
    · exact leadingSlashes_append hroot fun _ => hhead
    · next hlast =>
      rw [List.append_assoc]
      refine leadingSlashes_append hroot fun hslash => absurd ?_ hlast
      rw [hslash]
      exact Or.inr rfl
  have hcomponents : normalComponents (joinChars root.toList (reported cwd path (some root)).toList) =
      normalComponents path.toList := by
    have hstart : (components root.toList).foldl (pushComponent true) [] =
        (normalComponents root.toList).reverse := by
      rw [normalComponents, hroot, List.reverse_reverse]
      rfl
    have hfold := foldl_components_way hr.normal hp.normal
    rw [← hway, ← hstart, ← foldl_components_joinChars true _ hhead] at hfold
    rw [normalComponents, hslashes, ← List.reverse_reverse (normalComponents path.toList), ← hfold]
    rfl
  rw [normalize, join, String.toList_ofList, normalizeChars, hslashes, hcomponents, ← hp.eq, String.ofList_toList]

/-- One path is at or below another when its components start with those of the other. -/
theorem isBelow_iff {folder : String} {ds cs : List (List Char)} (hfolder : Rooted folder 1 ds)
    (hpath : Rooted path 1 cs) : path = folder ∨ IsBelow folder path ↔ ds <+: cs := by
  constructor
  · intro h
    obtain ⟨names, hnames, rfl⟩ : ∃ names : List String, (∀ n ∈ names, IsName n) ∧ path = joinAll folder names := by
      rcases h with rfl | ⟨names, -, hnames, rfl⟩
      · exact ⟨[], by simp, rfl⟩
      · exact ⟨names, hnames, rfl⟩
    have hjoined := hfolder.joinAll hnames
    have hcs : cs = ds ++ names.map String.toList := by
      rw [← components_assemble hpath.pos hpath.normal, ← hpath.eq, hjoined.eq,
        components_assemble hjoined.pos hjoined.normal]
    exact hcs ▸ List.prefix_append _ _
  · rintro ⟨rest, rfl⟩
    have hnames : ∀ n ∈ rest.map String.ofList, IsName n := by
      intro n hn
      obtain ⟨c, hc, rfl⟩ := List.mem_map.1 hn
      exact hpath.normal.isName_of_rooted (List.mem_reverse.2 (List.mem_append_right _ hc))
    have hjoined := hfolder.joinAll hnames
    rw [Text.map_toList_ofList] at hjoined
    have heq : path = joinAll folder (rest.map String.ofList) :=
      String.toList_inj.1 (hpath.eq.trans hjoined.eq.symm)
    by_cases hne : rest = []
    · left
      rw [heq, hne]
      rfl
    · exact Or.inr ⟨_, by simpa using hne, hnames, heq⟩

/-- The result of a file below the root is below the root of results. -/
theorem isBelow_resultPath (hroot : leadingSlashes root.toList = 1) (h : IsBelow (normalize root) path)
    (cwd resultRoot : String) {suffix : String} (hslash : '/' ∉ suffix.toList) :
    IsBelow resultRoot (resultPath (reported cwd path (some root)) resultRoot suffix) := by
  obtain ⟨names, hne, hnames, rfl⟩ := h
  have hr := rooted_normalize hroot
  have hseen : reported cwd (joinAll (normalize root) names) (some root) = ofNames names := by
    have hsame : ∀ p, reported cwd p (some root) = reported cwd p (some (normalize root)) := by
      intro p
      simp only [reported, absolute_of_single hroot, hr.absolute_eq]
    rw [hsame, reported_joinAll hr hnames hne]
  obtain ⟨above, last, rfl⟩ : ∃ above last, names = above ++ [last] :=
    ⟨_, _, (List.dropLast_concat_getLast hne).symm⟩
  have habove : ∀ n ∈ above, IsName n := fun n hn => hnames n (List.mem_append_left _ hn)
  have hlast : IsName last := hnames last (by simp)
  have hform : normalize (ofNames (above ++ [last])) = ofNames (above ++ [last]) := normalize_ofNames hnames hne
  refine ⟨above ++ [stem last ++ suffix], by simp, isName_result habove hlast hslash, ?_⟩
  rw [hseen]
  exact resultPath_of_normalize hform (fun n hn => (habove n hn).isPart) hlast.isPart hslash resultRoot

/-- Seen from a root, a file has a relative path that leads back to it, that no other file has, and that goes up
exactly when the file is not at or below the root; the result of a file below the root is below the root of
results. -/
theorem reported_undone {root : String} (hroot : leadingSlashes root.toList = 1) (cwd : String) :
    (∀ path, IsPlain path → normalize (join root (reported cwd path (some root))) = path) ∧
      (∀ path other, IsPlain path → IsPlain other → path ≠ other →
        reported cwd path (some root) ≠ reported cwd other (some root)) ∧
      (∀ path, IsPlain path →
        (['.', '.'] ∈ components (reported cwd path (some root)).toList ↔
          ¬(path = normalize root ∨ IsBelow (normalize root) path))) ∧
      ∀ path, IsPlain path → IsBelow (normalize root) path → ∀ resultRoot suffix : String,
        '/' ∉ suffix.toList →
          IsBelow resultRoot (resultPath (reported cwd path (some root)) resultRoot suffix) := by
  refine ⟨fun path hpath => normalize_join_reported hroot hpath cwd, ?_, ?_, ?_⟩
  · intro path other hpath hother hne heq
    have hback := normalize_join_reported hroot hpath cwd
    rw [heq, normalize_join_reported hroot hother cwd] at hback
    exact hne hback.symm
  · intro path hpath
    rw [reported_eq_way hroot hpath cwd, isBelow_iff (rooted_normalize hroot) hpath.rooted]
    exact up_mem_components_way_iff hpath.rooted.normal
  · intro path _ hbelow resultRoot suffix hslash
    exact isBelow_resultPath hroot hbelow cwd resultRoot hslash

theorem reported_undone_neighbour :
    leadingSlashes "/a/./b".toList = 1 ∧ IsPlain "/a/bc/x.go" ∧ IsPlain "/a/b/c/x.go" ∧
      reported "/" "/a/bc/x.go" (some "/a/./b") = "../bc/x.go" ∧
      reported "/" "/a/b/c/x.go" (some "/a/./b") = "c/x.go" ∧
      normalize (join "/a/./b" "../bc/x.go") = "/a/bc/x.go" ∧
      ¬("/a/bc/x.go" = "/a/b" ∨ IsBelow "/a/b" "/a/bc/x.go") ∧
      "../bc/x.go" ≠ "c/x.go" ∧ IsBelow "out" (resultPath "c/x.go" "out" ".json") := by
  have hroot : leadingSlashes "/a/./b".toList = 1 := by decide
  have hfolder : normalize "/a/./b" = "/a/b" := by decide
  have hnear : IsPlain "/a/bc/x.go" := by decide
  have hfile : IsPlain "/a/b/c/x.go" := by decide
  have hseenNear : reported "/" "/a/bc/x.go" (some "/a/./b") = "../bc/x.go" := by decide
  have hseen : reported "/" "/a/b/c/x.go" (some "/a/./b") = "c/x.go" := by decide
  obtain ⟨hback, hdistinct, hup, hresult⟩ := reported_undone hroot "/"
  have hnearBack := hback _ hnear
  have hne := hdistinct _ _ hnear hfile (by decide)
  have hnearUp := (hup _ hnear).1 (by rw [hseenNear]; decide)
  have hbelow : IsBelow (normalize "/a/./b") "/a/b/c/x.go" :=
    ⟨["c", "x.go"], by simp, by decide, by decide⟩
  have hout := hresult _ hfile hbelow "out" ".json" (by decide)
  rw [hseenNear] at hnearBack hne
  rw [hseen] at hne hout
  rw [hfolder] at hnearUp
  exact ⟨hroot, hnear, hfile, hseenNear, hseen, hnearBack, hnearUp, hne, hout⟩

end Seen

end SourceOutline.Path
