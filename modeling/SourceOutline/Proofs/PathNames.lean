import Mathlib.Data.List.Basic
import Mathlib.Data.List.TakeWhile
import SourceOutline.Files.Resolve
import SourceOutline.Proofs.PathNormal

/-! Paths made of names: joined to a folder, seen from it again, and turned into the paths of results. -/
namespace SourceOutline

namespace Text

/-- What comes before the last component of a path. -/
theorem intercalate_concat_eq (above : List (List Char)) :
    ∃ head : List Char, (head = [] ∨ head.getLast? = some '/') ∧
      ∀ last : List Char, ['/'].intercalate (above ++ [last]) = head ++ last := by
  by_cases hne : above = []
  · exact ⟨[], Or.inl rfl, fun last => by simp [hne]⟩
  · exact ⟨['/'].intercalate above ++ ['/'], Or.inr (by simp), intercalate_concat hne⟩

end Text

namespace Path

/-- What an entry of a folder can be called. -/
structure IsName (name : String) : Prop where
  nonempty : name.toList ≠ []
  notHere : name.toList ≠ ['.']
  notUp : name.toList ≠ ['.', '.']
  noSlash : '/' ∉ name.toList

instance (name : String) : Decidable (IsName name) :=
  decidable_of_iff
    (name.toList ≠ [] ∧ name.toList ≠ ['.'] ∧ name.toList ≠ ['.', '.'] ∧ '/' ∉ name.toList)
    ⟨fun h => ⟨h.1, h.2.1, h.2.2.1, h.2.2.2⟩, fun h => ⟨h.nonempty, h.notHere, h.notUp, h.noSlash⟩⟩

/-- A component that stands between two slashes. -/
def IsPart (name : String) : Prop :=
  name.toList ≠ [] ∧ '/' ∉ name.toList

theorem IsName.isPart {name : String} (h : IsName name) : IsPart name :=
  ⟨h.nonempty, h.noSlash⟩

/-- The relative path through names. -/
def ofNames (names : List String) : String :=
  String.ofList (['/'].intercalate (names.map String.toList))

theorem normal_append_names {rooted : Bool} {cs : List (List Char)} (h : Normal rooted cs.reverse)
    {names : List String} (hnames : ∀ n ∈ names, IsName n) :
    Normal rooted (cs ++ names.map String.toList).reverse := by
  induction names generalizing cs with
  | nil => simpa using h
  | cons n rest ih =>
    have hn : IsName n := hnames n List.mem_cons_self
    have hstep : Normal rooted (cs ++ [n.toList]).reverse := by
      rw [List.reverse_append]
      exact .name hn.nonempty hn.notHere hn.notUp hn.noSlash h
    have hrest := ih hstep fun m hm => hnames m (List.mem_cons_of_mem _ hm)
    rwa [List.append_assoc, List.singleton_append, ← List.map_cons] at hrest

theorem assemble_of_pos {slashes : Nat} (hpos : 0 < slashes) (cs : List (List Char)) :
    assemble slashes cs = List.replicate slashes '/' ++ ['/'].intercalate cs := by
  obtain ⟨n, rfl⟩ := Nat.exists_eq_succ_of_ne_zero (Nat.ne_of_gt hpos)
  rfl

theorem components_assemble {slashes : Nat} (hpos : 0 < slashes) {rooted : Bool}
    {cs : List (List Char)} (h : Normal rooted cs.reverse) :
    (components (assemble slashes cs)).filter (· ≠ []) = cs := by
  have hmem : ∀ c ∈ cs, c ≠ [] ∧ '/' ∉ c := fun c hc => h.mem (List.mem_reverse.2 hc)
  have hdrop : (List.replicate slashes ([] : List Char)).filter (· ≠ []) = [] := by simp
  rw [assemble_of_pos hpos, components_replicate, List.filter_append, hdrop, List.nil_append]
  cases cs with
  | nil => rfl
  | cons c rest =>
    rw [components, List.splitOn_intercalate '/' (fun d hd => (hmem d hd).2) (List.cons_ne_nil _ _)]
    exact List.filter_eq_self.2 fun d hd => by simpa using (hmem d hd).1

/-- What a relative path is put behind when it is joined to a root. -/
def lead (root : List Char) : List Char :=
  if root = [] ∨ root.getLast? = some '/' then root else root ++ ['/']

theorem joinChars_eq_lead (root : List Char) {rest : List Char} (h : rest.head? ≠ some '/') :
    joinChars root rest = lead root ++ rest := by
  unfold joinChars lead
  split
  · next after => simp at h
  · split
    · rfl
    · rw [List.append_assoc, List.singleton_append]

theorem lead_cases (root : List Char) : lead root = [] ∨ (lead root).getLast? = some '/' := by
  unfold lead
  split
  · assumption
  · exact Or.inr (by simp)

/-- A path that ends in a component does not end in a slash. -/
theorem exists_concat_of_part (before : List Char) {last : List Char} (hne : last ≠ []) (hslash : '/' ∉ last) :
    ∃ init d, before ++ last = init ++ [d] ∧ d ≠ '/' := by
  obtain ⟨init, d, rfl⟩ : ∃ init d, last = init ++ [d] := ⟨_, _, (List.dropLast_concat_getLast hne).symm⟩
  refine ⟨before ++ init, d, by rw [List.append_assoc], ?_⟩
  rintro rfl
  exact hslash (by simp)

theorem lead_append_part (before : List Char) {last : List Char} (hne : last ≠ []) (hslash : '/' ∉ last) :
    lead (before ++ last) = before ++ last ++ ['/'] := by
  obtain ⟨init, d, hchars, hd⟩ := exists_concat_of_part before hne hslash
  rw [hchars, lead, if_neg (by simp [hd])]

theorem joinChars_assemble {slashes : Nat} (hpos : 0 < slashes) {cs : List (List Char)}
    (h : Normal true cs.reverse) {c : List Char} (hslash : '/' ∉ c) :
    joinChars (assemble slashes cs) c = assemble slashes (cs ++ [c]) := by
  have hhead : c.head? ≠ some '/' := fun heq => hslash (List.mem_of_mem_head? heq)
  rw [joinChars_eq_lead _ hhead, assemble_of_pos hpos, assemble_of_pos hpos]
  rcases List.eq_nil_or_concat' cs with rfl | ⟨above, last, rfl⟩
  · have hlast : (List.replicate slashes '/' ++ ['/'].intercalate []).getLast? = some '/' := by
      simp [List.intercalate, List.getLast?_replicate, Nat.ne_of_gt hpos]
    rw [lead, if_pos (Or.inr hlast)]
    simp [List.intercalate]
  · have hlast := h.mem (c := last) (by simp)
    obtain ⟨head, -, hjoin⟩ := Text.intercalate_concat_eq above
    rw [Text.intercalate_concat (by simp) c, hjoin, ← List.append_assoc, lead_append_part _ hlast.1 hlast.2]
    simp only [List.append_assoc]

/-- An absolute path in normal form: the slashes it starts with, and its components. -/
structure Rooted (path : String) (slashes : Nat) (cs : List (List Char)) : Prop where
  pos : 0 < slashes
  le : slashes ≤ 2
  normal : Normal true cs.reverse
  eq : path.toList = assemble slashes cs

theorem rooted_absolute {cwd : String} (hcwd : IsAbsolute cwd) (path : String) :
    ∃ slashes cs, Rooted (absolute cwd path) slashes cs := by
  have habs : IsAbsolute (join cwd path) := isAbsolute_join hcwd path
  have hpos := leadingSlashes_pos habs
  refine ⟨_, normalComponents (join cwd path).toList, hpos, leadingSlashes_le _, ?_, ?_⟩
  · have h := normal_normalComponents (join cwd path).toList
    rwa [show (leadingSlashes (join cwd path).toList != 0) = true by simpa using (Nat.ne_of_gt hpos)] at h
  · rw [absolute, normalize, String.toList_ofList, normalizeChars]

namespace Rooted

variable {path : String} {slashes : Nat} {cs : List (List Char)}

theorem isAbsolute (h : Rooted path slashes cs) : IsAbsolute path := by
  obtain ⟨n, hn⟩ := Nat.exists_eq_succ_of_ne_zero (Nat.ne_of_gt h.pos)
  rw [IsAbsolute, h.eq, assemble_of_pos h.pos, hn]
  rfl

/-- An absolute path in normal form stays as it is, wherever it is seen from. -/
theorem absolute_eq (h : Rooted path slashes cs) (cwd : String) : absolute cwd path = path := by
  have hnormal : Normal (slashes != 0) cs.reverse := by
    rw [show (slashes != 0) = true by simpa using (Nat.ne_of_gt h.pos)]
    exact h.normal
  rw [absolute, join_of_isAbsolute h.isAbsolute, normalize, h.eq, normalizeChars_assemble h.le hnormal,
    ← h.eq, String.ofList_toList]

theorem joinAll (h : Rooted path slashes cs) {names : List String} (hnames : ∀ n ∈ names, IsName n) :
    Rooted (Path.joinAll path names) slashes (cs ++ names.map String.toList) := by
  induction names generalizing path cs with
  | nil => simpa [Path.joinAll] using h
  | cons n rest ih =>
    have hn : IsName n := hnames n List.mem_cons_self
    have hstep : Rooted (join path n) slashes (cs ++ [n.toList]) := by
      refine ⟨h.pos, h.le, ?_, ?_⟩
      · have hone : ∀ m ∈ [n], IsName m := by simpa using hn
        exact normal_append_names h.normal hone
      · rw [join, String.toList_ofList, h.eq, joinChars_assemble h.pos h.normal hn.noSlash]
    have hrest := ih hstep fun m hm => hnames m (List.mem_cons_of_mem _ hm)
    rwa [List.append_assoc, List.singleton_append, ← List.map_cons] at hrest

theorem joinAll_inj (h : Rooted path slashes cs) {names others : List String}
    (hnames : ∀ n ∈ names, IsName n) (hothers : ∀ n ∈ others, IsName n)
    (heq : Path.joinAll path names = Path.joinAll path others) : names = others := by
  have h₁ := h.joinAll hnames
  have h₂ := h.joinAll hothers
  have hparts : cs ++ names.map String.toList = cs ++ others.map String.toList := by
    rw [← components_assemble h.pos h₁.normal, ← h₁.eq, heq, h₂.eq, components_assemble h.pos h₂.normal]
  exact (List.map_injective_iff.2 fun _ _ => String.toList_inj.1) (List.append_cancel_left hparts)

end Rooted

theorem commonLength_append (cs ds : List (List Char)) : commonLength cs (cs ++ ds) = cs.length := by
  induction cs with
  | nil => cases ds <;> rfl
  | cons c rest ih => simp [commonLength, ih]

theorem assemble_zero_parts {cs : List (List Char)} (h : ∀ c ∈ cs, c ≠ [] ∧ '/' ∉ c) (hne : cs ≠ []) :
    assemble 0 cs = ['/'].intercalate cs := by
  obtain ⟨c, rest, rfl⟩ := List.exists_cons_of_ne_nil hne
  obtain ⟨d, after, rfl⟩ := List.exists_cons_of_ne_nil (h c List.mem_cons_self).1
  cases rest <;> rfl

theorem assemble_zero {cs : List (List Char)} {rooted : Bool} (h : Normal rooted cs.reverse)
    (hne : cs ≠ []) : assemble 0 cs = ['/'].intercalate cs :=
  assemble_zero_parts (fun _ hc => h.mem (List.mem_reverse.2 hc)) hne

theorem normal_names (rooted : Bool) {names : List String} (hnames : ∀ n ∈ names, IsName n) :
    Normal rooted (names.map String.toList).reverse := by
  have hnil : Normal rooted ([] : List (List Char)).reverse := .nil
  exact normal_append_names hnil hnames

/-- A file below a folder is reported by the names that lead to it from there. -/
theorem reported_joinAll {cwd folder : String} {slashes : Nat} {cs : List (List Char)}
    (h : Rooted folder slashes cs) {names : List String} (hnames : ∀ n ∈ names, IsName n)
    (hne : names ≠ []) : reported cwd (joinAll folder names) (some folder) = ofNames names := by
  have hpath := h.joinAll hnames
  have hfull : joinAll folder names ≠ "" := by
    intro heq
    have habs := hpath.isAbsolute
    rw [heq] at habs
    exact absurd habs (by decide)
  have hway : wayTo folder.toList (joinAll folder names).toList =
      ['/'].intercalate (names.map String.toList) := by
    rw [wayTo, h.eq, hpath.eq, components_assemble h.pos h.normal, components_assemble h.pos hpath.normal,
      commonLength_append]
    simpa using assemble_zero (normal_names false hnames) (by simpa using hne)
  simp only [reported, relativeTo?, h.absolute_eq, hpath.absolute_eq, if_neg hfull, Option.getD_some,
    hway, ofNames]

theorem normalize_ofNames {names : List String} (hnames : ∀ n ∈ names, IsName n) (hne : names ≠ []) :
    normalize (ofNames names) = ofNames names := by
  have h : Normal false (names.map String.toList).reverse := normal_names false hnames
  rw [normalize, ofNames, String.toList_ofList, ← assemble_zero h (by simpa using hne),
    normalizeChars_assemble (Nat.zero_le 2) h]

theorem splitLast_append {head name : List Char} (hhead : head = [] ∨ head.getLast? = some '/')
    (hname : '/' ∉ name) : splitLast (head ++ name) = (head, name) := by
  have hpos : ∀ c ∈ name.reverse, (c != '/') = true := by
    intro c hc
    have hne : c ≠ '/' := fun heq => hname (heq ▸ List.mem_reverse.1 hc)
    simpa using hne
  have htail : (head ++ name).reverse.takeWhile (· != '/') = name.reverse := by
    rw [List.reverse_append, List.takeWhile_append_of_pos hpos]
    rcases hhead with rfl | hlast
    · simp
    · obtain ⟨init, rfl⟩ := List.getLast?_eq_some_iff.1 hlast
      simp
  rw [splitLast, htail]
  simp

theorem splitLast_name {name : List Char} (hname : '/' ∉ name) : splitLast name = ([], name) := by
  have hnil : ([] : List Char) = [] ∨ ([] : List Char).getLast? = some '/' := Or.inl rfl
  exact splitLast_append hnil hname

/-- A path is cut at its last slash. -/
theorem splitLast_eq (path : List Char) :
    ∃ head tail, splitLast path = (head, tail) ∧ path = head ++ tail ∧ '/' ∉ tail ∧
      (head = [] ∨ head.getLast? = some '/') := by
  have hpath : path = (path.reverse.dropWhile (· != '/')).reverse ++
      (path.reverse.takeWhile (· != '/')).reverse := by
    rw [← List.reverse_append, List.takeWhile_append_dropWhile, List.reverse_reverse]
  have htail : '/' ∉ (path.reverse.takeWhile (· != '/')).reverse := by
    intro hmem
    simpa using List.mem_takeWhile_imp (List.mem_reverse.1 hmem)
  have hhead : (path.reverse.dropWhile (· != '/')).reverse = [] ∨
      (path.reverse.dropWhile (· != '/')).reverse.getLast? = some '/' := by
    cases hdrop : path.reverse.dropWhile (· != '/') with
    | nil => exact Or.inl rfl
    | cons c rest =>
      have hc := List.head?_dropWhile_not (· != '/') path.reverse
      rw [hdrop] at hc
      exact Or.inr (by simpa using hc)
  have hsplit := splitLast_append hhead htail
  rw [← hpath] at hsplit
  exact ⟨_, _, hsplit, hpath, htail, hhead⟩

theorem dropSlashes_eq (head : List Char) :
    ∃ slashes, head = dropSlashes head ++ slashes ∧ (∀ c ∈ slashes, c = '/') ∧
      (head.getLast? = some '/' → slashes ≠ [] ∨ (dropSlashes head).getLast? = some '/') := by
  unfold dropSlashes
  split
  · exact ⟨[], by simp, by simp, Or.inr⟩
  · refine ⟨(head.reverse.takeWhile (· == '/')).reverse, ?_, fun c hc => ?_, fun hlast => Or.inl ?_⟩
    · rw [Text.dropEndWhile, ← List.reverse_append, List.takeWhile_append_dropWhile, List.reverse_reverse]
    · simpa using List.mem_takeWhile_imp (List.mem_reverse.1 hc)
    · obtain ⟨init, rfl⟩ := List.getLast?_eq_some_iff.1 hlast
      simp

theorem splitExtension_append {head name : List Char} (hhead : head = [] ∨ head.getLast? = some '/')
    (hname : '/' ∉ name) :
    splitExtension (head ++ name) = (head ++ (splitExtension name).1, (splitExtension name).2) := by
  unfold splitExtension
  rw [splitLast_append hhead hname, splitLast_name hname]
  cases h : dotPlace? name with
  | none => simp [h]
  | some place => simp [h]

/-- A path is its stem and its extension. -/
theorem stem_append_extension {name : String} (hname : '/' ∉ name.toList) :
    stem name ++ extension name = name := by
  apply String.toList_inj.1
  rw [stem, extension, String.toList_append, String.toList_ofList, String.toList_ofList, splitExtension,
    splitLast_name hname]
  cases h : dotPlace? name.toList with
  | none => simp [h]
  | some place => simp [h]

theorem stem_ofNames (above : List String) {name : String} (hname : '/' ∉ name.toList)
    (suffix : String) :
    stem (ofNames (above ++ [name])) ++ suffix = ofNames (above ++ [stem name ++ suffix]) := by
  obtain ⟨head, hhead, hjoin⟩ := Text.intercalate_concat_eq (above.map String.toList)
  apply String.toList_inj.1
  simp only [stem, ofNames, List.map_append, List.map_cons, List.map_nil, hjoin, String.toList_append,
    String.toList_ofList, splitExtension_append hhead hname, List.append_assoc]

/-- What an extension is cut off has a character that is no dot. -/
theorem splitExtension_fst {name : List Char} (hslash : '/' ∉ name) :
    (splitExtension name).1 = name ∨ ∃ c ∈ (splitExtension name).1, c ≠ '.' := by
  rw [splitExtension, splitLast_name hslash]
  dsimp only
  cases hdot : dotPlace? name with
  | none => exact Or.inl rfl
  | some place =>
    unfold dotPlace? at hdot
    cases hafter : name.reverse.findIdx? (· == '.') with
    | none => simp [hafter] at hdot
    | some after =>
      simp only [hafter] at hdot
      split at hdot
      · cases hdot
      · next hall =>
        obtain rfl := Option.some.inj hdot
        exact Or.inr (by simpa using hall)

section Stem

variable {name suffix : String}

theorem IsPart.append (h : IsPart name) (hslash : '/' ∉ suffix.toList) : IsPart (name ++ suffix) := by
  constructor
  · simp [h.1]
  · rw [String.toList_append, List.mem_append, not_or]
    exact ⟨h.2, hslash⟩

theorem IsName.append (h : IsName name) (hslash : '/' ∉ suffix.toList) : IsName (name ++ suffix) := by
  obtain ⟨hempty, hno⟩ := h.isPart.append hslash
  obtain ⟨c, rest, hchars⟩ := List.exists_cons_of_ne_nil h.nonempty
  have hhere := h.notHere
  have hup := h.notUp
  rw [hchars] at hhere hup
  refine ⟨hempty, ?_, ?_, hno⟩
  · rw [String.toList_append, hchars, List.cons_append]
    intro heq
    obtain ⟨rfl, hrest⟩ := List.cons.inj heq
    exact hhere (by rw [(List.append_eq_nil_iff.1 hrest).1])
  · rw [String.toList_append, hchars, List.cons_append]
    intro heq
    obtain ⟨rfl, hrest⟩ := List.cons.inj heq
    rcases List.append_eq_singleton_iff.1 hrest with ⟨hnil, -⟩ | ⟨hdot, -⟩
    · exact hhere (by rw [hnil])
    · exact hup (by rw [hdot])

theorem stem_cases (hslash : '/' ∉ name.toList) : stem name = name ∨ ∃ c ∈ (stem name).toList, c ≠ '.' := by
  have hstem : (stem name).toList = (splitExtension name.toList).1 := by rw [stem, String.toList_ofList]
  rw [hstem]
  exact (splitExtension_fst hslash).imp_left fun hself => String.toList_inj.1 (hstem.trans hself)

theorem isPart_stem (h : IsPart name) : IsPart (stem name) := by
  rcases stem_cases h.2 with hself | ⟨c, hc, -⟩
  · rwa [hself]
  · refine ⟨List.ne_nil_of_mem hc, fun hslash => h.2 ?_⟩
    rw [← stem_append_extension h.2, String.toList_append]
    exact List.mem_append_left _ hslash

theorem isName_stem (h : IsName name) : IsName (stem name) := by
  obtain ⟨hempty, hno⟩ := isPart_stem h.isPart
  rcases stem_cases h.noSlash with hself | ⟨c, hc, hdot⟩
  · rwa [hself]
  · refine ⟨hempty, ?_, ?_, hno⟩
    · intro heq
      rw [heq] at hc
      exact hdot (List.mem_singleton.1 hc)
    · intro heq
      rw [heq] at hc
      simp [hdot] at hc

end Stem

theorem head?_ofNames {names : List String} (hnames : ∀ n ∈ names, IsName n) :
    (ofNames names).toList.head? ≠ some '/' := by
  rw [ofNames, String.toList_ofList]
  exact head?_intercalate (normal_names false hnames)

theorem isName_result {above : List String} {name suffix : String} (habove : ∀ n ∈ above, IsName n)
    (hname : IsName name) (hslash : '/' ∉ suffix.toList) : ∀ n ∈ above ++ [stem name ++ suffix], IsName n := by
  have hresult : IsName (stem name ++ suffix) := (isName_stem hname).append hslash
  exact List.forall_mem_append.2 ⟨habove, List.forall_mem_singleton.2 hresult⟩

theorem stem_normalize_ofNames {above : List String} {name : String} (habove : ∀ n ∈ above, IsName n)
    (hname : IsName name) :
    stem (normalize (ofNames (above ++ [name]))) ++ ".json" = ofNames (above ++ [stem name ++ ".json"]) := by
  have hall : ∀ n ∈ above ++ [name], IsName n :=
    List.forall_mem_append.2 ⟨habove, List.forall_mem_singleton.2 hname⟩
  rw [normalize_ofNames hall (by simp), stem_ofNames above hname.noSlash]

end Path

namespace Files

theorem names_eq (path : String) :
    names path = ((Path.components path.toList).filter (· ≠ [])).map String.ofList := by
  have hempty : ((fun n : String => decide (n ≠ "")) ∘ String.ofList) = fun c => decide (c ≠ []) := by
    funext c
    have hiff : String.ofList c ≠ "" ↔ c ≠ [] := by
      rw [Ne, String.ext_iff, String.toList_ofList]
      rfl
    exact decide_eq_decide.2 hiff
  rw [names, Text.splitAt, List.filter_map, hempty]
  rfl

theorem names_slash (a b : List Char) :
    names (String.ofList (a ++ '/' :: b)) = names (String.ofList a) ++ names (String.ofList b) := by
  simp only [names_eq, String.toList_ofList, Path.components, List.splitOn_append_cons_self, List.filter_append,
    List.map_append]

theorem names_slashes_append {slashes : List Char} (h : ∀ c ∈ slashes, c = '/') (cs : List Char) :
    names (String.ofList (slashes ++ cs)) = names (String.ofList cs) := by
  induction slashes with
  | nil => rfl
  | cons c rest ih =>
    obtain rfl := h c List.mem_cons_self
    have hslash := names_slash [] (rest ++ cs)
    rw [List.nil_append] at hslash
    rw [List.cons_append, hslash, ih fun c hc => h c (List.mem_cons_of_mem _ hc)]
    rfl

theorem names_append_slashes (cs : List Char) {slashes : List Char} (h : ∀ c ∈ slashes, c = '/') :
    names (String.ofList (cs ++ slashes)) = names (String.ofList cs) := by
  cases slashes with
  | nil => rw [List.append_nil]
  | cons c rest =>
    have hrest : names (String.ofList (rest ++ [])) = names (String.ofList []) :=
      names_slashes_append (fun c hc => h c (List.mem_cons_of_mem _ hc)) []
    rw [List.append_nil] at hrest
    obtain rfl := h c List.mem_cons_self
    rw [names_slash, hrest]
    exact List.append_nil _

theorem names_name {name : List Char} (hslash : '/' ∉ name) (hname : name ≠ []) :
    names (String.ofList name) = [String.ofList name] := by
  rw [names_eq, String.toList_ofList, Path.components, List.splitOn_eq_singleton hslash]
  simp [hname]

/-- A path that does not end in a slash has a name. -/
theorem names_ne_nil {path : String} (hempty : path ≠ "") (hslash : path.endsWith "/" = false) :
    names path ≠ [] := by
  obtain ⟨head, tail, -, hpath, hname, hhead⟩ := Path.splitLast_eq path.toList
  have hofList : path = String.ofList (head ++ tail) := by rw [← hpath, String.ofList_toList]
  have htail : tail ≠ [] := by
    rintro rfl
    rcases hhead with rfl | hlast
    · exact hempty hofList
    · obtain ⟨init, rfl⟩ := List.getLast?_eq_some_iff.1 hlast
      rw [String.endsWith_eq_endsWith_toSlice, String.Slice.endsWith_string_eq_false_iff] at hslash
      refine hslash ⟨init, ?_⟩
      rw [String.copy_toSlice, hpath, List.append_nil]
      rfl
  rcases hhead with rfl | hlast
  · rw [hofList, List.nil_append, names_name hname htail]
    simp
  · obtain ⟨init, rfl⟩ := List.getLast?_eq_some_iff.1 hlast
    rw [hofList, List.append_assoc, List.singleton_append, names_slash, names_name hname htail]
    simp

theorem names_join (root path : String) (h : path.toList.head? ≠ some '/') :
    names (Path.join root path) = names root ++ names path := by
  suffices hjoin : names (String.ofList (Path.joinChars root.toList path.toList)) =
      names (String.ofList root.toList) ++ names (String.ofList path.toList) by
    rwa [String.ofList_toList, String.ofList_toList] at hjoin
  rw [Path.joinChars_eq_lead _ h, Path.lead]
  split
  · next hroot =>
    rcases hroot with hroot | hlast
    · rw [hroot]
      rfl
    · obtain ⟨init, hinit⟩ := List.getLast?_eq_some_iff.1 hlast
      rw [hinit, names_append_slashes init (by simp), List.append_assoc, List.singleton_append, names_slash]
  · rw [List.append_assoc, List.singleton_append, names_slash]

theorem names_ofNames {ns : List String} (hns : ∀ n ∈ ns, Path.IsName n) :
    names (Path.ofNames ns) = ns := by
  rw [names_eq, Path.ofNames, String.toList_ofList]
  cases ns with
  | nil => decide
  | cons n rest =>
    have hslash : ∀ c ∈ (n :: rest).map String.toList, '/' ∉ c := by
      intro c hc
      obtain ⟨m, hm, rfl⟩ := List.mem_map.1 hc
      exact (hns m hm).noSlash
    have hfull : ((n :: rest).map String.toList).filter (· ≠ []) = (n :: rest).map String.toList := by
      refine List.filter_eq_self.2 fun c hc => ?_
      obtain ⟨m, hm, rfl⟩ := List.mem_map.1 hc
      simpa using (hns m hm).nonempty
    rw [Path.components, List.splitOn_intercalate '/' hslash (by simp), hfull, Text.map_ofList_toList]

/-- The result of a file below the source folder goes to the same folder below the root of results. -/
theorem names_resultPath {above : List String} {name : String} (root : String)
    (habove : ∀ n ∈ above, Path.IsName n) (hname : Path.IsName name) :
    names (Path.resultPath (Path.ofNames (above ++ [name])) root ".json") =
      names root ++ (above ++ [Path.stem name ++ ".json"]) := by
  have hslash : '/' ∉ ".json".toList := by decide
  have hresult := Path.isName_result habove hname hslash
  rw [Path.resultPath, Path.stem_normalize_ofNames habove hname,
    names_join root _ (Path.head?_ofNames hresult), names_ofNames hresult]

theorem names_joinAll {folder : String} {slashes : Nat} {cs : List (List Char)}
    (h : Path.Rooted folder slashes cs) {ns : List String} (hns : ∀ n ∈ ns, Path.IsName n) :
    names (Path.joinAll folder ns) = names folder ++ ns := by
  have hrooted : ∀ {path : String} {ds : List (List Char)}, Path.Rooted path slashes ds →
      names path = ds.map String.ofList := by
    intro path ds hpath
    rw [names_eq, hpath.eq, Path.components_assemble hpath.pos hpath.normal]
  rw [hrooted (h.joinAll hns), hrooted h, List.map_append, Text.map_ofList_toList]

end Files

end SourceOutline
