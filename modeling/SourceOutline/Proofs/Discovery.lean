import Mathlib.Data.List.Basic
import Mathlib.Data.List.Nodup
import SourceOutline.Files.Discover
import SourceOutline.Proofs.PathNames

/-!
The files found below a folder: each is found once, at the place where the names of its path lead from the
folder, and their paths increase.
-/
namespace SourceOutline

namespace Text

theorem code_injective {a b : Char} (h : code a = code b) : a = b := by
  have hvalid : ∀ c : Char, ¬(0xD800 ≤ c.toNat ∧ c.toNat < 0xE000) := by
    intro c hc
    rcases c.valid with hlow | ⟨hhigh, -⟩
    · exact absurd hlow (by have := hc.1; simp only [Char.toNat, UInt32.toNat] at this ⊢; omega)
    · exact absurd hhigh (by have := hc.2; simp only [Char.toNat, UInt32.toNat] at this ⊢; omega)
  have ha := hvalid a
  have hb := hvalid b
  apply Char.toNat_inj.1
  unfold code isSurrogate isSurrogateCode surrogateShift at h
  simp only [Bool.and_eq_true, decide_eq_true_eq] at h
  split at h <;> split at h <;> omega

theorem charsPrecede_total (as bs : List Char) : (charsPrecede as bs || charsPrecede bs as) = true := by
  induction as generalizing bs with
  | nil => simp [charsPrecede]
  | cons a as ih =>
    cases bs with
    | nil => simp [charsPrecede]
    | cons b bs =>
      have hrest := ih bs
      rcases Nat.lt_trichotomy (code a) (code b) with hlt | heq | hgt
      · simp [charsPrecede, hlt]
      · simpa [charsPrecede, heq] using hrest
      · simp [charsPrecede, hgt]

theorem charsPrecede_trans {as bs cs : List Char} (hab : charsPrecede as bs = true)
    (hbc : charsPrecede bs cs = true) : charsPrecede as cs = true := by
  induction as generalizing bs cs with
  | nil => rfl
  | cons a as ih =>
    cases bs with
    | nil => simp [charsPrecede] at hab
    | cons b bs =>
      cases cs with
      | nil => simp [charsPrecede] at hbc
      | cons c cs =>
        simp only [charsPrecede, Bool.or_eq_true, decide_eq_true_eq, Bool.and_eq_true, beq_iff_eq]
          at hab hbc ⊢
        rcases hab with hab | ⟨hab, hrest⟩
        · left
          rcases hbc with hbc | ⟨hbc, -⟩ <;> omega
        · rcases hbc with hbc | ⟨hbc, hrest'⟩
          · left
            omega
          · exact Or.inr ⟨hab.trans hbc, ih hrest hrest'⟩

/-- Whether a text comes before another by the numbers of its characters. -/
def Before (a b : String) : Prop :=
  List.Lex (· < ·) (a.toList.map code) (b.toList.map code)

theorem lex_of_charsPrecede {as bs : List Char} (h : charsPrecede as bs = true) (hne : as ≠ bs) :
    List.Lex (· < ·) (as.map code) (bs.map code) := by
  induction as generalizing bs with
  | nil =>
    obtain ⟨b, bs, rfl⟩ := List.exists_cons_of_ne_nil (Ne.symm hne)
    exact .nil
  | cons a as ih =>
    cases bs with
    | nil => simp [charsPrecede] at h
    | cons b bs =>
      simp only [charsPrecede, Bool.or_eq_true, decide_eq_true_eq, Bool.and_eq_true, beq_iff_eq] at h
      rcases h with hlt | ⟨heq, hrest⟩
      · exact .rel hlt
      · obtain rfl := code_injective heq
        exact .cons (ih hrest fun h => hne (by rw [h]))

theorem before_of_precedes {a b : String} (h : precedes a b = true) (hne : a ≠ b) : Before a b :=
  lex_of_charsPrecede h fun heq => hne (String.toList_inj.1 heq)

end Text

namespace Files

open SourceOutline.Path (IsName)

mutual

/-- Whether all entries at or below an entry are as asked. -/
def Entry.all (ok : Entry → Bool) : Entry → Bool
  | .folder items => ok (.folder items) && allAmong ok items
  | e => ok e

/-- Whether the items of a folder, and all below them, are as asked. -/
def allAmong (ok : Entry → Bool) : List (String × Entry) → Bool
  | [] => true
  | item :: rest => allOf ok item && allAmong ok rest

/-- Whether one item of a folder, and all below it, are as asked. -/
def allOf (ok : Entry → Bool) : String × Entry → Bool
  | (_, e) => e.all ok

end

theorem allAmong_iff {ok : Entry → Bool} {items : List (String × Entry)} :
    allAmong ok items = true ↔ ∀ item ∈ items, item.2.all ok = true := by
  induction items with
  | nil => simp [allAmong]
  | cons item rest ih =>
    obtain ⟨name, e⟩ := item
    simp [allAmong, allOf, ih]

theorem Entry.ok_of_all {ok : Entry → Bool} {e : Entry} (h : e.all ok = true) : ok e = true := by
  cases e with
  | file content => simpa [Entry.all] using h
  | link target => simpa [Entry.all] using h
  | folder items =>
    rw [Entry.all, Bool.and_eq_true] at h
    exact h.1

theorem mem_of_lookup {items : List (String × Entry)} {name : String} {e : Entry}
    (h : items.lookup name = some e) : (name, e) ∈ items := by
  obtain ⟨before, after, rfl, -⟩ := List.lookup_eq_some_iff.1 h
  simp

/-- What is asked of all entries holds of those at a location, too. -/
theorem Entry.all_get? {ok : Entry → Bool} {e e' : Entry} {here : Location} (h : e.all ok = true)
    (hget : e.get? here = some e') : e'.all ok = true := by
  induction here generalizing e with
  | nil =>
    rw [Entry.get?_nil] at hget
    exact Option.some.inj hget ▸ h
  | cons name rest ih =>
    cases e with
    | file content => simp [Entry.get?] at hget
    | link target => simp [Entry.get?] at hget
    | folder items =>
      rw [Entry.all, Bool.and_eq_true, allAmong_iff] at h
      cases hlookup : items.lookup name with
      | none => simp [Entry.get?, hlookup] at hget
      | some child =>
        have hchild : child.get? rest = some e' := by simpa [Entry.get?, hlookup] using hget
        exact ih (h.2 _ (mem_of_lookup hlookup)) hchild

/-- Whether the names in a folder are different ones, each of which can be the name of an entry. -/
def hasNames : Entry → Bool
  | .folder items => decide ((items.map (·.1)).Nodup ∧ ∀ item ∈ items, IsName item.1)
  | _ => true

/-- A tree as files are kept in: its root is a folder, names in a folder are different, and relative paths
are seen from an absolute one. -/
structure FileTree.Proper (t : FileTree) : Prop where
  rooted : t.root.isFolder = true
  named : t.root.all hasNames = true
  cwd : Path.IsAbsolute t.cwd

theorem extension_of_isWanted {includeTests : Bool} {name : String}
    (h : isWanted includeTests name = true) : Path.extension name = goExtension := by
  unfold isWanted at h
  simp at h
  exact h.1

/-- A wanted file, or a link of such a name, at a location seen from an entry. -/
structure FoundAt (includeTests : Bool) (e : Entry) (here : Location) : Prop where
  names : ∀ n ∈ here, IsName n
  wanted : ∃ above name, here = above ++ [name] ∧ isWanted includeTests name = true
  leaf : ∃ leaf, e.get? here = some leaf ∧ leaf.isFolder = false

namespace FoundAt

variable {includeTests : Bool} {items others : List (String × Entry)} {here : Location}

theorem mono (h : FoundAt includeTests (.folder items) here)
    (hsub : ∀ name e, items.lookup name = some e → others.lookup name = some e) :
    FoundAt includeTests (.folder others) here := by
  obtain ⟨leaf, hleaf, hkind⟩ := h.leaf
  refine ⟨h.names, h.wanted, leaf, ?_, hkind⟩
  cases here with
  | nil => obtain ⟨above, name, habsurd, -⟩ := h.wanted; simp at habsurd
  | cons name rest =>
    cases hlookup : items.lookup name with
    | none => simp [Entry.get?, hlookup] at hleaf
    | some child =>
      have hchild : child.get? rest = some leaf := by simpa [Entry.get?, hlookup] using hleaf
      simp [Entry.get?, hsub name child hlookup, hchild]

/-- What is found among the items of a folder starts with the name of one of them. -/
theorem exists_cons (h : FoundAt includeTests (.folder items) here) :
    ∃ name rest, here = name :: rest ∧ name ∈ items.map (·.1) := by
  obtain ⟨leaf, hleaf, -⟩ := h.leaf
  cases here with
  | nil => obtain ⟨above, name, habsurd, -⟩ := h.wanted; simp at habsurd
  | cons name rest =>
    cases hlookup : items.lookup name with
    | none => simp [Entry.get?, hlookup] at hleaf
    | some child => exact ⟨name, rest, rfl, List.mem_map.2 ⟨_, mem_of_lookup hlookup, rfl⟩⟩

theorem inFolder {name : String} (hname : IsName name)
    (h : FoundAt includeTests (.folder items) here) :
    FoundAt includeTests (.folder [(name, .folder items)]) (name :: here) := by
  obtain ⟨above, last, habove, hlast⟩ := h.wanted
  obtain ⟨leaf, hleaf, hkind⟩ := h.leaf
  refine ⟨?_, ⟨name :: above, last, by rw [habove]; rfl, hlast⟩, leaf, ?_, hkind⟩
  · intro n hn
    rcases List.mem_cons.1 hn with rfl | hn
    · exact hname
    · exact h.names n hn
  · simpa [Entry.get?] using hleaf

theorem single {name : String} {leaf : Entry} (hname : IsName name) (hkind : leaf.isFolder = false)
    (hwanted : isWanted includeTests name = true) :
    FoundAt includeTests (.folder [(name, leaf)]) [name] :=
  ⟨by simpa using hname, ⟨[], name, rfl, hwanted⟩, leaf, by simp [Entry.get?], hkind⟩

end FoundAt

/-- Paths that are found below a folder, as those of different locations. -/
def FoundBelow (includeTests : Bool) (path : String) (e : Entry) (found : List String) : Prop :=
  ∃ places : List Location, found = places.map (Path.joinAll path) ∧ places.Nodup ∧
    ∀ here ∈ places, FoundAt includeTests e here

theorem foundBelow_nil (includeTests : Bool) (path : String) (e : Entry) :
    FoundBelow includeTests path e [] :=
  ⟨[], rfl, List.nodup_nil, by simp⟩

theorem foundBelow_single {includeTests : Bool} (path : String) {name : String} {leaf : Entry}
    (hname : IsName name) (hkind : leaf.isFolder = false) (hwanted : isWanted includeTests name = true) :
    FoundBelow includeTests path (.folder [(name, leaf)]) [Path.join path name] :=
  ⟨[[name]], rfl, List.nodup_singleton _, by simpa using FoundAt.single hname hkind hwanted⟩

theorem FoundBelow.inFolder {includeTests : Bool} {path name : String} {items : List (String × Entry)}
    {found : List String} (hname : IsName name)
    (h : FoundBelow includeTests (Path.join path name) (.folder items) found) :
    FoundBelow includeTests path (.folder [(name, .folder items)]) found := by
  obtain ⟨places, rfl, hnodup, hfound⟩ := h
  refine ⟨places.map (name :: ·), ?_, hnodup.map fun _ _ h => (List.cons.inj h).2, ?_⟩
  · rw [List.map_map]
    rfl
  · intro here hhere
    obtain ⟨rest, hrest, rfl⟩ := List.mem_map.1 hhere
    exact (hfound rest hrest).inFolder hname

theorem FoundBelow.append {includeTests : Bool} {path : String} {item : String × Entry}
    {rest : List (String × Entry)} {first others : List String} (hnew : item.1 ∉ rest.map (·.1))
    (h : FoundBelow includeTests path (.folder [item]) first)
    (h' : FoundBelow includeTests path (.folder rest) others) :
    FoundBelow includeTests path (.folder (item :: rest)) (first ++ others) := by
  obtain ⟨places, rfl, hnodup, hfound⟩ := h
  obtain ⟨places', rfl, hnodup', hfound'⟩ := h'
  refine ⟨places ++ places', (List.map_append).symm, ?_, ?_⟩
  · refine List.nodup_append.2 ⟨hnodup, hnodup', ?_⟩
    intro here hhere there hthere heq
    obtain ⟨name, below, rfl, hname⟩ := (hfound here hhere).exists_cons
    obtain ⟨name', below', rfl, hname'⟩ := (hfound' there hthere).exists_cons
    obtain rfl : name = item.1 := by simpa using hname
    exact hnew ((List.cons.inj heq).1 ▸ hname')
  · intro here hhere
    rcases List.mem_append.1 hhere with hhere | hhere
    · refine (hfound here hhere).mono fun name e hlookup => ?_
      obtain rfl : (name, e) = item := by simpa using mem_of_lookup hlookup
      simp
    · refine (hfound' here hhere).mono fun name e hlookup => ?_
      have hne : name ≠ item.1 := fun heq =>
        hnew (heq ▸ List.mem_map.2 ⟨_, mem_of_lookup hlookup, rfl⟩)
      rw [List.lookup_cons, show (name == item.1) = false by simpa using hne]
      exact hlookup

theorem folder_hasNames {items : List (String × Entry)} (h : (Entry.folder items).all hasNames = true) :
    (items.map (·.1)).Nodup ∧ (∀ item ∈ items, IsName item.1) ∧
      ∀ item ∈ items, item.2.all hasNames = true := by
  have hself := Entry.ok_of_all h
  rw [Entry.all, Bool.and_eq_true, allAmong_iff] at h
  rw [hasNames, decide_eq_true_eq] at hself
  exact ⟨hself.1, hself.2, h.2⟩

mutual

theorem goFilesIn_found (isFolderLink : String → Bool) (includeTests : Bool) (path : String) :
    ∀ e : Entry, e.all hasNames = true →
      FoundBelow includeTests path e (goFilesIn isFolderLink includeTests path e)
  | .file content, _ => foundBelow_nil includeTests path (.file content)
  | .link target, _ => foundBelow_nil includeTests path (.link target)
  | .folder items, h => by
    obtain ⟨hnodup, hnames, hbelow⟩ := folder_hasNames h
    exact goFilesAmong_found isFolderLink includeTests path items hnodup hnames hbelow

theorem goFilesAmong_found (isFolderLink : String → Bool) (includeTests : Bool) (path : String) :
    ∀ items : List (String × Entry), (items.map (·.1)).Nodup → (∀ item ∈ items, IsName item.1) →
      (∀ item ∈ items, item.2.all hasNames = true) →
      FoundBelow includeTests path (.folder items) (goFilesAmong isFolderLink includeTests path items)
  | [], _, _, _ => by
    rw [goFilesAmong]
    exact foundBelow_nil includeTests path (.folder [])
  | item :: rest, hnodup, hnames, hbelow => by
    rw [List.map_cons, List.nodup_cons] at hnodup
    have hitem := goFilesOf_found isFolderLink includeTests path item (hnames item List.mem_cons_self)
      (hbelow item List.mem_cons_self)
    have hrest := goFilesAmong_found isFolderLink includeTests path rest hnodup.2
      (fun i hi => hnames i (List.mem_cons_of_mem _ hi)) (fun i hi => hbelow i (List.mem_cons_of_mem _ hi))
    rw [goFilesAmong]
    exact hitem.append hnodup.1 hrest

theorem goFilesOf_found (isFolderLink : String → Bool) (includeTests : Bool) (path : String) :
    ∀ item : String × Entry, IsName item.1 → item.2.all hasNames = true →
      FoundBelow includeTests path (.folder [item]) (goFilesOf isFolderLink includeTests path item)
  | (name, .file content), hname, _ => by
    rw [goFilesOf]
    split
    · next hwanted => exact foundBelow_single path hname rfl hwanted
    · exact foundBelow_nil includeTests path _
  | (name, .link target), hname, _ => by
    rw [goFilesOf]
    split
    · next hwanted =>
      exact foundBelow_single path hname rfl (Bool.and_eq_true _ _ ▸ hwanted).1
    · exact foundBelow_nil includeTests path _
  | (name, .folder items), hname, h => by
    obtain ⟨hnodup, hnames, hbelow⟩ := folder_hasNames h
    rw [goFilesOf]
    split
    · exact (goFilesAmong_found isFolderLink includeTests (Path.join path name) items hnodup hnames
        hbelow).inFolder hname
    · exact foundBelow_nil includeTests path _

end

namespace FileTree

variable {t : FileTree} {folder : String} {slashes : Nat} {cs : List (List Char)}

/-- Where an entry is that a path leads to. -/
theorem entry_ok {path : String} {e : Entry} (h : t.entry path = .ok e) :
    ∃ here, t.place true path = .ok (.found here) ∧ t.root.get? here = some e := by
  unfold entry at h
  cases hplace : t.place true path with
  | error cause => simp [hplace, bind, Except.bind] at h
  | ok place =>
    cases place with
    | vacant folder name => simp [hplace, bind, Except.bind] at h
    | found here =>
      cases hget : t.root.get? here with
      | none => simp [hplace, hget, bind, Except.bind] at h
      | some e' =>
        simp only [hplace, hget, bind, Except.bind] at h
        split at h
        · cases h
        · exact ⟨here, rfl, by rw [hget, Except.ok.inj h]⟩

/-- Every file that is found is found once, below the folder. -/
theorem goFiles_found (ht : t.Proper) (hfolder : Path.Rooted folder slashes cs) (includeTests : Bool) :
    (t.goFiles includeTests folder).Nodup ∧
      ∀ path ∈ t.goFiles includeTests folder, ∃ e here,
        t.entry folder = .ok e ∧ FoundAt includeTests e here ∧ path = Path.joinAll folder here := by
  unfold goFiles
  cases hentry : t.entry folder with
  | error cause => simp
  | ok e =>
    obtain ⟨at_, -, hget⟩ := entry_ok hentry
    obtain ⟨places, heq, hnodup, hfound⟩ :=
      goFilesIn_found t.isFolder includeTests folder e (Entry.all_get? ht.named hget)
    have hperm := List.mergeSort_perm (goFilesIn t.isFolder includeTests folder e) Text.precedes
    constructor
    · refine hperm.nodup_iff.2 (heq ▸ hnodup.map_on ?_)
      exact fun here hhere there hthere => hfolder.joinAll_inj (hfound here hhere).names
        (hfound there hthere).names
    · intro path hpath
      have hmem := hperm.mem_iff.1 hpath
      rw [heq] at hmem
      obtain ⟨here, hhere, rfl⟩ := List.mem_map.1 hmem
      exact ⟨e, here, rfl, hfound here hhere, rfl⟩

/-- The files that are found come in the order of their paths. -/
theorem goFiles_sorted (ht : t.Proper) (hfolder : Path.Rooted folder slashes cs) (includeTests : Bool) :
    (t.goFiles includeTests folder).Pairwise Text.Before := by
  have hnodup := (goFiles_found ht hfolder includeTests).1
  have hsorted : (t.goFiles includeTests folder).Pairwise fun a b => Text.precedes a b = true := by
    unfold goFiles
    split
    · exact List.pairwise_mergeSort
        (fun (a b c : String) (hab : Text.precedes a b = true) hbc => Text.charsPrecede_trans hab hbc)
        (fun a b => Text.charsPrecede_total a.toList b.toList) _
    · exact .nil
  exact (hsorted.and hnodup).imp fun h => Text.before_of_precedes h.1 h.2

/-- A file that is found has its path as its absolute path. -/
theorem absolute_of_mem_goFiles (ht : t.Proper) (hfolder : Path.Rooted folder slashes cs)
    {includeTests : Bool} {path : String} (h : path ∈ t.goFiles includeTests folder) :
    Path.absolute t.cwd path = path := by
  obtain ⟨e, here, -, hfound, rfl⟩ := (goFiles_found ht hfolder includeTests).2 path h
  exact (hfolder.joinAll hfound.names).absolute_eq t.cwd

end FileTree

end Files

end SourceOutline
