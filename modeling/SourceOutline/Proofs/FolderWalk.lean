import Mathlib.Data.List.Basic
import Mathlib.Data.List.Nodup
import SourceOutline.Proofs.FolderAccount

/-!
The search for Go files, seen from whole paths: a file is found exactly when every folder on its way is entered
and its name counts, and the order in which folders list their items makes no difference.
-/
namespace SourceOutline

namespace Text

theorem charsPrecede_antisymm {as bs : List Char} (hab : charsPrecede as bs = true)
    (hba : charsPrecede bs as = true) : as = bs := by
  induction as generalizing bs with
  | nil =>
    cases bs with
    | nil => rfl
    | cons b bs => simp [charsPrecede] at hba
  | cons a as ih =>
    cases bs with
    | nil => simp [charsPrecede] at hab
    | cons b bs =>
      simp only [charsPrecede, Bool.or_eq_true, decide_eq_true_eq, Bool.and_eq_true, beq_iff_eq] at hab hba
      have hcode : code a = code b := by omega
      obtain rfl := code_injective hcode
      have hrest : charsPrecede as bs = true ∧ charsPrecede bs as = true := by simpa using And.intro hab hba
      rw [ih hrest.1 hrest.2]

/-- Texts are sorted to the same list, in whatever order they come. -/
theorem mergeSort_precedes_of_perm {xs ys : List String} (h : xs.Perm ys) :
    xs.mergeSort precedes = ys.mergeSort precedes := by
  have hsorted : ∀ zs : List String, (zs.mergeSort precedes).Pairwise fun a b => precedes a b = true := by
    intro zs
    exact List.pairwise_mergeSort
      (fun (a b c : String) (hab : precedes a b = true) hbc => charsPrecede_trans hab hbc)
      (fun a b => charsPrecede_total a.toList b.toList) zs
  have hperm : (xs.mergeSort precedes).Perm (ys.mergeSort precedes) :=
    (List.mergeSort_perm xs precedes).trans (h.trans (List.mergeSort_perm ys precedes).symm)
  refine List.Perm.eq_of_pairwise (fun a b _ _ hab hba => ?_) (hsorted xs) (hsorted ys) hperm
  exact String.toList_inj.1 (charsPrecede_antisymm hab hba)

end Text

namespace Files

mutual

/-- Entries that differ only in the order in which folders, at any depth, list their items. -/
inductive Relisted : Entry → Entry → Prop
  | file (content : ByteArray) : Relisted (.file content) (.file content)
  | link (target : String) : Relisted (.link target) (.link target)
  | folder {items middle others : List (String × Entry)} (hbelow : RelistedAll items middle)
      (horder : middle.Perm others) : Relisted (.folder items) (.folder others)

/-- Items of a folder, in the same order, with entries that may be relisted. -/
inductive RelistedAll : List (String × Entry) → List (String × Entry) → Prop
  | nil : RelistedAll [] []
  | cons {name : String} {e e' : Entry} {rest rest' : List (String × Entry)} (hitem : Relisted e e')
      (hrest : RelistedAll rest rest') : RelistedAll ((name, e) :: rest) ((name, e') :: rest')

end

mutual

theorem Relisted.refl : ∀ e : Entry, Relisted e e
  | .file content => .file content
  | .link target => .link target
  | .folder items => .folder (RelistedAll.refl items) (.refl items)

theorem RelistedAll.refl : ∀ items : List (String × Entry), RelistedAll items items
  | [] => .nil
  | (_, e) :: rest => .cons (Relisted.refl e) (RelistedAll.refl rest)

end

namespace RelistedAll

variable {items others : List (String × Entry)}

theorem names_eq (h : RelistedAll items others) : others.map (·.1) = items.map (·.1) := by
  induction items generalizing others with
  | nil =>
    cases h
    rfl
  | cons item rest ih =>
    cases h with
    | cons _ hrest => rw [List.map_cons, List.map_cons, ih hrest]

theorem lookup (h : RelistedAll items others) (name : String) :
    Option.Rel Relisted (items.lookup name) (others.lookup name) := by
  induction items generalizing others with
  | nil =>
    cases h
    exact .none
  | cons item rest ih =>
    cases h with
    | cons hitem hrest =>
      rw [List.lookup_cons, List.lookup_cons]
      split
      · exact .some hitem
      · exact ih hrest

end RelistedAll

theorem get?_cons (items : List (String × Entry)) (name : String) (rest : Location) :
    (Entry.folder items).get? (name :: rest) = (items.lookup name).bind (·.get? rest) := by
  cases h : items.lookup name <;> simp [Entry.get?, h]

namespace Relisted

variable {e e' root root' : Entry}

theorem face_eq (h : Relisted e e') : e'.face = e.face := by
  cases h <;> rfl

/-- Relisted entries have relisted entries at every location. -/
theorem get? (h : Relisted e e') (hnames : e.all hasNames = true) (here : Location) :
    Option.Rel Relisted (e.get? here) (e'.get? here) := by
  induction here generalizing e e' with
  | nil =>
    rw [Entry.get?_nil, Entry.get?_nil]
    exact .some h
  | cons name rest ih =>
    cases h with
    | file content => exact .none
    | link target => exact .none
    | @folder items middle others hbelow horder =>
      obtain ⟨hnodup, -, hitems⟩ := folder_hasNames hnames
      have hlookup := hbelow.lookup name
      rw [← hbelow.names_eq] at hnodup
      rw [get?_cons, get?_cons, lookup_of_perm hnodup horder]
      generalize hitem : items.lookup name = child at hlookup ⊢
      generalize middle.lookup name = child' at hlookup ⊢
      cases hlookup with
      | none => exact .none
      | some hchild => exact ih hchild (hitems _ (mem_of_lookup hitem))

theorem faceAt?_eq (h : Relisted root root') (hnames : root.all hasNames = true) (here : Location) :
    root'.faceAt? here = root.faceAt? here := by
  have hget := h.get? hnames here
  unfold Entry.faceAt?
  generalize root.get? here = found at hget ⊢
  generalize root'.get? here = found' at hget ⊢
  cases hget with
  | none => rfl
  | some hfound => rw [Option.map_some, Option.map_some, hfound.face_eq]

end Relisted

/-- Trees that show the same are walked alike. -/
theorem walk_of_faces {root root' : Entry} (h : ∀ here, root'.faceAt? here = root.faceAt? here) (whole : Bool)
    (here : Location) (path : List String) : walk root' whole here path = walk root whole here path := by
  induction path generalizing here with
  | nil => rw [walk, walk]
  | cons name rest ih => simp only [walk_cons, h, ih]

theorem resolve_of_faces {root root' : Entry} (h : ∀ here, root'.faceAt? here = root.faceAt? here)
    (whole : Bool) (links : Nat) (here : Location) (path : List String) :
    resolve root' whole links here path = resolve root whole links here path := by
  induction links generalizing here path with
  | zero =>
    unfold resolve
    rw [walk_of_faces h]
  | succ links ih =>
    unfold resolve
    rw [walk_of_faces h]
    cases walk root whole here path with
    | arrived place => rfl
    | failed cause => rfl
    | link folder target rest => exact ih _ _

namespace FileTree

variable {t : FileTree} {root : Entry}

theorem place_of_relisted (ht : t.Proper) (h : Relisted t.root root) (whole : Bool) (path : String) :
    FileTree.place { t with root := root } whole path = t.place whole path := by
  have hfaces := fun here => h.faceAt?_eq ht.named here
  unfold place placeOf
  simp only [resolve_of_faces hfaces]

theorem entry_of_relisted (ht : t.Proper) (h : Relisted t.root root) (path : String) :
    (∃ cause, t.entry path = .error cause ∧ FileTree.entry { t with root := root } path = .error cause) ∨
      ∃ e e', t.entry path = .ok e ∧ FileTree.entry { t with root := root } path = .ok e' ∧ Relisted e e' := by
  unfold entry
  rw [place_of_relisted ht h]
  cases t.place true path with
  | error cause => exact Or.inl ⟨cause, rfl, rfl⟩
  | ok place =>
    cases place with
    | vacant folder name => exact Or.inl ⟨.missing, rfl, rfl⟩
    | found here =>
      have hget := h.get? ht.named here
      simp only [bind, Except.bind]
      generalize t.root.get? here = found at hget ⊢
      generalize root.get? here = found' at hget ⊢
      cases hget with
      | none => exact Or.inl ⟨.missing, rfl, rfl⟩
      | some hfound =>
        rename_i e e'
        have hkind : e'.isFolder = e.isFolder := by cases hfound <;> rfl
        dsimp only
        rw [hkind]
        split
        · exact Or.inl ⟨.notFolder, rfl, rfl⟩
        · exact Or.inr ⟨e, e', rfl, rfl, hfound⟩

theorem entry_of_folder {path : String} {here : Location} {items : List (String × Entry)}
    (hplace : t.place true path = .ok (.found here)) (hget : t.root.get? here = some (.folder items)) :
    t.entry path = .ok (.folder items) := by
  rw [entry, hplace]
  simp [bind, Except.bind, hget, Entry.isFolder]

theorem isFolder_of_relisted (ht : t.Proper) (h : Relisted t.root root) :
    FileTree.isFolder { t with root := root } = t.isFolder := by
  funext path
  unfold isFolder
  rcases entry_of_relisted ht h path with ⟨cause, hentry, hentry'⟩ | ⟨e, e', hentry, hentry', hrelisted⟩
  · rw [hentry, hentry']
  · rw [hentry, hentry']
    cases hrelisted <;> rfl

end FileTree

theorem goFilesAmong_eq (isFolderLink : String → Bool) (includeTests : Bool) (path : String)
    (items : List (String × Entry)) :
    goFilesAmong isFolderLink includeTests path items =
      items.flatMap (goFilesOf isFolderLink includeTests path) := by
  induction items with
  | nil => rw [goFilesAmong, List.flatMap_nil]
  | cons item rest ih => rw [goFilesAmong, List.flatMap_cons, ih]

theorem goFilesAmong_of_perm (isFolderLink : String → Bool) (includeTests : Bool) (path : String)
    {items others : List (String × Entry)} (h : items.Perm others) :
    (goFilesAmong isFolderLink includeTests path items).Perm
      (goFilesAmong isFolderLink includeTests path others) := by
  rw [goFilesAmong_eq, goFilesAmong_eq]
  exact h.flatMap_right _

mutual

/-- The same files are found below relisted entries. -/
theorem goFilesIn_perm (isFolderLink : String → Bool) (includeTests : Bool) (path : String) :
    ∀ {e e' : Entry}, Relisted e e' →
      (goFilesIn isFolderLink includeTests path e).Perm (goFilesIn isFolderLink includeTests path e')
  | _, _, .file content => .refl _
  | _, _, .link target => .refl _
  | _, _, .folder hbelow horder => by
    rw [goFilesIn, goFilesIn]
    exact (goFilesAmong_perm isFolderLink includeTests path hbelow).trans
      (goFilesAmong_of_perm isFolderLink includeTests path horder)

theorem goFilesAmong_perm (isFolderLink : String → Bool) (includeTests : Bool) (path : String) :
    ∀ {items others : List (String × Entry)}, RelistedAll items others →
      (goFilesAmong isFolderLink includeTests path items).Perm
        (goFilesAmong isFolderLink includeTests path others)
  | _, _, .nil => .refl _
  | _, _, .cons hitem hrest => by
    rw [goFilesAmong, goFilesAmong]
    exact (goFilesOf_perm isFolderLink includeTests path _ hitem).append
      (goFilesAmong_perm isFolderLink includeTests path hrest)

theorem goFilesOf_perm (isFolderLink : String → Bool) (includeTests : Bool) (path name : String) :
    ∀ {e e' : Entry}, Relisted e e' →
      (goFilesOf isFolderLink includeTests path (name, e)).Perm
        (goFilesOf isFolderLink includeTests path (name, e'))
  | _, _, .file content => .refl _
  | _, _, .link target => .refl _
  | _, _, .folder hbelow horder => by
    rw [goFilesOf, goFilesOf]
    split
    · exact (goFilesAmong_perm isFolderLink includeTests (Path.join path name) hbelow).trans
        (goFilesAmong_of_perm isFolderLink includeTests (Path.join path name) horder)
    · exact .refl _

end

theorem FileTree.goFiles_of_relisted {t : FileTree} {root : Entry} (ht : t.Proper) (h : Relisted t.root root)
    (includeTests : Bool) (folder : String) :
    FileTree.goFiles { t with root := root } includeTests folder = t.goFiles includeTests folder := by
  unfold goFiles
  rw [isFolder_of_relisted ht h]
  rcases entry_of_relisted ht h folder with ⟨cause, hentry, hentry'⟩ | ⟨e, e', hentry, hentry', hrelisted⟩
  · rw [hentry, hentry']
  · rw [hentry, hentry']
    exact (Text.mergeSort_precedes_of_perm (goFilesIn_perm t.isFolder includeTests folder hrelisted)).symm

/-- Whether an entry at a path is a file to the search: a folder is none, nor is a link that leads to one. -/
def Entry.IsFileAt (isFolderLink : String → Bool) (path : String) : Entry → Prop
  | .file _ => True
  | .link _ => isFolderLink path = false
  | .folder _ => False

/-- A file that the search asks for, by the names that lead to it from a folder: those of the folders on the
way, and its own. -/
structure Sought (isFolderLink : String → Bool) (includeTests : Bool) (path : String) (e : Entry)
    (above : List String) (name : String) : Prop where
  entered : ∀ n ∈ above, n.toList.head? ≠ some '.' ∧ n ∉ ["vendor", "testdata", "node_modules", "result"]
  extension : Path.extension name = ".go"
  tests : includeTests = true ∨ ¬"_test.go".toList <:+ name.toList
  file : ∃ leaf, e.get? (above ++ [name]) = some leaf ∧
    leaf.IsFileAt isFolderLink (Path.joinAll path (above ++ [name]))

theorem isEntered_iff {name : String} :
    isEntered name = true ↔
      name.toList.head? ≠ some '.' ∧ name ∉ ["vendor", "testdata", "node_modules", "result"] := by
  have hdot : name.startsWith "." = true ↔ name.toList.head? = some '.' := by
    rw [String.startsWith_string_iff]
    cases name.toList with
    | nil => simp
    | cons c rest => simp [eq_comm]
  unfold isEntered excludedFolders
  rw [Bool.and_eq_true, Bool.not_eq_true', Bool.not_eq_true', ← Bool.not_eq_true, ← Bool.not_eq_true, hdot,
    List.contains_iff_mem]

theorem isWanted_iff {includeTests : Bool} {name : String} :
    isWanted includeTests name = true ↔
      Path.extension name = ".go" ∧ (includeTests = true ∨ ¬"_test.go".toList <:+ name.toList) := by
  have hend : name.endsWith "_test.go" = false ↔ ¬"_test.go".toList <:+ name.toList := by
    rw [String.endsWith_eq_endsWith_toSlice, String.Slice.endsWith_string_eq_false_iff, String.copy_toSlice]
  unfold isWanted goExtension
  rw [Bool.and_eq_true, beq_iff_eq, Bool.or_eq_true, Bool.not_eq_true', hend]

namespace Sought

variable {isFolderLink : String → Bool} {includeTests : Bool} {path first : String} {e : Entry}
  {items rest : List (String × Entry)} {above : List String} {name : String}

/-- What is sought among items is or lies below the first one, or is sought among the others. -/
theorem cons_iff (hnew : first ∉ rest.map (·.1)) :
    Sought isFolderLink includeTests path (.folder ((first, e) :: rest)) above name ↔
      Sought isFolderLink includeTests path (.folder [(first, e)]) above name ∨
        Sought isFolderLink includeTests path (.folder rest) above name := by
  obtain ⟨next, below, hhere⟩ : ∃ next below, above ++ [name] = next :: below :=
    List.exists_cons_of_ne_nil (by simp)
  have hget : ∀ leaf, (Entry.folder ((first, e) :: rest)).get? (above ++ [name]) = some leaf ↔
      (Entry.folder [(first, e)]).get? (above ++ [name]) = some leaf ∨
        (Entry.folder rest).get? (above ++ [name]) = some leaf := by
    intro leaf
    rw [hhere, get?_cons, get?_cons, get?_cons, lookup_cons_eq, lookup_cons_eq]
    by_cases hfirst : next = first
    · have hnone : rest.lookup next = none := by
        rw [List.lookup_eq_none_iff]
        intro item hitem
        have hne : next ≠ item.1 := fun heq => hnew (hfirst ▸ heq ▸ List.mem_map_of_mem hitem)
        simpa using hne
      simp [hfirst ▸ hnone, hfirst]
    · simp [hfirst]
  constructor
  · rintro ⟨hentered, hextension, htests, leaf, hleaf, hfile⟩
    rcases (hget leaf).1 hleaf with hleaf | hleaf
    · exact Or.inl ⟨hentered, hextension, htests, leaf, hleaf, hfile⟩
    · exact Or.inr ⟨hentered, hextension, htests, leaf, hleaf, hfile⟩
  · rintro (⟨hentered, hextension, htests, leaf, hleaf, hfile⟩ | ⟨hentered, hextension, htests, leaf, hleaf, hfile⟩)
    · exact ⟨hentered, hextension, htests, leaf, (hget leaf).2 (Or.inl hleaf), hfile⟩
    · exact ⟨hentered, hextension, htests, leaf, (hget leaf).2 (Or.inr hleaf), hfile⟩

/-- What is sought in a folder of one folder is sought in that folder, if it is entered. -/
theorem nested_iff :
    Sought isFolderLink includeTests path (.folder [(first, .folder items)]) above name ↔
      ∃ below, above = first :: below ∧ isEntered first = true ∧
        Sought isFolderLink includeTests (Path.join path first) (.folder items) below name := by
  constructor
  · rintro ⟨hentered, hextension, htests, leaf, hleaf, hfile⟩
    cases above with
    | nil =>
      rw [List.nil_append, get?_cons, lookup_cons_eq] at hleaf
      split at hleaf
      · obtain rfl : Entry.folder items = leaf := by simpa using hleaf
        exact absurd hfile id
      · simp at hleaf
    | cons next below =>
      rw [List.cons_append, get?_cons, lookup_cons_eq] at hleaf
      split at hleaf
      · next hnext =>
        subst hnext
        refine ⟨below, rfl, isEntered_iff.2 (hentered next List.mem_cons_self), ?_⟩
        exact ⟨fun n hn => hentered n (List.mem_cons_of_mem _ hn), hextension, htests, leaf, hleaf, hfile⟩
      · simp at hleaf
  · rintro ⟨below, rfl, hfirst, hentered, hextension, htests, leaf, hleaf, hfile⟩
    refine ⟨?_, hextension, htests, leaf, ?_, hfile⟩
    · intro n hn
      rcases List.mem_cons.1 hn with rfl | hn
      · exact isEntered_iff.1 hfirst
      · exact hentered n hn
    · rw [List.cons_append, get?_cons, lookup_cons_eq, if_pos rfl]
      exact hleaf

/-- What is sought in a folder of one other entry is that entry, if its name counts. -/
theorem single_iff (hleaf : ∀ below, below ≠ [] → e.get? below = none) :
    Sought isFolderLink includeTests path (.folder [(first, e)]) above name ↔
      above = [] ∧ name = first ∧ isWanted includeTests first = true ∧
        e.IsFileAt isFolderLink (Path.join path first) := by
  constructor
  · rintro ⟨-, hextension, htests, leaf, hget, hfile⟩
    cases above with
    | nil =>
      rw [List.nil_append, get?_cons, lookup_cons_eq] at hget
      split at hget
      · next hname =>
        subst hname
        obtain rfl : e = leaf := by simpa using hget
        exact ⟨rfl, rfl, isWanted_iff.2 ⟨hextension, htests⟩, hfile⟩
      · simp at hget
    | cons next below =>
      rw [List.cons_append, get?_cons, lookup_cons_eq] at hget
      split at hget
      · rw [Option.bind_some, hleaf _ (by simp)] at hget
        cases hget
      · simp at hget
  · rintro ⟨rfl, rfl, hwanted, hfile⟩
    obtain ⟨hextension, htests⟩ := isWanted_iff.1 hwanted
    exact ⟨by simp, hextension, htests, e, by simp [get?_cons], hfile⟩

end Sought

/-- A path is found below an entry, at the folder path given, if the search asks for the file there. -/
def IsFound (isFolderLink : String → Bool) (includeTests : Bool) (path : String) (e : Entry)
    (found : String) : Prop :=
  ∃ above name, Sought isFolderLink includeTests path e above name ∧
    found = Path.joinAll path (above ++ [name])

section IsFound

variable {isFolderLink : String → Bool} {includeTests : Bool} {path first found : String}

theorem isFound_leaf_iff {e : Entry} (hleaf : ∀ below, below ≠ [] → e.get? below = none) :
    IsFound isFolderLink includeTests path (.folder [(first, e)]) found ↔
      (isWanted includeTests first = true ∧ e.IsFileAt isFolderLink (Path.join path first)) ∧
        found = Path.join path first := by
  constructor
  · rintro ⟨above, name, hsought, rfl⟩
    obtain ⟨rfl, rfl, hfirst⟩ := (Sought.single_iff hleaf).1 hsought
    exact ⟨hfirst, rfl⟩
  · rintro ⟨hfirst, rfl⟩
    exact ⟨[], first, (Sought.single_iff hleaf).2 ⟨rfl, rfl, hfirst⟩, rfl⟩

theorem isFound_nested_iff {items : List (String × Entry)} :
    IsFound isFolderLink includeTests path (.folder [(first, .folder items)]) found ↔
      isEntered first = true ∧
        IsFound isFolderLink includeTests (Path.join path first) (.folder items) found := by
  constructor
  · rintro ⟨above, name, hsought, rfl⟩
    obtain ⟨below, rfl, hfirst, hbelow⟩ := Sought.nested_iff.1 hsought
    exact ⟨hfirst, below, name, hbelow, rfl⟩
  · rintro ⟨hfirst, below, name, hbelow, rfl⟩
    exact ⟨first :: below, name, Sought.nested_iff.2 ⟨below, rfl, hfirst, hbelow⟩, rfl⟩

theorem isFound_cons_iff {e : Entry} {rest : List (String × Entry)} (hnew : first ∉ rest.map (·.1)) :
    IsFound isFolderLink includeTests path (.folder ((first, e) :: rest)) found ↔
      IsFound isFolderLink includeTests path (.folder [(first, e)]) found ∨
        IsFound isFolderLink includeTests path (.folder rest) found := by
  unfold IsFound
  simp only [Sought.cons_iff hnew, or_and_right, exists_or]

theorem not_isFound_nil : ¬IsFound isFolderLink includeTests path (.folder []) found := by
  rintro ⟨above, name, ⟨-, -, -, leaf, hleaf, -⟩, -⟩
  cases above <;> simp [get?_cons] at hleaf

end IsFound

theorem get?_leaf {e : Entry} (h : e.isFolder = false) {below : Location} (hne : below ≠ []) :
    e.get? below = none := by
  obtain ⟨name, rest, rfl⟩ := List.exists_cons_of_ne_nil hne
  cases e with
  | file content => rfl
  | link target => rfl
  | folder items => cases h

mutual

/-- The search finds, among the items of a folder and below them, what it asks for. -/
theorem mem_goFilesAmong (isFolderLink : String → Bool) (includeTests : Bool) (path found : String) :
    ∀ items : List (String × Entry), (items.map (·.1)).Nodup → (∀ item ∈ items, item.2.all hasNames = true) →
      (found ∈ goFilesAmong isFolderLink includeTests path items ↔
        IsFound isFolderLink includeTests path (.folder items) found)
  | [], _, _ => by simp [goFilesAmong, not_isFound_nil]
  | (first, e) :: rest, hnodup, hbelow => by
    rw [List.map_cons, List.nodup_cons] at hnodup
    have hfirst := mem_goFilesOf isFolderLink includeTests path found (first, e)
      (hbelow _ List.mem_cons_self)
    have hrest := mem_goFilesAmong isFolderLink includeTests path found rest hnodup.2
      fun item hitem => hbelow item (List.mem_cons_of_mem _ hitem)
    rw [goFilesAmong, List.mem_append, hfirst, hrest, isFound_cons_iff hnodup.1]

theorem mem_goFilesOf (isFolderLink : String → Bool) (includeTests : Bool) (path found : String) :
    ∀ item : String × Entry, item.2.all hasNames = true →
      (found ∈ goFilesOf isFolderLink includeTests path item ↔
        IsFound isFolderLink includeTests path (.folder [item]) found)
  | (first, .file content), _ => by
    rw [isFound_leaf_iff fun _ => get?_leaf rfl, goFilesOf]
    by_cases hwanted : isWanted includeTests first = true <;> simp [hwanted, Entry.IsFileAt]
  | (first, .link target), _ => by
    rw [isFound_leaf_iff fun _ => get?_leaf rfl, goFilesOf]
    by_cases hwanted : isWanted includeTests first = true <;>
      by_cases hlink : isFolderLink (Path.join path first) = true <;>
      simp [hwanted, hlink, Entry.IsFileAt]
  | (first, .folder items), h => by
    obtain ⟨hnodup, -, hbelow⟩ := folder_hasNames h
    have hitems := mem_goFilesAmong isFolderLink includeTests (Path.join path first) found items hnodup hbelow
    rw [isFound_nested_iff, ← hitems, goFilesOf]
    by_cases hentered : isEntered first = true <;> simp [hentered]

end

end Files

namespace Scan

open SourceOutline.Files (FileTree Entry Relisted RelistedAll IsFound)

theorem discover_of_relisted {t : FileTree} {root : Entry} (ht : t.Proper) (h : Relisted t.root root)
    (includeTests : Bool) (folder : String) :
    discover { t with root := root } includeTests folder = discover t includeTests folder := by
  have hfiles := FileTree.goFiles_of_relisted ht h includeTests (Path.absolute t.cwd folder)
  unfold discover
  dsimp only
  rw [hfiles]
  rcases FileTree.entry_of_relisted ht h (Path.absolute t.cwd folder) with
    ⟨cause, hentry, hentry'⟩ | ⟨e, e', hentry, hentry', -⟩
  · rw [hentry, hentry']
  · rw [hentry, hentry']

/-- A folder's Go files are found in increasing order of their paths: exactly those that the search asks for,
by whole paths, and whatever the order that folders list their items in. -/
theorem discover_iff_isFound {t : FileTree} (ht : t.Proper) (includeTests : Bool) {folder : String}
    {items : List (String × Entry)} (hfolder : t.entry (Path.absolute t.cwd folder) = .ok (.folder items)) :
    ∃ found, (discover t includeTests folder).value = .ok found ∧ found.Pairwise Text.Before ∧
      (∀ path, path ∈ found ↔
        IsFound t.isFolder includeTests (Path.absolute t.cwd folder) (.folder items) path) ∧
      ∀ root, Relisted t.root root →
        discover { t with root := root } includeTests folder = discover t includeTests folder := by
  obtain ⟨slashes, cs, hrooted⟩ := Path.rooted_absolute ht.cwd folder
  obtain ⟨here, -, hget⟩ := FileTree.entry_ok hfolder
  have hnames := Entry.all_get? ht.named hget
  obtain ⟨hnodup, -, hbelow⟩ := Files.folder_hasNames hnames
  refine ⟨_, discover_value (isFolder_iff.2 ⟨items, hfolder⟩) includeTests,
    FileTree.goFiles_sorted ht hrooted includeTests, ?_, fun root h => discover_of_relisted ht h _ _⟩
  intro path
  rw [FileTree.goFiles, hfolder, List.mem_mergeSort]
  exact Files.mem_goFilesAmong _ _ _ _ items hnodup hbelow

/-- The items of a source folder: a hidden file and folders that are left out, tests, and a link to a folder. -/
private def mixedItems : List (String × Entry) :=
  [("vendor", .folder [("v.go", .file "package v".toUTF8)]), ("way.go", .link "pkg"),
    ("pkg", .folder [("a_test.go", .file "package a".toUTF8), ("a.go", .file "package a".toUTF8)]),
    (".git", .folder [("g.go", .file "package g".toUTF8)]), (".go", .file "package p".toUTF8),
    (".b.go", .file "package b".toUTF8)]

private def mixedTree : FileTree where
  root := .folder [("result", .folder mixedItems)]
  cwd := "/"

private theorem entry_mixedTree : mixedTree.entry "/result" = .ok (.folder mixedItems) := by
  have hplace : mixedTree.place true "/result" = .ok (.found ["result"]) := by
    rw [FileTree.place_absolute (by decide) ⟨by decide, by simp, by decide, by decide⟩]
    rfl
  exact FileTree.entry_of_folder hplace rfl

private theorem isFolder_mixedTree : mixedTree.isFolder "/result/way.go" = true := by
  have hplace : mixedTree.place true "/result/way.go" = .ok (.found ["result", "pkg"]) := by
    have hwalk : Files.walk mixedTree.root true [] (Files.names "/result/way.go") =
        .link ["result"] "pkg" [] := rfl
    rw [FileTree.place_absolute (by decide) ⟨by decide, by simp, by decide, by decide⟩,
      show Files.linkLimit = 39 + 1 from rfl, Files.resolve_link hwalk, Files.linkStart, if_neg (by simp)]
    rfl
  exact isFolder_iff.2 ⟨_, FileTree.entry_of_folder hplace rfl⟩

private theorem goFiles_mixedTree :
    mixedTree.goFiles false "/result" = ["/result/.b.go", "/result/pkg/a.go"] := by
  have hfound : Files.goFilesIn mixedTree.isFolder false "/result" (.folder mixedItems) =
      ["/result/pkg/a.go", "/result/.b.go"] := by
    have hlink := isFolder_mixedTree
    have hwanted : Files.isWanted false "a_test.go" = false ∧ Files.isWanted false "a.go" = true ∧
        Files.isWanted false ".go" = false ∧ Files.isWanted false ".b.go" = true := by decide +kernel
    have hentered : Files.isEntered "vendor" = false ∧ Files.isEntered "pkg" = true ∧
        Files.isEntered ".git" = false := by decide +kernel
    have hjoin : Path.join "/result" "pkg" = "/result/pkg" ∧ Path.join "/result" "way.go" = "/result/way.go" ∧
        Path.join "/result" ".b.go" = "/result/.b.go" ∧
        Path.join "/result/pkg" "a.go" = "/result/pkg/a.go" := by decide
    simp [mixedItems, Files.goFilesIn, Files.goFilesAmong, Files.goFilesOf, hwanted, hentered, hjoin, hlink]
  have hswap : ["/result/pkg/a.go", "/result/.b.go"].Perm ["/result/.b.go", "/result/pkg/a.go"] := .swap _ _ _
  rw [FileTree.goFiles, entry_mixedTree]
  dsimp only
  rw [hfound, Text.mergeSort_precedes_of_perm hswap]
  exact List.mergeSort_of_pairwise (by decide)

theorem discover_iff_isFound_mixed :
    (discover mixedTree false "result").value = .ok ["/result/.b.go", "/result/pkg/a.go"] ∧
      ["/result/.b.go", "/result/pkg/a.go"].Pairwise Text.Before ∧
      (∀ path, path ∈ ["/result/.b.go", "/result/pkg/a.go"] ↔
        IsFound mixedTree.isFolder false "/result" (.folder mixedItems) path) ∧
      discover { mixedTree with root := .folder [("result", .folder mixedItems.reverse)] } false "result" =
        discover mixedTree false "result" := by
  have hproper : mixedTree.Proper := ⟨rfl, by decide, by decide⟩
  have hroot : Path.absolute mixedTree.cwd "result" = "/result" := by decide
  have hentry : mixedTree.entry (Path.absolute mixedTree.cwd "result") = .ok (.folder mixedItems) := by
    rw [hroot, entry_mixedTree]
  have hrelisted : Relisted mixedTree.root (.folder [("result", .folder mixedItems.reverse)]) :=
    .folder (.cons (.folder (RelistedAll.refl mixedItems) (List.reverse_perm mixedItems).symm) .nil) (.refl _)
  obtain ⟨found, hvalue, hsorted, hmem, horder⟩ := discover_iff_isFound hproper false hentry
  obtain rfl : ["/result/.b.go", "/result/pkg/a.go"] = found := by
    rw [discover_value (isFolder_iff.2 ⟨_, hentry⟩), hroot, goFiles_mixedTree, Except.ok.injEq] at hvalue
    exact hvalue
  rw [hroot] at hmem
  exact ⟨hvalue, hsorted, hmem, horder _ hrelisted⟩

end Scan

end SourceOutline
