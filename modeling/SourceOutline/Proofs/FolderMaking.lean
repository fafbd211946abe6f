import SourceOutline.Proofs.Growth

/-!
Folders that are made again. A folder is made after those above it, each step may fail, and some failures are
passed over; but once this has been tried, trying it again changes nothing and fails if it failed before. What a
path leads to is seen from what the path above it leads to.
-/
namespace SourceOutline.Files

/-- A walk that goes on by one more name. -/
def Walk.onward (root : Entry) (whole : Bool) (name : String) : Walk → Walk
  | .arrived (.found there) => walk root whole there [name]
  | .arrived (.vacant _ _) => .failed .missing
  | .failed cause => .failed cause
  | .link folder target rest => .link folder target (rest ++ [name])

/-- A place from which a path goes on by one more name. -/
def Place.onward (root : Entry) (whole : Bool) (links : Nat) (name : String) : Place → Except Cause Place
  | .found there => resolve root whole links there [name]
  | .vacant _ _ => .error .missing

section Onward

variable {root : Entry} {whole : Bool}

theorem walk_concat (here : Location) (path : List String) (name : String) :
    walk root whole here (path ++ [name]) = (walk root true here path).onward root whole name := by
  induction path generalizing here with
  | nil => rfl
  | cons first rest ih =>
    rw [List.cons_append, walk_cons, walk_cons]
    cases hhere : root.faceAt? here with
    | none => rfl
    | some face =>
      cases face with
      | file content => rfl
      | link target => rfl
      | folder =>
        dsimp only
        by_cases hdot : first = "."
        · rw [if_pos hdot, if_pos hdot, ih]
        rw [if_neg hdot, if_neg hdot]
        by_cases hup : first = ".."
        · rw [if_pos hup, if_pos hup, ih]
        rw [if_neg hup, if_neg hup]
        by_cases hlong : nameLimit < Text.octetCount first
        · rw [if_pos hlong, if_pos hlong]
          rfl
        rw [if_neg hlong, if_neg hlong]
        cases hnext : root.faceAt? (here ++ [first]) with
        | none => cases rest <;> rfl
        | some next =>
          cases next with
          | file content => exact ih _
          | folder => exact ih _
          | link target => cases rest <;> rfl

theorem resolve_failed {here : Location} {path : List String} {cause : Cause}
    (h : walk root whole here path = .failed cause) (links : Nat) :
    resolve root whole links here path = .error cause := by
  unfold resolve
  rw [h]

theorem resolve_concat_of_not_link {here : Location} {path : List String}
    (h : ∀ folder target rest, walk root true here path ≠ .link folder target rest) (links : Nat)
    (name : String) :
    resolve root whole links here (path ++ [name]) =
      (resolve root true links here path).bind (Place.onward root whole links name) := by
  have hwalk : walk root whole here (path ++ [name]) = _ := walk_concat here path name
  cases hshort : walk root true here path with
  | arrived place =>
    rw [hshort] at hwalk
    rw [resolve_arrived (leads_of_walk hshort (by simp))]
    cases place with
    | found there => exact resolve_congr hwalk links
    | vacant folder last => exact resolve_failed hwalk links
  | failed cause =>
    rw [hshort] at hwalk
    rw [resolve_failed hshort, resolve_failed hwalk]
    rfl
  | link folder target rest => exact absurd hshort (h folder target rest)

/-- Where a path leads with one more name, by where it leads without. -/
theorem resolve_concat (links : Nat) (here : Location) (path : List String) (name : String) :
    ∃ fewer, resolve root whole links here (path ++ [name]) =
      (resolve root true links here path).bind (Place.onward root whole fewer name) := by
  induction links generalizing here path with
  | zero =>
    refine ⟨0, ?_⟩
    cases hshort : walk root true here path with
    | link folder target rest =>
      have hwalk : walk root whole here (path ++ [name]) = _ := walk_concat here path name
      rw [hshort] at hwalk
      unfold resolve
      rw [hshort, hwalk]
      rfl
    | _ => exact resolve_concat_of_not_link (by simp [hshort]) 0 name
  | succ links ih =>
    cases hshort : walk root true here path with
    | link folder target rest =>
      have hwalk : walk root whole here (path ++ [name]) = _ := walk_concat here path name
      rw [hshort] at hwalk
      obtain ⟨fewer, hfewer⟩ := ih (linkStart folder target) (names target ++ rest)
      refine ⟨fewer, ?_⟩
      rw [resolve_link hshort, resolve_link hwalk, ← hfewer, List.append_assoc]
    | _ => exact ⟨_, resolve_concat_of_not_link (by simp [hshort]) _ name⟩

theorem resolve_not_folder {here : Location} (h : root.faceAt? here ≠ some .folder) (links : Nat)
    (name : String) (rest : List String) :
    resolve root whole links here (name :: rest) = .error .notFolder := by
  refine resolve_failed ?_ links
  rw [walk_cons]
  cases hhere : root.faceAt? here with
  | none => rfl
  | some face =>
    cases face with
    | file content => rfl
    | link target => rfl
    | folder => exact absurd hhere h

/-- A walk goes as far when a link in the last place is not followed. -/
theorem Leads.partway {here : Location} {path : List String} {w : Walk} (h : Leads root true here path w) :
    Leads root false here path w ∨ ∃ there, Leads root false here path (.arrived (.found there)) := by
  induction h with
  | stop here => exact Or.inl (.stop here)
  | stay hhere _ ih => exact ih.imp (.stay hhere) fun ⟨there, h⟩ => ⟨there, .stay hhere h⟩
  | up hhere _ ih => exact ih.imp (.up hhere) fun ⟨there, h⟩ => ⟨there, .up hhere h⟩
  | into hhere hname hnext hface _ ih =>
    exact ih.imp (.into hhere hname hnext hface) fun ⟨there, h⟩ => ⟨there, .into hhere hname hnext hface h⟩
  | vacant hhere hname hnext => exact Or.inl (.vacant hhere hname hnext)
  | atLink _ _ _ hwhole => cases hwhole
  | @link here name target rest hhere hname hnext _ =>
    cases rest with
    | nil => exact Or.inr ⟨_, .atLink hhere hname hnext rfl⟩
    | cons first rest => exact Or.inl (.link hhere hname hnext (by simp))

theorem Leads.resolve_partway {here : Location} {path : List String} {place : Place}
    (h : Leads root true here path (.arrived place)) (links : Nat) :
    ∃ place', resolve root false links here path = .ok place' := by
  rcases h.partway with hpart | ⟨there, hpart⟩
  · exact ⟨place, resolve_arrived hpart links⟩
  · exact ⟨.found there, resolve_arrived hpart links⟩

theorem resolve_partway {links : Nat} {here : Location} {path : List String} {place : Place}
    (h : resolve root true links here path = .ok place) :
    ∃ place', resolve root false links here path = .ok place' := by
  induction links generalizing here path with
  | zero =>
    rcases resolve_cases h with hleads | ⟨_, _, _, _, habsurd, -⟩
    · exact hleads.resolve_partway 0
    · cases habsurd
  | succ links ih =>
    rcases resolve_cases h with hleads | ⟨fewer, folder, target, rest, hfewer, hleads, hrest⟩
    · exact hleads.resolve_partway _
    · obtain rfl := Nat.succ.inj hfewer
      rcases hleads.partway with hpart | ⟨there, hpart⟩
      · rw [resolve_link hpart.walk_eq]
        exact ih hrest
      · exact ⟨.found there, resolve_arrived hpart _⟩

end Onward

namespace FileTree

/-- What a path is cut into: what is above, slashes, and a name. -/
theorem cutLast_eq {path head tail : List Char} (h : cutLast path = (head, tail)) :
    ∃ between, path = head ++ between ++ tail ∧ (∀ c ∈ between, c = '/') ∧ '/' ∉ tail ∧
      (head = [] ∨ between ≠ [] ∨ head.getLast? = some '/') := by
  obtain ⟨whole, name, hsplit, hpath, hname, hwhole⟩ := Path.splitLast_eq path
  obtain ⟨slashes, hslashes, hall, hlast⟩ := Path.dropSlashes_eq whole
  rw [cutLast, hsplit] at h
  obtain ⟨rfl, rfl⟩ := Prod.mk.inj h
  refine ⟨slashes, by rw [← hslashes, hpath], hall, hname, ?_⟩
  rcases hwhole with rfl | hslash
  · exact Or.inl rfl
  · exact Or.inr (hlast hslash)

theorem names_cutLast {path head tail : List Char} (h : cutLast path = (head, tail)) (hhead : head ≠ [])
    (htail : tail ≠ []) : head <+: path ∧
      names (String.ofList path) = names (String.ofList head) ++ [String.ofList tail] := by
  obtain ⟨between, rfl, hall, hname, hend⟩ := cutLast_eq h
  refine ⟨by rw [List.append_assoc]; exact List.prefix_append _ _, ?_⟩
  have hlast := names_name hname htail
  rcases hend with hnil | hsome | hslash
  · exact absurd hnil hhead
  · obtain ⟨c, rest, rfl⟩ := List.exists_cons_of_ne_nil hsome
    obtain rfl := hall c List.mem_cons_self
    rw [List.append_assoc, List.cons_append, names_slash,
      names_slashes_append fun c hc => hall c (List.mem_cons_of_mem _ hc), hlast]
  · obtain ⟨init, rfl⟩ := List.getLast?_eq_some_iff.1 hslash
    have hinit : names (String.ofList (init ++ ['/'])) = names (String.ofList init) :=
      names_append_slashes init (by simp)
    rw [List.append_assoc, List.append_assoc, List.singleton_append, names_slash,
      names_slashes_append hall, hlast, hinit]

/-- A path goes on from what is above by one name. -/
theorem names_cutLastName {path head tail : List Char} (h : cutLastName path = (head, tail))
    (hhead : head ≠ []) (htail : tail ≠ []) : head <+: path ∧
      names (String.ofList path) = names (String.ofList head) ++ [String.ofList tail] := by
  unfold cutLastName at h
  cases hcut : cutLast path with
  | mk above name =>
    cases name with
    | cons c rest =>
      rw [hcut] at h
      cases h
      exact names_cutLast hcut hhead htail
    | nil =>
      rw [hcut] at h
      -- Only slashes stand after `above`, which is cut in turn.
      obtain ⟨between, hpath, hall, -⟩ := cutLast_eq hcut
      rw [List.append_nil] at hpath
      obtain ⟨hinitial, hnames⟩ := names_cutLast h hhead htail
      rw [hpath, names_append_slashes above hall]
      exact ⟨hinitial.trans (List.prefix_append _ _), hnames⟩

theorem encodeErrorFrom?_initial {strayOctets : Bool} {a b : List Char} (hinitial : a <+: b) (i : Nat)
    (h : Text.encodeErrorFrom? strayOctets i b = none) : Text.encodeErrorFrom? strayOctets i a = none := by
  obtain ⟨more, rfl⟩ := hinitial
  induction a generalizing i with
  | nil => rfl
  | cons c rest ih =>
    rw [List.cons_append, Text.encodeErrorFrom?] at h
    rw [Text.encodeErrorFrom?]
    split at h
    · cases h
    · next hc =>
      rw [if_neg hc]
      exact ih _ h

theorem octetCount_append (a b : List Char) :
    Text.octetCount (String.ofList (a ++ b)) =
      Text.octetCount (String.ofList a) + Text.octetCount (String.ofList b) := by
  simp only [Text.octetCount, String.toList_ofList]
  induction a with
  | nil => simp
  | cons c rest ih => rw [List.cons_append, List.foldr_cons, List.foldr_cons, ih, Nat.add_assoc]

theorem Usable.initial {a b : List Char} (h : Usable (String.ofList b)) (hinitial : a <+: b) (ha : a ≠ []) :
    Usable (String.ofList a) := by
  refine ⟨?_, ?_, fun heq => ha ?_, fun hlong => h.short ?_⟩
  · have hnamed := h.named
    unfold Text.nameError? at hnamed ⊢
    rw [String.toList_ofList] at hnamed ⊢
    exact encodeErrorFrom?_initial hinitial 0 hnamed
  · have hwhole := h.whole
    rw [String.contains_char_eq, String.toList_ofList, decide_eq_false_iff_not] at hwhole ⊢
    exact fun hmem => hwhole (hinitial.subset hmem)
  · simpa using congrArg String.toList heq
  · obtain ⟨more, rfl⟩ := hinitial
    rw [octetCount_append]
    exact Nat.le_add_right_of_le hlong

variable {t : FileTree} {path head tail : List Char}

theorem startOf_initial {a b : List Char} (hinitial : a <+: b) (ha : a ≠ []) (t : FileTree) :
    t.startOf (String.ofList b) = t.startOf (String.ofList a) := by
  obtain ⟨more, rfl⟩ := hinitial
  obtain ⟨c, rest, rfl⟩ := List.exists_cons_of_ne_nil ha
  have hslash : (String.ofList (c :: rest ++ more)).startsWith "/" =
      (String.ofList (c :: rest)).startsWith "/" := by
    rw [Bool.eq_iff_iff, String.startsWith_string_iff, String.startsWith_string_iff]
    simp
  rw [startOf, startOf, hslash]

/-- Where a path leads, by where the path above it leads. -/
theorem place_onward (hcut : cutLastName path = (head, tail)) (hhead : head ≠ []) (htail : tail ≠ [])
    (husable : Usable (String.ofList path)) (t : FileTree) (whole : Bool) :
    ∃ fewer, t.place whole (String.ofList path) =
      (t.place true (String.ofList head)).bind (Place.onward t.root whole fewer (String.ofList tail)) := by
  obtain ⟨hinitial, hnames⟩ := names_cutLastName hcut hhead htail
  rw [place_of_usable husable, place_of_usable (husable.initial hinitial hhead), hnames,
    startOf_initial hinitial hhead]
  exact resolve_concat _ _ _ _

theorem place_of_not_has (hcut : cutLastName path = (head, tail)) (hhead : head ≠ []) (htail : tail ≠ [])
    (h : t.has (String.ofList head) = false) (whole : Bool) :
    ∃ cause, t.place whole (String.ofList path) = .error cause := by
  rcases place_cases whole (String.ofList path) with ⟨cause, hcause⟩ | husable
  · exact ⟨cause, hcause t⟩
  obtain ⟨fewer, hfewer⟩ := place_onward hcut hhead htail husable t whole
  rw [hfewer]
  cases hplace : t.place true (String.ofList head) with
  | error cause => exact ⟨cause, rfl⟩
  | ok place =>
    cases place with
    | vacant folder name => exact ⟨.missing, rfl⟩
    | found there =>
      -- Something is there that is no folder, so nothing is below it.
      refine ⟨.notFolder, resolve_not_folder (fun hfolder => ?_) fewer _ _⟩
      obtain ⟨items, hitems⟩ := Entry.faceAt?_eq_folder.1 hfolder
      rw [has, entry, hplace] at h
      simp [bind, Except.bind, hitems, Entry.isFolder, Except.toBool] at h

/-- The name for the folder itself is never vacant. -/
theorem place_dot (hcut : cutLastName path = (head, ['.'])) (hhead : head ≠ []) (t : FileTree) (whole : Bool)
    (folder : Location) (name : String) : t.place whole (String.ofList path) ≠ .ok (.vacant folder name) := by
  intro h
  obtain ⟨fewer, hfewer⟩ := place_onward hcut hhead (by simp) (usable_of_place h) t whole
  rw [hfewer] at h
  cases hplace : t.place true (String.ofList head) with
  | error cause => simp [hplace, Except.bind] at h
  | ok place =>
    cases place with
    | vacant above last => simp [hplace, Except.bind, Place.onward] at h
    | found there =>
      rw [hplace] at h
      change resolve t.root whole fewer there ["."] = _ at h
      by_cases hfolder : t.root.faceAt? there = some .folder
      · have hwalk : walk t.root whole there ["."] = .arrived (.found there) := walk_stay hfolder
        rw [resolve_arrived (leads_of_walk hwalk (by simp))] at h
        cases h
      · rw [resolve_not_folder hfolder] at h
        cases h

theorem place_error_whole {path : String} {cause : Cause} (h : t.place false path = .error cause) :
    ∃ cause', t.place true path = .error cause' := by
  cases hplace : t.place true path with
  | error cause' => exact ⟨cause', rfl⟩
  | ok place =>
    have husable := usable_of_place hplace
    rw [place_of_usable husable] at hplace h
    obtain ⟨place', hpart⟩ := resolve_partway hplace
    rw [hpart] at h
    cases h

theorem entry_of_error {path : String} {cause : Cause} (h : t.place true path = .error cause) :
    t.entry path = .error cause := by
  rw [entry, h]
  rfl

theorem has_of_error {path : String} {cause : Cause} (h : t.place true path = .error cause) :
    t.has path = false := by
  rw [has, entry_of_error h]
  rfl

theorem isFolder_of_error {path : String} {cause : Cause} (h : t.place true path = .error cause) :
    t.isFolder path = false := by
  rw [isFolder, entry_of_error h]

/-- Where a folder cannot be made for another reason than that something is there, nothing is there. -/
theorem not_has_of_makeFolder {path : String} {e : FileError} (h : t.makeFolder path = .error e)
    (hcause : e.cause ≠ .present) : t.has path = false := by
  unfold makeFolder create at h
  cases hplace : t.place false path with
  | error cause =>
    obtain ⟨cause', hwhole⟩ := place_error_whole hplace
    exact has_of_error hwhole
  | ok place =>
    cases place with
    | vacant folder name => simp [hplace] at h
    | found here =>
      rw [hplace] at h
      cases h
      exact absurd rfl hcause

/-- What comes of making a folder that may be there. -/
theorem ensureFolder_cases (t : FileTree) (path : String) :
    (∃ made, t.makeFolder path = .ok made ∧ t.ensureFolder path = (made, none)) ∨
      ∃ e, t.makeFolder path = .error e ∧ ((t.ensureFolder path = (t, none) ∧ t.isFolder path = true) ∨
        (t.ensureFolder path = (t, some e) ∧ t.isFolder path = false)) := by
  unfold ensureFolder
  cases h : t.makeFolder path with
  | ok made => exact Or.inl ⟨made, rfl, rfl⟩
  | error e =>
    refine Or.inr ⟨e, rfl, ?_⟩
    cases hfolder : t.isFolder path with
    | true => exact Or.inl ⟨rfl, rfl⟩
    | false => exact Or.inr ⟨rfl, rfl⟩

theorem makeFolder_again {t' : FileTree} {path : String} (h : t.makeFolder path = .ok t') :
    t'.makeFolder path = .error ⟨.present, path⟩ := by
  obtain ⟨above, name, hfolder, hnone, rfl, hplace⟩ := makeFolder_ok h
  obtain ⟨hgrows, hnew⟩ := setAt_folder_grows hfolder hnone
  rw [makeFolder, create, hgrows.place_filled hnew (by simp) hplace]

/-- A folder that has been made, or cannot be, is not made again. -/
theorem ensureFolder_again (t : FileTree) (path : String) :
    ((t.ensureFolder path).1.ensureFolder path).1 = (t.ensureFolder path).1 := by
  have hkept : ∀ {t : FileTree} {e : FileError}, t.makeFolder path = .error e →
      (t.ensureFolder path).1 = t := by
    intro t e h
    rw [ensureFolder, h]
    dsimp only
    split <;> rfl
  cases h : t.makeFolder path with
  | ok made =>
    have hmade : t.ensureFolder path = (made, none) := by rw [ensureFolder, h]
    rw [hmade]
    exact hkept (makeFolder_again h)
  | error e => rw [hkept h, hkept h]

theorem has_grows {t' : FileTree} (hg : t.GrowsTo (fun _ => False) t') {path : String}
    (h : t.has path = true) : t'.has path = true := by
  unfold has entry at h ⊢
  cases hplace : t.place true path with
  | error cause => simp [hplace, bind, Except.bind, Except.toBool] at h
  | ok place =>
    cases place with
    | vacant folder name => simp [hplace, bind, Except.bind, Except.toBool] at h
    | found here =>
      cases hget : t.root.get? here with
      | none => simp [hplace, hget, bind, Except.bind, Except.toBool] at h
      | some e =>
        -- What is found shows the same later, so it is a folder if it was one.
        have hface : t.root.faceAt? here = some e.face := by rw [Entry.faceAt?, hget, Option.map_some]
        obtain ⟨e', hget', hsame⟩ : ∃ e', t'.root.get? here = some e' ∧ e'.face = e.face := by
          rcases hg.root.kept here _ hface with hkept | ⟨habsurd, -⟩
          · exact Option.map_eq_some_iff.1 hkept
          · exact absurd habsurd not_false
        have hfolder : e'.isFolder = e.isFolder := by
          cases e <;> cases e' <;> first | rfl | cases hsame
        simp only [hplace, hget, bind, Except.bind] at h
        simp only [hg.place_found hplace, hget', bind, Except.bind, hfolder]
        split at h
        · cases h
        · next hslash =>
          rw [if_neg hslash]
          rfl

/-- The folder above a path is not there, so it is made first. -/
structure Climbs (t : FileTree) (path head tail : List Char) : Prop where
  cut : cutLastName path = (head, tail)
  above : head ≠ []
  name : tail ≠ []
  absent : t.has (String.ofList head) = false

namespace Climbs

theorem before {t' : FileTree} (h : Climbs t' path head tail) (hg : t.GrowsTo (fun _ => False) t') :
    Climbs t path head tail := by
  refine ⟨h.cut, h.above, h.name, ?_⟩
  cases hhas : t.has (String.ofList head) with
  | false => rfl
  | true => exact absurd (has_grows hg hhas) (by simp [h.absent])

theorem not_has (h : Climbs t path head tail) : t.has (String.ofList path) = false := by
  obtain ⟨cause, hplace⟩ := place_of_not_has h.cut h.above h.name h.absent true
  exact has_of_error hplace

theorem ensureFolder_eq (h : Climbs t path head tail) :
    ∃ e, t.ensureFolder (String.ofList path) = (t, some e) ∧ e.cause ≠ .present := by
  obtain ⟨cause, hplace⟩ := place_of_not_has h.cut h.above h.name h.absent false
  obtain ⟨cause', hwhole⟩ := place_of_not_has h.cut h.above h.name h.absent true
  refine ⟨⟨cause, String.ofList path⟩, ?_, ?_⟩
  · have hmake : t.makeFolder (String.ofList path) = .error ⟨cause, String.ofList path⟩ := by
      rw [makeFolder, create, hplace]
    rw [ensureFolder, hmake]
    dsimp only
    rw [isFolder_of_error hwhole]
    rfl
  · rintro rfl
    exact place_ne_present t false _ hplace

variable {fuel : Nat}

theorem blocked (h : Climbs t path head tail) {made : FileTree} {e : FileError}
    (hmade : makeFoldersWith fuel t head = (made, some e)) (he : e.cause ≠ .present) :
    makeFoldersWith (fuel + 1) t path = (made, some e) := by
  rw [makeFoldersWith, h.cut]
  dsimp only
  rw [if_neg (by simp [h.above, h.name, h.absent]), hmade]
  dsimp only
  rw [if_neg he]

theorem onward (h : Climbs t path head tail) {made : FileTree} {error : Option FileError}
    (hmade : makeFoldersWith fuel t head = (made, error)) (he : ∀ e, error = some e → e.cause = .present) :
    makeFoldersWith (fuel + 1) t path =
      if tail = ['.'] then (made, none) else made.ensureFolder (String.ofList path) := by
  rw [makeFoldersWith, h.cut]
  dsimp only
  rw [if_neg (by simp [h.above, h.name, h.absent]), hmade]
  cases error with
  | none => rfl
  | some e =>
    dsimp only
    rw [if_pos (he e rfl)]

end Climbs

theorem makeFoldersWith_of_not_climbs (h : ∀ head tail, ¬Climbs t path head tail) (fuel : Nat) :
    makeFoldersWith fuel t path = t.ensureFolder (String.ofList path) := by
  cases fuel with
  | zero => rfl
  | succ fuel =>
    rw [makeFoldersWith]
    dsimp only
    rw [if_pos]
    by_contra hnot
    simp only [Bool.or_eq_true, List.isEmpty_iff, not_or, Bool.not_eq_true] at hnot
    obtain ⟨⟨habove, hname⟩, habsent⟩ := hnot
    exact h _ _ ⟨rfl, habove, hname, habsent⟩

theorem makeFoldersWith_of_has (hcut : cutLastName path = (head, tail))
    (h : t.has (String.ofList head) = true) (fuel : Nat) :
    makeFoldersWith fuel t path = t.ensureFolder (String.ofList path) := by
  refine makeFoldersWith_of_not_climbs (fun head' tail' hclimb => ?_) fuel
  obtain ⟨rfl, rfl⟩ := Prod.mk.inj (hcut.symm.trans hclimb.cut)
  exact absurd h (by simp [hclimb.absent])

theorem not_has_of_ensureFolder {made : FileTree} {path : String} {e : FileError}
    (h : t.ensureFolder path = (made, some e)) (he : e.cause ≠ .present) : made.has path = false := by
  rcases ensureFolder_cases t path with ⟨_, _, hok⟩ | ⟨e', hmake, ⟨hok, -⟩ | ⟨herror, -⟩⟩
  · rw [hok] at h
    cases h
  · rw [hok] at h
    cases h
  · rw [herror] at h
    cases h
    exact not_has_of_makeFolder hmake he

theorem blocked_or_present (error : Option FileError) :
    (∃ e, error = some e ∧ e.cause ≠ .present) ∨ ∀ e, error = some e → e.cause = .present := by
  cases error with
  | none => exact Or.inr (by simp)
  | some e =>
    by_cases he : e.cause = .present
    · exact Or.inr fun _ heq => Option.some.inj heq ▸ he
    · exact Or.inl ⟨e, rfl, he⟩

/-- Folders that cannot be made for another reason than that something is there are not there. -/
theorem not_has_of_makeFoldersWith {fuel : Nat} {made : FileTree} {e : FileError}
    (h : makeFoldersWith fuel t path = (made, some e)) (he : e.cause ≠ .present) :
    made.has (String.ofList path) = false := by
  induction fuel generalizing path made e with
  | zero => exact not_has_of_ensureFolder h he
  | succ fuel ih =>
    by_cases hclimb : ∃ head tail, Climbs t path head tail
    · obtain ⟨head, tail, hclimb⟩ := hclimb
      obtain ⟨above, error, habove⟩ : ∃ above error, makeFoldersWith fuel t head = (above, error) :=
        ⟨_, _, rfl⟩
      rcases blocked_or_present error with ⟨e', rfl, he'⟩ | hpresent
      · rw [hclimb.blocked habove he'] at h
        cases h
        exact Climbs.not_has ⟨hclimb.cut, hclimb.above, hclimb.name, ih habove he⟩
      · rw [hclimb.onward habove hpresent] at h
        split at h
        · cases h
        · exact not_has_of_ensureFolder h he
    · rw [makeFoldersWith_of_not_climbs (fun head tail hc => hclimb ⟨head, tail, hc⟩)] at h
      exact not_has_of_ensureFolder h he

/-- What is left when folders have been made: making them again changes nothing, and what could not be made
still cannot. -/
structure Settled (fuel : Nat) (path : List Char) (made : FileTree) (error : Option FileError) : Prop where
  same : (makeFoldersWith fuel made path).1 = made
  fails : ∀ e, error = some e → ∃ e', (makeFoldersWith fuel made path).2 = some e' ∧
    (e.cause ≠ .present → e'.cause ≠ .present)

theorem ensureFolder_settled {made : FileTree} {error : Option FileError} {fuel : Nat}
    (h : t.ensureFolder (String.ofList path) = (made, error))
    (hagain : makeFoldersWith fuel made path = made.ensureFolder (String.ofList path)) :
    Settled fuel path made error := by
  have hsame := ensureFolder_again t (String.ofList path)
  rw [h] at hsame
  refine ⟨by rw [hagain, hsame], ?_⟩
  rintro e rfl
  rcases ensureFolder_cases t (String.ofList path) with ⟨_, _, hok⟩ | ⟨e', hmake, ⟨hok, -⟩ | ⟨herror, -⟩⟩
  · rw [hok] at h
    cases h
  · rw [hok] at h
    cases h
  · rw [herror] at h
    cases h
    exact ⟨e, by rw [hagain, herror], id⟩

/-- The name of the folder itself is not made. -/
theorem ensureFolder_dot (hcut : cutLastName path = (head, ['.'])) (hhead : head ≠ []) (t : FileTree) :
    (t.ensureFolder (String.ofList path)).1 = t := by
  rcases ensureFolder_cases t (String.ofList path) with ⟨made, hmake, _⟩ | ⟨_, _, ⟨hok, -⟩ | ⟨herror, -⟩⟩
  · obtain ⟨above, name, -, -, -, hplace⟩ := makeFolder_ok hmake
    exact absurd hplace (place_dot hcut hhead t false above name)
  · rw [hok]
  · rw [herror]

namespace Climbs

variable {fuel : Nat} {above : FileTree}

/-- Where nothing more can be made above, nothing is made. -/
theorem stays (h : Climbs t path head tail) (hsame : (makeFoldersWith fuel t head).1 = t) :
    (makeFoldersWith (fuel + 1) t path).1 = t ∧
      (tail ≠ ['.'] → ∃ e, (makeFoldersWith (fuel + 1) t path).2 = some e ∧ e.cause ≠ .present) := by
  obtain ⟨error, habove⟩ : ∃ error, makeFoldersWith fuel t head = (t, error) := ⟨_, Prod.ext hsame rfl⟩
  rcases blocked_or_present error with ⟨e, rfl, he⟩ | hpresent
  · rw [h.blocked habove he]
    exact ⟨rfl, fun _ => ⟨e, rfl, he⟩⟩
  · rw [h.onward habove hpresent]
    by_cases hdot : tail = ['.']
    · rw [if_pos hdot]
      exact ⟨rfl, fun hne => absurd hdot hne⟩
    · obtain ⟨e, he, hcause⟩ := h.ensureFolder_eq
      rw [if_neg hdot, he]
      exact ⟨rfl, fun _ => ⟨e, rfl, hcause⟩⟩

theorem settled_blocked (h : Climbs t path head tail) {e : FileError}
    (habove : makeFoldersWith fuel t head = (above, some e)) (he : e.cause ≠ .present)
    (hsettled : Settled fuel head above (some e)) : Settled (fuel + 1) path above (some e) := by
  have hstill : Climbs above path head tail :=
    ⟨h.cut, h.above, h.name, not_has_of_makeFoldersWith habove he⟩
  obtain ⟨e', he', hcause⟩ := hsettled.fails e rfl
  have hagain : makeFoldersWith fuel above head = (above, some e') := Prod.ext hsettled.same he'
  have hblocked := hstill.blocked hagain (hcause he)
  refine ⟨by rw [hblocked], ?_⟩
  rintro _ ⟨⟩
  exact ⟨e', by rw [hblocked], fun _ => hcause he⟩

theorem settled_dot (h : Climbs t path head ['.']) (hsame : (makeFoldersWith fuel above head).1 = above) :
    Settled (fuel + 1) path above none := by
  refine ⟨?_, by simp⟩
  cases hhas : above.has (String.ofList head) with
  | true => rw [makeFoldersWith_of_has h.cut hhas, ensureFolder_dot h.cut h.above]
  | false => exact (stays ⟨h.cut, h.above, h.name, hhas⟩ hsame).1

theorem settled_made (h : Climbs t path head tail) (hdot : tail ≠ ['.'])
    (hsame : (makeFoldersWith fuel above head).1 = above) {made : FileTree} {error : Option FileError}
    (hmade : above.ensureFolder (String.ofList path) = (made, error)) :
    Settled (fuel + 1) path made error := by
  cases hhas : made.has (String.ofList head) with
  | true => exact ensureFolder_settled hmade (makeFoldersWith_of_has h.cut hhas _)
  | false =>
    -- The folder above is there neither now nor before, so nothing was made.
    have hstill : Climbs above path head tail := by
      have hgrows := ensureFolder_keeps (.refl _) makeFolder_grows above (String.ofList path)
      rw [hmade] at hgrows
      exact before ⟨h.cut, h.above, h.name, hhas⟩ hgrows
    obtain ⟨e, he, -⟩ := hstill.ensureFolder_eq
    rw [he] at hmade
    obtain ⟨rfl, rfl⟩ := Prod.mk.inj hmade
    obtain ⟨hstays, hfails⟩ := hstill.stays hsame
    obtain ⟨e', he', hcause⟩ := hfails hdot
    refine ⟨hstays, ?_⟩
    rintro _ ⟨⟩
    exact ⟨e', he', fun _ => hcause⟩

end Climbs

theorem makeFoldersWith_settled (fuel : Nat) (t : FileTree) (path : List Char) {made : FileTree}
    {error : Option FileError} (h : makeFoldersWith fuel t path = (made, error)) :
    Settled fuel path made error := by
  induction fuel generalizing path made error with
  | zero => exact ensureFolder_settled h rfl
  | succ fuel ih =>
    by_cases hclimb : ∃ head tail, Climbs t path head tail
    · obtain ⟨head, tail, hclimb⟩ := hclimb
      obtain ⟨above, first, habove⟩ : ∃ above first, makeFoldersWith fuel t head = (above, first) := ⟨_, _, rfl⟩
      have hsettled := ih head habove
      rcases blocked_or_present first with ⟨e, rfl, he⟩ | hpresent
      · rw [hclimb.blocked habove he] at h
        obtain ⟨rfl, rfl⟩ := Prod.mk.inj h
        exact hclimb.settled_blocked habove he hsettled
      · rw [hclimb.onward habove hpresent] at h
        by_cases hdot : tail = ['.']
        · subst hdot
          rw [if_pos rfl] at h
          obtain ⟨rfl, rfl⟩ := Prod.mk.inj h
          exact hclimb.settled_dot hsettled.same
        · rw [if_neg hdot] at h
          exact hclimb.settled_made hdot hsettled.same h
    · have hnot : ∀ head tail, ¬Climbs t path head tail := fun head tail hc => hclimb ⟨head, tail, hc⟩
      have hgrows : t.GrowsTo (fun _ => False) made := by
        have hall := makeFoldersWith_grows (fuel + 1) t path
        rwa [h] at hall
      rw [makeFoldersWith_of_not_climbs hnot] at h
      exact ensureFolder_settled h
        (makeFoldersWith_of_not_climbs (fun head tail hc => hnot head tail (hc.before hgrows)) _)

/-- Making folders that have been made changes nothing, and those that cannot be made still cannot. -/
theorem makeFolders_again {made : FileTree} {error : Option FileError} {path : String}
    (h : t.makeFolders path = (made, error)) :
    (made.makeFolders path).1 = made ∧ (error ≠ none → (made.makeFolders path).2 ≠ none) := by
  have hsettled := makeFoldersWith_settled path.length t path.toList h
  refine ⟨hsettled.same, fun herror => ?_⟩
  obtain ⟨e, rfl⟩ := Option.ne_none_iff_exists'.1 herror
  obtain ⟨e', he', -⟩ := hsettled.fails e rfl
  rw [makeFolders, he']
  exact Option.some_ne_none e'

end FileTree

end SourceOutline.Files
