import SourceOutline.Proofs.Placement

/-!
Trees that only grow: folders and links stay, files are at most written anew, and nothing becomes a link.
Making folders and writing files let a tree grow, and what has been written is read again.
-/
namespace SourceOutline.Files

/-- A tree has grown to another. What showed before still does, except that files at the locations `written`
may have got another content; and there are no new links. -/
structure Grows (written : Location → Prop) (root root' : Entry) : Prop where
  kept : ∀ here face, root.faceAt? here = some face → root'.faceAt? here = some face ∨
    written here ∧ (∃ old, face = .file old) ∧ ∃ new, root'.faceAt? here = some (.file new)
  links : ∀ here target, root'.faceAt? here = some (.link target) → root.faceAt? here = some (.link target)

namespace Grows

variable {written more : Location → Prop} {root root' root'' : Entry} {here : Location}

theorem refl (written : Location → Prop) (root : Entry) : Grows written root root :=
  ⟨fun _ _ h => Or.inl h, fun _ _ h => h⟩

theorem folder (hg : Grows written root root') (h : root.faceAt? here = some .folder) :
    root'.faceAt? here = some .folder := by
  rcases hg.kept here _ h with hsame | ⟨-, ⟨old, hold⟩, -⟩
  · exact hsame
  · cases hold

theorem link (hg : Grows written root root') {target : String}
    (h : root.faceAt? here = some (.link target)) : root'.faceAt? here = some (.link target) := by
  rcases hg.kept here _ h with hsame | ⟨-, ⟨old, hold⟩, -⟩
  · exact hsame
  · cases hold

theorem file (hg : Grows written root root') {content : ByteArray}
    (h : root.faceAt? here = some (.file content)) : ∃ new, root'.faceAt? here = some (.file new) := by
  rcases hg.kept here _ h with hsame | ⟨-, -, hnew⟩
  · exact ⟨content, hsame⟩
  · exact hnew

/-- A file that is not written keeps its content. -/
theorem content (hg : Grows written root root') (hhere : ¬written here) {content : ByteArray}
    (h : root.faceAt? here = some (.file content)) : root'.faceAt? here = some (.file content) := by
  rcases hg.kept here _ h with hsame | ⟨hwritten, -⟩
  · exact hsame
  · exact absurd hwritten hhere

theorem mono (hg : Grows written root root') (hsub : ∀ here, written here → more here) :
    Grows more root root' := by
  refine ⟨fun here face h => ?_, hg.links⟩
  rcases hg.kept here face h with hsame | ⟨hwritten, hold, hnew⟩
  · exact Or.inl hsame
  · exact Or.inr ⟨hsub here hwritten, hold, hnew⟩

theorem trans (hg : Grows written root root') (hg' : Grows written root' root'') :
    Grows written root root'' := by
  refine ⟨fun here face h => ?_, fun here target h => hg.links _ _ (hg'.links _ _ h)⟩
  rcases hg.kept here face h with hsame | ⟨hwritten, hold, new, hnew⟩
  · exact hg'.kept here face hsame
  · exact Or.inr ⟨hwritten, hold, hg'.file hnew⟩

theorem noLinks (hg : Grows written root root') (h : NoLinks root here) : NoLinks root' here :=
  fun below target hlink => h below target (hg.links _ _ hlink)

/-- An entry that is no link is none later. -/
theorem not_link (hg : Grows written root root') {face : Face} (h : root.faceAt? here = some face)
    (hface : ∀ target, face ≠ .link target) :
    ∃ new, root'.faceAt? here = some new ∧ ∀ target, new ≠ .link target := by
  rcases hg.kept here face h with hsame | ⟨-, -, new, hnew⟩
  · exact ⟨face, hsame, hface⟩
  · exact ⟨_, hnew, by simp⟩

end Grows

section Walk

variable {written : Location → Prop} {root root' : Entry} {whole : Bool} {here : Location}
  {path : List String}

/-- What a walk met it meets later. -/
theorem Leads.grows {w : Walk} (h : Leads root whole here path w) (hg : Grows written root root')
    (hw : ∀ folder name, w ≠ .arrived (.vacant folder name)) : Leads root' whole here path w := by
  induction h with
  | stop here => exact .stop here
  | stay hhere _ ih => exact .stay (hg.folder hhere) (ih hw)
  | up hhere _ ih => exact .up (hg.folder hhere) (ih hw)
  | into hhere hname hnext hface _ ih =>
    obtain ⟨new, hnew, hface'⟩ := hg.not_link hnext hface
    exact .into (hg.folder hhere) hname hnew hface' (ih hw)
  | vacant _ _ _ => exact absurd rfl (hw _ _)
  | atLink hhere hname hnext hwhole => exact .atLink (hg.folder hhere) hname (hg.link hnext) hwhole
  | link hhere hname hnext hrest => exact .link (hg.folder hhere) hname (hg.link hnext) hrest

/-- What has been put in a vacant place is found there. -/
theorem Leads.fill {folder : Location} {name : String} {face : Face}
    (h : Leads root whole here path (.arrived (.vacant folder name))) (hg : Grows written root root')
    (hnew : root'.faceAt? (folder ++ [name]) = some face) (hface : ∀ target, face ≠ .link target) :
    Leads root' whole here path (.arrived (.found (folder ++ [name]))) := by
  generalize hw : Walk.arrived (.vacant folder name) = w at h
  induction h with
  | stop here => cases hw
  | stay hhere _ ih => exact .stay (hg.folder hhere) (ih hw)
  | up hhere _ ih => exact .up (hg.folder hhere) (ih hw)
  | into hhere hname hnext hnolink _ ih =>
    obtain ⟨new, hnew', hface'⟩ := hg.not_link hnext hnolink
    exact .into (hg.folder hhere) hname hnew' hface' (ih hw)
  | vacant hhere hname _ =>
    cases hw
    exact .into (hg.folder hhere) hname hnew hface (.stop _)
  | atLink _ _ _ _ => cases hw
  | link _ _ _ _ => cases hw

theorem resolve_grows {there : Location} {links : Nat} (hg : Grows written root root')
    (h : resolve root whole links here path = .ok (.found there)) :
    resolve root' whole links here path = .ok (.found there) := by
  induction links generalizing here path with
  | zero =>
    rcases resolve_cases h with hleads | ⟨_, _, _, _, habsurd, -⟩
    · exact resolve_arrived (hleads.grows hg (by simp)) 0
    · cases habsurd
  | succ links ih =>
    rcases resolve_cases h with hleads | ⟨fewer, folder, target, rest, hfewer, hleads, hrest⟩
    · exact resolve_arrived (hleads.grows hg (by simp)) _
    · obtain rfl := Nat.succ.inj hfewer
      rw [resolve_link (hleads.grows hg (by simp)).walk_eq]
      exact ih hrest

theorem resolve_fill {folder : Location} {name : String} {face : Face} {links : Nat}
    (hg : Grows written root root') (hnew : root'.faceAt? (folder ++ [name]) = some face)
    (hface : ∀ target, face ≠ .link target)
    (h : resolve root whole links here path = .ok (.vacant folder name)) :
    resolve root' whole links here path = .ok (.found (folder ++ [name])) := by
  induction links generalizing here path with
  | zero =>
    rcases resolve_cases h with hleads | ⟨_, _, _, _, habsurd, -⟩
    · exact resolve_arrived (hleads.fill hg hnew hface) 0
    · cases habsurd
  | succ links ih =>
    rcases resolve_cases h with hleads | ⟨fewer, above, target, rest, hfewer, hleads, hrest⟩
    · exact resolve_arrived (hleads.fill hg hnew hface) _
    · obtain rfl := Nat.succ.inj hfewer
      rw [resolve_link (hleads.grows hg (by simp)).walk_eq]
      exact ih hrest

end Walk

namespace FileTree

/-- A tree has grown to another, seen from the same folder. -/
structure GrowsTo (written : Location → Prop) (t t' : FileTree) : Prop where
  root : Grows written t.root t'.root
  cwd : t'.cwd = t.cwd

namespace GrowsTo

variable {written more : Location → Prop} {t t' t'' : FileTree}

theorem refl (written : Location → Prop) (t : FileTree) : t.GrowsTo written t :=
  ⟨.refl written t.root, rfl⟩

theorem trans (h : t.GrowsTo written t') (h' : t'.GrowsTo written t'') : t.GrowsTo written t'' :=
  ⟨h.root.trans h'.root, h'.cwd.trans h.cwd⟩

theorem mono (h : t.GrowsTo written t') (hsub : ∀ here, written here → more here) : t.GrowsTo more t' :=
  ⟨h.root.mono hsub, h.cwd⟩

theorem startOf (h : t.GrowsTo written t') (path : String) : t'.startOf path = t.startOf path := by
  rw [FileTree.startOf, FileTree.startOf, h.cwd]

theorem place_found (h : t.GrowsTo written t') {whole : Bool} {path : String} {here : Location}
    (hplace : t.place whole path = .ok (.found here)) : t'.place whole path = .ok (.found here) := by
  have husable := usable_of_place hplace
  rw [place_of_usable husable] at hplace ⊢
  rw [h.startOf]
  exact resolve_grows h.root hplace

theorem place_filled (h : t.GrowsTo written t') {whole : Bool} {path : String} {folder : Location}
    {name : String} {face : Face} (hnew : t'.root.faceAt? (folder ++ [name]) = some face)
    (hface : ∀ target, face ≠ .link target) (hplace : t.place whole path = .ok (.vacant folder name)) :
    t'.place whole path = .ok (.found (folder ++ [name])) := by
  have husable := usable_of_place hplace
  rw [place_of_usable husable] at hplace ⊢
  rw [h.startOf]
  exact resolve_fill h.root hnew hface hplace

end GrowsTo

/-- A place in a folder that may be written: nothing is there, or a file. -/
structure Writable (root : Entry) (above : Location) (name : String) : Prop where
  folder : root.faceAt? above = some .folder
  free : root.faceAt? (above ++ [name]) = none ∨ ∃ old, root.faceAt? (above ++ [name]) = some (.file old)

theorem Writable.not_folder {root : Entry} {above : Location} {name : String}
    (h : Writable root above name) : root.faceAt? (above ++ [name]) ≠ some .folder := by
  rcases h.free with hnone | ⟨old, hfile⟩
  · simp [hnone]
  · simp [hfile]

theorem file_below (content : ByteArray) (below : Location) (h : below ≠ []) :
    (Entry.file content).get? below = none := by
  obtain ⟨name, rest, rfl⟩ := List.exists_cons_of_ne_nil h
  rfl

theorem emptyFolder_below (below : Location) (h : below ≠ []) :
    (Entry.folder []).get? below = none := by
  obtain ⟨name, rest, rfl⟩ := List.exists_cons_of_ne_nil h
  rfl

section Changes

variable {t t' : FileTree} {path : String}

/-- Writing a file at a location lets a tree grow, and only that file may change. -/
theorem setAt_file_grows {above : Location} {name : String} (h : Writable t.root above name)
    (content : ByteArray) :
    t.GrowsTo (· = above ++ [name]) (t.setAt (above ++ [name]) (.file content)) ∧
      (t.setAt (above ++ [name]) (.file content)).root.faceAt? (above ++ [name]) =
        some (.file content) := by
  have hset := Entry.faceAt?_set h.folder h.not_folder (file_below content)
  refine ⟨⟨⟨fun here face hface => ?_, fun here target hlink => ?_⟩, rfl⟩, ?_⟩
  · by_cases hhere : here = above ++ [name]
    · subst hhere
      refine Or.inr ⟨rfl, ?_, content, by rw [setAt, hset, if_pos rfl]; rfl⟩
      rcases h.free with hnone | ⟨old, hold⟩
      · rw [hnone] at hface
        cases hface
      · exact ⟨old, Option.some.inj (hface.symm.trans hold)⟩
    · left
      rw [setAt, hset, if_neg hhere, hface]
  · rw [setAt, hset] at hlink
    split at hlink
    · cases Option.some.inj hlink
    · exact hlink
  · rw [setAt, hset, if_pos rfl]
    rfl

/-- Making a folder at a vacant location lets a tree grow, and no file changes. -/
theorem setAt_folder_grows {above : Location} {name : String} (hfolder : t.root.faceAt? above = some .folder)
    (hnone : t.root.faceAt? (above ++ [name]) = none) :
    t.GrowsTo (fun _ => False) (t.setAt (above ++ [name]) (.folder [])) ∧
      (t.setAt (above ++ [name]) (.folder [])).root.faceAt? (above ++ [name]) = some .folder := by
  have hold : t.root.faceAt? (above ++ [name]) ≠ some .folder := by simp [hnone]
  have hset := Entry.faceAt?_set hfolder hold emptyFolder_below
  refine ⟨⟨⟨fun here face hface => ?_, fun here target hlink => ?_⟩, rfl⟩, ?_⟩
  · left
    rw [setAt, hset, if_neg (by rintro rfl; simp [hnone] at hface), hface]
  · rw [setAt, hset] at hlink
    split at hlink
    · cases Option.some.inj hlink
    · exact hlink
  · rw [setAt, hset, if_pos rfl]
    rfl

/-- What writing a file does. -/
theorem write_ok {content : ByteArray} (hroot : t.root.faceAt? [] = some .folder)
    (h : t.write path content = .ok t') :
    ∃ above name, Writable t.root above name ∧ t' = t.setAt (above ++ [name]) (.file content) ∧
      path.endsWith "/" = false ∧
      (t.place true path = .ok (.found (above ++ [name])) ∨
        t.place true path = .ok (.vacant above name)) := by
  unfold write at h
  by_cases hslash : path.endsWith "/" = true
  · rw [if_pos hslash] at h
    cases hfolder : t.folderOf path <;> simp [hfolder] at h
  rw [if_neg hslash] at h
  cases hplace : t.place true path with
  | error cause => simp [hplace] at h
  | ok place =>
    have hsound := place_sound hroot hplace
    cases place with
    | vacant above name =>
      obtain ⟨hfolder, hnone⟩ := hsound
      rw [hplace] at h
      exact ⟨above, name, ⟨hfolder, Or.inl hnone⟩, (Except.ok.inj h).symm, by simpa using hslash,
        Or.inr rfl⟩
    | found here =>
      obtain ⟨face, hface, hnolink⟩ := hsound
      cases face with
      | link target => exact absurd rfl (hnolink rfl target)
      | folder =>
        obtain ⟨items, hitems⟩ := Entry.faceAt?_eq_folder.1 hface
        simp [hplace, hitems] at h
      | file old =>
        have hget := Entry.faceAt?_eq_file.1 hface
        have hne : here ≠ [] := by
          rintro rfl
          rw [hroot] at hface
          cases hface
        obtain ⟨above, name, rfl⟩ : ∃ above name, here = above ++ [name] :=
          ⟨here.dropLast, here.getLast hne, (List.dropLast_concat_getLast hne).symm⟩
        simp only [hplace, hget] at h
        exact ⟨above, name, ⟨Entry.folder_above hface (by simp), Or.inr ⟨old, hface⟩⟩,
          (Except.ok.inj h).symm, by simpa using hslash, Or.inl rfl⟩

/-- What making a folder does. -/
theorem makeFolder_ok (h : t.makeFolder path = .ok t') :
    ∃ above name, t.root.faceAt? above = some .folder ∧ t.root.faceAt? (above ++ [name]) = none ∧
      t' = t.setAt (above ++ [name]) (.folder []) ∧ t.place false path = .ok (.vacant above name) := by
  unfold makeFolder create at h
  cases hplace : t.place false path with
  | error cause => simp [hplace] at h
  | ok place =>
    cases place with
    | found here => simp [hplace] at h
    | vacant above name =>
      have hsound := place_sound (rooted_of_vacant hplace) hplace
      rw [hplace] at h
      exact ⟨above, name, hsound.1, hsound.2, (Except.ok.inj h).symm, rfl⟩

theorem makeFolder_grows (h : t.makeFolder path = .ok t') : t.GrowsTo (fun _ => False) t' := by
  obtain ⟨above, name, hfolder, hnone, rfl, -⟩ := makeFolder_ok h
  exact (setAt_folder_grows hfolder hnone).1

section Kept

variable {R : FileTree → FileTree → Prop} (hrefl : ∀ t, R t t)
  (htrans : ∀ {t t' t''}, R t t' → R t' t'' → R t t'')
  (hstep : ∀ {t t' path}, t.makeFolder path = .ok t' → R t t')

include hrefl hstep

theorem ensureFolder_keeps (t : FileTree) (path : String) : R t (t.ensureFolder path).1 := by
  unfold ensureFolder
  cases h : t.makeFolder path with
  | ok made => exact hstep h
  | error e =>
    dsimp only
    split
    · exact hrefl t
    · exact hrefl t

include htrans

/-- What the making of each folder keeps is kept when folders are made with those above them. -/
theorem makeFoldersWith_keeps (fuel : Nat) (t : FileTree) (path : List Char) :
    R t (makeFoldersWith fuel t path).1 := by
  induction fuel generalizing path with
  | zero => exact ensureFolder_keeps hrefl hstep t _
  | succ fuel ih =>
    rw [makeFoldersWith]
    dsimp only
    split
    · exact ensureFolder_keeps hrefl hstep t _
    · have habove := ih (cutLastName path).1
      have hthen : R t ((makeFoldersWith fuel t (cutLastName path).1).1.ensureFolder (String.ofList path)).1 :=
        htrans habove (ensureFolder_keeps hrefl hstep _ _)
      cases hmade : makeFoldersWith fuel t (cutLastName path).1 with
      | mk made error =>
        rw [hmade] at habove hthen
        cases error with
        | none =>
          dsimp only
          split
          · exact habove
          · exact hthen
        | some e =>
          dsimp only
          split
          · split
            · exact habove
            · exact hthen
          · exact habove

end Kept

theorem makeFoldersWith_grows (fuel : Nat) (t : FileTree) (path : List Char) :
    t.GrowsTo (fun _ => False) (makeFoldersWith fuel t path).1 :=
  makeFoldersWith_keeps (.refl _) .trans makeFolder_grows fuel t path

/-- Making folders lets a tree grow, and no file changes. -/
theorem makeFolders_grows (t : FileTree) (path : String) : t.GrowsTo (fun _ => False) (t.makeFolders path).1 :=
  makeFoldersWith_grows _ t _

end Changes

section Contents

/-- The content of the file at a location. -/
def fileAt? (t : FileTree) (here : Location) : Option ByteArray :=
  match t.root.get? here with
  | some (.file content) => some content
  | _ => none

variable {t t' : FileTree} {path : String}

theorem fileAt?_eq_some {here : Location} {content : ByteArray} :
    t.fileAt? here = some content ↔ t.root.faceAt? here = some (.file content) := by
  rw [Entry.faceAt?_eq_file, fileAt?]
  cases t.root.get? here with
  | none => simp
  | some e => cases e <;> simp

theorem fileAt?_congr {here : Location} (h : t'.root.faceAt? here = t.root.faceAt? here) :
    t'.fileAt? here = t.fileAt? here := by
  refine Option.ext fun content => ?_
  rw [fileAt?_eq_some, fileAt?_eq_some, h]

theorem makeFolder_fileAt? (h : t.makeFolder path = .ok t') : t'.fileAt? = t.fileAt? := by
  obtain ⟨above, name, hfolder, hnone, rfl, -⟩ := makeFolder_ok h
  have hold : t.root.faceAt? (above ++ [name]) ≠ some .folder := by simp [hnone]
  have hset := Entry.faceAt?_set hfolder hold emptyFolder_below
  funext there
  by_cases hthere : there = above ++ [name]
  · subst hthere
    refine Option.ext fun content => ?_
    rw [fileAt?_eq_some, fileAt?_eq_some, setAt, hset, if_pos rfl, hnone]
    simp [Entry.face]
  · refine fileAt?_congr ?_
    rw [setAt, hset, if_neg hthere]

theorem makeFolders_fileAt? (t : FileTree) (path : String) : (t.makeFolders path).1.fileAt? = t.fileAt? := by
  have hkeeps := @makeFoldersWith_keeps (fun t t' => t'.fileAt? = t.fileAt?) (fun _ => rfl)
    (fun h h' => h'.trans h) makeFolder_fileAt?
  exact hkeeps _ t _

theorem rooted_of_write {content : ByteArray} (h : t.write path content = .ok t') :
    t.root.faceAt? [] = some .folder := by
  unfold write at h
  by_cases hslash : path.endsWith "/" = true
  · rw [if_pos hslash] at h
    cases hfolder : t.folderOf path <;> simp [hfolder] at h
  rw [if_neg hslash] at h
  cases hplace : t.place true path with
  | error cause => simp [hplace] at h
  | ok place =>
    have hempty := (usable_of_place hplace).nonempty
    exact rooted_of_place hplace (names_ne_nil hempty (by simpa using hslash))

/-- One file has got a content, and the content of no other file is changed. -/
def WroteAlone (t : FileTree) (path : String) (content : ByteArray) (t' : FileTree) : Prop :=
  ∃ here, t'.place true path = .ok (.found here) ∧ t'.read path = .ok content ∧
    ∀ there, t'.fileAt? there = if there = here then some content else t.fileAt? there

theorem write_wroteAlone {content : ByteArray} (h : t.write path content = .ok t') :
    t.WroteAlone path content t' := by
  obtain ⟨above, name, hwritable, rfl, hslash, hplace⟩ := write_ok (rooted_of_write h) h
  obtain ⟨hgrows, hnew⟩ := setAt_file_grows hwritable content
  have hfound : (t.setAt (above ++ [name]) (.file content)).place true path =
      .ok (.found (above ++ [name])) := by
    rcases hplace with hfound | hvacant
    · exact hgrows.place_found hfound
    · exact hgrows.place_filled hnew (by simp) hvacant
  refine ⟨above ++ [name], hfound, read_of_place hfound hnew hslash, fun there => ?_⟩
  have hset := Entry.faceAt?_set hwritable.folder hwritable.not_folder (file_below content)
  by_cases hthere : there = above ++ [name]
  · rw [if_pos hthere, hthere]
    exact fileAt?_eq_some.2 hnew
  · rw [if_neg hthere]
    refine fileAt?_congr ?_
    rw [setAt, hset, if_neg hthere]

/-- Whether a file can be written does not depend on what is written. -/
theorem write_error {content : ByteArray} {e : FileError} (h : t.write path content = .error e)
    (other : ByteArray) : t.write path other = .error e := by
  unfold write at h ⊢
  by_cases hslash : path.endsWith "/" = true
  · rw [if_pos hslash] at h ⊢
    exact h
  rw [if_neg hslash] at h ⊢
  cases hplace : t.place true path with
  | error cause => simpa [hplace] using h
  | ok place =>
    cases place with
    | vacant folder name => simp [hplace] at h
    | found here =>
      simp only [hplace] at h ⊢
      cases hget : t.root.get? here with
      | none => simp [hget] at h
      | some found =>
        cases found with
        | file old => simp [hget] at h
        | link target => simp [hget] at h
        | folder items =>
          simp only [hget] at h ⊢
          exact h

end Contents

end FileTree

end SourceOutline.Files
