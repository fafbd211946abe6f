import Mathlib.Data.List.Basic
import SourceOutline.Files.Access
import SourceOutline.Proofs.PathNames

/-!
Where paths lead, by what the entries on the way show: how a path goes on from where a shorter one leads, and
which entries it meets.
-/
namespace SourceOutline.Files

open SourceOutline.Path (IsName)

/-- What an entry shows without being entered. -/
inductive Face where
  | file (content : ByteArray)
  | link (target : String)
  | folder

namespace Entry

def face : Entry → Face
  | .file content => .file content
  | .link target => .link target
  | .folder _ => .folder

/-- What the entry at a location shows. -/
def faceAt? (e : Entry) (here : Location) : Option Face :=
  (e.get? here).map face

theorem get?_append (e : Entry) (above below : Location) :
    e.get? (above ++ below) = (e.get? above).bind (·.get? below) := by
  induction above generalizing e with
  | nil => simp
  | cons name rest ih =>
    cases e with
    | file content => simp [get?]
    | link target => simp [get?]
    | folder items =>
      cases h : items.lookup name with
      | none => simp [get?, h]
      | some child => simpa [get?, h] using ih child

theorem faceAt?_eq_folder {e : Entry} {here : Location} :
    e.faceAt? here = some .folder ↔ ∃ items, e.get? here = some (.folder items) := by
  unfold faceAt?
  cases e.get? here with
  | none => simp
  | some found => cases found <;> simp [face]

theorem faceAt?_eq_file {e : Entry} {here : Location} {content : ByteArray} :
    e.faceAt? here = some (.file content) ↔ e.get? here = some (.file content) := by
  unfold faceAt?
  cases e.get? here with
  | none => simp
  | some found => cases found <;> simp [face]

theorem faceAt?_concat {e : Entry} {here : Location} {items : List (String × Entry)}
    (h : e.get? here = some (.folder items)) (name : String) :
    e.faceAt? (here ++ [name]) = (items.lookup name).map face := by
  rw [faceAt?, get?_append, h, Option.bind_some]
  cases hlookup : items.lookup name <;> simp [get?, hlookup]

/-- What lies above an entry is a folder. -/
theorem folder_above {e : Entry} {above below : Location} {face : Face}
    (h : e.faceAt? (above ++ below) = some face) (hbelow : below ≠ []) :
    e.faceAt? above = some .folder := by
  obtain ⟨name, rest, rfl⟩ := List.exists_cons_of_ne_nil hbelow
  unfold faceAt? at h ⊢
  rw [get?_append] at h
  cases habove : e.get? above with
  | none => simp [habove] at h
  | some found =>
    cases found with
    | file content => simp [habove, get?] at h
    | link target => simp [habove, get?] at h
    | folder items => rfl

theorem folder_root {e : Entry} {here : Location} (h : e.faceAt? here = some .folder) :
    e.faceAt? [] = some .folder := by
  cases here with
  | nil => exact h
  | cons name rest =>
    have hbelow : e.faceAt? ([] ++ name :: rest) = some .folder := h
    exact folder_above hbelow (List.cons_ne_nil name rest)

end Entry

theorem lookup_put (name other : String) (e : Entry) (items : List (String × Entry)) :
    (put name e items).lookup other = if other = name then some e else items.lookup other := by
  by_cases h : other = name
  · rw [h, lookup_put_self, if_pos rfl]
  · have hother : (other == name) = false := beq_eq_false_iff_ne.2 h
    rw [if_neg h]
    induction items with
    | nil => simp [put, List.lookup_cons, hother]
    | cons item rest ih =>
      rw [put]
      split
      · next hsame =>
        obtain rfl : item.1 = name := by simpa using hsame
        rw [List.lookup_cons, List.lookup_cons, hother]
      · rw [List.lookup_cons, List.lookup_cons, ih]

/-- Putting an entry without content in a folder, where no folder was, changes what shows there alone. -/
theorem Entry.faceAt?_set {e new : Entry} {above : Location} {name : String}
    (habove : e.faceAt? above = some .folder) (hold : e.faceAt? (above ++ [name]) ≠ some .folder)
    (hnew : ∀ below, below ≠ [] → new.get? below = none) (there : Location) :
    (e.set (above ++ [name]) new).faceAt? there =
      if there = above ++ [name] then some new.face else e.faceAt? there := by
  induction above generalizing e there with
  | nil =>
    obtain ⟨items, hitems⟩ := faceAt?_eq_folder.1 habove
    obtain rfl : e = .folder items := by simpa using hitems
    rw [List.nil_append] at hold ⊢
    cases there with
    | nil => rfl
    | cons first below =>
      by_cases hfirst : first = name
      · subst hfirst
        cases below with
        | nil => simp [Entry.set, faceAt?, get?]
        | cons second below =>
          have hnone : (Entry.folder items).faceAt? (first :: second :: below) = none := by
            cases h : (Entry.folder items).faceAt? (first :: second :: below) with
            | none => rfl
            | some face =>
              have hfolder : (Entry.folder items).faceAt? [first] = some .folder :=
                folder_above h (List.cons_ne_nil second below)
              exact absurd hfolder hold
          rw [if_neg (by simp), hnone]
          simp [Entry.set, faceAt?, get?, hnew]
      · simp [Entry.set, faceAt?, get?, lookup_put, hfirst]
  | cons first above ih =>
    obtain ⟨items, hitems⟩ := faceAt?_eq_folder.1 habove
    cases e with
    | file content => simp [get?] at hitems
    | link target => simp [get?] at hitems
    | folder children =>
      cases hchild : children.lookup first with
      | none => simp [get?, hchild] at hitems
      | some child =>
        have hface : ∀ below, (Entry.folder children).faceAt? (first :: below) = child.faceAt? below := by
          intro below
          simp [faceAt?, get?, hchild]
        have hset : (Entry.folder children).set (first :: above ++ [name]) new =
            .folder (put first (child.set (above ++ [name]) new) children) := by
          obtain ⟨second, rest, hrest⟩ : ∃ second rest, above ++ [name] = second :: rest :=
            List.exists_cons_of_ne_nil (by simp)
          rw [List.cons_append, hrest]
          simp [Entry.set, hchild]
        rw [hset]
        cases there with
        | nil => rfl
        | cons other below =>
          by_cases hother : other = first
          · subst hother
            have hstep := ih (hface above ▸ habove) (by rwa [← hface]) below
            have hput : (Entry.folder (put other (child.set (above ++ [name]) new) children)).faceAt?
                (other :: below) = (child.set (above ++ [name]) new).faceAt? below := by
              simp [faceAt?, get?]
            rw [hput, hstep, hface]
            simp
          · simp [faceAt?, get?, lookup_put, hother]

/-- One step of a walk, by what shows on the way. -/
theorem walk_cons (root : Entry) (whole : Bool) (here : Location) (name : String) (rest : List String) :
    walk root whole here (name :: rest) =
      match root.faceAt? here with
      | some .folder =>
        if name = "." then walk root whole here rest
        else if name = ".." then walk root whole here.dropLast rest
        else if nameLimit < Text.octetCount name then .failed .longName
        else match root.faceAt? (here ++ [name]) with
          | none => if rest.isEmpty then .arrived (.vacant here name) else .failed .missing
          | some (.link target) =>
            if rest.isEmpty && !whole then .arrived (.found (here ++ [name]))
            else .link here target rest
          | some _ => walk root whole (here ++ [name]) rest
      | _ => .failed .notFolder := by
  rw [walk]
  cases hget : root.get? here with
  | none => simp [Entry.faceAt?, hget]
  | some e =>
    cases e with
    | file content => simp [Entry.faceAt?, hget, Entry.face]
    | link target => simp [Entry.faceAt?, hget, Entry.face]
    | folder items =>
      have hhere : root.faceAt? here = some .folder := Entry.faceAt?_eq_folder.2 ⟨items, hget⟩
      rw [hhere, Entry.faceAt?_concat hget name]
      dsimp only
      cases hlookup : items.lookup name with
      | none => rfl
      | some child => cases child <;> rfl

/-- A name that a walk looks for in a folder. -/
def IsSought (name : String) : Prop :=
  name ≠ "." ∧ name ≠ ".." ∧ ¬nameLimit < Text.octetCount name

/-- The walks that do not fail, by what shows on the way. -/
inductive Leads (root : Entry) (whole : Bool) : Location → List String → Walk → Prop
  | stop (here : Location) : Leads root whole here [] (.arrived (.found here))
  | stay {here : Location} {rest : List String} {w : Walk} (hhere : root.faceAt? here = some .folder)
      (h : Leads root whole here rest w) : Leads root whole here ("." :: rest) w
  | up {here : Location} {rest : List String} {w : Walk} (hhere : root.faceAt? here = some .folder)
      (h : Leads root whole here.dropLast rest w) : Leads root whole here (".." :: rest) w
  | into {here : Location} {name : String} {rest : List String} {w : Walk} {face : Face}
      (hhere : root.faceAt? here = some .folder) (hname : IsSought name)
      (hnext : root.faceAt? (here ++ [name]) = some face) (hface : ∀ target, face ≠ .link target)
      (h : Leads root whole (here ++ [name]) rest w) : Leads root whole here (name :: rest) w
  | vacant {here : Location} {name : String} (hhere : root.faceAt? here = some .folder)
      (hname : IsSought name) (hnext : root.faceAt? (here ++ [name]) = none) :
      Leads root whole here [name] (.arrived (.vacant here name))
  | atLink {here : Location} {name target : String} (hhere : root.faceAt? here = some .folder)
      (hname : IsSought name) (hnext : root.faceAt? (here ++ [name]) = some (.link target))
      (hwhole : whole = false) : Leads root whole here [name] (.arrived (.found (here ++ [name])))
  | link {here : Location} {name target : String} {rest : List String}
      (hhere : root.faceAt? here = some .folder) (hname : IsSought name)
      (hnext : root.faceAt? (here ++ [name]) = some (.link target))
      (hrest : rest = [] → whole = true) : Leads root whole here (name :: rest) (.link here target rest)

section Walk

variable {root : Entry} {whole : Bool} {here : Location} {path : List String} {w : Walk}

theorem walk_stay (hhere : root.faceAt? here = some .folder) :
    walk root whole here ("." :: path) = walk root whole here path := by
  rw [walk_cons, hhere]
  rfl

theorem walk_up (hhere : root.faceAt? here = some .folder) :
    walk root whole here (".." :: path) = walk root whole here.dropLast path := by
  rw [walk_cons, hhere]
  rfl

theorem walk_into {name : String} {face : Face} (hhere : root.faceAt? here = some .folder)
    (hname : IsSought name) (hnext : root.faceAt? (here ++ [name]) = some face)
    (hface : ∀ target, face ≠ .link target) :
    walk root whole here (name :: path) = walk root whole (here ++ [name]) path := by
  rw [walk_cons, hhere, hnext]
  cases face with
  | file content => simp only [if_neg hname.1, if_neg hname.2.1, if_neg hname.2.2]
  | link target => exact absurd rfl (hface target)
  | folder => simp only [if_neg hname.1, if_neg hname.2.1, if_neg hname.2.2]

theorem walk_link {name target : String} (hhere : root.faceAt? here = some .folder)
    (hname : IsSought name) (hnext : root.faceAt? (here ++ [name]) = some (.link target))
    (hrest : path = [] → whole = true) :
    walk root whole here (name :: path) = .link here target path := by
  have hfollow : ¬(path.isEmpty && !whole) = true := by
    cases path with
    | nil => simp [hrest rfl]
    | cons first rest => simp
  rw [walk_cons, hhere, hnext]
  simp only [if_neg hname.1, if_neg hname.2.1, if_neg hname.2.2, if_neg hfollow]

theorem Leads.walk_eq (h : Leads root whole here path w) : walk root whole here path = w := by
  induction h with
  | stop here => rw [walk]
  | stay hhere _ ih => rw [walk_stay hhere, ih]
  | up hhere _ ih => rw [walk_up hhere, ih]
  | into hhere hname hnext hface _ ih => rw [walk_into hhere hname hnext hface, ih]
  | vacant hhere hname hnext =>
    rw [walk_cons, hhere, hnext]
    simp only [if_neg hname.1, if_neg hname.2.1, if_neg hname.2.2]
    rfl
  | atLink hhere hname hnext hwhole =>
    rw [walk_cons, hhere, hnext, hwhole]
    simp only [if_neg hname.1, if_neg hname.2.1, if_neg hname.2.2]
    rfl
  | link hhere hname hnext hrest => exact walk_link hhere hname hnext hrest

/-- A walk fails, or its steps are these. -/
theorem leads_of_walk (h : walk root whole here path = w) (hok : ∀ cause, w ≠ .failed cause) :
    Leads root whole here path w := by
  induction path generalizing here with
  | nil =>
    rw [walk] at h
    exact h ▸ .stop here
  | cons name rest ih =>
    rw [walk_cons] at h
    cases hhere : root.faceAt? here with
    | none => exact absurd (by simpa [hhere] using h.symm) (hok .notFolder)
    | some face =>
      cases face with
      | file content => exact absurd (by simpa [hhere] using h.symm) (hok .notFolder)
      | link target => exact absurd (by simpa [hhere] using h.symm) (hok .notFolder)
      | folder =>
        simp only [hhere] at h
        by_cases hdot : name = "."
        · rw [if_pos hdot] at h
          exact hdot ▸ .stay hhere (ih h)
        rw [if_neg hdot] at h
        by_cases hup : name = ".."
        · rw [if_pos hup] at h
          exact hup ▸ .up hhere (ih h)
        rw [if_neg hup] at h
        by_cases hlong : nameLimit < Text.octetCount name
        · rw [if_pos hlong] at h
          exact absurd h.symm (hok .longName)
        rw [if_neg hlong] at h
        have hname : IsSought name := ⟨hdot, hup, hlong⟩
        cases hnext : root.faceAt? (here ++ [name]) with
        | none =>
          simp only [hnext] at h
          cases rest with
          | nil => exact h ▸ .vacant hhere hname hnext
          | cons first rest => exact absurd h.symm (hok .missing)
        | some face =>
          cases face with
          | file content =>
            simp only [hnext] at h
            exact .into hhere hname hnext (by simp) (ih h)
          | folder =>
            simp only [hnext] at h
            exact .into hhere hname hnext (by simp) (ih h)
          | link target =>
            simp only [hnext] at h
            by_cases hlast : (rest.isEmpty && !whole) = true
            · rw [if_pos hlast] at h
              obtain ⟨hempty, hwhole⟩ : rest = [] ∧ whole = false := by simpa using hlast
              subst hempty
              exact h ▸ .atLink hhere hname hnext hwhole
            · rw [if_neg hlast] at h
              refine h ▸ .link hhere hname hnext fun hempty => ?_
              simpa [hempty] using hlast

theorem folder_dropLast (h : root.faceAt? here = some .folder) :
    root.faceAt? here.dropLast = some .folder := by
  cases hlast : here.getLast? with
  | none =>
    obtain rfl := List.getLast?_eq_none_iff.1 hlast
    exact h
  | some name =>
    obtain ⟨above, rfl⟩ := List.getLast?_eq_some_iff.1 hlast
    rw [List.dropLast_concat]
    exact Entry.folder_above h (by simp)

end Walk

/-- What a place says about a tree: an entry is there, which is no link where links are followed to the end,
or a folder is there without the name. -/
def Place.Sound (root : Entry) (whole : Bool) : Place → Prop
  | .found here => ∃ face, root.faceAt? here = some face ∧ (whole = true → ∀ target, face ≠ .link target)
  | .vacant folder name => root.faceAt? folder = some .folder ∧ root.faceAt? (folder ++ [name]) = none

/-- What a walk says about a tree. -/
def Walk.Sound (root : Entry) (whole : Bool) : Walk → Prop
  | .arrived place => place.Sound root whole
  | .failed _ => True
  | .link folder _ _ => root.faceAt? folder = some .folder

theorem Leads.sound {root : Entry} {whole : Bool} {here : Location} {path : List String} {w : Walk}
    (h : Leads root whole here path w) (hstart : path = [] → Place.Sound root whole (.found here)) :
    w.Sound root whole := by
  induction h with
  | stop here => exact hstart rfl
  | stay hhere _ ih => exact ih fun _ => ⟨_, hhere, by simp⟩
  | up hhere _ ih => exact ih fun _ => ⟨_, folder_dropLast hhere, by simp⟩
  | into _ _ hnext hface _ ih => exact ih fun _ => ⟨_, hnext, fun _ => hface⟩
  | vacant hhere _ hnext => exact ⟨hhere, hnext⟩
  | atLink _ _ hnext hwhole => exact ⟨_, hnext, by simp [hwhole]⟩
  | link hhere _ _ _ => exact hhere

namespace Leads

variable {root : Entry} {here there : Location} {path : List String}

theorem rooted {whole : Bool} {w : Walk} (h : Leads root whole here path w) (hpath : path ≠ []) :
    root.faceAt? [] = some .folder := by
  cases h with
  | stop here => exact absurd rfl hpath
  | stay hhere _ => exact Entry.folder_root hhere
  | up hhere _ => exact Entry.folder_root hhere
  | into hhere _ _ _ _ => exact Entry.folder_root hhere
  | vacant hhere _ _ => exact Entry.folder_root hhere
  | atLink hhere _ _ _ => exact Entry.folder_root hhere
  | link hhere _ _ _ => exact Entry.folder_root hhere

/-- A path goes on from where a shorter one leads. -/
theorem walk_append (h : Leads root true here path (.arrived (.found there))) (more : List String) :
    walk root true here (path ++ more) = walk root true there more := by
  generalize hw : Walk.arrived (.found there) = w at h
  induction h with
  | stop here =>
    cases hw
    rfl
  | stay hhere _ ih => rw [List.cons_append, walk_stay hhere, ih hw]
  | up hhere _ ih => rw [List.cons_append, walk_up hhere, ih hw]
  | into hhere hname hnext hface _ ih => rw [List.cons_append, walk_into hhere hname hnext hface, ih hw]
  | vacant _ _ _ => cases hw
  | atLink _ _ _ hwhole => cases hwhole
  | link _ _ _ _ => cases hw

theorem walk_append_link {folder : Location} {target : String} {rest : List String}
    (h : Leads root true here path (.link folder target rest)) (more : List String) :
    walk root true here (path ++ more) = .link folder target (rest ++ more) := by
  generalize hw : Walk.link folder target rest = w at h
  induction h with
  | stop here => cases hw
  | stay hhere _ ih => rw [List.cons_append, walk_stay hhere, ih hw]
  | up hhere _ ih => rw [List.cons_append, walk_up hhere, ih hw]
  | into hhere hname hnext hface _ ih => rw [List.cons_append, walk_into hhere hname hnext hface, ih hw]
  | vacant _ _ _ => cases hw
  | atLink _ _ _ hwhole => cases hwhole
  | link hhere hname hnext _ =>
    cases hw
    exact walk_link hhere hname hnext fun _ => rfl

/-- Where a path leads to something else than a link, it leads there with all links followed, too. -/
theorem whole {w : Walk} (h : Leads root false here path w)
    (hend : ∀ place, w = .arrived (.found place) → ∀ target, root.faceAt? place ≠ some (.link target)) :
    Leads root true here path w := by
  induction h with
  | stop here => exact .stop here
  | stay hhere _ ih => exact .stay hhere (ih hend)
  | up hhere _ ih => exact .up hhere (ih hend)
  | into hhere hname hnext hface _ ih => exact .into hhere hname hnext hface (ih hend)
  | vacant hhere hname hnext => exact .vacant hhere hname hnext
  | atLink _ _ hnext _ => exact absurd hnext (hend _ rfl _)
  | link hhere hname hnext _ => exact .link hhere hname hnext fun _ => rfl

end Leads

/-- Where the names in a link are followed from. -/
def linkStart (folder : Location) (target : String) : Location :=
  if target.startsWith "/" then [] else folder

section Resolve

variable {root : Entry} {whole : Bool} {here there : Location} {path : List String} {links : Nat}
  {place : Place}

theorem resolve_congr {others : List String} (h : walk root whole here path = walk root whole there others)
    (links : Nat) : resolve root whole links here path = resolve root whole links there others := by
  unfold resolve
  rw [h]

theorem resolve_arrived (h : Leads root whole here path (.arrived place)) (links : Nat) :
    resolve root whole links here path = .ok place := by
  unfold resolve
  rw [h.walk_eq]

theorem resolve_link {folder : Location} {target : String} {rest : List String}
    (h : walk root whole here path = .link folder target rest) (links : Nat) :
    resolve root whole (links + 1) here path =
      resolve root whole links (linkStart folder target) (names target ++ rest) := by
  rw [resolve, h]
  rfl

/-- A path that leads somewhere leads there at once or through a first link. -/
theorem resolve_cases (h : resolve root whole links here path = .ok place) :
    Leads root whole here path (.arrived place) ∨ ∃ fewer folder target rest, links = fewer + 1 ∧
      Leads root whole here path (.link folder target rest) ∧
      resolve root whole fewer (linkStart folder target) (names target ++ rest) = .ok place := by
  cases hw : walk root whole here path with
  | arrived arrival =>
    have hleads := leads_of_walk hw (by simp)
    rw [resolve_arrived hleads] at h
    exact Or.inl (Except.ok.inj h ▸ hleads)
  | failed cause =>
    unfold resolve at h
    simp [hw] at h
  | link folder target rest =>
    have hleads := leads_of_walk hw (by simp)
    cases links with
    | zero =>
      unfold resolve at h
      simp [hw] at h
    | succ fewer =>
      rw [resolve_link hw] at h
      exact Or.inr ⟨fewer, folder, target, rest, rfl, hleads, h⟩

theorem walk_ne_present (root : Entry) (whole : Bool) (here : Location) (path : List String) :
    walk root whole here path ≠ .failed .present := by
  induction path generalizing here with
  | nil => simp [walk]
  | cons name rest ih =>
    rw [walk]
    split
    · split
      · exact ih _
      · split
        · exact ih _
        · split
          · simp
          · split
            · split <;> simp
            · split <;> simp
            · exact ih _
    · simp

/-- That something is there is no reason for a path to lead nowhere. -/
theorem resolve_ne_present (root : Entry) (whole : Bool) (links : Nat) (here : Location)
    (path : List String) : resolve root whole links here path ≠ .error .present := by
  induction links generalizing here path with
  | zero =>
    unfold resolve
    cases hw : walk root whole here path with
    | arrived place => simp
    | failed cause =>
      have hcause := walk_ne_present root whole here path
      simpa [hw] using hcause
    | link folder target rest => simp
  | succ links ih =>
    cases hw : walk root whole here path with
    | arrived place => simp [resolve, hw]
    | failed cause =>
      have hcause := walk_ne_present root whole here path
      simpa [resolve, hw] using hcause
    | link folder target rest =>
      rw [resolve_link hw]
      exact ih _ _

theorem linkStart_folder {folder : Location} (h : root.faceAt? folder = some .folder) (target : String) :
    root.faceAt? (linkStart folder target) = some .folder := by
  unfold linkStart
  split
  · exact Entry.folder_root h
  · exact h

theorem resolve_sound (hstart : path = [] → Place.Sound root whole (.found here))
    (h : resolve root whole links here path = .ok place) : place.Sound root whole := by
  induction links generalizing here path with
  | zero =>
    rcases resolve_cases h with hleads | ⟨fewer, _, _, _, habsurd, -⟩
    · exact hleads.sound hstart
    · cases habsurd
  | succ links ih =>
    rcases resolve_cases h with hleads | ⟨fewer, folder, target, rest, hfewer, hleads, hrest⟩
    · exact hleads.sound hstart
    · obtain rfl := Nat.succ.inj hfewer
      have hfolder : root.faceAt? folder = some .folder := hleads.sound hstart
      exact ih (fun _ => ⟨_, linkStart_folder hfolder target, by simp⟩) hrest

/-- A path goes on from where a shorter one leads, links on the way followed. -/
theorem resolve_append (h : resolve root true links here path = .ok (.found there)) :
    ∃ fewer, ∀ more, resolve root true links here (path ++ more) = resolve root true fewer there more := by
  induction links generalizing here path with
  | zero =>
    rcases resolve_cases h with hleads | ⟨_, _, _, _, habsurd, -⟩
    · exact ⟨0, fun more => resolve_congr (hleads.walk_append more) 0⟩
    · cases habsurd
  | succ links ih =>
    rcases resolve_cases h with hleads | ⟨fewer, folder, target, rest, hfewer, hleads, hrest⟩
    · exact ⟨links + 1, fun more => resolve_congr (hleads.walk_append more) (links + 1)⟩
    · obtain rfl := Nat.succ.inj hfewer
      obtain ⟨least, hleast⟩ := ih hrest
      refine ⟨least, fun more => ?_⟩
      rw [resolve_link (hleads.walk_append_link more), ← hleast more, List.append_assoc]

theorem resolve_whole (h : resolve root false links here path = .ok (.found there))
    (hend : ∀ target, root.faceAt? there ≠ some (.link target)) :
    resolve root true links here path = .ok (.found there) := by
  induction links generalizing here path with
  | zero =>
    rcases resolve_cases h with hleads | ⟨_, _, _, _, habsurd, -⟩
    · exact resolve_arrived (hleads.whole (by rintro _ ⟨⟩; exact hend)) 0
    · cases habsurd
  | succ links ih =>
    rcases resolve_cases h with hleads | ⟨fewer, folder, target, rest, hfewer, hleads, hrest⟩
    · exact resolve_arrived (hleads.whole (by rintro _ ⟨⟩; exact hend)) _
    · obtain rfl := Nat.succ.inj hfewer
      rw [resolve_link (hleads.whole (by simp)).walk_eq]
      exact ih hrest

end Resolve

/-- Whether no link is at a location or below it. -/
def NoLinks (root : Entry) (here : Location) : Prop :=
  ∀ below target, root.faceAt? (here ++ below) ≠ some (.link target)

theorem NoLinks.below {root : Entry} {here : Location} (h : NoLinks root here) (more : Location) :
    NoLinks root (here ++ more) := by
  intro below target
  rw [List.append_assoc]
  exact h _ target

/-- Below a location without links, names lead where they say. -/
theorem Leads.place_eq {root : Entry} {here : Location} {path : List String} {w : Walk}
    (h : Leads root true here path w) (hlinks : NoLinks root here) (hpath : ∀ n ∈ path, IsName n) :
    w = .arrived (.found (here ++ path)) ∨
      ∃ above name, path = above ++ [name] ∧ w = .arrived (.vacant (here ++ above) name) := by
  induction h with
  | stop here => exact Or.inl (by rw [List.append_nil])
  | stay _ _ _ => exact absurd rfl (hpath "." List.mem_cons_self).notHere
  | up _ _ _ => exact absurd rfl (hpath ".." List.mem_cons_self).notUp
  | @into here name rest w face _ _ _ _ _ ih =>
    rcases ih (hlinks.below [name]) fun n hn => hpath n (List.mem_cons_of_mem _ hn)
      with hfound | ⟨above, last, hrest, hw⟩
    · left
      rw [hfound, List.append_assoc, List.singleton_append]
    · right
      refine ⟨name :: above, last, by rw [hrest]; rfl, ?_⟩
      rw [hw, List.append_assoc, List.singleton_append]
  | @vacant here name _ _ _ => exact Or.inr ⟨[], name, rfl, by rw [List.append_nil]⟩
  | atLink _ _ hnext _ => exact absurd hnext (hlinks _ _)
  | link _ _ hnext _ => exact absurd hnext (hlinks _ _)

/-- Where names lead below a location without links: to their own place, which is taken or free. -/
theorem resolve_below {root : Entry} {here : Location} {path : List String} {links : Nat} {place : Place}
    (h : resolve root true links here path = .ok place) (hlinks : NoLinks root here)
    (hpath : ∀ n ∈ path, IsName n) :
    place = .found (here ++ path) ∨
      ∃ above name, path = above ++ [name] ∧ place = .vacant (here ++ above) name := by
  rcases resolve_cases h with hleads | ⟨_, _, _, _, _, hleads, _⟩
  · rcases hleads.place_eq hlinks hpath with heq | ⟨above, name, hname, heq⟩
    · exact Or.inl (Walk.arrived.inj heq)
    · exact Or.inr ⟨above, name, hname, Walk.arrived.inj heq⟩
  · rcases hleads.place_eq hlinks hpath with heq | ⟨_, _, _, heq⟩ <;> cases heq

/-- Names of entries that are there lead to their place, unless one of them is too long. -/
theorem walk_along {root : Entry} {here : Location} {path : List String} {face : Face}
    (h : root.faceAt? (here ++ path) = some face) (hlinks : NoLinks root here)
    (hpath : ∀ n ∈ path, IsName n) :
    walk root true here path =
      if path.all (Text.octetCount · ≤ nameLimit) then .arrived (.found (here ++ path))
      else .failed .longName := by
  induction path generalizing here with
  | nil => rw [walk, List.append_nil]; rfl
  | cons name rest ih =>
    have hname := hpath name List.mem_cons_self
    have hhere : root.faceAt? here = some .folder := Entry.folder_above h (List.cons_ne_nil name rest)
    rw [← List.singleton_append, ← List.append_assoc] at h
    have hdot : name ≠ "." := fun heq => hname.notHere (by rw [heq]; rfl)
    have hup : name ≠ ".." := fun heq => hname.notUp (by rw [heq]; rfl)
    by_cases hlong : nameLimit < Text.octetCount name
    · rw [walk_cons, hhere]
      dsimp only
      rw [if_neg hdot, if_neg hup, if_pos hlong, if_neg (by simp [Nat.not_le.2 hlong])]
    · obtain ⟨next, hnext⟩ : ∃ next, root.faceAt? (here ++ [name]) = some next := by
        cases rest with
        | nil => exact ⟨face, by simpa using h⟩
        | cons first rest => exact ⟨_, Entry.folder_above h (List.cons_ne_nil first rest)⟩
      have hnolink : ∀ target, next ≠ .link target := by
        rintro target rfl
        exact hlinks [name] target hnext
      rw [walk_into hhere ⟨hdot, hup, hlong⟩ hnext hnolink,
        ih h (hlinks.below [name]) fun n hn => hpath n (List.mem_cons_of_mem _ hn)]
      simp [Nat.not_lt.1 hlong]

theorem resolve_along {root : Entry} {here : Location} {path : List String} {face : Face}
    (h : root.faceAt? (here ++ path) = some face) (hlinks : NoLinks root here) (hpath : ∀ n ∈ path, IsName n)
    (links : Nat) :
    resolve root true links here path =
      if path.all (Text.octetCount · ≤ nameLimit) then .ok (.found (here ++ path)) else .error .longName := by
  unfold resolve
  rw [walk_along h hlinks hpath]
  cases path.all (Text.octetCount · ≤ nameLimit) <;> rfl

namespace FileTree

/-- A path that can be looked up at all. -/
structure Usable (path : String) : Prop where
  named : Text.nameError? path = none
  whole : path.contains (Char.ofNat 0) = false
  nonempty : path ≠ ""
  short : ¬pathLimit ≤ Text.octetCount path

/-- Where the names of a path are followed from. -/
def startOf (t : FileTree) (path : String) : Location :=
  if path.startsWith "/" then [] else names t.cwd

variable {t : FileTree} {path : String} {whole : Bool}

theorem place_of_usable (h : Usable path) (t : FileTree) (whole : Bool) :
    t.place whole path = resolve t.root whole linkLimit (t.startOf path) (names path) := by
  rw [place, placeOf, h.named, h.whole, if_neg h.nonempty, if_neg h.short]
  rfl

theorem place_cases (whole : Bool) (path : String) :
    (∃ cause, ∀ t' : FileTree, t'.place whole path = .error cause) ∨ Usable path := by
  unfold place placeOf
  cases hname : Text.nameError? path with
  | some e => exact Or.inl ⟨_, fun _ => rfl⟩
  | none =>
    cases hnull : path.contains (Char.ofNat 0) with
    | true => exact Or.inl ⟨_, fun _ => rfl⟩
    | false =>
      by_cases hempty : path = ""
      · exact Or.inl ⟨_, fun _ => by rw [if_pos hempty]; rfl⟩
      · by_cases hlong : pathLimit ≤ Text.octetCount path
        · exact Or.inl ⟨_, fun _ => by rw [if_neg hempty, if_pos hlong]; rfl⟩
        · exact Or.inr ⟨hname, hnull, hempty, hlong⟩

theorem usable_of_place {place : Place} (h : t.place whole path = .ok place) : Usable path := by
  rcases place_cases whole path with ⟨cause, hcause⟩ | husable
  · rw [hcause] at h
    cases h
  · exact husable

theorem place_ne_present (t : FileTree) (whole : Bool) (path : String) :
    t.place whole path ≠ .error .present := by
  unfold place placeOf
  cases Text.nameError? path with
  | some e => simp
  | none =>
    dsimp only
    split
    · simp
    · split
      · simp
      · split
        · simp
        · exact resolve_ne_present _ _ _ _ _

theorem startOf_of_isAbsolute (h : Path.IsAbsolute path) (t : FileTree) : t.startOf path = [] := by
  have hslash : path.startsWith "/" = true := by
    rw [String.startsWith_string_iff]
    unfold Path.IsAbsolute at h
    cases hchars : path.toList with
    | nil => rw [hchars] at h; cases h
    | cons c rest =>
      rw [hchars, List.head?_cons, Option.some.injEq] at h
      simp [h]
  rw [startOf, if_pos hslash]

theorem startOf_nil (hempty : path ≠ "") (h : names path = []) (t : FileTree) : t.startOf path = [] := by
  refine startOf_of_isAbsolute ?_ t
  unfold Path.IsAbsolute
  rw [names_eq, List.map_eq_nil_iff, List.filter_eq_nil_iff] at h
  cases hchars : path.toList with
  | nil => exact absurd (String.toList_inj.1 hchars) hempty
  | cons c rest =>
    by_cases hc : c = '/'
    · rw [hc, List.head?_cons]
    · obtain ⟨p, ps, hp⟩ := List.exists_cons_of_ne_nil (List.splitOn_ne_nil '/' rest)
      have hfirst := h (c :: p) (by simp [hchars, Path.components, List.splitOn_cons_eq_if_modifyHead, hc, hp])
      simp at hfirst

theorem place_absolute (hpath : Path.IsAbsolute path) (h : Usable path) (t : FileTree) (whole : Bool) :
    t.place whole path = resolve t.root whole linkLimit [] (names path) := by
  rw [place_of_usable h, startOf_of_isAbsolute hpath]

/-- Where a path leads is as the place says. -/
theorem place_sound (hroot : t.root.faceAt? [] = some .folder) {place : Place}
    (h : t.place whole path = .ok place) : place.Sound t.root whole := by
  have husable := usable_of_place h
  rw [place_of_usable husable] at h
  refine resolve_sound (fun hnames => ?_) h
  rw [startOf_nil husable.nonempty hnames]
  exact ⟨_, hroot, by simp⟩

theorem rooted_of_place {place : Place} (h : t.place whole path = .ok place) (hnames : names path ≠ []) :
    t.root.faceAt? [] = some .folder := by
  rw [place_of_usable (usable_of_place h)] at h
  rcases resolve_cases h with hleads | ⟨_, _, _, _, _, hleads, -⟩
  · exact hleads.rooted hnames
  · exact hleads.rooted hnames

theorem rooted_of_vacant {folder : Location} {name : String}
    (h : t.place whole path = .ok (.vacant folder name)) : t.root.faceAt? [] = some .folder := by
  refine rooted_of_place h fun hnames => ?_
  rw [place_of_usable (usable_of_place h), hnames, resolve_arrived (.stop _)] at h
  cases h

theorem place_whole {there : Location} (h : t.place false path = .ok (.found there))
    (hend : ∀ target, t.root.faceAt? there ≠ some (.link target)) :
    t.place true path = .ok (.found there) := by
  have husable := usable_of_place h
  rw [place_of_usable husable] at h ⊢
  exact resolve_whole h hend

theorem entry_of_place {here : Location} {content : ByteArray}
    (hplace : t.place true path = .ok (.found here)) (hface : t.root.faceAt? here = some (.file content))
    (hslash : path.endsWith "/" = false) : t.entry path = .ok (.file content) := by
  rw [entry, hplace]
  simp [bind, Except.bind, Entry.faceAt?_eq_file.1 hface, hslash]

/-- Where a file is, it is read. -/
theorem read_of_place {here : Location} {content : ByteArray} (hplace : t.place true path = .ok (.found here))
    (hface : t.root.faceAt? here = some (.file content)) (hslash : path.endsWith "/" = false) :
    t.read path = .ok content := by
  rw [read, entry_of_place hplace hface hslash]

theorem isFile_of_place {here : Location} {content : ByteArray}
    (hplace : t.place true path = .ok (.found here)) (hface : t.root.faceAt? here = some (.file content))
    (hslash : path.endsWith "/" = false) : t.isFile path = true := by
  rw [isFile, entry_of_place hplace hface hslash]
  rfl

end FileTree

end SourceOutline.Files
