import Mathlib.Data.List.Forall2
import SourceOutline.Proofs.FolderAccount
import SourceOutline.Proofs.Growth
import SourceOutline.Run.Basic

/-!
How results are delivered: the tree before and after each result file, from which follows what a run that
comes to its end has left behind.
-/
namespace SourceOutline

theorem Files.FileTree.Proper.root_folder {t : Files.FileTree} (ht : t.Proper) :
    t.root.faceAt? [] = some .folder := by
  have hrooted := ht.rooted
  unfold Files.Entry.faceAt?
  cases h : t.root with
  | folder items => rfl
  | file content => rw [h] at hrooted; cases hrooted
  | link target => rw [h] at hrooted; cases hrooted

namespace Run

open SourceOutline.Files (FileTree Location)
open SourceOutline.Scan (FileScan Stats)

@[simp] theorem Workspace.files_tell (w : Workspace) (notes : List Log.Note) :
    (w.tell notes).files = w.files := rfl

@[simp] theorem Workspace.files_say (w : Workspace) (level : Log.Level) (message : String) :
    (w.say level message).files = w.files := rfl

/-- The octets of the result of a scan. -/
def resultOctets (s : FileScan) : ByteArray :=
  Text.Utf8.encode (resultText s)

theorem writeText_ok {t t' : FileTree} {text path : String} (h : writeText t text path = (.ok (), t')) :
    t.write path (Text.Utf8.encode text) = .ok t' := by
  unfold writeText at h
  cases hsurrogates : Text.encodeError? text with
  | none =>
    cases hwrite : t.write path (Text.Utf8.encode text) with
    | error e => simp [hsurrogates, hwrite] at h
    | ok made =>
      simp only [hsurrogates, hwrite, Prod.mk.injEq, true_and] at h
      rw [h]
  | some e => cases hwrite : t.write path ByteArray.empty <;> simp [hsurrogates, hwrite] at h

/-- A text that is not written for want of a place leaves the tree as it is. -/
theorem writeText_error {t t' : FileTree} {text path : String} {e : Files.FileError}
    (h : writeText t text path = (.error e, t')) (he : e.isTextual = false) :
    t' = t ∧ ∃ content, t.write path content = .error e := by
  unfold writeText at h
  cases hsurrogates : Text.encodeError? text with
  | none =>
    cases hwrite : t.write path (Text.Utf8.encode text) with
    | error e' =>
      simp only [hsurrogates, hwrite, Prod.mk.injEq, Except.error.injEq] at h
      exact ⟨h.2.symm, _, by rw [hwrite, h.1]⟩
    | ok made => simp [hsurrogates, hwrite] at h
  | some surrogates =>
    cases hwrite : t.write path ByteArray.empty with
    | error e' =>
      simp only [hsurrogates, hwrite, Prod.mk.injEq, Except.error.injEq] at h
      exact ⟨h.2.symm, _, by rw [hwrite, h.1]⟩
    | ok made =>
      simp only [hsurrogates, hwrite, Prod.mk.injEq, Except.error.injEq] at h
      rw [← h.1] at he
      cases he

theorem makePackageFolder_grows (t : FileTree) (root : String) (folders : List String) :
    t.GrowsTo (fun _ => False) (makePackageFolder t root folders).value.2 := by
  unfold makePackageFolder
  split
  · exact .refl _ t
  · have hgrows := FileTree.makeFolders_grows t (Path.joinAll root folders)
    dsimp only
    cases hmade : t.makeFolders (Path.joinAll root folders) with
    | mk made error =>
      rw [hmade] at hgrows
      cases error with
      | none => exact hgrows
      | some e => cases he : e.isTextual <;> simpa [he] using hgrows

/-- What comes of writing one result. -/
inductive Outcome (path : String) (content : ByteArray) (t : FileTree) : Bool → FileTree → Prop
  | written {t₁ t' : FileTree} (hfolders : t.GrowsTo (fun _ => False) t₁)
      (hwrite : t₁.write path content = .ok t') : Outcome path content t true t'
  | unwritten {t' : FileTree} {other : ByteArray} {e : Files.FileError}
      (hfolders : t.GrowsTo (fun _ => False) t') (hwrite : t'.write path other = .error e) :
      Outcome path content t false t'

theorem writeResult_outcome {t t' : FileTree} {text path root : String} {folders : List String}
    {written : Bool} (h : (writeResult t text path folders root).value = (.ok written, t')) :
    Outcome path (Text.Utf8.encode text) t written t' := by
  have hgrows := makePackageFolder_grows t root folders
  unfold writeResult at h
  cases hmade : (makePackageFolder t root folders).value with
  | mk result t₁ =>
    rw [hmade] at hgrows
    cases result with
    | error e => simp [hmade] at h
    | ok done =>
      cases hwritten : writeText t₁ text path with
      | mk result t₂ =>
        cases result with
        | ok done =>
          simp only [hmade, hwritten, Prod.mk.injEq, Except.ok.injEq] at h
          obtain ⟨rfl, rfl⟩ := h
          exact .written hgrows (writeText_ok hwritten)
        | error e =>
          simp only [hmade, hwritten] at h
          by_cases he : e.isTextual = true
          · simp [he] at h
          · simp only [if_neg he, Prod.mk.injEq, Except.ok.injEq] at h
            obtain ⟨rfl, rfl⟩ := h
            obtain ⟨rfl, other, hwrite⟩ := writeText_error hwritten (by simpa using he)
            exact .unwritten hgrows hwrite

/-- Results that are delivered one after the other, from one tree to another. -/
inductive Delivers (root : String) : FileTree → List FileScan → List Delivery → FileTree → Prop
  | done (t : FileTree) : Delivers root t [] [] t
  | next {t t₁ t' : FileTree} {s : FileScan} {rest : List FileScan} {more : List Delivery} {written : Bool}
      (hstep : Outcome (resultPath root s) (resultOctets s) t written t₁)
      (h : Delivers root t₁ rest more t') :
      Delivers root t (s :: rest) (⟨resultPath root s, written⟩ :: more) t'

namespace Outcome

variable {path : String} {content : ByteArray} {t t' : FileTree} {written : Bool}

/-- Where a result has been written, its path leads to a file with its content, and no other file has
changed. -/
theorem found (h : Outcome path content t true t') (hroot : t.root.faceAt? [] = some .folder) :
    ∃ here, t.GrowsTo (· = here) t' ∧ t'.place true path = .ok (.found here) ∧
      t'.root.faceAt? here = some (.file content) ∧ path.endsWith "/" = false := by
  cases h with
  | written hfolders hwrite =>
    obtain ⟨above, name, hfree, rfl, hslash, hplace⟩ :=
      FileTree.write_ok (hfolders.root.folder hroot) hwrite
    obtain ⟨hgrows, hface⟩ := FileTree.setAt_file_grows hfree content
    refine ⟨above ++ [name], (hfolders.mono fun _ => False.elim).trans hgrows, ?_, hface, hslash⟩
    rcases hplace with hfound | hvacant
    · exact hgrows.place_found hfound
    · exact hgrows.place_filled hface (by simp) hvacant

theorem grows (h : Outcome path content t written t') (hroot : t.root.faceAt? [] = some .folder) :
    t.GrowsTo (fun _ => True) t' := by
  cases written with
  | true =>
    obtain ⟨here, hgrows, -⟩ := h.found hroot
    exact hgrows.mono fun _ _ => trivial
  | false =>
    cases h with
    | unwritten hfolders _ => exact hfolders.mono fun _ => False.elim

end Outcome

theorem deliver_ok {root : String} {w w' : Workspace} {s : FileScan} {d : Delivery}
    (h : deliver root w s = (.ok d, w')) :
    ∃ written, d = ⟨resultPath root s, written⟩ ∧
      Outcome (resultPath root s) (resultOctets s) w.files written w'.files := by
  unfold deliver at h
  cases hvalue : (writeResult w.files (resultText s) (resultPath root s) s.folders root).value with
  | mk result t =>
    cases result with
    | error e => simp [hvalue, Except.map, Except.mapError] at h
    | ok written =>
      simp only [hvalue, Except.map, Except.mapError, Prod.mk.injEq, Except.ok.injEq] at h
      obtain ⟨rfl, rfl⟩ := h
      exact ⟨written, rfl, writeResult_outcome hvalue⟩

theorem deliverAll_ok {root : String} {w w' : Workspace} {scans : List FileScan} {ds : List Delivery}
    (h : deliverAll root w scans = (.ok ds, w')) :
    Delivers root w.files scans ds w'.files := by
  induction scans generalizing w ds with
  | nil =>
    rw [deliverAll] at h
    obtain ⟨hds, rfl⟩ := Prod.mk.inj h
    obtain rfl := Except.ok.inj hds
    exact .done w.files
  | cons s rest ih =>
    rw [deliverAll] at h
    cases hfirst : deliver root w s with
    | mk result w₁ =>
      cases result with
      | error f => simp [hfirst] at h
      | ok d =>
        obtain ⟨written, rfl, hstep⟩ := deliver_ok hfirst
        cases hrest : deliverAll root w₁ rest with
        | mk result w₂ =>
          cases result with
          | error f => simp [hfirst, hrest, Except.map] at h
          | ok more =>
            simp only [hfirst, hrest, Except.map, Prod.mk.injEq, Except.ok.injEq] at h
            obtain ⟨rfl, rfl⟩ := h
            exact .next hstep (ih hrest)

/-- What comes of all results: there are none, or there is no folder for them, or they are delivered one after
the other. -/
inductive Delivered (root : String) (t : FileTree) : List FileScan → List Delivery → FileTree → Prop
  | nothing : Delivered root t [] [] t
  | rootless {scans : List FileScan} (hscans : scans ≠ []) :
      Delivered root t scans (scans.map fun s => ⟨resultPath root s, false⟩) t
  | each {t₁ t' : FileTree} {scans : List FileScan} {ds : List Delivery}
      (hmade : (makeRoot t root).value = (.ok true, t₁)) (h : Delivers root t₁ scans ds t') :
      Delivered root t scans ds t'

/-- Where the folder of results can be made or is there, a tree may grow by it. -/
theorem makeRoot_cases {t t' : FileTree} {root : String} {ready : Bool}
    (h : (makeRoot t root).value = (.ok ready, t')) :
    (ready = true ∧ t.makeFolder root = .ok t') ∨
      (t' = t ∧ ∃ e, t.makeFolder root = .error e ∧ (ready = true → e.cause = .present)) := by
  unfold makeRoot at h
  cases hmade : t.makeFolder root with
  | ok made =>
    simp only [hmade, Prod.mk.injEq, Except.ok.injEq] at h
    obtain ⟨rfl, rfl⟩ := h
    exact Or.inl ⟨rfl, rfl⟩
  | error e =>
    simp only [hmade] at h
    by_cases htextual : e.isTextual = true
    · simp [htextual] at h
    · rw [if_neg htextual] at h
      by_cases hpresent : e.cause = .present
      · rw [if_pos hpresent] at h
        exact Or.inr ⟨(Prod.mk.inj h).2.symm, e, rfl, fun _ => hpresent⟩
      · rw [if_neg hpresent] at h
        obtain ⟨hready, ht⟩ := Prod.mk.inj h
        exact Or.inr ⟨ht.symm, e, rfl, fun habsurd => by rw [habsurd] at hready; cases hready⟩

theorem makeRoot_grows {t t' : FileTree} {root : String} {ready : Bool}
    (h : (makeRoot t root).value = (.ok ready, t')) : t.GrowsTo (fun _ => False) t' := by
  rcases makeRoot_cases h with ⟨-, hmade⟩ | ⟨rfl, -⟩
  · exact FileTree.makeFolder_grows hmade
  · exact .refl _ t'

theorem deliverResults_ok {root : String} {w w' : Workspace} {scans : List FileScan} {ds : List Delivery}
    (h : deliverResults root w scans = (.ok ds, w')) :
    Delivered root w.files scans ds w'.files := by
  unfold deliverResults at h
  by_cases hscans : scans = []
  · subst hscans
    obtain ⟨hds, rfl⟩ := Prod.mk.inj h
    obtain rfl := Except.ok.inj hds
    exact .nothing
  · rw [if_neg (by simpa using hscans)] at h
    cases hmade : (makeRoot w.files root).value with
    | mk result t =>
      cases result with
      | error e => simp [hmade] at h
      | ok ready =>
        cases ready with
        | true =>
          simp only [hmade] at h
          exact .each hmade (deliverAll_ok h)
        | false =>
          simp only [hmade, Prod.mk.injEq, Except.ok.injEq] at h
          obtain ⟨rfl, rfl⟩ := h
          rcases makeRoot_cases hmade with ⟨habsurd, -⟩ | ⟨ht, -⟩
          · cases habsurd
          · rw [Workspace.files_tell, ht]
            exact .rootless hscans

namespace Delivers

variable {root : String} {t t' : FileTree} {scans : List FileScan} {ds : List Delivery}

theorem paths (h : Delivers root t scans ds t') : ds.map (·.path) = scans.map (resultPath root) := by
  induction h with
  | done t => rfl
  | next _ _ ih => rw [List.map_cons, List.map_cons, ih]

theorem grows (h : Delivers root t scans ds t') (hroot : t.root.faceAt? [] = some .folder) :
    t.GrowsTo (fun _ => True) t' := by
  induction h with
  | done t => exact .refl _ t
  | next hstep _ ih =>
    have hfirst := hstep.grows hroot
    exact hfirst.trans (ih (hfirst.root.folder hroot))

/-- What has been written is a file when all results are delivered. -/
theorem isFile (h : Delivers root t scans ds t') (hroot : t.root.faceAt? [] = some .folder) {d : Delivery}
    (hd : d ∈ ds) (hwritten : d.written = true) : t'.isFile d.path = true := by
  induction h with
  | done t => simp at hd
  | @next t t₁ t' s rest more written hstep hrest ih =>
    have hroot₁ := (hstep.grows hroot).root.folder hroot
    rcases List.mem_cons.1 hd with rfl | hd
    · obtain rfl : written = true := hwritten
      obtain ⟨here, -, hplace, hface, hslash⟩ := hstep.found hroot
      have hlater := hrest.grows hroot₁
      obtain ⟨content, hcontent⟩ := hlater.root.file hface
      exact FileTree.isFile_of_place (hlater.place_found hplace) hcontent hslash
    · exact ih hroot₁ hd

end Delivers

namespace Delivered

variable {root : String} {t t' : FileTree} {scans : List FileScan} {ds : List Delivery}

theorem paths (h : Delivered root t scans ds t') : ds.map (·.path) = scans.map (resultPath root) := by
  cases h with
  | nothing => rfl
  | rootless _ => simp
  | each _ h => exact h.paths

theorem isFile (h : Delivered root t scans ds t') (hroot : t.root.faceAt? [] = some .folder) {d : Delivery}
    (hd : d ∈ ds) (hwritten : d.written = true) : t'.isFile d.path = true := by
  cases h with
  | nothing => simp at hd
  | rootless _ =>
    obtain ⟨s, -, rfl⟩ := List.mem_map.1 hd
    cases hwritten
  | each hmade h => exact h.isFile ((makeRoot_grows hmade).root.folder hroot) hd hwritten

end Delivered

/-- A run that comes to its end has scanned the source folder and delivered the results. -/
theorem runScan_ok [GoParser] {host : Host} {settings : Settings} {w w' : Workspace} {summary : Summary}
    (h : runScan host settings w = (.ok summary, w')) :
    ∃ scans,
      (Scan.scanFolder w.files (scanOptions settings) settings.sourceDir).value =
        .ok (scans, summary.stats) ∧
      Delivered settings.resultRoot w.files scans summary.deliveries w'.files := by
  unfold runScan at h
  by_cases hsource : w.files.isFolder settings.sourceDir = true
  swap
  · simp [hsource] at h
  simp only [hsource, Bool.not_true, Bool.false_eq_true, if_false, Workspace.files_say] at h
  cases hscan : (Scan.scanFolder w.files (scanOptions settings) settings.sourceDir).value with
  | error f => simp [hscan] at h
  | ok result =>
    obtain ⟨scans, stats⟩ := result
    simp only [hscan] at h
    split at h
    · cases h
    · next ds w₂ hdelivered =>
      have hdeliver := deliverResults_ok hdelivered
      simp only [Workspace.files_say, Workspace.files_tell] at hdeliver
      rw [Prod.mk.injEq, Except.ok.injEq] at h
      obtain ⟨rfl, hend⟩ := h
      have hfiles : w'.files = w₂.files := by
        rw [← hend]
        simp only [apply_ite Workspace.files, Workspace.files_say, ite_self]
      exact ⟨scans, rfl, hfiles ▸ hdeliver⟩

end Run

end SourceOutline
