import SourceOutline.Proofs.RunReport

/-!
Results that stay: where no links stand in the way, every result goes to a place of its own below the root of
results, and nothing that a run does later changes it, nor does a run change any file that it scans.
-/
namespace SourceOutline

open SourceOutline.Path (IsName)

namespace Files

/-- Whether an entry neither is nor holds a link. -/
def Entry.linkFree (e : Entry) : Bool :=
  e.all fun
    | .link _ => false
    | _ => true

theorem Entry.face_eq_link {e : Entry} {target : String} : e.face = .link target ↔ e = .link target := by
  cases e <;> simp [Entry.face]

theorem noLinks_of_linkFree {root e : Entry} {here : Location} (hget : root.get? here = some e)
    (h : e.linkFree = true) : NoLinks root here := by
  intro below target hlink
  rw [Entry.faceAt?, Entry.get?_append, hget, Option.bind_some, Option.map_eq_some_iff] at hlink
  obtain ⟨leaf, hleaf, hface⟩ := hlink
  obtain rfl := Entry.face_eq_link.1 hface
  have hall := Entry.ok_of_all (Entry.all_get? h hleaf)
  cases hall

namespace FileTree

theorem read_congr {t t' : FileTree} {path : String} (hplace : t'.place true path = t.place true path)
    (hget : ∀ here, t.place true path = .ok (.found here) → t'.root.get? here = t.root.get? here) :
    t'.read path = t.read path := by
  have hentry : t'.entry path = t.entry path := by
    unfold entry
    rw [hplace]
    cases hwhere : t.place true path with
    | error cause => rfl
    | ok place =>
      cases place with
      | vacant folder name => rfl
      | found here =>
        simp only [bind, Except.bind]
        rw [hget here hwhere]
  rw [read, read, hentry]

/-- Below a folder without links, a path leads to what is there, unless a name is too long. -/
theorem place_joinAll {t : FileTree} {folder : String} {slashes : Nat} {cs : List (List Char)}
    {base here : Location} {face : Face} (hfolder : Path.Rooted folder slashes cs)
    (hhere : ∀ n ∈ here, IsName n) (husable : Usable (Path.joinAll folder here))
    (hbase : t.place true folder = .ok (.found base)) (hlinks : NoLinks t.root base)
    (hface : t.root.faceAt? (base ++ here) = some face) :
    t.place true (Path.joinAll folder here) =
      if here.all (Text.octetCount · ≤ nameLimit) then .ok (.found (base ++ here)) else .error .longName := by
  rw [place_of_usable (usable_of_place hbase), startOf_of_isAbsolute hfolder.isAbsolute] at hbase
  obtain ⟨fewer, hmore⟩ := resolve_append hbase
  rw [place_of_usable husable, startOf_of_isAbsolute (hfolder.joinAll hhere).isAbsolute,
    names_joinAll hfolder hhere, hmore, resolve_along hface hlinks hhere]

/-- What is found in a folder without links is a file. -/
theorem file_of_foundAt {t : FileTree} {includeTests : Bool} {folder : String} {e : Entry} {here : Location}
    (hentry : t.entry folder = .ok e) (hfree : e.linkFree = true) (hfound : FoundAt includeTests e here) :
    ∃ base content, t.place true folder = .ok (.found base) ∧ NoLinks t.root base ∧
      t.root.faceAt? (base ++ here) = some (.file content) := by
  obtain ⟨base, hbase, hget⟩ := entry_ok hentry
  have hlinks := noLinks_of_linkFree hget hfree
  obtain ⟨leaf, hleaf, hkind⟩ := hfound.leaf
  have hface : t.root.faceAt? (base ++ here) = some leaf.face := by
    rw [Entry.faceAt?, Entry.get?_append, hget, Option.bind_some, hleaf, Option.map_some]
  cases leaf with
  | file content => exact ⟨base, content, hbase, hlinks, hface⟩
  | folder items => cases hkind
  | link target => exact absurd hface (hlinks here target)

/-- A Go file in a folder without links is read as before when the tree has grown, if no Go file was
written. -/
theorem read_source {t t' : FileTree} {written : Location → Prop} {includeTests : Bool} {folder path : String}
    {slashes : Nat} {cs : List (List Char)} (ht : t.Proper) (hfolder : Path.Rooted folder slashes cs)
    (hfree : ∀ e, t.entry folder = .ok e → e.linkFree = true)
    (hpath : path ∈ t.goFiles includeTests folder) (hg : t.GrowsTo written t')
    (hwritten : ∀ above name, Path.extension name = goExtension → IsName name → ¬written (above ++ [name])) :
    t'.read path = t.read path := by
  obtain ⟨e, here, hentry, hfound, rfl⟩ := (goFiles_found ht hfolder includeTests).2 path hpath
  obtain ⟨base, content, hbase, hlinks, hface⟩ := file_of_foundAt hentry (hfree e hentry) hfound
  have hkept : t'.root.faceAt? (base ++ here) = some (.file content) := by
    obtain ⟨above, name, rfl, hname⟩ := hfound.wanted
    refine hg.root.content ?_ hface
    rw [← List.append_assoc]
    exact hwritten _ name (extension_of_isWanted hname) (hfound.names name (by simp))
  rcases place_cases true (Path.joinAll folder here) with ⟨cause, hcause⟩ | husable
  · exact read_congr (by rw [hcause, hcause]) (by simp [hcause])
  have hbefore := place_joinAll hfolder hfound.names husable hbase hlinks hface
  have hafter := place_joinAll hfolder hfound.names husable (hg.place_found hbase) (hg.root.noLinks hlinks)
    hkept
  refine read_congr (hafter.trans hbefore.symm) fun there hthere => ?_
  rw [hbefore] at hthere
  split at hthere
  · obtain rfl : base ++ here = there := Place.found.inj (Except.ok.inj hthere)
    rw [Entry.faceAt?_eq_file.1 hface, Entry.faceAt?_eq_file.1 hkept]
  · cases hthere

end FileTree

end Files

namespace Run

open SourceOutline.Files (FileTree Location NoLinks Place)
open SourceOutline.Scan (FileScan Stats discover scanFolder)

/-- Where the result of a scan goes, below the root of results. -/
def resultPlace (s : FileScan) : Location :=
  Files.names (Path.stem (Path.normalize s.path) ++ ".json")

/-- A scan whose result goes to a place of its own name below the root of results. -/
structure Lands (s : FileScan) : Prop where
  head : (Path.stem (Path.normalize s.path) ++ ".json").toList.head? ≠ some '/'
  names : ∀ n ∈ resultPlace s, IsName n
  suffix : ∃ above stem, resultPlace s = above ++ [stem ++ ".json"]

theorem lands_of_path {s : FileScan} {above : List String} {name : String} (habove : ∀ n ∈ above, IsName n)
    (hname : IsName name) (h : s.path = Path.ofNames (above ++ [name])) : Lands s := by
  have hslash : '/' ∉ ".json".toList := by decide
  have hresult := Path.isName_result habove hname hslash
  have hinner := Path.stem_normalize_ofNames habove hname
  have hplace : resultPlace s = above ++ [Path.stem name ++ ".json"] := by
    rw [resultPlace, h, hinner, Files.names_ofNames hresult]
  refine ⟨?_, hplace ▸ hresult, above, Path.stem name, hplace⟩
  rw [h, hinner]
  exact Path.head?_ofNames hresult

/-- The scans of a run land below the root. -/
theorem lands_of_scanFolder [GoParser] {t : FileTree} {settings : Settings} {scans : List FileScan} {stats : Stats}
    (ht : t.Proper)
    (h : (scanFolder t (scanOptions settings) settings.sourceDir).value = .ok (scans, stats)) :
    ∀ s ∈ scans, Lands s := by
  intro s hs
  have hmem := (Scan.paths_perm ht h).mem_iff.1 (List.mem_map_of_mem hs)
  obtain ⟨f, hf, hpath⟩ := List.mem_map.1 hmem
  obtain ⟨hfound, hload⟩ := Scan.mem_loadable.1 hf
  obtain ⟨_, here, -, hat, -, hshown⟩ := Scan.load_located ht hfound hload
  obtain ⟨above, name, rfl, -⟩ := hat.wanted
  exact lands_of_path (fun n hn => hat.names n (List.mem_append_left _ hn)) (hat.names name (by simp))
    (hpath.symm.trans hshown)

namespace Lands

variable {s : FileScan} {root : String} {t : FileTree} {here : Location}

theorem names_resultPath (h : Lands s) (root : String) :
    Files.names (resultPath root s) = Files.names root ++ resultPlace s :=
  Files.names_join root _ h.head

theorem startOf (h : Lands s) (hroot : root ≠ "") (t : FileTree) :
    t.startOf (resultPath root s) = t.startOf root := by
  have hchars : root.toList ≠ [] := fun hnil => hroot (String.toList_inj.1 hnil)
  obtain ⟨more, hmore⟩ : ∃ more, (resultPath root s).toList = root.toList ++ more := by
    rw [resultPath, Path.resultPath, Path.join, String.toList_ofList]
    unfold Path.joinChars
    split
    · next rest hrest => exact absurd (by rw [hrest]; rfl) h.head
    · split
      · exact ⟨_, rfl⟩
      · exact ⟨_, rfl⟩
  have hslash : (resultPath root s).startsWith "/" = root.startsWith "/" := by
    rw [Bool.eq_iff_iff, String.startsWith_string_iff, String.startsWith_string_iff, hmore]
    obtain ⟨c, rest, hcons⟩ := List.exists_cons_of_ne_nil hchars
    simp [hcons]
  rw [FileTree.startOf, FileTree.startOf, hslash]

/-- Where the path of a result leads, once the root is there and has no links. -/
theorem place_eq (h : Lands s) (hroot : t.place true root = .ok (.found here)) (hlinks : NoLinks t.root here)
    {place : Place} (hplace : t.place true (resultPath root s) = .ok place) :
    place = .found (here ++ resultPlace s) ∨
      ∃ above name, resultPlace s = above ++ [name] ∧ place = .vacant (here ++ above) name := by
  have husable := FileTree.usable_of_place hroot
  rw [FileTree.place_of_usable husable] at hroot
  obtain ⟨fewer, hmore⟩ := Files.resolve_append hroot
  rw [FileTree.place_of_usable (FileTree.usable_of_place hplace), h.startOf husable.nonempty,
    h.names_resultPath, hmore] at hplace
  exact Files.resolve_below hplace hlinks h.names

end Lands

/-- One result is written in its place or not at all. -/
theorem Outcome.at_place {root : String} {s : FileScan} {t t' : FileTree} {here : Location} {written : Bool}
    (h : Outcome (resultPath root s) (resultOctets s) t written t') (hs : Lands s)
    (hfolder : t.root.faceAt? [] = some .folder) (hroot : t.place true root = .ok (.found here))
    (hlinks : NoLinks t.root here) :
    t.GrowsTo (· = here ++ resultPlace s) t' ∧
      (written = true → t'.place true (resultPath root s) = .ok (.found (here ++ resultPlace s)) ∧
        t'.root.faceAt? (here ++ resultPlace s) = some (.file (resultOctets s)) ∧
        (resultPath root s).endsWith "/" = false) := by
  cases written with
  | false =>
    cases h with
    | unwritten hfolders _ => exact ⟨hfolders.mono (fun _ => False.elim), by simp⟩
  | true =>
    obtain ⟨there, hgrows, hplace, hface, hslash⟩ := h.found hfolder
    obtain rfl : there = here ++ resultPlace s := by
      rcases hs.place_eq (hgrows.place_found hroot) (hgrows.root.noLinks hlinks) hplace
        with heq | ⟨_, _, _, heq⟩
      · exact Place.found.inj heq
      · cases heq
    exact ⟨hgrows, fun _ => ⟨hplace, hface, hslash⟩⟩

/-- Results that are delivered one after the other are all read at the end, each in its place, and no other
file has changed. -/
theorem Delivers.at_places {root : String} {t t' : FileTree} {scans : List FileScan} {ds : List Delivery}
    {here : Location} (h : Delivers root t scans ds t') (hscans : ∀ s ∈ scans, Lands s)
    (hdistinct : (scans.map resultPlace).Nodup) (hfolder : t.root.faceAt? [] = some .folder)
    (hroot : t.place true root = .ok (.found here)) (hlinks : NoLinks t.root here) :
    t.GrowsTo (fun there => ∃ s ∈ scans, there = here ++ resultPlace s) t' ∧
      ∀ d ∈ ds, d.written = true →
        ∃ s ∈ scans, d.path = resultPath root s ∧ t'.read (resultPath root s) = .ok (resultOctets s) := by
  induction h with
  | done t => exact ⟨.refl _ t, by simp⟩
  | @next t t₁ t' s rest more written hstep _ ih =>
    obtain ⟨hfirst, hwritten⟩ := hstep.at_place (hscans s List.mem_cons_self) hfolder hroot hlinks
    rw [List.map_cons, List.nodup_cons] at hdistinct
    obtain ⟨hrest, hread⟩ := ih (fun s hs => hscans s (List.mem_cons_of_mem _ hs)) hdistinct.2
      (hfirst.root.folder hfolder) (hfirst.place_found hroot) (hfirst.root.noLinks hlinks)
    refine ⟨(hfirst.mono ?_).trans (hrest.mono ?_), fun d hd hdone => ?_⟩
    · rintro there rfl
      exact ⟨s, List.mem_cons_self, rfl⟩
    · rintro there ⟨s', hs', rfl⟩
      exact ⟨s', List.mem_cons_of_mem _ hs', rfl⟩
    · rcases List.mem_cons.1 hd with rfl | hd
      · obtain ⟨hplace, hface, hslash⟩ := hwritten hdone
        -- the results that follow have other places
        have hother : ¬∃ s' ∈ rest, here ++ resultPlace s = here ++ resultPlace s' := by
          rintro ⟨s', hs', heq⟩
          exact hdistinct.1 (List.mem_map.2 ⟨s', hs', (List.append_cancel_left heq).symm⟩)
        refine ⟨s, List.mem_cons_self, rfl, ?_⟩
        exact FileTree.read_of_place (hrest.place_found hplace) (hrest.root.content hother hface) hslash
      · obtain ⟨s', hs', hpath, hcontent⟩ := hread d hd hdone
        exact ⟨s', List.mem_cons_of_mem _ hs', hpath, hcontent⟩

/-- The root of results, once it is there, is a place without links. -/
theorem makeRoot_place {t t' : FileTree} {root : String} (hfolder : t.root.faceAt? [] = some .folder)
    (hfree : ∀ here e, t.place false root = .ok (.found here) → t.root.get? here = some e → e.linkFree = true)
    (h : (makeRoot t root).value = (.ok true, t')) :
    ∃ here, t'.place true root = .ok (.found here) ∧ NoLinks t'.root here := by
  rcases makeRoot_cases h with ⟨-, hmade⟩ | ⟨rfl, e, hmade, hpresent⟩
  · obtain ⟨above, name, habove, hnone, rfl, hplace⟩ := FileTree.makeFolder_ok hmade
    obtain ⟨hgrows, hface⟩ := FileTree.setAt_folder_grows habove hnone
    have hlinks : NoLinks (t.setAt (above ++ [name]) (.folder [])).root (above ++ [name]) := by
      intro below target hlink
      -- a link below the new folder would have been there before it
      have hbefore := hgrows.root.links _ _ hlink
      cases below with
      | nil =>
        rw [List.append_nil, hnone] at hbefore
        cases hbefore
      | cons first below =>
        have hthere := Files.Entry.folder_above hbefore (List.cons_ne_nil first below)
        rw [hnone] at hthere
        cases hthere
    have hfound := hgrows.place_filled hface (by simp) hplace
    exact ⟨_, FileTree.place_whole hfound (by simp [hface]), hlinks⟩
  · unfold FileTree.makeFolder FileTree.create at hmade
    cases hplace : t'.place false root with
    | error cause =>
      simp only [hplace, Except.error.injEq] at hmade
      have hcause : cause = .present := by
        rw [← hpresent rfl, ← hmade]
      exact absurd (hcause ▸ hplace) (FileTree.place_ne_present t' false root)
    | ok place =>
      cases place with
      | vacant above name => simp [hplace] at hmade
      | found here =>
        obtain ⟨face, hface, -⟩ := FileTree.place_sound hfolder hplace
        obtain ⟨entry, hentry, -⟩ := Option.map_eq_some_iff.1 hface
        have hlinks := Files.noLinks_of_linkFree hentry (hfree here entry hplace hentry)
        refine ⟨here, FileTree.place_whole hplace fun target hlink => ?_, hlinks⟩
        exact hlinks [] target (by rw [List.append_nil]; exact hlink)

/-- What is delivered stays as it is, and a tree changes only by results. -/
theorem Delivered.kept {root : String} {t t' : FileTree} {scans : List FileScan} {ds : List Delivery}
    (h : Delivered root t scans ds t') (hscans : ∀ s ∈ scans, Lands s)
    (hdistinct : (scans.map resultPlace).Nodup) (hfolder : t.root.faceAt? [] = some .folder)
    (hfree : ∀ here e, t.place false root = .ok (.found here) → t.root.get? here = some e →
      e.linkFree = true) :
    t.GrowsTo (fun there => ∃ above stem, there = above ++ [stem ++ ".json"]) t' ∧
      ∀ d ∈ ds, d.written = true →
        ∃ s ∈ scans, d.path = resultPath root s ∧ t'.read (resultPath root s) = .ok (resultOctets s) := by
  cases h with
  | nothing => exact ⟨.refl _ t, by simp⟩
  | rootless _ =>
    refine ⟨.refl _ t, fun d hd hwritten => ?_⟩
    obtain ⟨s, -, rfl⟩ := List.mem_map.1 hd
    cases hwritten
  | each hmade h =>
    have hgrows := makeRoot_grows hmade
    obtain ⟨here, hroot, hlinks⟩ := makeRoot_place hfolder hfree hmade
    obtain ⟨hlater, hread⟩ := h.at_places hscans hdistinct (hgrows.root.folder hfolder) hroot hlinks
    refine ⟨(hgrows.mono fun _ => False.elim).trans (hlater.mono ?_), hread⟩
    rintro there ⟨s, hs, rfl⟩
    obtain ⟨above, stem, hplace⟩ := (hscans s hs).suffix
    exact ⟨here ++ above, stem, by rw [hplace, List.append_assoc]⟩

theorem nodup_resultPlace {scans : List FileScan} (hscans : ∀ s ∈ scans, Lands s) {root : String}
    (h : ((scans.map (resultPath root)).map Files.names).Nodup) : (scans.map resultPlace).Nodup := by
  have hnames : (scans.map (resultPath root)).map Files.names =
      (scans.map resultPlace).map (Files.names root ++ ·) := by
    rw [List.map_map, List.map_map]
    refine List.map_congr_left fun s hs => ?_
    rw [Function.comp_apply, Function.comp_apply, (hscans s hs).names_resultPath]
  rw [hnames] at h
  exact .of_map _ h

/-- A Go file does not have the name of a result. -/
theorem ne_result_name {name stem : String} (hext : Path.extension name = Files.goExtension)
    (hname : IsName name) : name ≠ stem ++ ".json" := by
  intro heq
  have hchars : (Path.stem name).toList ++ ['.', 'g', 'o'] = stem.toList ++ ['.', 'j', 's', 'o', 'n'] := by
    have hparts := Path.stem_append_extension hname.noSlash
    rw [hext] at hparts
    simpa [Files.goExtension] using congrArg String.toList (hparts.trans heq)
  have hlast := congrArg List.getLast? hchars
  simp at hlast

/-- A run keeps every result that it reports.

Where there are no links in the source folder and none at or below the root of results, all results have
paths of their own, each that is reported as written is read at the end with the text of its own scan, and
the Go files that were found are read as before. -/
theorem runScan_keeps_results [GoParser] {host : Host} {settings : Settings} {w w' : Workspace} {summary : Summary}
    (ht : w.files.Proper)
    (hsource : ∀ e, w.files.entry (Path.absolute w.files.cwd settings.sourceDir) = .ok e → e.linkFree = true)
    (hresults : ∀ here e, w.files.place false settings.resultRoot = .ok (.found here) →
      w.files.root.get? here = some e → e.linkFree = true)
    (h : runScan host settings w = (.ok summary, w')) :
    ∃ (found : List String) (scans : List FileScan),
      (discover w.files settings.includeTests settings.sourceDir).value = .ok found ∧
      (scanFolder w.files (scanOptions settings) settings.sourceDir).value = .ok (scans, summary.stats) ∧
      (summary.written ++ summary.unwritten).Perm (scans.map (resultPath settings.resultRoot)) ∧
      (summary.written ++ summary.unwritten).Nodup ∧
      (∀ s ∈ scans, resultPath settings.resultRoot s ∈ summary.written →
        w'.files.isFile (resultPath settings.resultRoot s) = true ∧
        w'.files.read (resultPath settings.resultRoot s) = .ok (Text.Utf8.encode (resultText s))) ∧
      ∀ source ∈ found, w'.files.read source = w.files.read source := by
  obtain ⟨scans, hscan, hdelivered, hperm, hnodup⟩ := runScan_results ht h
  obtain ⟨slashes, cs, hfolder⟩ := Path.rooted_absolute ht.cwd settings.sourceDir
  have hscans := lands_of_scanFolder ht hscan
  have hplaces := nodup_resultPlace hscans (nodup_names_of_scanFolder ht hscan settings.resultRoot)
  obtain ⟨hgrows, hread⟩ := hdelivered.kept hscans hplaces ht.root_folder hresults
  refine ⟨_, scans, Scan.discover_value (Scan.isFolder_of_scanFolder hscan) _, hscan, hperm, hnodup, ?_, ?_⟩
  · intro s hs hmem
    obtain ⟨d, hd, hpath⟩ := List.mem_map.1 hmem
    obtain ⟨hd, hwritten⟩ := List.mem_filter.1 hd
    obtain ⟨s', hs', hpath', hcontent⟩ := hread d hd hwritten
    -- the result paths of two scans differ
    obtain rfl : s = s' := by
      have hpaths := hperm.nodup_iff.1 hnodup
      rw [hpath] at hpath'
      exact List.inj_on_of_nodup_map hpaths hs hs' hpath'
    have hfile := hdelivered.isFile ht.root_folder hd hwritten
    rw [hpath] at hfile
    exact ⟨hfile, hcontent⟩
  · intro source hmem
    refine FileTree.read_source ht hfolder hsource hmem hgrows fun above name hext hname => ?_
    rintro ⟨others, stem, heq⟩
    obtain ⟨-, hlast⟩ := List.append_inj' heq rfl
    exact ne_result_name hext hname (List.singleton_inj.1 hlast)

theorem runScan_keeps_results_shelf :
    ∃ (summary : Summary) (w' : Workspace),
      runScan quietHost shelfSettings { files := shelf } = (.ok summary, w') ∧
      summary.written = ["/a.json/b.json"] ∧
      w'.files.read "/a.json/b.json" = .ok (Text.Utf8.encode (resultText (Scan.emptyScan "a.json/b.go"))) ∧
      w'.files.read "/a.go" = .ok ByteArray.empty := by
  have hproper : shelf.Proper := ⟨rfl, by decide, by decide⟩
  obtain ⟨stats, w', hrun⟩ := runScan_shelf quietHost
  have hsource : ∀ e, shelf.entry (Path.absolute shelf.cwd "/") = .ok e → e.linkFree = true := by
    intro e he
    rw [show Path.absolute shelf.cwd "/" = "/" by decide, FileTree.entry_root rfl, Except.ok.injEq] at he
    rw [← he]
    decide
  have hresults : ∀ here e, shelf.place false "/" = .ok (.found here) → shelf.root.get? here = some e →
      e.linkFree = true := by
    intro here e hplace hget
    rw [FileTree.place_root, Except.ok.injEq] at hplace
    obtain rfl := Place.found.inj hplace
    rw [← Option.some.inj hget]
    decide
  obtain ⟨found, scans, hfound, hscan, -, -, hread, hkept⟩ :=
    @runScan_keeps_results _ quietHost shelfSettings { files := shelf } w' _ hproper hsource hresults hrun
  obtain rfl : ["/a.go", "/a.json/b.go"] = found := Except.ok.inj (discover_shelf.symm.trans hfound)
  obtain ⟨_, hshelf⟩ := scanFolder_shelf
  obtain rfl : shelfScans = scans := congrArg Prod.fst (Except.ok.inj (hshelf.symm.trans hscan))
  have hresult : resultPath "/" (Scan.emptyScan "a.json/b.go") = "/a.json/b.json" := by decide
  refine ⟨_, w', hrun, rfl, ?_, ?_⟩
  · rw [← hresult]
    exact (hread (Scan.emptyScan "a.json/b.go") (by simp [shelfScans]) (List.mem_singleton.2 hresult)).2
  · rw [hkept "/a.go" List.mem_cons_self]
    exact FileTree.read_of_place place_shelf.1 rfl (by decide +kernel)

end Run

end SourceOutline
