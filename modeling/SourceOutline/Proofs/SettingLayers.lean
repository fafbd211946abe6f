import Mathlib.Data.List.Forall2
import Mathlib.Data.List.Nodup
import Mathlib.Data.List.Pairwise
import SourceOutline.Proofs.Placement
import SourceOutline.Proofs.StrictReading
import SourceOutline.Yaml.Load

/-!
Settings from layers: each setting has the value of the last layer that has a valid one for it, whatever else
is in the layers and in whatever order.
-/
namespace SourceOutline.Settings

/-- The value of a setting. -/
def get (s : Settings) : Key → Value
  | .sourceDir => .text s.sourceDir
  | .resultRoot => .text s.resultRoot
  | .reportDir => .text s.reportDir
  | .perPackageIndex => .flag s.perPackageIndex
  | .recordOmissions => .flag s.recordOmissions
  | .includeTests => .flag s.includeTests
  | .logLevel => .text s.logLevel

theorem ext_get {s s' : Settings} (h : ∀ key, s.get key = s'.get key) : s = s' := by
  have hall := And.intro (h .sourceDir) (And.intro (h .resultRoot) (And.intro (h .reportDir)
    (And.intro (h .perPackageIndex) (And.intro (h .recordOmissions) (And.intro (h .includeTests)
      (h .logLevel))))))
  cases s
  cases s'
  simpa [get] using hall

/-- Whether a value is of the kind that a setting takes. -/
def Value.Fits (key : Key) : Value → Prop
  | .text _ => key.isFlag = false
  | .flag _ => key.isFlag = true

theorem get_set (s : Settings) {key : Key} {value : Value} (h : value.Fits key) (other : Key) :
    (s.set key value).get other = if other = key then value else s.get other := by
  cases value with
  | text v =>
    cases key with
    | perPackageIndex | recordOmissions | includeTests => cases h
    | _ => cases other <;> rfl
  | flag v =>
    cases key with
    | perPackageIndex | recordOmissions | includeTests => cases other <;> rfl
    | _ => cases h

/-- The valid value that a setting has in a datum. -/
def valueFor (key : Key) (d : Datum) : Option Value :=
  if key.isFlag then
    match d with
    | .bool b => some (.flag b)
    | d => (flagOf? d.plain).map .flag
  else
    match d with
    | .text s => some (.text s)
    | .int n => some (.text (Datum.int n).plain)
    | .float x => some (.text (Datum.float x).plain)
    | _ => none

theorem fits_of_valueFor {key : Key} {d : Datum} {value : Value} (h : valueFor key d = some value) :
    value.Fits key := by
  unfold valueFor at h
  by_cases hflag : key.isFlag = true
  · rw [if_pos hflag] at h
    have hword : ∀ {word : Option Bool}, word.map Value.flag = some value → value.Fits key := by
      intro word hmap
      obtain ⟨b, -, rfl⟩ := Option.map_eq_some_iff.1 hmap
      exact hflag
    cases d with
    | bool b => cases h; exact hflag
    | _ => exact hword h
  · rw [if_neg hflag] at h
    have htext : key.isFlag = false := by simpa using hflag
    cases d with
    | text s | int n | float x => cases h; exact htext
    | _ => cases h

/-- The change that an entry asks for, if it is valid. -/
def updateOf? (entry : Datum × Datum) : Option Update :=
  (keyOf? entry.1).bind fun key => (valueFor key entry.2).map (Update.mk key)

/-- Whether what a setting has to show of a datum is not too long. -/
def Key.canRead (key : Key) : Datum → Bool
  | .bool _ => true
  | .int n => (Datum.int n).isShowable
  | d => !key.isFlag || d.isShowable

/-- Whether an entry can be read: what has to be shown as text for it is not too long. -/
def isReadable (key value : Datum) : Bool :=
  match keyOf? key with
  | none => key.isShowable
  | some k => k.canRead value

namespace Layer

/-- The value that a layer has for a setting, valid or not. -/
def value? (l : Layer) (key : Key) : Option Datum :=
  (l.entries.find? fun e => keyOf? e.1 = some key).map (·.2)

/-- The valid value that a layer has for a setting. -/
def valid? (l : Layer) (key : Key) : Option Value :=
  (l.value? key).bind (valueFor key)

/-- The changes that the entries of a layer ask for, in order. -/
def updates (l : Layer) : List Update :=
  l.entries.filterMap updateOf?

/-- No setting is named twice, as in a mapping. -/
def Distinct (l : Layer) : Prop :=
  (l.entries.filterMap fun e => keyOf? e.1).Nodup

instance (l : Layer) : Decidable l.Distinct :=
  inferInstanceAs (Decidable (List.Nodup _))

/-- A layer has the entries of this one, in whatever order, but for some with something wrong. -/
def TidiedTo (l l' : Layer) : Prop :=
  ∃ keep : Datum × Datum → Bool,
    (∀ e ∈ l.entries, ∀ u, updateOf? e = some u → keep e = true) ∧
      (l.entries.filter keep).Perm l'.entries

/-- Two mappings with the same valid values. -/
structure Alike (l l' : Layer) : Prop where
  left : l.Distinct
  right : l'.Distinct
  valid : ∀ key, l'.valid? key = l.valid? key

variable {l : Layer}

theorem Distinct.eq_of_mem (h : l.Distinct) {key : Key} {a b : Datum × Datum} (ha : a ∈ l.entries)
    (hb : b ∈ l.entries) (hkeyA : keyOf? a.1 = some key) (hkeyB : keyOf? b.1 = some key) : a = b := by
  have hpair := List.pairwise_filterMap.1 h
  have hsymm : Std.Symm fun a b : Datum × Datum =>
      ∀ k, keyOf? a.1 = some k → ∀ k', keyOf? b.1 = some k' → k ≠ k' :=
    ⟨fun a b hab k hk k' hk' => (hab k' hk' k hk).symm⟩
  by_contra hne
  exact hpair.forall ha hb hne key hkeyA key hkeyB rfl

/-- In a mapping, the valid value of a setting is that of the one entry that names it. -/
theorem Distinct.valid?_eq_some_iff (h : l.Distinct) {key : Key} {v : Value} :
    l.valid? key = some v ↔ ∃ e ∈ l.entries, keyOf? e.1 = some key ∧ valueFor key e.2 = some v := by
  unfold valid? value?
  cases hfind : l.entries.find? fun e => keyOf? e.1 = some key with
  | none =>
    have hnone := List.find?_eq_none.1 hfind
    simp only [Option.map_none, Option.bind_none, reduceCtorEq, false_iff]
    rintro ⟨e, he, hkey, -⟩
    exact hnone e he (by simpa using hkey)
  | some found =>
    have hmem := List.mem_of_find?_eq_some hfind
    have hkey : keyOf? found.1 = some key := by simpa using List.find?_some hfind
    rw [Option.map_some, Option.bind_some]
    constructor
    · intro hv
      exact ⟨found, hmem, hkey, hv⟩
    · rintro ⟨e, he, hkeyE, hv⟩
      rwa [h.eq_of_mem hmem he hkey hkeyE]

/-- A layer whose entries are visited in another order. -/
theorem TidiedTo.of_perm {l' : Layer} (h : l.entries.Perm l'.entries) : l.TidiedTo l' := by
  refine ⟨fun _ => true, fun _ _ _ _ => rfl, ?_⟩
  rw [List.filter_true]
  exact h

theorem TidiedTo.mem {l' : Layer} (h : l.TidiedTo l') {e : Datum × Datum} (he : e ∈ l'.entries) :
    e ∈ l.entries := by
  obtain ⟨keep, -, hperm⟩ := h
  exact (List.mem_filter.1 (hperm.mem_iff.2 he)).1

/-- Neither what is wrong in a mapping nor its order matters. -/
theorem Distinct.alike_of_tidiedTo (h : l.Distinct) {l' : Layer} (htidied : l.TidiedTo l') :
    l.Alike l' := by
  obtain ⟨keep, hkeep, hperm⟩ := htidied
  have h' : l'.Distinct :=
    (hperm.filterMap _).nodup_iff.1 (h.sublist (List.filter_sublist.filterMap _))
  refine ⟨h, h', fun key => Option.ext fun v => ?_⟩
  rw [h'.valid?_eq_some_iff, h.valid?_eq_some_iff]
  simp only [← hperm.mem_iff, List.mem_filter]
  constructor
  · rintro ⟨e, ⟨he, -⟩, hkey, hv⟩
    exact ⟨e, he, hkey, hv⟩
  · rintro ⟨e, he, hkey, hv⟩
    have hupdate : updateOf? e = some ⟨key, v⟩ := by
      rw [updateOf?, hkey, Option.bind_some, hv, Option.map_some]
    exact ⟨e, ⟨he, hkeep e he _ hupdate⟩, hkey, hv⟩

end Layer

/-- Settings after layers, each over the one before. -/
def ofLayers (layers : List Layer) : Settings :=
  (layers.flatMap Layer.updates).foldl apply {}

/-- What one entry does to a setting. -/
theorem get_foldl_updateOf? (s : Settings) (e : Datum × Datum) (key : Key) :
    ((updateOf? e).toList.foldl apply s).get key =
      if keyOf? e.1 = some key then (valueFor key e.2).getD (s.get key) else s.get key := by
  unfold updateOf?
  cases hname : keyOf? e.1 with
  | none => rfl
  | some named =>
    simp only [Option.bind_some, Option.some.injEq]
    cases hvalue : valueFor named e.2 with
    | none =>
      by_cases hkey : named = key
      · subst hkey
        rw [if_pos rfl, hvalue]
        rfl
      · rw [if_neg hkey]
        rfl
    | some v =>
      have hset := get_set s (fits_of_valueFor hvalue) key
      by_cases hkey : named = key
      · subst hkey
        rw [if_pos rfl] at hset
        rw [if_pos rfl, hvalue]
        exact hset
      · rw [if_neg (Ne.symm hkey)] at hset
        rw [if_neg hkey]
        exact hset

/-- What a mapping does to a setting: its valid value counts, if it has one. -/
theorem get_foldl_updates {l : Layer} (h : l.Distinct) (s : Settings) (key : Key) :
    (l.updates.foldl apply s).get key = (l.valid? key).getD (s.get key) := by
  obtain ⟨origin, entries⟩ := l
  induction entries generalizing s with
  | nil => rfl
  | cons e rest ih =>
    have hrest : Layer.Distinct ⟨origin, rest⟩ := h.sublist ((List.sublist_cons_self e rest).filterMap _)
    have hcons : Layer.updates ⟨origin, e :: rest⟩ = (updateOf? e).toList ++ Layer.updates ⟨origin, rest⟩ := by
      unfold Layer.updates
      cases hupdate : updateOf? e <;> simp [hupdate]
    rw [hcons, List.foldl_append, ih _ hrest, get_foldl_updateOf?]
    by_cases hkey : keyOf? e.1 = some key
    · have hnone : Layer.value? ⟨origin, rest⟩ key = none := by
        unfold Layer.Distinct at h
        rw [List.filterMap_cons, hkey] at h
        rw [Layer.value?, Option.map_eq_none_iff, List.find?_eq_none]
        intro other hother
        have hnot := (List.nodup_cons.1 h).1
        rw [List.mem_filterMap] at hnot
        simpa using fun heq => hnot ⟨other, hother, heq⟩
      have hfound : Layer.value? ⟨origin, e :: rest⟩ key = some e.2 := by simp [Layer.value?, hkey]
      rw [Layer.valid?, hnone, Layer.valid?, hfound, if_pos hkey]
      rfl
    · simp [Layer.valid?, Layer.value?, hkey]

/-- Layers one over the other: the last valid value of a setting counts. -/
theorem get_foldl_layers {layers : List Layer} (h : ∀ l ∈ layers, l.Distinct) (s : Settings) (key : Key) :
    ((layers.flatMap Layer.updates).foldl apply s).get key =
      (layers.reverse.findSome? (·.valid? key)).getD (s.get key) := by
  induction layers generalizing s with
  | nil => rfl
  | cons l rest ih =>
    rw [List.flatMap_cons, List.foldl_append, ih fun other hother => h other (List.mem_cons_of_mem _ hother),
      get_foldl_updates (h l List.mem_cons_self), List.reverse_cons, List.findSome?_append]
    cases rest.reverse.findSome? (·.valid? key) <;> cases hl : l.valid? key <;> simp [hl]

theorem get_ofLayers {layers : List Layer} (h : ∀ l ∈ layers, l.Distinct) (key : Key) :
    (ofLayers layers).get key =
      (layers.reverse.findSome? (·.valid? key)).getD (({} : Settings).get key) :=
  get_foldl_layers h {} key

/-- Layers with the same valid values give the same settings. -/
theorem ofLayers_alike {layers layers' : List Layer} (h : List.Forall₂ Layer.Alike layers layers') :
    ofLayers layers' = ofLayers layers := by
  unfold ofLayers
  generalize ({} : Settings) = s
  induction h generalizing s with
  | nil => rfl
  | @cons l l' rest rest' hfirst _ ih =>
    have hone : l'.updates.foldl apply s = l.updates.foldl apply s := by
      refine ext_get fun key => ?_
      rw [get_foldl_updates hfirst.right, get_foldl_updates hfirst.left, hfirst.valid]
    rw [List.flatMap_cons, List.foldl_append, List.flatMap_cons, List.foldl_append, hone, ih]

theorem name_of_ofName? {text : String} {key : Key} (h : Key.ofName? text = some key) : key.name = text := by
  simpa using List.find?_some h

/-- A layer whose keys are given under names of their own names each setting once. -/
theorem Layer.distinct_of_names {l : Layer} {names : List String} (hnames : names.Nodup)
    (hsub : (l.entries.map (·.1)).Sublist (names.map Datum.text)) : l.Distinct := by
  have hkeys : ((names.map Datum.text).filterMap keyOf?).Nodup := by
    rw [List.filterMap_map]
    refine List.Nodup.filterMap (fun a b key ha hb => ?_) hnames
    exact (name_of_ofName? ha).symm.trans (name_of_ofName? hb)
  have hentries : l.entries.filterMap (fun e => keyOf? e.1) = (l.entries.map (·.1)).filterMap keyOf? := by
    rw [List.filterMap_map]
    rfl
  rw [Layer.Distinct, hentries]
  exact hkeys.sublist (hsub.filterMap _)

private theorem map_filterMap_sublist {α β γ : Type} {f : α → Option β} {g : β → γ} {name : α → γ}
    (h : ∀ a b, f a = some b → g b = name a) (as : List α) :
    ((as.filterMap f).map g).Sublist (as.map name) := by
  induction as with
  | nil => exact .slnil
  | cons a rest ih =>
    cases ha : f a with
    | none =>
      rw [List.filterMap_cons_none ha, List.map_cons]
      exact ih.cons _
    | some b =>
      rw [List.filterMap_cons_some ha, List.map_cons, List.map_cons, h a b ha]
      exact ih.cons_cons _

theorem environmentLayer_distinct (order : KeyOrder) (env : Environment) :
    (environmentLayer order env).Distinct := by
  have hall : (Key.all.map Key.name).Nodup := by decide
  refine Layer.distinct_of_names ((order.perm.map Key.name).nodup_iff.2 hall) ?_
  dsimp only [environmentLayer]
  rw [List.map_map]
  refine map_filterMap_sublist (fun key e he => ?_) order.keys
  obtain ⟨text, -, rfl⟩ := Option.map_eq_some_iff.1 he
  rfl

theorem environmentLayer_perm (order order' : KeyOrder) (env : Environment) :
    (environmentLayer order env).entries.Perm (environmentLayer order' env).entries :=
  (order.perm.trans order'.perm.symm).filterMap _

theorem argumentLayer_distinct {arguments : List (String × Datum)} (h : (arguments.map (·.1)).Nodup) :
    (argumentLayer arguments).Distinct := by
  refine Layer.distinct_of_names h ?_
  rw [List.map_map]
  refine map_filterMap_sublist (fun argument e he => ?_) arguments
  obtain ⟨name, value⟩ := argument
  cases value with
  | null => cases he
  | _ => cases he; rfl

section Lenient

theorem value_textOf (d : Datum) :
    (textOf d).value = if d.isShowable then .ok d.plain else .error .tooLong := by
  unfold textOf
  by_cases hshowable : d.isShowable = true
  · rw [if_pos hshowable, if_pos hshowable]
    rfl
  · rw [if_neg hshowable, if_neg hshowable]
    rfl

/-- A reading that goes on exactly where a test succeeds. -/
theorem value_bind_ite {α β : Type} {r : Reading α} {test : Bool} {a : α} {f : Failure}
    (h : r.value = if test then .ok a else .error f) (next : α → Reading β) :
    (r >>= next).value = if test then (next a).value else .error f := by
  cases test with
  | true => exact (Reading.bind_of_ok h next).1
  | false => exact (Reading.bind_of_error h next).1

theorem value_flagFrom (key : Key) (d : Datum) :
    (flagFrom false key d).value =
      if d.isShowable then .ok ((flagOf? d.plain).map .flag) else .error .tooLong := by
  unfold flagFrom
  rw [value_bind_ite (value_textOf d)]
  cases flagOf? d.plain with
  | none => rfl
  | some b => rfl

theorem value_coerce (key : Key) (d : Datum) :
    (coerce false key d).value = if key.canRead d then .ok (valueFor key d) else .error .tooLong := by
  unfold coerce valueFor Key.canRead
  by_cases hflag : key.isFlag = true
  · simp only [hflag, if_true, Bool.not_true, Bool.false_or]
    cases d with
    | bool b => rfl
    | _ => exact value_flagFrom key _
  · simp only [hflag, Bool.false_eq_true, if_false, Bool.not_false, Bool.true_or]
    cases d with
    | int n => exact value_bind_ite (value_textOf (.int n)) _
    | _ => rfl

theorem value_readEntry (origin : String) (e : Datum × Datum) :
    (readEntry false origin e).value =
      if isReadable e.1 e.2 then .ok (updateOf? e) else .error .tooLong := by
  unfold readEntry isReadable updateOf?
  cases keyOf? e.1 with
  | none => exact value_bind_ite (value_textOf e.1) _
  | some key => exact value_bind_ite (value_coerce key e.2) _

/-- A lenient reading of entries passes over what is wrong with them, and ends at one that is too long. -/
theorem value_readEntries (origin : String) (entries : List (Datum × Datum)) :
    (readEntries false origin entries).value =
      if entries.all (fun e => isReadable e.1 e.2) then .ok (entries.filterMap updateOf?)
      else .error .tooLong := by
  induction entries with
  | nil => rfl
  | cons e rest ih =>
    have hupdates : (e :: rest).filterMap updateOf? = (updateOf? e).toList ++ rest.filterMap updateOf? := by
      cases hupdate : updateOf? e <;> simp [hupdate]
    rw [readEntries, value_bind_ite (value_readEntry origin e), value_bind_ite ih, List.all_cons, hupdates]
    cases isReadable e.1 e.2 with
    | true => rfl
    | false => rfl

theorem value_applyLayer (s : Settings) (l : Layer) :
    (applyLayer false s l).value =
      if l.entries.all (fun e => isReadable e.1 e.2) then .ok (l.updates.foldl apply s)
      else .error .tooLong :=
  value_bind_ite (value_readEntries l.origin l.entries) _

theorem value_foldlM_applyLayer (layers : List Layer) (s : Settings) :
    (layers.foldlM (applyLayer false) s).value =
      if layers.all (fun l => l.entries.all fun e => isReadable e.1 e.2) then
        .ok ((layers.flatMap Layer.updates).foldl apply s)
      else .error .tooLong := by
  induction layers generalizing s with
  | nil => rfl
  | cons l rest ih =>
    rw [List.foldlM_cons, value_bind_ite (value_applyLayer s l), ih, List.all_cons, List.flatMap_cons,
      List.foldl_append]
    cases l.entries.all fun e => isReadable e.1 e.2 with
    | true => rfl
    | false => rfl

end Lenient

section Load

open SourceOutline.Files (FileTree)

variable [YamlReader] {t : FileTree} {env : Environment} {path? : Option String}
  {arguments : List (String × Datum)} {order : KeyOrder}

/-- What a lenient reading makes of a settings file with nothing wrong, the environment and arguments. -/
theorem value_load {path : String} {entries : List DatumEntry} (hpath : filePath? t path? = some path)
    (hread : loadFile t false path = pure entries) :
    let layers := [fileLayer path entries, environmentLayer order env, argumentLayer arguments]
    (load t env false path? arguments order).value =
      if layers.all (fun l => l.entries.all fun e => isReadable e.1 e.2) then .ok (ofLayers layers)
      else .error .tooLong := by
  intro layers
  have hfile : fileLayers t false path? = pure [fileLayer path entries] := by
    unfold fileLayers
    rw [hpath]
    dsimp only
    rw [hread, Reading.pure_bind]
  have hsettle : settle t env false path? arguments order = layers.foldlM (applyLayer false) {} := by
    unfold settle
    rw [hfile, Reading.pure_bind]
    rfl
  unfold load
  rw [hsettle]
  exact value_bind_ite (value_foldlM_applyLayer layers {}) announce

theorem load_of_readable {path : String} {entries : List DatumEntry} (hpath : filePath? t path? = some path)
    (hread : loadFile t false path = pure entries)
    (hall : ∀ l ∈ [fileLayer path entries, environmentLayer order env, argumentLayer arguments],
      ∀ e ∈ l.entries, isReadable e.1 e.2 = true) :
    (load t env false path? arguments order).value =
      .ok (ofLayers [fileLayer path entries, environmentLayer order env, argumentLayer arguments]) := by
  rw [value_load hpath hread, if_pos]
  exact List.all_eq_true.2 fun l hl => List.all_eq_true.2 (hall l hl)

theorem load_of_unreadable {path : String} {entries : List DatumEntry} (hpath : filePath? t path? = some path)
    (hread : loadFile t false path = pure entries)
    (h : ∃ l ∈ [fileLayer path entries, environmentLayer order env, argumentLayer arguments],
      ∃ e ∈ l.entries, isReadable e.1 e.2 = false) :
    (load t env false path? arguments order).value = .error .tooLong := by
  obtain ⟨l, hl, e, he, hunreadable⟩ := h
  rw [value_load hpath hread, if_neg]
  intro hall
  have hreadable := List.all_eq_true.1 (List.all_eq_true.1 hall l hl) e he
  rw [hunreadable] at hreadable
  cases hreadable

/-- What comes of a mapping in the settings file, the environment and arguments.

Read leniently, nothing that is wrong with them ends the reading, unless it takes the text of a whole number
that is too long to be shown. Otherwise each setting has its valid value from the arguments, else that from the
environment, else that from the file, else its default. Any other file, environment and arguments with the same
entries, in whatever order and without some that have something wrong, give the same settings, and so does any
other order in which the variables of the environment are visited. -/
theorem load_precedence {path : String} {entries : List DatumEntry} (hpath : filePath? t path? = some path)
    (hread : loadFile t false path = pure entries) (hentries : (fileLayer path entries).Distinct)
    (hnames : (arguments.map (·.1)).Nodup) :
    let layers := [fileLayer path entries, environmentLayer order env, argumentLayer arguments]
    (∀ c, (load t env false path? arguments order).value ≠ .error (.settings c)) ∧
    ((∃ l ∈ layers, ∃ e ∈ l.entries, isReadable e.1 e.2 = false) →
      (load t env false path? arguments order).value = .error .tooLong) ∧
    ((∀ l ∈ layers, ∀ e ∈ l.entries, isReadable e.1 e.2 = true) →
      ∃ settings, (load t env false path? arguments order).value = .ok settings ∧
        (∀ key, settings.get key =
          ((((argumentLayer arguments).valid? key).or ((environmentLayer order env).valid? key)).or
            ((fileLayer path entries).valid? key)).getD (({} : Settings).get key)) ∧
        (∀ t' env' path?' arguments' order' path' entries', filePath? t' path?' = some path' →
          loadFile t' false path' = pure entries' →
          (fileLayer path entries).TidiedTo (fileLayer path' entries') →
          (environmentLayer order env).TidiedTo (environmentLayer order' env') →
          (argumentLayer arguments).TidiedTo (argumentLayer arguments') →
          (load t' env' false path?' arguments' order').value = .ok settings) ∧
        ∀ order', (load t env false path? arguments order').value = .ok settings) := by
  intro layers
  have henv := environmentLayer_distinct order env
  have harguments := argumentLayer_distinct hnames
  refine ⟨fun c => ?_, load_of_unreadable hpath hread, fun hall => ?_⟩
  · rw [value_load hpath hread]
    split <;> simp
  have hsame : ∀ t' env' path?' arguments' order' path' entries', filePath? t' path?' = some path' →
      loadFile t' false path' = pure entries' →
      (fileLayer path entries).TidiedTo (fileLayer path' entries') →
      (environmentLayer order env).TidiedTo (environmentLayer order' env') →
      (argumentLayer arguments).TidiedTo (argumentLayer arguments') →
      (load t' env' false path?' arguments' order').value = .ok (ofLayers layers) := by
    intro t' env' path?' arguments' order' path' entries' hpath' hread' htidyFile htidyEnv htidyArguments
    have halike : List.Forall₂ Layer.Alike layers
        [fileLayer path' entries', environmentLayer order' env', argumentLayer arguments'] :=
      .cons (hentries.alike_of_tidiedTo htidyFile) (.cons (henv.alike_of_tidiedTo htidyEnv)
        (.cons (harguments.alike_of_tidiedTo htidyArguments) .nil))
    have hall' : ∀ l' ∈ [fileLayer path' entries', environmentLayer order' env', argumentLayer arguments'],
        ∀ e ∈ l'.entries, isReadable e.1 e.2 = true := by
      simp only [layers, List.forall_mem_cons, List.not_mem_nil, false_implies, implies_true,
        and_true] at hall ⊢
      obtain ⟨hfile, henvironment, hgiven⟩ := hall
      exact ⟨fun e he => hfile e (htidyFile.mem he), fun e he => henvironment e (htidyEnv.mem he),
        fun e he => hgiven e (htidyArguments.mem he)⟩
    rw [load_of_readable hpath' hread' hall', ofLayers_alike halike]
  refine ⟨ofLayers layers, load_of_readable hpath hread hall, fun key => ?_, hsame, fun order' => ?_⟩
  · have hdistinct : ∀ l ∈ layers, l.Distinct :=
      List.forall_mem_cons.2 ⟨hentries, by simp [henv, harguments]⟩
    have hlast : layers.reverse = [argumentLayer arguments, environmentLayer order env,
      fileLayer path entries] := rfl
    rw [get_ofLayers hdistinct, hlast, List.findSome?_cons, List.findSome?_cons, List.findSome?_cons,
      List.findSome?_nil]
    cases (argumentLayer arguments).valid? key <;> cases (environmentLayer order env).valid? key <;>
      cases (fileLayer path entries).valid? key <;> rfl
  · exact hsame t env path? arguments order' path entries hpath hread (.of_perm (.refl _))
      (.of_perm (environmentLayer_perm order order' env)) (.of_perm (.refl _))

end Load

section Witness

open SourceOutline.Files (FileTree)

/-- A folder with a settings file of some content. -/
private def withFile (content : ByteArray) : FileTree where
  root := .folder [("godmt.yaml", .file content)]
  cwd := "/"

private theorem withFile_read (content : ByteArray) :
    filePath? (withFile content) none = some defaultFile ∧
      (withFile content).read defaultFile = .ok content := by
  have hcwd : Files.names "/" = [] := by decide
  have hname : Files.names "godmt.yaml" = ["godmt.yaml"] := by decide
  have hplace : (withFile content).place true defaultFile = .ok (.found ["godmt.yaml"]) := by
    rw [defaultFile, FileTree.place_of_usable ⟨by decide, by simp, by decide, by decide⟩,
      FileTree.startOf, if_neg (by simp), show Files.names (withFile content).cwd = [] from hcwd, hname]
    rfl
  have hslash : defaultFile.endsWith "/" = false := by decide +kernel
  have hfile : (withFile content).isFile defaultFile = true := FileTree.isFile_of_place hplace rfl hslash
  constructor
  · rw [filePath?, if_pos hfile]
  · exact FileTree.read_of_place hplace rfl hslash

private def mixedContent : ByteArray :=
  ("source_dir: pkg\ninclude_tests: yes\nreport_dir: []\nlog_level: DEBUG\n" ++
    "result_root: build\n3: x\n").toUTF8

private def mixedEntries : List DatumEntry :=
  [⟨.text "source_dir", .text "pkg"⟩, ⟨.text "include_tests", .bool true⟩, ⟨.text "report_dir", .list []⟩,
    ⟨.text "log_level", .text "DEBUG"⟩, ⟨.text "result_root", .text "build"⟩, ⟨.int 3, .text "x"⟩]

/-- A reader that delivers one mapping. -/
@[reducible]
private def mixedReader : YamlReader where
  read _ := .ok (.map mixedEntries)

private def mixedEnvironment : Environment :=
  [("GODMT_INCLUDE_TESTS", "maybe"), ("GODMT_SOURCE_DIR", "lib"), ("GODMT_RESULT_ROOT", "out"),
    ("GODMT_RECORD_OMISSIONS", " On ")]

private def mixedArguments : List (String × Datum) :=
  [("result_root", .int 7), ("source_dir", .null), ("include_tests", .text "perhaps"),
    ("colour", .text "red")]

/-- The variables are visited from the last setting to the first. -/
private def backwards : KeyOrder where
  keys := Key.all.reverse
  perm := List.reverse_perm _

theorem load_precedence_mixed :
    (@load mixedReader (withFile mixedContent) mixedEnvironment false none mixedArguments backwards).value =
      .ok { sourceDir := "lib", resultRoot := "7", recordOmissions := true, includeTests := true
            logLevel := "DEBUG" } := by
  obtain ⟨hpath, hcontent⟩ := withFile_read mixedContent
  have hread : @loadFile mixedReader (withFile mixedContent) false defaultFile = pure mixedEntries := by
    unfold loadFile
    rw [hcontent]
    rfl
  obtain ⟨-, -, hsettings⟩ := @load_precedence mixedReader (withFile mixedContent) mixedEnvironment none
    mixedArguments backwards _ _ hpath hread (by decide) (by decide)
  obtain ⟨settings, hvalue, hget, -⟩ := hsettings (by decide +kernel)
  rw [hvalue]
  refine congrArg _ (ext_get fun key => ?_)
  rw [hget key]
  cases key <;> decide +kernel

private theorem yaml_empty : Yaml.load [] = .ok .null := by
  have hkind : (Yaml.load []).toOption.map Datum.kind = some "NoneType" := by decide +kernel
  cases hload : Yaml.load [] with
  | error f => simp [hload, Except.toOption] at hkind
  | ok d =>
    simp only [hload, Except.toOption, Option.map_some, Option.some.injEq] at hkind
    cases d with
    | null => rfl
    | again mapping => cases mapping <;> simp [Datum.kind] at hkind
    | _ => simp [Datum.kind] at hkind

private def longArguments : List (String × Datum) :=
  [("include_tests", .int (.ofNat (Nat.pow 10 4300))), ("source_dir", .text "pkg")]

/-- A number too long to be shown is no truth value, and the setting beside it is lost with it. -/
theorem load_too_long :
    (argumentLayer longArguments).valid? .sourceDir = some (.text "pkg") ∧
      (load (withFile ByteArray.empty) [] false none longArguments).value = .error .tooLong := by
  obtain ⟨hpath, hcontent⟩ := withFile_read ByteArray.empty
  have hread : loadFile (withFile ByteArray.empty) false defaultFile = pure [] := by
    unfold loadFile
    rw [hcontent]
    dsimp only [YamlReader.read]
    rw [show ByteArray.empty.toList = [] by decide +kernel, yaml_empty]
    rfl
  refine ⟨by decide, load_of_unreadable hpath hread ?_⟩
  exact ⟨argumentLayer longArguments, by simp, _, List.mem_cons_self, by decide +kernel⟩

end Witness

end SourceOutline.Settings
