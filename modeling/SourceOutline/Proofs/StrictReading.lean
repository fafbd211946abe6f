import SourceOutline.Settings.Load

/-!
A strict reading beside a lenient one. It ends where the lenient one warns first, and where that one has nothing
to warn of both are the same: for each place where something can be wrong, then for the entries of a layer, and
then for all layers.
-/
namespace SourceOutline.Settings

open SourceOutline.Files (FileTree)
open SourceOutline.Log (Level)

namespace Reading

variable {α β : Type} {r : Reading α}

theorem bind_of_error {f : Failure} (h : r.value = .error f) (next : α → Reading β) :
    (r >>= next).value = .error f ∧ (r >>= next).notes = r.notes := by
  dsimp only [bind]
  rw [h]
  exact ⟨rfl, rfl⟩

theorem bind_of_ok {a : α} (h : r.value = .ok a) (next : α → Reading β) :
    (r >>= next).value = (next a).value ∧ (r >>= next).notes = r.notes ++ (next a).notes := by
  dsimp only [bind]
  rw [h]
  exact ⟨rfl, rfl⟩

@[simp] theorem pure_bind (a : α) (next : α → Reading β) : (pure a >>= next : Reading β) = next a := rfl

@[simp] theorem ended_bind (f : Failure) (next : α → Reading β) : (ended f >>= next) = ended f := rfl

/-- What has been told stays told. -/
theorem head_notes_bind {note : Log.Note} {rest : List Log.Note} (h : r.notes = note :: rest)
    (next : α → Reading β) : ∃ more, (r >>= next).notes = note :: more := by
  cases hvalue : r.value with
  | error f => exact ⟨rest, (bind_of_error hvalue next).2.trans h⟩
  | ok a =>
    refine ⟨rest ++ (next a).notes, ?_⟩
    rw [(bind_of_ok hvalue next).2, h, List.cons_append]

/-- Whatever ends a reading, it is no complaint. -/
def Accepts (r : Reading α) : Prop :=
  ∀ c, r.value ≠ .error (.settings c)

theorem Accepts.bind {next : α → Reading β} (h : r.Accepts) (hnext : ∀ a, (next a).Accepts) :
    (r >>= next).Accepts := by
  intro c
  cases hvalue : r.value with
  | error f =>
    rw [(bind_of_error hvalue next).1]
    intro hf
    exact h c (by rw [hvalue, Except.error.inj hf])
  | ok a =>
    rw [(bind_of_ok hvalue next).1]
    exact hnext a c

end Reading

/-- A strict and a lenient reading of one thing. Either they are the same and nothing is wrong, or the strict one
ends with the first thing that the lenient one warns of. -/
inductive Parallel {α : Type} : Reading α → Reading α → Prop
  | same {r : Reading α} (quiet : r.notes = []) (accepts : r.Accepts) : Parallel r r
  | ends {lenient : Reading α} {rest : List Log.Note} (c : Complaint)
    (warns : lenient.notes = warning c :: rest) (accepts : lenient.Accepts) :
    Parallel (ended (.settings c)) lenient

namespace Parallel

variable {α β : Type}

theorem lenient_accepts {strict lenient : Reading α} (h : Parallel strict lenient) : lenient.Accepts := by
  cases h with
  | same _ accepts => exact accepts
  | ends _ _ accepts => exact accepts

theorem of_pure (a : α) : Parallel (pure a) (pure a) := by
  apply same rfl
  intro c h
  cases h

/-- What ends both readings is no complaint. -/
theorem of_ended {f : Failure} (h : ∀ c, f ≠ .settings c) : Parallel (ended f : Reading α) (ended f) := by
  apply same rfl
  intro c hvalue
  exact h c (Except.error.inj hvalue)

/-- A complaint of the one reading is a warning of the other, whatever comes after it. -/
theorem of_warning (c : Complaint) (a : α) :
    Parallel (ended (.settings c)) (do tell (warning c); return a) := by
  apply ends c rfl
  intro c' h
  cases h

theorem bind {strict lenient : Reading α} {next next' : α → Reading β} (h : Parallel strict lenient)
    (hnext : ∀ a, Parallel (next a) (next' a)) : Parallel (strict >>= next) (lenient >>= next') := by
  have haccepts : (lenient >>= next').Accepts :=
    h.lenient_accepts.bind fun a => (hnext a).lenient_accepts
  cases h with
  | ends c warns _ =>
    obtain ⟨more, hmore⟩ := Reading.head_notes_bind warns next'
    exact ends c hmore haccepts
  | same quiet _ =>
    obtain ⟨value, notes⟩ := strict
    subst quiet
    cases value with
    | error f => exact same rfl haccepts
    | ok a => exact hnext a

theorem map {strict lenient : Reading α} (h : Parallel strict lenient) (f : α → β) :
    Parallel (do return f (← strict)) (do return f (← lenient)) :=
  h.bind fun a => of_pure (f a)

theorem foldlM {f f' : β → α → Reading β} (h : ∀ b a, Parallel (f b a) (f' b a)) (b : β) (as : List α) :
    Parallel (as.foldlM f b) (as.foldlM f' b) := by
  induction as generalizing b with
  | nil => exact of_pure b
  | cons a rest ih =>
    rw [List.foldlM_cons, List.foldlM_cons]
    exact (h b a).bind ih

end Parallel

theorem parallel_fail (c : Complaint) {α : Type} (a : α) :
    Parallel (do fail true c; return a) (do fail false c; return a) :=
  .of_warning c a

theorem parallel_textOf (d : Datum) : Parallel (textOf d) (textOf d) := by
  unfold textOf
  by_cases hshowable : d.isShowable = true
  · rw [if_pos hshowable]
    exact .of_pure _
  · rw [if_neg hshowable]
    exact .of_ended (by simp)

theorem parallel_flagFrom (key : Key) (d : Datum) :
    Parallel (flagFrom true key d) (flagFrom false key d) := by
  apply (parallel_textOf d).bind
  intro text
  cases flagOf? text with
  | some b => exact .of_pure _
  | none => exact parallel_fail _ _

theorem parallel_coerce (key : Key) (d : Datum) : Parallel (coerce true key d) (coerce false key d) := by
  unfold coerce
  by_cases hflag : key.isFlag = true
  · rw [if_pos hflag, if_pos hflag]
    cases d with
    | bool b => exact .of_pure _
    | _ => exact parallel_flagFrom key _
  · rw [if_neg hflag, if_neg hflag]
    cases d with
    | text s => exact .of_pure _
    | int n => exact (parallel_textOf (.int n)).map _
    | float x => exact (parallel_textOf (.float x)).map _
    | _ => exact parallel_fail _ _

theorem parallel_readEntry (origin : String) (entry : Datum × Datum) :
    Parallel (readEntry true origin entry) (readEntry false origin entry) := by
  unfold readEntry
  cases keyOf? entry.1 with
  | none => exact (parallel_textOf entry.1).bind fun _ => parallel_fail _ _
  | some key => exact (parallel_coerce key entry.2).map _

theorem parallel_readEntries (origin : String) (entries : List (Datum × Datum)) :
    Parallel (readEntries true origin entries) (readEntries false origin entries) := by
  induction entries with
  | nil => exact .of_pure []
  | cons entry rest ih =>
    exact (parallel_readEntry origin entry).bind fun update? => ih.map (update?.toList ++ ·)

theorem parallel_applyLayer (s : Settings) (l : Layer) :
    Parallel (applyLayer true s l) (applyLayer false s l) :=
  (parallel_readEntries l.origin l.entries).map _

theorem parallel_payloadEntries (path : String) (payload : Except Yaml.Fault Datum) :
    Parallel (payloadEntries true path payload) (payloadEntries false path payload) := by
  cases payload with
  | error fault =>
    cases fault with
    | malformed reason => exact .of_warning _ _
    | _ => exact .of_ended (f := .noValue _) (by simp)
  | ok d =>
    cases d with
    | null => exact .of_pure []
    | map entries => exact .of_pure entries
    | _ => exact parallel_fail _ _

theorem announce_accepts (s : Settings) : (announce s).Accepts := by
  intro c h
  cases h

theorem warning_not_mem_announce (c : Complaint) (s : Settings) : warning c ∉ (announce s).notes := by
  intro h
  have hnote : warning c = _ := List.mem_singleton.1 h
  have hlevel : Level.warning = Level.debug := congrArg Log.Note.level hnote
  exact absurd hlevel (by decide)

/-- Settings that are found without a warning are announced without one. -/
theorem warning_not_mem_bind_announce {r : Reading Settings} (quiet : r.notes = []) (c : Complaint) :
    warning c ∉ (r >>= announce).notes := by
  cases hvalue : r.value with
  | error f =>
    rw [(Reading.bind_of_error hvalue announce).2, quiet]
    exact List.not_mem_nil
  | ok s =>
    rw [(Reading.bind_of_ok hvalue announce).2, quiet, List.nil_append]
    exact warning_not_mem_announce c s

section Load

variable [YamlReader]

theorem parallel_loadFile (t : FileTree) (path : String) :
    Parallel (loadFile t true path) (loadFile t false path) := by
  unfold loadFile
  cases t.read path with
  | ok content => exact parallel_payloadEntries path _
  | error e =>
    by_cases hmissing : e.cause = .missing
    · simp only [if_pos hmissing]
      exact .of_warning _ _
    · simp only [if_neg hmissing]
      exact .of_ended (by simp)

theorem parallel_fileLayers (t : FileTree) (path? : Option String) :
    Parallel (fileLayers t true path?) (fileLayers t false path?) := by
  unfold fileLayers
  cases filePath? t path? with
  | none => exact .of_pure []
  | some path => exact (parallel_loadFile t path).map _

theorem parallel_settle (t : FileTree) (env : Environment) (path? : Option String)
    (arguments : List (String × Datum)) (order : KeyOrder) :
    Parallel (settle t env true path? arguments order) (settle t env false path? arguments order) :=
  (parallel_fileLayers t path?).bind fun _ => .foldlM parallel_applyLayer {} _

/-- Read strictly, settings are refused exactly when a lenient reading has a warning to tell, and the reason is
the first one it tells; otherwise both readings are the same. A lenient reading refuses nothing. -/
theorem load_strict (t : FileTree) (env : Environment) (path? : Option String)
    (arguments : List (String × Datum)) (order : KeyOrder) :
    let strict := load t env true path? arguments order
    let lenient := load t env false path? arguments order
    ((∃ c, strict.value = .error (.settings c)) ↔ ∃ c, warning c ∈ lenient.notes) ∧
    (∀ c, strict.value = .error (.settings c) → lenient.notes.head? = some (warning c)) ∧
    ((∀ c, strict.value ≠ .error (.settings c)) → strict = lenient) ∧
    ∀ c, lenient.value ≠ .error (.settings c) := by
  have hsettle := parallel_settle t env path? arguments order
  have haccepts := hsettle.lenient_accepts.bind announce_accepts
  unfold load
  generalize settle t env true path? arguments order = strict at hsettle ⊢
  generalize settle t env false path? arguments order = lenient at hsettle haccepts ⊢
  dsimp only
  cases hsettle with
  | same quiet _ =>
    refine ⟨⟨?_, ?_⟩, fun c hc => absurd hc (haccepts c), fun _ => rfl, haccepts⟩
    · rintro ⟨c, hc⟩
      exact absurd hc (haccepts c)
    · rintro ⟨c, hc⟩
      exact absurd hc (warning_not_mem_bind_announce quiet c)
  | ends c warns _ =>
    obtain ⟨more, hmore⟩ := Reading.head_notes_bind warns announce
    rw [Reading.ended_bind, hmore]
    refine ⟨⟨fun _ => ⟨c, List.mem_cons_self⟩, fun _ => ⟨c, rfl⟩⟩, ?_, fun hnot => absurd rfl (hnot c),
      haccepts⟩
    intro c' hc'
    rw [Failure.settings.inj (Except.error.inj hc')]
    rfl

end Load

end SourceOutline.Settings
