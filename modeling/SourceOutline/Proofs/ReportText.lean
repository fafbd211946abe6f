import Mathlib.Data.List.Nodup
import SourceOutline.Proofs.Grouping
import SourceOutline.Run.Clock

/-!
The text of a report. It is in ASCII, so octets stand for all of it, and its keys are in order, each with the
value that it was given last.
-/
namespace SourceOutline

namespace Text

def AreAscii (cs : List Char) : Prop :=
  ∀ c ∈ cs, c.toNat < 0x80

/-- Whether a text is in ASCII. -/
def IsAscii (s : String) : Prop :=
  AreAscii s.toList

instance (cs : List Char) : Decidable (AreAscii cs) :=
  List.decidableBAll (fun c : Char => c.toNat < 0x80) cs

instance (s : String) : Decidable (IsAscii s) :=
  inferInstanceAs (Decidable (AreAscii s.toList))

@[simp] theorem areAscii_cons {c : Char} {cs : List Char} :
    AreAscii (c :: cs) ↔ c.toNat < 0x80 ∧ AreAscii cs :=
  List.forall_mem_cons

@[simp] theorem areAscii_append {a b : List Char} : AreAscii (a ++ b) ↔ AreAscii a ∧ AreAscii b :=
  List.forall_mem_append

theorem AreAscii.subset {a b : List Char} (hb : AreAscii b) (h : a ⊆ b) : AreAscii a :=
  fun c hc => hb c (h hc)

theorem areAscii_replicate (n : Nat) {c : Char} (hc : c.toNat < 0x80) : AreAscii (List.replicate n c) := by
  intro d hd
  rw [(List.mem_replicate.1 hd).2]
  exact hc

theorem areAscii_toDigits {base : Nat} (hbase : 1 < base) (hle : base ≤ 16) (n : Nat) :
    AreAscii (Nat.toDigits base n) := by
  have hdigit : ∀ d < 16, (Nat.digitChar d).toNat < 0x80 := by decide
  induction n using Nat.strongRecOn with
  | ind n ih =>
    rw [Nat.toDigits_eq_if hbase]
    split
    · next hlt =>
      intro c hc
      rw [List.mem_singleton.1 hc]
      exact hdigit n (by omega)
    · next hnot =>
      have hrest := ih (n / base) (Nat.div_lt_self (by omega) hbase)
      have hlast : n % base < base := Nat.mod_lt n (by omega)
      refine areAscii_append.2 ⟨hrest, fun c hc => ?_⟩
      rw [List.mem_singleton.1 hc]
      exact hdigit _ (by omega)

theorem areAscii_hexDigits (width n : Nat) : AreAscii (hexDigits width n) :=
  areAscii_append.2 ⟨areAscii_replicate _ (by decide), areAscii_toDigits (by decide) (by decide) n⟩

namespace IsAscii

theorem append {a b : String} (ha : IsAscii a) (hb : IsAscii b) : IsAscii (a ++ b) := by
  unfold IsAscii at ha hb ⊢
  rw [String.toList_append]
  exact areAscii_append.2 ⟨ha, hb⟩

theorem ofList {cs : List Char} (h : AreAscii cs) : IsAscii (String.ofList cs) := by
  unfold IsAscii
  rwa [String.toList_ofList]

/-- A text in ASCII has octets. -/
theorem encodeError?_eq {s : String} (h : IsAscii s) : encodeError? s = none := by
  have hfrom : ∀ (cs : List Char) (i : Nat), AreAscii cs → encodeErrorFrom? false i cs = none := by
    intro cs
    induction cs with
    | nil => exact fun _ _ => rfl
    | cons c rest ih =>
      intro i hcs
      have hc : isSurrogate c = false := by
        have hlt := hcs c List.mem_cons_self
        have hshift : ¬surrogateShift ≤ c.toNat := by unfold surrogateShift; omega
        simp [isSurrogate, hshift]
      rw [encodeErrorFrom?, hc]
      exact ih _ fun d hd => hcs d (List.mem_cons_of_mem _ hd)
  exact hfrom _ 0 h

end IsAscii

end Text

namespace Number

open Text

theorem areAscii_positional {digits : List Char} (h : AreAscii digits) (lead : Int) :
    AreAscii (positional digits lead) := by
  have hzeros : ∀ n, AreAscii (List.replicate n '0') := fun n => areAscii_replicate n (by decide)
  cases lead with
  | ofNat k =>
    have hrest : AreAscii (if (digits.drop (k + 1)).isEmpty then ['0'] else digits.drop (k + 1)) := by
      split
      · decide
      · exact h.subset (List.drop_subset _ _)
    exact areAscii_append.2 ⟨areAscii_append.2 ⟨h.subset (List.take_subset _ _), hzeros _⟩,
      areAscii_cons.2 ⟨by decide, hrest⟩⟩
  | negSucc k =>
    rw [positional]
    simp only [areAscii_append, areAscii_cons]
    exact ⟨⟨by decide, by decide, hzeros k⟩, h⟩

theorem render_isAscii (f : DecimalFormat) (d : Decimal) : IsAscii (f.render d) := by
  have htoDigits : ∀ n, AreAscii (Nat.toDigits 10 n) := areAscii_toDigits (by decide) (by decide)
  have hdigits : AreAscii (withoutEndZeros (Nat.toDigits 10 d.digits)) := by
    refine (htoDigits d.digits).subset fun c hc => ?_
    unfold withoutEndZeros at hc
    exact List.mem_reverse.1 ((List.dropWhile_sublist _).subset (List.mem_reverse.1 hc))
  unfold DecimalFormat.render
  dsimp only
  split
  · decide
  split
  · exact .ofList (areAscii_positional hdigits _)
  · refine .ofList ?_
    have hfirst := hdigits.subset (List.take_subset 1 _)
    have hrest := hdigits.subset (List.drop_subset 1 _)
    rw [areAscii_append, areAscii_append, areAscii_cons, areAscii_cons, areAscii_append]
    refine ⟨⟨hfirst, ?_⟩, by decide, ?_, areAscii_replicate _ (by decide), htoDigits _⟩
    · split
      · exact fun c hc => absurd hc List.not_mem_nil
      · exact areAscii_cons.2 ⟨by decide, hrest⟩
    · split <;> decide

theorem floatText_isAscii (x : Float) : IsAscii (floatText x) := by
  unfold floatText
  cases unpack x with
  | nan => decide
  | infinite negative => cases negative <;> decide
  | finite negative m q narrow =>
    refine IsAscii.append (by cases negative <;> decide) ?_
    split
    · decide
    · exact render_isAscii _ _

end Number

namespace Payload

open Text

mutual

/-- Whether the decimals in a value are given by texts in ASCII. -/
def Plain : Payload → Prop
  | .decimal digits => IsAscii digits
  | .list items => PlainItems items
  | .object entries => PlainEntries entries
  | _ => True

def PlainItems : List Payload → Prop
  | [] => True
  | value :: rest => Plain value ∧ PlainItems rest

def PlainEntries : List (String × Payload) → Prop
  | [] => True
  | entry :: rest => PlainEntry entry ∧ PlainEntries rest

def PlainEntry : String × Payload → Prop
  | (_, value) => Plain value

end

theorem plain_text (s : String) : (Payload.text s).Plain := by
  simp only [Plain]

theorem plainItems_iff {items : List Payload} : PlainItems items ↔ ∀ value ∈ items, Plain value := by
  induction items with
  | nil => simp [PlainItems]
  | cons value rest ih => rw [PlainItems, ih, List.forall_mem_cons]

theorem plainEntries_iff {entries : List (String × Payload)} :
    PlainEntries entries ↔ ∀ entry ∈ entries, Plain entry.2 := by
  induction entries with
  | nil => simp [PlainEntries]
  | cons entry rest ih =>
    obtain ⟨key, value⟩ := entry
    rw [PlainEntries, PlainEntry, ih, List.forall_mem_cons]

mutual

theorem plain_sorted {value : Payload} (h : value.Plain) : value.sorted.Plain := by
  cases value with
  | list items =>
    rw [sorted, Plain]
    rw [Plain] at h
    exact plainItems_sorted h
  | object entries =>
    rw [sorted, Plain, plainEntries_iff]
    rw [Plain] at h
    have hentries := plainEntries_iff.1 (plainEntries_sorted h)
    exact fun entry hentry => hentries entry (List.mem_mergeSort.1 hentry)
  | _ => simpa only [sorted] using h

theorem plainItems_sorted {items : List Payload} (h : PlainItems items) : PlainItems (sortedItems items) := by
  cases items with
  | nil => exact h
  | cons value rest => exact ⟨plain_sorted h.1, plainItems_sorted h.2⟩

theorem plainEntries_sorted {entries : List (String × Payload)} (h : PlainEntries entries) :
    PlainEntries (sortedEntries entries) := by
  cases entries with
  | nil => exact h
  | cons entry rest =>
    obtain ⟨key, value⟩ := entry
    exact ⟨plain_sorted h.1, plainEntries_sorted h.2⟩

end

theorem areAscii_charEscape (c : Char) : AreAscii (charEscape c) := by
  have hunit : ∀ n, AreAscii (unitEscape n) := by
    intro n
    unfold unitEscape
    simp only [areAscii_cons]
    exact ⟨by decide, by decide, areAscii_hexDigits 4 n⟩
  unfold charEscape
  dsimp only
  split
  · exact hunit _
  · exact areAscii_append.2 ⟨hunit _, hunit _⟩

theorem areAscii_renderChar (c : Char) : AreAscii (renderChar true c) := by
  unfold renderChar
  split_ifs with _ _ _ _ _ _ _ hescape
  iterate 7 decide
  · exact areAscii_charEscape c
  · have hle : c.toNat ≤ 0x7e := by
      simp only [Bool.true_and, Bool.or_eq_true, decide_eq_true_eq, not_or, Nat.not_lt] at hescape
      exact hescape.2
    intro d hd
    rw [List.mem_singleton.1 hd]
    omega

theorem renderText_isAscii (s : String) : IsAscii (renderText true s) := by
  refine .ofList ?_
  rw [List.cons_append, areAscii_cons, areAscii_append]
  refine ⟨by decide, fun c hc => ?_, by decide⟩
  obtain ⟨d, -, hd⟩ := List.mem_flatMap.1 hc
  exact areAscii_renderChar d c hd

theorem lineStart_isAscii (style : Style) (depth : Nat) : IsAscii (lineStart style depth) :=
  .ofList (areAscii_cons.2 ⟨by decide, areAscii_replicate _ (by decide)⟩)

theorem int_isAscii (n : Int) : IsAscii (toString n) := by
  have hnat : ∀ k : Nat, IsAscii k.repr := by
    intro k
    rw [Nat.repr_eq_ofList_toDigits]
    exact .ofList (areAscii_toDigits (by decide) (by decide) k)
  rw [Int.toString_eq_repr, Int.repr_eq_if]
  split
  · exact hnat _
  · exact IsAscii.append (by decide) (hnat _)

mutual

theorem renderAt_isAscii {value : Payload} (h : value.Plain) (step depth : Nat) :
    IsAscii (renderAt ⟨true, step⟩ depth value) := by
  cases value with
  | null =>
    rw [renderAt]
    decide
  | bool b =>
    rw [renderAt]
    cases b <;> decide
  | int n =>
    rw [renderAt]
    exact int_isAscii n
  | decimal digits =>
    rw [renderAt]
    rwa [Plain] at h
  | text s =>
    rw [renderAt]
    exact renderText_isAscii s
  | list items =>
    rw [Plain] at h
    cases items with
    | nil =>
      rw [renderAt]
      decide
    | cons value rest =>
      have hopen : IsAscii ("[" ++ lineStart ⟨true, step⟩ (depth + 1)) :=
        (by decide : IsAscii "[").append (lineStart_isAscii _ _)
      have hclose : IsAscii (lineStart ⟨true, step⟩ depth) := lineStart_isAscii _ _
      rw [renderAt]
      exact (((hopen.append (renderAt_isAscii h.1 step (depth + 1))).append
        (renderItems_isAscii h.2 step (depth + 1))).append hclose).append (by decide)
  | object entries =>
    rw [Plain] at h
    cases entries with
    | nil =>
      rw [renderAt]
      decide
    | cons entry rest =>
      have hopen : IsAscii ("\x7b" ++ lineStart ⟨true, step⟩ (depth + 1)) :=
        (by decide : IsAscii "\x7b").append (lineStart_isAscii _ _)
      have hclose : IsAscii (lineStart ⟨true, step⟩ depth) := lineStart_isAscii _ _
      rw [renderAt]
      exact (((hopen.append (renderEntry_isAscii h.1 step (depth + 1))).append
        (renderEntries_isAscii h.2 step (depth + 1))).append hclose).append (by decide)

theorem renderItems_isAscii {items : List Payload} (h : PlainItems items) (step depth : Nat) :
    IsAscii (renderItems ⟨true, step⟩ depth items) := by
  cases items with
  | nil =>
    rw [renderItems]
    decide
  | cons value rest =>
    rw [renderItems]
    exact (((by decide : IsAscii ",").append (lineStart_isAscii _ depth)).append
      (renderAt_isAscii h.1 step depth)).append (renderItems_isAscii h.2 step depth)

theorem renderEntries_isAscii {entries : List (String × Payload)} (h : PlainEntries entries)
    (step depth : Nat) : IsAscii (renderEntries ⟨true, step⟩ depth entries) := by
  cases entries with
  | nil =>
    rw [renderEntries]
    decide
  | cons entry rest =>
    rw [renderEntries]
    exact (((by decide : IsAscii ",").append (lineStart_isAscii _ depth)).append
      (renderEntry_isAscii h.1 step depth)).append (renderEntries_isAscii h.2 step depth)

theorem renderEntry_isAscii {entry : String × Payload} (h : PlainEntry entry) (step depth : Nat) :
    IsAscii (renderEntry ⟨true, step⟩ depth entry) := by
  obtain ⟨key, value⟩ := entry
  rw [renderEntry]
  exact ((renderText_isAscii key).append (by decide)).append (renderAt_isAscii h step depth)

end

/-! Keys and their values -/

/-- Whether no key of an object is there twice. -/
def DistinctKeys (entries : List (String × Payload)) : Prop :=
  (entries.map (·.1)).Nodup

section Keys

variable {entries others : List (String × Payload)} {key : String} {value : Payload}

theorem lookup_withValue (key : String) (value : Payload) (entries : List (String × Payload)) (other : String) :
    (withValue key value entries).lookup other = if other = key then some value else entries.lookup other := by
  induction entries with
  | nil => exact lookup_cons_eq key value [] other
  | cons entry rest ih =>
    obtain ⟨first, v⟩ := entry
    rw [withValue]
    by_cases hfirst : first = key
    · subst hfirst
      rw [if_pos (beq_self_eq_true first), lookup_cons_eq, lookup_cons_eq]
      split <;> rfl
    · rw [if_neg (by simpa using hfirst), lookup_cons_eq, lookup_cons_eq, ih]
      by_cases hother : other = first
      · subst hother
        rw [if_pos rfl, if_neg hfirst, if_pos rfl]
      · rw [if_neg hother, if_neg hother]

theorem mem_withValue {entry : String × Payload} (h : entry ∈ withValue key value entries) :
    entry = (key, value) ∨ entry ∈ entries := by
  induction entries with
  | nil => exact Or.inl (List.mem_singleton.1 h)
  | cons first rest ih =>
    rw [withValue] at h
    split at h
    · rcases List.mem_cons.1 h with h | h
      · exact Or.inl h
      · exact Or.inr (List.mem_cons_of_mem _ h)
    · rcases List.mem_cons.1 h with h | h
      · exact Or.inr (h ▸ List.mem_cons_self)
      · exact (ih h).imp_right (List.mem_cons_of_mem _)

theorem DistinctKeys.withValue (h : DistinctKeys entries) (key : String) (value : Payload) :
    DistinctKeys (withValue key value entries) := by
  induction entries with
  | nil => exact List.nodup_singleton key
  | cons entry rest ih =>
    obtain ⟨hfirst, hrest⟩ := List.nodup_cons.1 h
    rw [Payload.withValue]
    split
    · next hsame =>
      obtain rfl : entry.1 = key := by simpa using hsame
      exact h
    · next hne =>
      refine List.nodup_cons.2 ⟨fun hmem => ?_, ih hrest⟩
      obtain ⟨other, hother, hkey⟩ := List.mem_map.1 hmem
      rcases mem_withValue hother with rfl | hother
      · exact hne (by simpa using hkey.symm)
      · exact hfirst (List.mem_map.2 ⟨other, hother, hkey⟩)

theorem withValue_of_none (h : entries.lookup key = none) (value : Payload) :
    withValue key value entries = entries ++ [(key, value)] := by
  induction entries with
  | nil => rfl
  | cons entry rest ih =>
    obtain ⟨first, v⟩ := entry
    rw [lookup_cons_eq] at h
    by_cases hkey : key = first
    · rw [if_pos hkey] at h
      cases h
    · rw [if_neg hkey] at h
      rw [withValue, if_neg (by simpa using Ne.symm hkey), ih h, List.cons_append]

/-- A default is a value for a key that is not there. -/
theorem withDefault_cases (key : String) (value : Payload) (entries : List (String × Payload)) :
    withDefault key value entries = entries ∧ (entries.lookup key).isSome ∨
      withDefault key value entries = withValue key value entries ∧ entries.lookup key = none := by
  unfold withDefault
  cases h : entries.lookup key with
  | some v => exact Or.inl ⟨rfl, rfl⟩
  | none => exact Or.inr ⟨(withValue_of_none h value).symm, rfl⟩

theorem sortedEntries_eq (entries : List (String × Payload)) :
    sortedEntries entries = entries.map fun entry => (entry.1, entry.2.sorted) := by
  induction entries with
  | nil => rw [sortedEntries, List.map_nil]
  | cons entry rest ih =>
    obtain ⟨first, v⟩ := entry
    rw [sortedEntries, sortedEntry, ih, List.map_cons]

theorem lookup_sortedEntries (entries : List (String × Payload)) (key : String) :
    (sortedEntries entries).lookup key = (entries.lookup key).map sorted := by
  rw [sortedEntries_eq]
  induction entries with
  | nil => rfl
  | cons entry rest ih =>
    obtain ⟨first, v⟩ := entry
    rw [List.map_cons, lookup_cons_eq, lookup_cons_eq, ih]
    split <;> rfl

theorem DistinctKeys.sortedEntries (h : DistinctKeys entries) : DistinctKeys (sortedEntries entries) := by
  rw [DistinctKeys, sortedEntries_eq, List.map_map]
  exact h

end Keys

end Payload

namespace Run

open Payload Text

/-- What a report holds, by key in order. -/
def reportDocument (timestamp runId : String) (report : List (String × Payload)) : List (String × Payload) :=
  (sortedEntries (withDefault "timestamp_utc" (.text timestamp)
    (withDefault "run_id" (.text runId) report))).mergeSort fun a b => precedes a.1 b.1

theorem reportText_eq (timestamp runId : String) (report : List (String × Payload)) :
    reportText timestamp runId report =
      (Payload.object (reportDocument timestamp runId report)).render { ascii := true } := by
  rw [reportText, sorted, reportDocument]

/-- A report that can be written, on a run of that name. -/
structure IsReport (runId : String) (report : List (String × Payload)) : Prop where
  keys : DistinctKeys report
  plain : PlainEntries report
  name : report.lookup "run_id" = some (.text runId)

namespace IsReport

variable {runId : String} {report : List (String × Payload)}

theorem withValue (h : IsReport runId report) {key : String} {value : Payload} (hkey : key ≠ "run_id")
    (hvalue : value.Plain) : IsReport runId (withValue key value report) := by
  refine ⟨h.keys.withValue key value, plainEntries_iff.2 fun entry hentry => ?_, ?_⟩
  · rcases mem_withValue hentry with rfl | hentry
    · exact hvalue
    · exact plainEntries_iff.1 h.plain entry hentry
  · rw [lookup_withValue, if_neg hkey.symm, h.name]

/-- The run is in the report, so the time alone may be added, and all that is there stays. -/
theorem dated (h : IsReport runId report) (timestamp : String) :
    ∃ entries,
      withDefault "timestamp_utc" (.text timestamp) (withDefault "run_id" (.text runId) report) = entries ∧
      IsReport runId entries ∧
      ∀ key value, report.lookup key = some value → entries.lookup key = some value := by
  have hnamed : withDefault "run_id" (.text runId) report = report := by
    rcases withDefault_cases "run_id" (.text runId) report with ⟨hsame, -⟩ | ⟨-, hnone⟩
    · exact hsame
    · rw [h.name] at hnone
      cases hnone
  rw [hnamed]
  rcases withDefault_cases "timestamp_utc" (.text timestamp) report with ⟨hsame, -⟩ | ⟨hadded, hnone⟩
  · exact ⟨report, hsame, h, fun _ _ hvalue => hvalue⟩
  · refine ⟨_, hadded, h.withValue (by decide) (plain_text timestamp), fun key value hvalue => ?_⟩
    have hkey : key ≠ "timestamp_utc" := by
      rintro rfl
      rw [hnone] at hvalue
      cases hvalue
    rw [lookup_withValue, if_neg hkey, hvalue]

theorem lookup_document (h : IsReport runId report) (timestamp : String) {key : String} {value : Payload}
    (hvalue : report.lookup key = some value) :
    (reportDocument timestamp runId report).lookup key = some value.sorted := by
  obtain ⟨entries, hentries, hreport, hkept⟩ := h.dated timestamp
  rw [reportDocument, hentries, lookup_of_perm hreport.keys.sortedEntries (List.mergeSort_perm _ _).symm,
    lookup_sortedEntries, hkept key value hvalue, Option.map_some]

theorem text_isAscii (h : IsReport runId report) (timestamp : String) :
    IsAscii (reportText timestamp runId report) := by
  obtain ⟨entries, hentries, hreport, -⟩ := h.dated timestamp
  have hplain : (Payload.object entries).Plain := by
    rw [Plain]
    exact hreport.plain
  rw [reportText, hentries]
  exact renderAt_isAscii (plain_sorted hplain) _ 0

end IsReport

theorem ofClock_plain (now : Moment) (millis : Nat) (freshId : Nat → String) :
    (Host.ofClock now millis freshId).seconds.Plain := by
  rw [Host.ofClock, Plain]
  exact Number.floatText_isAscii _

end Run

end SourceOutline
