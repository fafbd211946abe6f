import Mathlib.Logic.Function.Iterate
import Mathlib.Logic.Relation
import Mathlib.Tactic.Choose
import SourceOutline.Index

/-!
Following a relation from place to place, and keeping the places that were passed. A trail that comes back to a
place it passed goes on for ever, and what it comes back to is the first place to be repeated. So a search among
finitely many names that keeps what it passed ends where its steps end, and finds out where they do not.
-/
namespace SourceOutline

variable {α : Type} {R : α → α → Prop} {start a b : α} {passed : List α} {path : Nat → α}

/-- A path that starts somewhere and never ends. -/
structure Along (R : α → α → Prop) (start : α) (path : Nat → α) : Prop where
  start : path 0 = start
  step : ∀ k, R (path k) (path (k + 1))

/-- The first place of a path that was there before. -/
def FirstRepeat (path : Nat → α) (a : α) : Prop :=
  ∃ i j, i < j ∧ path i = a ∧ path j = a ∧ ∀ k l, k < l → l < j → path k ≠ path l

/-- A way to a place, with the places passed on it, the last first. No place is passed twice. -/
inductive Trail (R : α → α → Prop) (start : α) : List α → α → Prop
  | here : Trail R start [] start
  | on {passed : List α} {a b : α} (h : Trail R start passed a) (hnew : a ∉ passed) (hstep : R a b) :
      Trail R start (a :: passed) b

namespace Along

theorem shift (h : Along R start path) : Along R (path 1) fun k => path (k + 1) :=
  ⟨rfl, fun k => h.step (k + 1)⟩

theorem transGen (h : Along R start path) {i j : Nat} (hij : i < j) :
    Relation.TransGen R (path i) (path j) := by
  obtain ⟨d, rfl⟩ := Nat.exists_eq_add_of_lt hij
  clear hij
  induction d with
  | zero => exact .single (h.step i)
  | succ d ih => exact ih.tail (h.step (i + d + 1))

section Deterministic

variable (hR : Relator.RightUnique R)
include hR

/-- An endless path passes all that can be reached. -/
theorem reaches (h : Along R start path) (ha : Relation.ReflTransGen R start a) : ∃ k, a = path k := by
  induction ha with
  | refl => exact ⟨0, h.start.symm⟩
  | tail _ hstep ih =>
    obtain ⟨k, rfl⟩ := ih
    exact ⟨k + 1, hR hstep (h.step k)⟩

theorem repeats (h : Along R start path) {i j : Nat} (hij : path i = path j) (k : Nat) :
    path (i + k) = path (j + k) := by
  induction k with
  | zero => exact hij
  | succ k ih =>
    have hi := h.step (i + k)
    rw [ih] at hi
    exact hR hi (h.step (j + k))

/-- A place that is repeated is come back to after any time. -/
theorem returns (h : Along R start path) {i j : Nat} (hlt : i < j) (hij : path i = path j) (n : Nat) :
    ∃ k, n < k ∧ path k = path i := by
  induction n with
  | zero => exact ⟨j, by omega, hij.symm⟩
  | succ n ih =>
    obtain ⟨k, hk, hki⟩ := ih
    refine ⟨k + (j - i), by omega, ?_⟩
    have hagain := h.repeats hR hki (j - i)
    rw [hagain, Nat.add_sub_cancel' (Nat.le_of_lt hlt)]
    exact hij.symm

/-- A place that is repeated is reached from everywhere on the path. -/
theorem transGen_of_repeat (h : Along R start path) {j k : Nat} (hjk : j < k) (hsame : path j = path k)
    (i : Nat) : Relation.TransGen R (path i) (path j) := by
  obtain ⟨n, hn, hpn⟩ := h.returns hR hjk hsame i
  have hway := h.transGen hn
  rwa [hpn] at hway

end Deterministic

end Along

theorem FirstRepeat.transGen (h : FirstRepeat path a) (hpath : Along R start path) :
    Relation.TransGen R a a := by
  obtain ⟨i, j, hij, hi, hj, -⟩ := h
  have hway := hpath.transGen hij
  rwa [hi, hj] at hway

/-- Where every place leads to another, there is no end. -/
theorem exists_along_of_next {places : α → Prop} (hnext : ∀ a, places a → ∃ b, R a b ∧ places b)
    (hstart : places start) : ∃ path, Along R start path := by
  choose next hstep hplace using hnext
  let go (p : { a // places a }) : { a // places a } := ⟨next p.1 p.2, hplace p.1 p.2⟩
  refine ⟨fun k => (go^[k] ⟨start, hstart⟩).1, rfl, fun k => ?_⟩
  rw [Function.iterate_succ_apply']
  exact hstep _ _

namespace Trail

theorem reaches (h : Trail R start passed a) : Relation.ReflTransGen R start a := by
  induction h with
  | here => exact .refl
  | on _ _ hstep ih => exact ih.tail hstep

theorem start_mem (h : Trail R start passed a) : start ∈ a :: passed := by
  induction h with
  | here => exact List.mem_cons_self
  | on _ _ _ ih => exact List.mem_cons_of_mem _ ih

/-- From a place that was passed, the trail went on. -/
theorem next_mem (h : Trail R start passed a) {c : α} (hc : c ∈ passed) : ∃ d, R c d ∧ d ∈ a :: passed := by
  induction h with
  | here => cases hc
  | on _ _ hstep ih =>
    rcases List.mem_cons.1 hc with rfl | hc
    · exact ⟨_, hstep, List.mem_cons_self⟩
    · obtain ⟨d, hd, hmem⟩ := ih hc
      exact ⟨d, hd, List.mem_cons_of_mem _ hmem⟩

/-- A trail that comes back to a place can be followed without end. -/
theorem exists_along (h : Trail R start passed a) (ha : a ∈ passed) : ∃ path, Along R start path := by
  -- every place passed leads to another one that was passed
  have hclosed : ∀ d, d ∈ a :: passed → d ∈ passed := by
    intro d hd
    rcases List.mem_cons.1 hd with rfl | hd
    · exact ha
    · exact hd
  have hnext : ∀ c, c ∈ passed → ∃ d, R c d ∧ d ∈ passed := by
    intro c hc
    obtain ⟨d, hd, hmem⟩ := h.next_mem hc
    exact ⟨d, hd, hclosed d hmem⟩
  exact exists_along_of_next hnext (hclosed start h.start_mem)

section Deterministic

variable (hR : Relator.RightUnique R)
include hR

theorem eq_path (h : Trail R start passed a) (hpath : Along R start path) : a = path passed.length := by
  induction h with
  | here => exact hpath.start.symm
  | on _ _ hstep ih =>
    rw [ih] at hstep
    exact hR hstep (hpath.step _)

theorem mem_iff (h : Trail R start passed a) (hpath : Along R start path) {c : α} :
    c ∈ passed ↔ ∃ i, i < passed.length ∧ path i = c := by
  induction h with
  | here => simp
  | @on passed a b h _ _ ih =>
    have ha := h.eq_path hR hpath
    rw [List.mem_cons, ih]
    constructor
    · rintro (rfl | ⟨i, hi, rfl⟩)
      · exact ⟨passed.length, by simp, ha.symm⟩
      · exact ⟨i, by simp; omega, rfl⟩
    · rintro ⟨i, hi, rfl⟩
      rw [List.length_cons] at hi
      by_cases hlast : i = passed.length
      · exact Or.inl (hlast ▸ ha.symm)
      · exact Or.inr ⟨i, by omega, rfl⟩

theorem path_ne (h : Trail R start passed a) (hpath : Along R start path) {k l : Nat} (hkl : k < l)
    (hl : l < passed.length) : path k ≠ path l := by
  induction h with
  | here => simp at hl
  | @on passed a b h hnew _ ih =>
    rw [List.length_cons] at hl
    by_cases hlast : l = passed.length
    · have ha := h.eq_path hR hpath
      intro hsame
      apply hnew
      rw [h.mem_iff hR hpath]
      exact ⟨k, by omega, by rw [hsame, hlast, ha]⟩
    · exact ih (by omega)

/-- A trail that comes back to a place has found the first one to be repeated. -/
theorem firstRepeat (h : Trail R start passed a) (ha : a ∈ passed) (hpath : Along R start path) :
    FirstRepeat path a := by
  obtain ⟨i, hi, hsame⟩ := (h.mem_iff hR hpath).1 ha
  refine ⟨i, passed.length, hi, hsame, (h.eq_path hR hpath).symm, ?_⟩
  intro k l hkl hl
  exact h.path_ne hR hpath hkl hl

end Deterministic

end Trail

section Search

variable {ρ : Type} {names : List String} {R : String → String → Prop} {stops : String → ρ → Prop}
  {refused : String → ρ} {search : List String → String → ρ}

/-- A search goes from name to name and keeps the names that it has passed. Where a name leads nowhere it stops
with a result, and a name that it passed before is refused. -/
structure Searches (names : List String) (R : String → String → Prop) (stops : String → ρ → Prop)
    (refused : String → ρ) (search : List String → String → ρ) : Prop where
  finite : ∀ {name next : String}, R name next → name ∈ names
  unique : Relator.RightUnique R
  decided : ∀ name : String, (∃ next, R name next) ∨ ∃ r, stops name r
  apart : ∀ {name next : String} {r : ρ}, stops name r → ¬R name next
  next : ∀ {visited : List String} {name next : String}, R name next →
    search visited name = if name ∈ visited then refused name else search (name :: visited) next
  stop : ∀ {visited : List String} {name : String} {r : ρ}, stops name r → name ∉ visited →
    search visited name = r

namespace Searches

variable {start last name : String} {visited : List String} {path : Nat → String} {r : ρ}

/-- A search that is on its way comes to a stop, or back to a name. -/
theorem stops_or_returns (h : Searches names R stops refused search) (htrail : Trail R start visited name) :
    (∃ last r, Relation.ReflTransGen R start last ∧ stops last r ∧ search visited name = r) ∨
      ∃ passed a, Trail R start passed a ∧ a ∈ passed ∧ search visited name = refused a := by
  induction hleft : Index.unvisited names visited using Nat.strongRecOn generalizing visited name with
  | _ left ih =>
    rcases h.decided name with ⟨next, hnext⟩ | ⟨r, hr⟩
    · by_cases hpassed : name ∈ visited
      · right
        exact ⟨visited, name, htrail, hpassed, by rw [h.next hnext, if_pos hpassed]⟩
      · have hless := Index.unvisited_cons_lt (h.finite hnext) hpassed
        rw [h.next hnext, if_neg hpassed]
        exact ih _ (hleft ▸ hless) (htrail.on hpassed hnext) rfl
    · left
      -- what was passed leads on, and so this name is not among it
      have hnew : name ∉ visited := by
        intro hmem
        obtain ⟨next, hnext, -⟩ := htrail.next_mem hmem
        exact h.apart hr hnext
      exact ⟨name, r, htrail.reaches, hr, h.stop hr hnew⟩

theorem not_along (h : Searches names R stops refused search) (hreach : Relation.ReflTransGen R start last)
    (hlast : stops last r) : ¬Along R start path := by
  intro hpath
  obtain ⟨k, rfl⟩ := hpath.reaches h.unique hreach
  exact h.apart hlast (hpath.step k)

/-- The steps to where a search stops go through the next name. -/
theorem reaches_of_step (h : Searches names R stops refused search) {next : String} (hnext : R start next)
    (hreach : Relation.ReflTransGen R start last) (hlast : stops last r) :
    Relation.ReflTransGen R next last := by
  rcases hreach.cases_head with rfl | ⟨other, hother, hrest⟩
  · exact absurd hnext (h.apart hlast)
  · have hsame := h.unique hother hnext
    exact hsame ▸ hrest

theorem last_unique (h : Searches names R stops refused search) {other : String} {r' : ρ}
    (hreach : Relation.ReflTransGen R start last) (hlast : stops last r)
    (hreach' : Relation.ReflTransGen R start other) (hother : stops other r') : last = other := by
  rcases Relation.ReflTransGen.total_of_right_unique h.unique hreach hreach' with hon | hon
  · rcases hon.cases_head with hsame | ⟨next, hnext, -⟩
    · exact hsame
    · exact absurd hnext (h.apart hlast)
  · rcases hon.cases_head with hsame | ⟨next, hnext, -⟩
    · exact hsame.symm
    · exact absurd hnext (h.apart hother)

/-- Where the steps from a name end, a search for it stops. -/
theorem search_of_stops (h : Searches names R stops refused search)
    (hreach : Relation.ReflTransGen R start last) (hlast : stops last r) : search [] start = r := by
  rcases h.stops_or_returns .here with ⟨last', r', hreach', hlast', hsearch⟩ | ⟨passed, a, htrail, ha, -⟩
  · have hsame := h.last_unique hreach hlast hreach' hlast'
    have hnot : last ∉ ([] : List String) := by simp
    rw [hsearch, ← h.stop hlast hnot, hsame, h.stop hlast' (by simp)]
  · obtain ⟨path, hpath⟩ := htrail.exists_along ha
    exact absurd hpath (h.not_along hreach hlast)

/-- Where the steps from a name never end, it is refused with the first name that is met again. -/
theorem search_of_along (h : Searches names R stops refused search) (hpath : Along R start path) :
    ∃ a, FirstRepeat path a ∧ search [] start = refused a := by
  rcases h.stops_or_returns .here with ⟨last, r, hreach, hlast, -⟩ | ⟨passed, a, htrail, ha, hsearch⟩
  · exact absurd hpath (h.not_along hreach hlast)
  · exact ⟨a, htrail.firstRepeat h.unique ha hpath, hsearch⟩

theorem stops_or_along (h : Searches names R stops refused search) (start : String) :
    (∃ last r, Relation.ReflTransGen R start last ∧ stops last r) ∨ ∃ path, Along R start path := by
  rcases h.stops_or_returns .here with ⟨last, r, hreach, hlast, -⟩ | ⟨passed, a, htrail, ha, -⟩
  · exact Or.inl ⟨last, r, hreach, hlast⟩
  · exact Or.inr (htrail.exists_along ha)

end Searches

/-- The last name that steps lead to, or the first that they come back to. -/
def lastName (names : List String) (next? : String → Option String) (visited : List String) (name : String) :
    String :=
  match next? name with
  | none => name
  | some next =>
    if _h : name ∈ names ∧ name ∉ visited then lastName names next? (name :: visited) next else name
termination_by Index.unvisited names visited
decreasing_by exact Index.unvisited_cons_lt _h.1 _h.2

theorem lastName_searches {next? : String → Option String} (hnext : ∀ {a b}, R a b ↔ next? a = some b)
    (hnames : ∀ {a b}, R a b → a ∈ names) :
    Searches names R (fun name last => next? name = none ∧ last = name) id (lastName names next?) where
  finite := hnames
  unique := by
    intro name first second hfirst hsecond
    rw [hnext] at hfirst hsecond
    exact Option.some.inj (hfirst.symm.trans hsecond)
  decided name := by
    cases h : next? name with
    | none => exact Or.inr ⟨name, rfl, rfl⟩
    | some next => exact Or.inl ⟨next, hnext.2 h⟩
  apart := by
    rintro name next r ⟨hnone, -⟩ hstep
    rw [hnext, hnone] at hstep
    cases hstep
  next := by
    intro visited name next hstep
    rw [lastName, hnext.1 hstep]
    by_cases hpassed : name ∈ visited
    · simp [hpassed]
    · simp [hpassed, hnames hstep]
  stop := by
    rintro visited name r ⟨hnone, rfl⟩ -
    rw [lastName, hnone]

end Search

section Loop

variable {σ ρ : Type}

/-- What one turn of a loop comes to: a result, or another turn. -/
inductive Turn (σ ρ : Type) where
  | done (result : ρ)
  | again (state : σ)

/-- The result of a loop, if it ends within a number of turns. -/
def turns (turn : σ → Turn σ ρ) : Nat → σ → Option ρ
  | 0, _ => none
  | n + 1, s =>
    match turn s with
    | .done result => some result
    | .again next => turns turn n next

/-- A loop that counts down ends in time, with what each of its turns keeps. -/
theorem turns_eq {turn : σ → Turn σ ρ} {f : σ → ρ} {P : σ → Prop} {m : σ → Nat}
    (hturn : ∀ s, P s → turn s = .done (f s) ∨
      ∃ next, turn s = .again next ∧ f s = f next ∧ P next ∧ m next < m s)
    {n : Nat} {s : σ} (hs : P s) (hn : m s < n) : turns turn n s = some (f s) := by
  induction n generalizing s with
  | zero => omega
  | succ n ih =>
    unfold turns
    rcases hturn s hs with hdone | ⟨next, hnext, hsame, hkept, hless⟩
    · rw [hdone]
    · rw [hnext, hsame]
      exact ih hkept (by omega)

end Loop

end SourceOutline
