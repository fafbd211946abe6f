import SourceOutline.Proofs.Chains
import SourceOutline.Proofs.Trails

/-!
Type names as places that hop to one another. Resolving a name follows its hops and gives the type at which
they stop; it fails exactly where they never stop, at the first name to be met again. The loop turns at most once
for each declared type, and once more.
-/
namespace SourceOutline

/-- What is left of a type without its array layers and, below them, at most one pointer. -/
inductive TypeExpr.Stripped : TypeExpr → TypeExpr → Prop
  | array {element core : TypeExpr} {length : Option String} (h : element.Stripped core) :
      Stripped (.array element length) core
  | pointer {target : TypeExpr} : Stripped (.pointer target) target
  | plain {t : TypeExpr} (harray : ∀ element length, t ≠ .array element length)
      (hpointer : ∀ target, t ≠ .pointer target) : Stripped t t

/-- A plain or a qualified name. -/
def TypeExpr.IsName (t : TypeExpr) : Prop :=
  (∃ name, t = .named name) ∨ ∃ package name, t = .qualified package name

theorem TypeExpr.stripped_core : (t : TypeExpr) → t.Stripped t.innermost.pointee
  | .array element _ => .array element.stripped_core
  | .pointer _ => .pointer
  | .named _ => .plain (by simp) (by simp)
  | .qualified _ _ => .plain (by simp) (by simp)
  | .map _ _ => .plain (by simp) (by simp)
  | .struct _ => .plain (by simp) (by simp)
  | .unsupported _ _ => .plain (by simp) (by simp)

theorem TypeExpr.Stripped.core_eq {t core : TypeExpr} (h : t.Stripped core) : t.innermost.pointee = core := by
  induction h with
  | array _ ih => exact ih
  | pointer => rfl
  | @plain t harray hpointer =>
    cases t with
    | array element length => exact absurd rfl (harray element length)
    | pointer target => exact absurd rfl (hpointer target)
    | _ => rfl

namespace Index

variable {index : Index} {name target : String} {type : TypeExpr}

/-- One name hops to another: it is declared, not predeclared, and what its type strips to is that other name. -/
inductive Hops (index : Index) : String → String → Prop
  | mk {name target : String} {spec : TypeSpec} (hpredeclared : isPredeclared name = false)
      (hspec : index.type? name = some spec) (h : spec.type.Stripped (.named target)) : Hops index name target

/-- The type with which a name stops: a qualified name that its type strips to, or else the name itself. -/
inductive StopsAt (index : Index) : String → TypeExpr → Prop
  | predeclared {name : String} (h : isPredeclared name = true) : StopsAt index name (.named name)
  | undeclared {name : String} (h : index.type? name = none) : StopsAt index name (.named name)
  | qualified {name package target : String} {spec : TypeSpec} (hpredeclared : isPredeclared name = false)
      (hspec : index.type? name = some spec) (h : spec.type.Stripped (.qualified package target)) :
      StopsAt index name (.qualified package target)
  | shape {name : String} {spec : TypeSpec} {core : TypeExpr} (hpredeclared : isPredeclared name = false)
      (hspec : index.type? name = some spec) (h : spec.type.Stripped core) (hcore : ¬core.IsName) :
      StopsAt index name (.named name)

/-- The hops from a name come to an end, and stop with a type. -/
def StopsWith (index : Index) (name : String) (type : TypeExpr) : Prop :=
  ∃ last, Relation.ReflTransGen index.Hops name last ∧ index.StopsAt last type

theorem Hops.hop_eq (h : index.Hops name target) : index.hop name = .next target := by
  obtain ⟨hpredeclared, hspec, hcore⟩ := h
  simp [hop, hpredeclared, hspec, hcore.core_eq]

theorem StopsAt.hop_eq (h : index.StopsAt name type) : index.hop name = .stop type := by
  cases h with
  | predeclared hpredeclared => simp [hop, hpredeclared]
  | undeclared hnone => simp [hop, hnone]
  | qualified hpredeclared hspec hcore => simp [hop, hpredeclared, hspec, hcore.core_eq]
  | @shape spec core hpredeclared hspec hcore hnot =>
    unfold hop
    simp only [hpredeclared, hspec, hcore.core_eq]
    cases core with
    | named other => exact absurd (Or.inl ⟨other, rfl⟩) hnot
    | qualified package other => exact absurd (Or.inr ⟨package, other, rfl⟩) hnot
    | _ => rfl

/-- Every name hops on or stops. -/
theorem hops_or_stopsAt (index : Index) (name : String) :
    (∃ target, index.Hops name target) ∨ ∃ type, index.StopsAt name type := by
  cases hpredeclared : isPredeclared name with
  | true => exact Or.inr ⟨_, .predeclared hpredeclared⟩
  | false =>
    cases hspec : index.type? name with
    | none => exact Or.inr ⟨_, .undeclared hspec⟩
    | some spec =>
      have hcore := spec.type.stripped_core
      generalize spec.type.innermost.pointee = core at hcore
      cases core with
      | named target => exact Or.inl ⟨target, hpredeclared, hspec, hcore⟩
      | qualified package target => exact Or.inr ⟨_, .qualified hpredeclared hspec hcore⟩
      | _ => exact Or.inr ⟨_, .shape hpredeclared hspec hcore (by simp [TypeExpr.IsName])⟩

theorem hops_rightUnique (index : Index) : Relator.RightUnique index.Hops := by
  intro name first second hfirst hsecond
  have h := hfirst.hop_eq.symm.trans hsecond.hop_eq
  exact Hop.next.inj h

theorem StopsAt.not_hops (h : index.StopsAt name type) : ¬index.Hops name target := by
  intro hhops
  have hboth := h.hop_eq.symm.trans hhops.hop_eq
  cases hboth

/-- Walking on from a name searches for where its hops stop. -/
theorem walk_searches (index : Index) :
    Searches index.typeNames index.Hops (fun name r => ∃ type, index.StopsAt name type ∧ r = .ok type)
      (fun name => .error ⟨name⟩) index.walk where
  finite h := mem_typeNames_of_hop h.hop_eq
  unique := index.hops_rightUnique
  decided name := by
    rcases index.hops_or_stopsAt name with hnext | ⟨type, htype⟩
    · exact Or.inl hnext
    · exact Or.inr ⟨_, type, htype, rfl⟩
  apart := by
    rintro name next r ⟨type, htype, -⟩
    exact htype.not_hops
  next h := by rw [walk_step, h.hop_eq]
  stop := by
    rintro visited name r ⟨type, htype, rfl⟩ -
    rw [walk_step, htype.hop_eq]

theorem resolve_of_stopsWith (h : index.StopsWith name type) : index.resolve name = .ok type := by
  obtain ⟨last, hreach, hlast⟩ := h
  exact index.walk_searches.search_of_stops hreach ⟨type, hlast, rfl⟩

/-- Endless hops are found out at the first name that is met again. -/
theorem resolve_of_along {path : Nat → String} (hpath : Along index.Hops name path) :
    ∃ a, FirstRepeat path a ∧ index.resolve name = .error ⟨a⟩ :=
  index.walk_searches.search_of_along hpath

theorem stopsWith_or_along (index : Index) (name : String) :
    (∃ type, index.StopsWith name type) ∨ ∃ path, Along index.Hops name path := by
  rcases index.walk_searches.stops_or_along name with ⟨last, r, hreach, type, hlast, -⟩ | hpath
  · exact Or.inl ⟨type, last, hreach, hlast⟩
  · exact Or.inr hpath

theorem stopsWith_of_resolve (h : index.resolve name = .ok type) : index.StopsWith name type := by
  rcases index.stopsWith_or_along name with ⟨found, hfound⟩ | ⟨path, hpath⟩
  · rw [resolve_of_stopsWith hfound, Except.ok.injEq] at h
    exact h ▸ hfound
  · obtain ⟨a, -, ha⟩ := resolve_of_along hpath
    cases h.symm.trans ha

theorem along_of_resolve {cycle : AliasCycle} (h : index.resolve name = .error cycle) :
    ∃ path, Along index.Hops name path := by
  rcases index.stopsWith_or_along name with ⟨found, hfound⟩ | hpath
  · cases h.symm.trans (resolve_of_stopsWith hfound)
  · exact hpath

/-- One turn of the loop that follows a name, with the names that were passed before. -/
def turn (index : Index) : List String × String → Turn (List String × String) (Except AliasCycle TypeExpr)
  | (visited, name) =>
    if isPredeclared name then .done (.ok (.named name))
    else match index.type? name with
      | none => .done (.ok (.named name))
      | some spec =>
        if name ∈ visited then .done (.error ⟨name⟩)
        else match spec.type.innermost.pointee with
          | .named target => .again (name :: visited, target)
          | .qualified package target => .done (.ok (.qualified package target))
          | _ => .done (.ok (.named name))

theorem StopsAt.turn_eq {visited : List String} (h : index.StopsAt name type) (hnew : name ∉ visited) :
    index.turn (visited, name) = .done (.ok type) := by
  cases h with
  | predeclared hpredeclared => simp [turn, hpredeclared]
  | undeclared hnone => simp [turn, hnone]
  | qualified hpredeclared hspec hcore => simp [turn, hpredeclared, hspec, hnew, hcore.core_eq]
  | @shape spec core hpredeclared hspec hcore hnot =>
    unfold turn
    simp only [hpredeclared, hspec, hnew, hcore.core_eq]
    cases core with
    | named other => exact absurd (Or.inl ⟨other, rfl⟩) hnot
    | qualified package other => exact absurd (Or.inr ⟨package, other, rfl⟩) hnot
    | _ => rfl

theorem Hops.turn_eq (h : index.Hops name target) (visited : List String) :
    index.turn (visited, name) =
      if name ∈ visited then .done (.error ⟨name⟩) else .again (name :: visited, target) := by
  obtain ⟨hpredeclared, hspec, hcore⟩ := h
  simp [turn, hpredeclared, hspec, hcore.core_eq]

/-- A turn ends as the walk does, or goes on with one more declared name passed. -/
theorem turn_cases {visited : List String} (hvisited : ∀ passed ∈ visited, ∃ target, index.Hops passed target) :
    index.turn (visited, name) = .done (index.walk visited name) ∨
      ∃ target, index.turn (visited, name) = .again (name :: visited, target) ∧
        index.walk visited name = index.walk (name :: visited) target ∧
        index.Hops name target ∧ name ∉ visited := by
  rcases index.hops_or_stopsAt name with ⟨target, htarget⟩ | ⟨type, htype⟩
  · rw [htarget.turn_eq, index.walk_searches.next htarget]
    by_cases hpassed : name ∈ visited
    · left
      rw [if_pos hpassed, if_pos hpassed]
    · right
      rw [if_neg hpassed, if_neg hpassed]
      exact ⟨target, rfl, rfl, htarget, hpassed⟩
  · left
    -- the names passed hop on, and so this one is not among them
    have hnew : name ∉ visited := by
      intro hmem
      obtain ⟨target, htarget⟩ := hvisited name hmem
      exact htype.not_hops htarget
    rw [htype.turn_eq hnew, index.walk_searches.stop ⟨type, htype, rfl⟩ hnew]

/-- The loop turns at most once for each declared type, and once more. -/
theorem turns_eq_resolve (index : Index) (name : String) :
    turns index.turn (index.counts.1 + 1) ([], name) = some (index.resolve name) := by
  apply turns_eq (f := fun s : List String × String => index.walk s.1 s.2)
    (P := fun s => ∀ passed ∈ s.1, ∃ target, index.Hops passed target)
    (m := fun s => unvisited index.typeNames.eraseDups s.1)
  · rintro ⟨visited, name⟩ hvisited
    rcases turn_cases hvisited with hdone | ⟨target, hagain, hsame, htarget, hnew⟩
    · exact Or.inl hdone
    · have hdeclared := List.mem_eraseDups.2 (index.walk_searches.finite htarget)
      refine Or.inr ⟨_, hagain, hsame, ?_, unvisited_cons_lt hdeclared hnew⟩
      intro passed hmem
      rcases List.mem_cons.1 hmem with rfl | hmem
      · exact ⟨target, htarget⟩
      · exact hvisited passed hmem
  · simp
  · exact Nat.lt_succ_of_le (List.length_filter_le _ _)

/-- Resolving a type name is exact, and always ends.

The loop that follows a name ends within one turn for each declared type and one more. It gives the type with
which the hops of the name stop, if they stop, and fails if and only if they never do. The name it fails with is
the first one that is met again, and lies on the cycle. -/
theorem resolve_follows_hops (index : Index) (name : String) :
    turns index.turn (index.counts.1 + 1) ([], name) = some (index.resolve name) ∧
    (∀ type, index.resolve name = .ok type ↔ index.StopsWith name type) ∧
    ((∃ cycle, index.resolve name = .error cycle) ↔ ∃ path, Along index.Hops name path) ∧
    ∀ path, Along index.Hops name path → ∃ a, index.resolve name = .error ⟨a⟩ ∧ FirstRepeat path a ∧
      Relation.TransGen index.Hops a a := by
  refine ⟨index.turns_eq_resolve name, fun type => ⟨stopsWith_of_resolve, resolve_of_stopsWith⟩, ⟨?_, ?_⟩, ?_⟩
  · rintro ⟨cycle, h⟩
    exact along_of_resolve h
  · rintro ⟨path, hpath⟩
    obtain ⟨a, -, h⟩ := resolve_of_along hpath
    exact ⟨⟨a⟩, h⟩
  · intro path hpath
    obtain ⟨a, hfirst, h⟩ := resolve_of_along hpath
    exact ⟨a, h, hfirst, hfirst.transGen hpath⟩

/-- Rows of cells, which are units, which are pairs of cells. -/
private def ringIndex : Index :=
  ⟨[.type { name := "Row", type := .array (.pointer (.named "Cell")) none },
    .type { name := "Cell", type := .named "Unit" },
    .type { name := "Unit", type := .array (.named "Cell") (some "2") }]⟩

theorem resolve_follows_hops_ring :
    ringIndex.counts.1 = 3 ∧ ringIndex.resolve "Row" = .error ⟨"Cell"⟩ ∧
      ∃ path, Along ringIndex.Hops "Row" path ∧ FirstRepeat path "Cell" := by
  obtain ⟨hturns, -, hendless, hfirst⟩ := resolve_follows_hops ringIndex "Row"
  have hresolve : ringIndex.resolve "Row" = .error ⟨"Cell"⟩ := (Option.some.inj hturns).symm
  obtain ⟨path, hpath⟩ := hendless.1 ⟨_, hresolve⟩
  obtain ⟨a, ha, hrepeat, -⟩ := hfirst path hpath
  have hsame : a = "Cell" := by
    rw [hresolve, Except.error.injEq, AliasCycle.mk.injEq] at ha
    exact ha.symm
  exact ⟨by decide, hresolve, path, hpath, hsame ▸ hrepeat⟩

end Index

end SourceOutline
