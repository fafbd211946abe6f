import SourceOutline.Proofs.Chains
import SourceOutline.Proofs.Trails

/-!
Chains of references among constants and variables. The entry of an identifier is that of the value at the end of
its chain; it is left out, once, where the chain comes to a name without a value or never ends.
-/
namespace SourceOutline

namespace Index

variable {index : Index} {name next : String} {value? : Option Expr}

/-- The initial value of one name is another identifier. The identifiers `true` and `false` refer to nothing. -/
inductive Refers (index : Index) : String → String → Prop
  | mk {name next : String} {spec : ValueSpec} (hname : isBoolName name = false)
      (hvalue : index.value? name = some (spec, .ident next)) : Refers index name next

/-- What a chain ends with at its last name: a value that refers to nothing, or no value. -/
inductive EndsAt (index : Index) : String → Option Expr → Prop
  | literal {name : String} (hname : isBoolName name = true) : EndsAt index name (some (.ident name))
  | value {name : String} {spec : ValueSpec} {e : Expr} (hname : isBoolName name = false)
      (hvalue : index.value? name = some (spec, e)) (he : ∀ next, e ≠ .ident next) : EndsAt index name (some e)
  | unresolved {name : String} (hname : isBoolName name = false) (hvalue : index.value? name = none) :
      EndsAt index name none

/-- The chain of references from a name ends with a value. -/
def EndsWith (index : Index) (name : String) (e : Expr) : Prop :=
  ∃ last, Relation.ReflTransGen index.Refers name last ∧ index.EndsAt last (some e)

theorem refers_or_endsAt (index : Index) (name : String) :
    (∃ next, index.Refers name next) ∨ ∃ value?, index.EndsAt name value? := by
  cases hname : isBoolName name with
  | true => exact Or.inr ⟨_, .literal hname⟩
  | false =>
    cases hvalue : index.value? name with
    | none => exact Or.inr ⟨_, .unresolved hname hvalue⟩
    | some found =>
      obtain ⟨spec, e⟩ := found
      cases e with
      | ident next => exact Or.inl ⟨next, hname, hvalue⟩
      | _ => exact Or.inr ⟨_, .value hname hvalue (by simp)⟩

theorem refers_rightUnique (index : Index) : Relator.RightUnique index.Refers := by
  rintro name first second ⟨-, hfirst⟩ ⟨-, hsecond⟩
  rw [hfirst, Option.some.injEq, Prod.mk.injEq, Expr.ident.injEq] at hsecond
  exact hsecond.2

theorem EndsAt.not_refers (h : index.EndsAt name value?) : ¬index.Refers name next := by
  rintro ⟨hname, hnext⟩
  cases h with
  | literal hbool =>
    rw [hname] at hbool
    cases hbool
  | value _ hvalue he =>
    rw [hvalue, Option.some.injEq, Prod.mk.injEq] at hnext
    exact he next hnext.2
  | unresolved _ hvalue =>
    rw [hvalue] at hnext
    cases hnext

/-- What comes of the end of a chain. -/
def endResult (index : Index) (last : String) : Option Expr → Except Reason Expr
  | some e => index.dereference e
  | none => .error (.unresolved last)

theorem EndsAt.follow_eq {visited : List String} (h : index.EndsAt name value?) (hnew : name ∉ visited) :
    index.follow visited name = index.endResult name value? := by
  cases h with
  | literal hname =>
    have hdirect : index.follow [] name = .ok (.basic "bool" name) := by rw [follow_step, if_pos hname]
    rw [follow_step, if_pos hname]
    exact hdirect.symm
  | @value spec e hname hvalue he =>
    rw [follow_step, if_neg (by simp [hname]), if_neg hnew, hvalue]
    cases e with
    | ident next => exact absurd rfl (he next)
    | _ => rfl
  | unresolved hname hvalue =>
    rw [follow_step, if_neg (by simp [hname]), if_neg hnew, hvalue]
    rfl

theorem Refers.follow_eq (h : index.Refers name next) (visited : List String) :
    index.follow visited name =
      if name ∈ visited then .error (.referenceCycle name) else index.follow (name :: visited) next := by
  obtain ⟨hname, hvalue⟩ := h
  rw [follow_step, if_neg (by simp [hname]), hvalue]

/-- Following a name searches for the end of its chain. -/
theorem follow_searches (index : Index) :
    Searches index.valueNames index.Refers
      (fun last r => ∃ value?, index.EndsAt last value? ∧ r = index.endResult last value?)
      (fun name => .error (.referenceCycle name)) index.follow where
  finite := by
    rintro name next ⟨-, hvalue⟩
    exact mem_valueNames_of_value? hvalue
  unique := index.refers_rightUnique
  decided name := by
    rcases index.refers_or_endsAt name with hnext | ⟨value?, hvalue⟩
    · exact Or.inl hnext
    · exact Or.inr ⟨_, value?, hvalue, rfl⟩
  apart := by
    rintro name next r ⟨value?, hvalue, -⟩
    exact hvalue.not_refers
  next h := h.follow_eq _
  stop := by
    rintro visited name r ⟨value?, hvalue, rfl⟩ hnew
    exact hvalue.follow_eq hnew

/-- A name is followed to a value exactly when its chain ends with it, or with a literal that it stands for. -/
theorem follow_eq_ok_iff {e : Expr} :
    index.follow [] name = .ok e ↔ ∃ value, index.EndsWith name value ∧ index.dereference value = .ok e := by
  have hsearch := index.follow_searches
  constructor
  · intro h
    rcases hsearch.stops_or_along name with ⟨last, r, hreach, value?, hlast, -⟩ | ⟨path, hpath⟩
    · rw [hsearch.search_of_stops hreach ⟨value?, hlast, rfl⟩] at h
      cases value? with
      | none => cases h
      | some value => exact ⟨value, ⟨last, hreach, hlast⟩, h⟩
    · obtain ⟨a, -, ha⟩ := hsearch.search_of_along hpath
      cases h.symm.trans ha
  · rintro ⟨value, ⟨last, hreach, hlast⟩, h⟩
    rw [hsearch.search_of_stops hreach ⟨_, hlast, rfl⟩]
    exact h

theorem Refers.endsWith_iff {e : Expr} (h : index.Refers name next) :
    index.EndsWith name e ↔ index.EndsWith next e := by
  constructor
  · rintro ⟨last, hreach, hlast⟩
    exact ⟨last, index.follow_searches.reaches_of_step h hreach ⟨_, hlast, rfl⟩, hlast⟩
  · rintro ⟨last, hreach, hlast⟩
    exact ⟨last, hreach.head h, hlast⟩

/-- What a chain ends with stands for one value under every index, and that value is no name. -/
theorem EndsAt.dereference_eq {e : Expr} (h : index.EndsAt name (some e)) :
    ∃ value, (∀ other : Index, other.dereference e = .ok value) ∧ (∀ next, value ≠ .ident next) ∧
      if isBoolName name then value = .basic "bool" name
      else ∃ spec, index.value? name = some (spec, value) := by
  cases h with
  | literal hname =>
    refine ⟨.basic "bool" name, ?_, by simp, by rw [if_pos hname]⟩
    intro other
    rw [dereference, follow_step, if_pos hname]
  | @value spec _ hname hvalue he =>
    refine ⟨e, ?_, he, by rw [hname]; exact ⟨spec, hvalue⟩⟩
    intro other
    cases e with
    | ident next => exact absurd rfl (he next)
    | _ => rfl

end Index

section Entry

variable (scope : Scope) (name : String) (spec : ValueSpec)

/-- The entry of what an identifier was followed to. -/
def entryOf : Except Reason Expr → Noted (Option Model.Entry)
  | .error reason => ⟨none, [⟨.initializer, name, reason, spec.line⟩]⟩
  | .ok target => valueEntry scope name spec target

theorem initializerEntry_eq_entryOf (e : Expr) :
    initializerEntry scope name spec e = entryOf scope name spec (scope.index.dereference e) := by
  unfold initializerEntry
  cases scope.index.dereference e <;> rfl

/-- One turn of the recursion that makes the entry of a value, with the identifiers that were passed before. -/
def initializerTurn : List String × Expr → Turn (List String × Expr) (Noted (Option Model.Entry))
  | (visited, .ident other) =>
    if isBoolName other then .done (valueEntry scope name spec (.basic "bool" other))
    else if other ∈ visited then .done ⟨none, [⟨.initializer, name, .referenceCycle other, spec.line⟩]⟩
    else match scope.index.value? other with
      | none => .done ⟨none, [⟨.initializer, name, .unresolved other, spec.line⟩]⟩
      | some (_, referenced) => .again (other :: visited, referenced)
  | (_, e) => .done (valueEntry scope name spec e)

/-- What a value comes to, having passed some identifiers. -/
def entryFrom : List String × Expr → Noted (Option Model.Entry)
  | (visited, .ident other) => entryOf scope name spec (scope.index.follow visited other)
  | (_, e) => valueEntry scope name spec e

theorem initializerTurn_cases (s : List String × Expr) :
    initializerTurn scope name spec s = .done (entryFrom scope name spec s) ∨
      ∃ next, initializerTurn scope name spec s = .again next ∧
        entryFrom scope name spec s = entryFrom scope name spec next ∧
        Index.unvisited scope.index.valueNames.eraseDups next.1 <
          Index.unvisited scope.index.valueNames.eraseDups s.1 := by
  obtain ⟨visited, e⟩ := s
  cases e with
  | ident other =>
    by_cases hbool : isBoolName other = true
    · left
      rw [initializerTurn, if_pos hbool, entryFrom, Index.follow_step, if_pos hbool]
      rfl
    by_cases hpassed : other ∈ visited
    · left
      rw [initializerTurn, if_neg hbool, if_pos hpassed, entryFrom, Index.follow_step, if_neg hbool,
        if_pos hpassed]
      rfl
    cases hvalue : scope.index.value? other with
    | none =>
      left
      rw [initializerTurn, if_neg hbool, if_neg hpassed, hvalue, entryFrom, Index.follow_step, if_neg hbool,
        if_neg hpassed, hvalue]
      rfl
    | some found =>
      obtain ⟨declaring, referenced⟩ := found
      right
      have hdeclared := List.mem_eraseDups.2 (Index.mem_valueNames_of_value? hvalue)
      refine ⟨(other :: visited, referenced), ?_, ?_, Index.unvisited_cons_lt hdeclared hpassed⟩
      · rw [initializerTurn, if_neg hbool, if_neg hpassed, hvalue]
      · rw [entryFrom, Index.follow_step, if_neg hbool, if_neg hpassed, hvalue]
        cases referenced <;> rfl
  | _ => exact Or.inl rfl

theorem turns_eq_initializerEntry (e : Expr) :
    turns (initializerTurn scope name spec) (scope.index.counts.2 + 1) ([], e) =
      some (initializerEntry scope name spec e) := by
  have hfrom : initializerEntry scope name spec e = entryFrom scope name spec ([], e) := by
    rw [initializerEntry_eq_entryOf]
    cases e <;> rfl
  rw [hfrom]
  apply turns_eq (P := fun _ => True) (m := fun s => Index.unvisited scope.index.valueNames.eraseDups s.1)
  · intro s _
    rcases initializerTurn_cases scope name spec s with hdone | ⟨next, hnext, hsame, hless⟩
    · exact Or.inl hdone
    · exact Or.inr ⟨next, hnext, hsame, trivial, hless⟩
  · trivial
  · exact Nat.lt_succ_of_le (List.length_filter_le _ _)

/-- The entry of an identifier is settled by the end of its chain of references, and always comes about.

The recursion ends within one turn for each declared constant or variable and one more. Where the chain ends with
a value that refers to nothing, or with `true` or `false`, the entry and what is left out are those of that value.
Where it ends with a name that has no value, there is no entry and the one thing left out is an unresolved
identifier with that name. Where it never ends, that is a cyclic reference to the first name that is met again.
One of these is always the case. -/
theorem initializerEntry_follows_chain (n : String) :
    turns (initializerTurn scope name spec) (scope.index.counts.2 + 1) ([], .ident n) =
      some (initializerEntry scope name spec (.ident n)) ∧
    (∀ last e, Relation.ReflTransGen scope.index.Refers n last → scope.index.EndsAt last (some e) →
      initializerEntry scope name spec (.ident n) = initializerEntry scope name spec e) ∧
    (∀ last, Relation.ReflTransGen scope.index.Refers n last → scope.index.EndsAt last none →
      initializerEntry scope name spec (.ident n) =
        ⟨none, [⟨.initializer, name, .unresolved last, spec.line⟩]⟩) ∧
    (∀ path, Along scope.index.Refers n path → ∃ a, FirstRepeat path a ∧
      initializerEntry scope name spec (.ident n) =
        ⟨none, [⟨.initializer, name, .referenceCycle a, spec.line⟩]⟩) ∧
    ((∃ last value?, Relation.ReflTransGen scope.index.Refers n last ∧ scope.index.EndsAt last value?) ∨
      ∃ path, Along scope.index.Refers n path) := by
  have hsearch := scope.index.follow_searches
  have hentry : initializerEntry scope name spec (.ident n) =
      entryOf scope name spec (scope.index.follow [] n) := initializerEntry_eq_entryOf scope name spec _
  refine ⟨turns_eq_initializerEntry scope name spec _, ?_, ?_, ?_, ?_⟩
  · intro last e hreach hlast
    rw [hentry, initializerEntry_eq_entryOf, hsearch.search_of_stops hreach ⟨_, hlast, rfl⟩]
    rfl
  · intro last hreach hlast
    rw [hentry, hsearch.search_of_stops hreach ⟨_, hlast, rfl⟩]
    rfl
  · intro path hpath
    obtain ⟨a, hfirst, hfollow⟩ := hsearch.search_of_along hpath
    refine ⟨a, hfirst, ?_⟩
    rw [hentry, hfollow]
    rfl
  · rcases hsearch.stops_or_along n with ⟨last, r, hreach, value?, hlast, -⟩ | hpath
    · exact Or.inl ⟨last, value?, hreach, hlast⟩
    · exact Or.inr hpath

end Entry

/-- One name leads into two that refer to each other, of which one shares its value with a third name. -/
private def loopScope : Scope :=
  { index := ⟨[.value { keyword := "const", names := ["a", "b"], values := [.ident "b", .ident "c"] },
      .value { keyword := "var", names := ["c", "d"], values := [.ident "b"] },
      .value { keyword := "var", names := ["lost", "top"], values := [.ident "nowhere", .ident "low"] },
      .value { keyword := "const", names := ["low"], values := [.basic "int" "1"] }]⟩ }

private def loopSpec : ValueSpec :=
  { keyword := "const", names := ["x"], line := 7 }

theorem initializerEntry_follows_chain_loop :
    initializerEntry loopScope "x" loopSpec (.ident "a") =
        ⟨none, [⟨.initializer, "x", .referenceCycle "b", 7⟩]⟩ ∧
      initializerEntry loopScope "x" loopSpec (.ident "d") =
        ⟨none, [⟨.initializer, "x", .referenceCycle "b", 7⟩]⟩ ∧
      initializerEntry loopScope "x" loopSpec (.ident "lost") =
        ⟨none, [⟨.initializer, "x", .unresolved "nowhere", 7⟩]⟩ ∧
      initializerEntry loopScope "x" loopSpec (.ident "top") =
        initializerEntry loopScope "x" loopSpec (.basic "int" "1") := by
  obtain ⟨ha, -⟩ := initializerEntry_follows_chain loopScope "x" loopSpec "a"
  obtain ⟨hd, -⟩ := initializerEntry_follows_chain loopScope "x" loopSpec "d"
  obtain ⟨-, -, hlost, -⟩ := initializerEntry_follows_chain loopScope "x" loopSpec "lost"
  obtain ⟨-, htop, -⟩ := initializerEntry_follows_chain loopScope "x" loopSpec "top"
  refine ⟨(Option.some.inj ha).symm, (Option.some.inj hd).symm, ?_, ?_⟩
  · exact hlost "nowhere" (.single ⟨by decide, rfl⟩) (.unresolved (by decide) rfl)
  · exact htop "low" _ (.single ⟨by decide, rfl⟩) (.value (by decide) rfl (by simp))

end SourceOutline
