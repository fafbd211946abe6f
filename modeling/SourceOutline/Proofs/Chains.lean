import SourceOutline.Extract.Values

/-! The steps of the two walks: along type names, and along constants and variables. -/
namespace SourceOutline.Index

theorem walk_step (index : Index) (visited : List String) (name : String) :
    index.walk visited name =
      match index.hop name with
      | .stop type => .ok type
      | .next target =>
        if name ∈ visited then .error ⟨name⟩ else index.walk (name :: visited) target := by
  rw [Index.walk]
  split
  · next type h => rw [h]
  · next target h => rw [h]; rfl

theorem hop_stop_shape {index : Index} {name : String} {type : TypeExpr}
    (h : index.hop name = .stop type) :
    (∃ kind, type = .named kind) ∨ ∃ package kind, type = .qualified package kind := by
  unfold Index.hop at h
  split at h
  · exact .inl ⟨name, (Hop.stop.inj h).symm⟩
  · split at h
    · exact .inl ⟨name, (Hop.stop.inj h).symm⟩
    · split at h
      · cases h
      · exact .inr ⟨_, _, (Hop.stop.inj h).symm⟩
      · exact .inl ⟨name, (Hop.stop.inj h).symm⟩

/-- A walk that ends does so at a plain or a qualified name. -/
theorem walk_ok_shape {index : Index} {visited : List String} {name : String} {type : TypeExpr}
    (h : index.walk visited name = .ok type) :
    (∃ kind, type = .named kind) ∨ ∃ package kind, type = .qualified package kind := by
  fun_induction Index.walk index visited name with
  | case1 visited name found hs =>
    cases h
    exact hop_stop_shape hs
  | case2 visited name target hs hv => cases h
  | case3 visited name target hs hv ih => exact ih h

theorem follow_step (index : Index) (visited : List String) (name : String) :
    index.follow visited name =
      if isBoolName name then .ok (.basic "bool" name)
      else if name ∈ visited then .error (.referenceCycle name)
      else match index.value? name with
        | none => .error (.unresolved name)
        | some (_, .ident next) => index.follow (name :: visited) next
        | some (_, value) => .ok value := by
  rw [Index.follow]
  split
  · rfl
  · split
    · rfl
    · split
      · next h => rw [h]
      · next spec next h => rw [h]
      · next spec value hi h =>
        rw [h]
        cases value with
        | ident next => exact absurd rfl (hi next)
        | _ => rfl

/-- A chain of references that ends nowhere runs in a circle or stops at a name without a value. -/
theorem follow_error_shape {index : Index} {visited : List String} {name : String} {reason : Reason}
    (h : index.follow visited name = .error reason) :
    (∃ other, reason = .referenceCycle other) ∨ ∃ other, reason = .unresolved other := by
  fun_induction Index.follow index visited name with
  | case1 visited name hb => cases h
  | case2 visited name hb hv =>
    cases h
    exact .inl ⟨name, rfl⟩
  | case3 visited name hb hv hn =>
    cases h
    exact .inr ⟨name, rfl⟩
  | case4 visited name hb hv spec next hs ih => exact ih h
  | case5 visited name hb hv spec value hi hs => cases h

end SourceOutline.Index
