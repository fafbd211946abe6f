import SourceOutline.Proofs.Chains

/-! The types that the model covers, and what they come to. -/
namespace SourceOutline

/-- The elements of arrays that the model covers: names that do not run in a circle, and structs. -/
def Index.coversElement (index : Index) : TypeExpr → Bool
  | .named name => (index.resolve name).toBool
  | .qualified _ _ => true
  | .struct _ => true
  | _ => false

/-- The types that the model covers. An array is judged by what is below its layers and one pointer. -/
def Index.covers (index : Index) : TypeExpr → Bool
  | .named _ => true
  | .qualified _ _ => true
  | .map _ _ => true
  | .struct _ => true
  | .array element _ => index.coversElement element.innermost.pointee
  | .pointer (.named _) => true
  | .pointer _ => false
  | .unsupported _ _ => false

def TypeExpr.struct? : TypeExpr → Option (List Field)
  | .struct fields => some fields
  | _ => none

/-- The fields of the anonymous struct that a type is, or that the elements of an array are. -/
def TypeExpr.anonymous? : TypeExpr → Option (List Field)
  | .array element _ => element.innermost.pointee.struct?
  | type => type.struct?

theorem Index.covers_of_anonymous? {index : Index} {t : TypeExpr} {fields : List Field}
    (h : t.anonymous? = some fields) : index.covers t = true := by
  cases t with
  | struct inner => rfl
  | array element length =>
    rw [TypeExpr.anonymous?] at h
    rw [Index.covers]
    cases hc : element.innermost.pointee with
    | struct inner => rfl
    | _ => simp [hc, TypeExpr.struct?] at h
  | _ => cases h

section Resolution

variable (scope : Scope)

/-- Elements are resolved by what is below their array layers and one pointer. -/
theorem elementResolution_eq (t : TypeExpr) :
    elementResolution scope t = targetResolution scope t.innermost.pointee := by
  fun_induction TypeExpr.innermost t with
  | case1 element length ih => rw [elementResolution, ih]
  | case2 t ht =>
    cases t with
    | array element length => exact absurd rfl (ht element length)
    | pointer target => rw [elementResolution]; rfl
    | _ => rfl

theorem namedElement_toBool (name : String) :
    (namedElement scope name).toBool = scope.index.coversElement (.named name) := by
  simp only [namedElement, Index.coversElement]
  cases h : scope.index.resolve name with
  | error cycle => rfl
  | ok type =>
    rcases Index.walk_ok_shape h with ⟨kind, rfl⟩ | ⟨package, kind, rfl⟩
    · rfl
    · rfl

theorem targetResolution_toBool (t : TypeExpr) :
    (targetResolution scope t).value.toBool = scope.index.coversElement t := by
  cases t with
  | named name =>
    rw [targetResolution]
    exact namedElement_toBool scope name
  | _ => rfl

/-- A type comes to something in the model exactly when it is covered. -/
theorem typeResolution_toBool (t : TypeExpr) :
    (typeResolution scope t).value.toBool = scope.index.covers t := by
  cases t with
  | array element length =>
    rw [typeResolution, elementResolution_eq]
    exact targetResolution_toBool scope _
  | pointer target => cases target <;> rfl
  | _ => rfl

theorem namedElement_subFields {name : String} {r : Resolution}
    (h : namedElement scope name = .ok r) : r.subFields = none := by
  simp only [namedElement] at h
  split at h
  · cases h
  · cases h; rfl
  · cases h; rfl
  · cases h

theorem targetResolution_subFields {t : TypeExpr} {r : Resolution}
    (h : (targetResolution scope t).value = .ok r) :
    r.subFields = t.struct?.map fun inner => (extractFields scope inner).value := by
  cases t with
  | named name =>
    rw [targetResolution] at h
    exact namedElement_subFields scope h
  | qualified package name => rw [targetResolution] at h; cases h; rfl
  | struct fields => rw [targetResolution] at h; cases h; rfl
  | _ => rw [targetResolution] at h; cases h

/-- The sub-fields of a type are the model of its anonymous struct, and there are none without one. -/
theorem typeResolution_subFields {t : TypeExpr} {r : Resolution}
    (h : (typeResolution scope t).value = .ok r) :
    r.subFields = t.anonymous?.map fun inner => (extractFields scope inner).value := by
  cases t with
  | array element length =>
    rw [typeResolution, elementResolution_eq] at h
    exact targetResolution_subFields scope h
  | map key value => rw [typeResolution] at h; cases h; cases value <;> rfl
  | pointer target =>
    rw [typeResolution] at h
    cases target with
    | named name => cases h; rfl
    | _ => cases h
  | unsupported shape text => rw [typeResolution] at h; cases h
  | _ => rw [typeResolution] at h; cases h; rfl

end Resolution

end SourceOutline
