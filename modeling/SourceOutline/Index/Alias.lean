import SourceOutline.Index

/-! Following type names through their declarations. -/
namespace SourceOutline

/-- Types that every file knows and that are never looked up. -/
def predeclaredTypes : List String :=
  ["bool", "byte", "rune", "string", "error", "any",
    "int", "int8", "int16", "int32", "int64",
    "uint", "uint8", "uint16", "uint32", "uint64", "uintptr",
    "float32", "float64", "complex64", "complex128"]

def isPredeclared (name : String) : Bool :=
  predeclaredTypes.contains name

def TypeExpr.innermost : TypeExpr → TypeExpr
  | .array element _ => element.innermost
  | t => t

/-- The type below one pointer, if there is one. -/
def TypeExpr.pointee : TypeExpr → TypeExpr
  | .pointer target => target
  | t => t

/-- One step of a type name: on to another name, or the type at which the walk stops. -/
inductive Hop where
  | next (name : String)
  | stop (type : TypeExpr)

/-- The step from a name. Array layers and one pointer are passed over; a struct, a map or any other
shape keeps the name it is declared under, as do predeclared and undeclared names. -/
def Index.hop (index : Index) (name : String) : Hop :=
  if isPredeclared name then .stop (.named name)
  else match index.type? name with
    | none => .stop (.named name)
    | some spec => match spec.type.innermost.pointee with
      | .named target => .next target
      | .qualified package target => .stop (.qualified package target)
      | _ => .stop (.named name)

theorem Index.mem_typeNames_of_hop {index : Index} {name target : String}
    (h : index.hop name = .next target) : name ∈ index.typeNames := by
  unfold Index.hop at h
  split at h
  · simp at h
  · split at h
    · simp at h
    · next spec hs => exact Index.mem_typeNames_of_type? hs

/-- The walk from a name came back to a name it had passed. -/
structure AliasCycle where
  name : String
deriving DecidableEq, Repr

/-- Walks on from a name, having passed the names `visited`. -/
def Index.walk (index : Index) (visited : List String) (name : String) :
    Except AliasCycle TypeExpr :=
  match _h : index.hop name with
  | .stop type => .ok type
  | .next target =>
    if _hv : name ∈ visited then .error ⟨name⟩ else index.walk (name :: visited) target
termination_by Index.unvisited index.typeNames visited
decreasing_by exact Index.unvisited_cons_lt (Index.mem_typeNames_of_hop _h) _hv

/-- The type at which the walk from a name stops. -/
def Index.resolve (index : Index) (name : String) : Except AliasCycle TypeExpr :=
  index.walk [] name

end SourceOutline
