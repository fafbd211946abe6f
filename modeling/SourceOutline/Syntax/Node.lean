/-!
Syntax trees. A node knows its kind, its place in the source and the field of its parent it fills;
tokens are nodes without children that are not named.
-/
namespace SourceOutline.Syntax

/-- A node of a syntax tree. Bytes count from the start of the source, rows from zero. -/
structure Node where
  kind : String
  named : Bool
  missing : Bool
  startByte : Nat
  endByte : Nat
  startRow : Nat
  endRow : Nat
  field : Option String
  children : List Node
deriving Inhabited

namespace Node

def namedChildren (n : Node) : List Node :=
  n.children.filter (·.named)

/-- Comments may stand anywhere in a tree. -/
def isComment (n : Node) : Bool :=
  n.kind == "comment"

/-- The named children that are no comments. -/
def parts (n : Node) : List Node :=
  n.namedChildren.filter (!·.isComment)

def childrenIn (n : Node) (field : String) : List Node :=
  n.children.filter (·.field == some field)

def child? (n : Node) (field : String) : Option Node :=
  n.children.find? (·.field == some field)

def isError (n : Node) : Bool :=
  n.kind == "ERROR" || n.missing

theorem children_lt (n : Node) : sizeOf n.children < sizeOf n := by
  cases n
  simp only [mk.sizeOf_spec]
  omega

theorem lt_of_mem_children {n c : Node} (h : c ∈ n.children) : sizeOf c < sizeOf n :=
  Nat.lt_trans (List.sizeOf_lt_of_mem h) n.children_lt

theorem mem_children_of_child? {n c : Node} {field : String} (h : n.child? field = some c) :
    c ∈ n.children :=
  List.mem_of_find?_eq_some h

theorem mem_children_of_mem_parts {n c : Node} (h : c ∈ n.parts) : c ∈ n.children :=
  (List.mem_filter.1 (List.mem_filter.1 h).1).1

theorem lt_of_child? {n c : Node} {field : String} (h : n.child? field = some c) :
    sizeOf c < sizeOf n :=
  lt_of_mem_children (mem_children_of_child? h)

theorem lt_of_mem_parts {n c : Node} (h : c ∈ n.parts) : sizeOf c < sizeOf n :=
  lt_of_mem_children (mem_children_of_mem_parts h)

end Node

end SourceOutline.Syntax
