import SourceOutline.Proofs.DocBlocks
import SourceOutline.Proofs.Trails
import SourceOutline.Syntax.Errors

/-!
The count of error nodes visits every node once. The loop takes the last node off its stack and puts the
children of that node on it, so it passes the nodes of a tree in the reverse of the order in which each node
comes after those below it.
-/
namespace SourceOutline.Syntax

mutual

/-- The nodes of a tree, each after those below it. -/
def Node.nodes : Node → List Node
  | .mk kind named missing startByte endByte startRow endRow field children =>
    nodesAmong children ++ [.mk kind named missing startByte endByte startRow endRow field children]

def nodesAmong : List Node → List Node
  | [] => []
  | n :: rest => n.nodes ++ nodesAmong rest

end

theorem Node.nodes_eq (n : Node) : n.nodes = nodesAmong n.children ++ [n] := by
  cases n
  rfl

theorem nodesAmong_append (ms ns : List Node) : nodesAmong (ms ++ ns) = nodesAmong ms ++ nodesAmong ns := by
  induction ms with
  | nil => rfl
  | cons m rest ih => simp only [List.cons_append, nodesAmong, ih, List.append_assoc]

theorem nodesAmong_concat (ns : List Node) (n : Node) :
    nodesAmong (ns ++ [n]) = nodesAmong (ns ++ n.children) ++ [n] := by
  have hlast : nodesAmong [n] = nodesAmong n.children ++ [n] := by
    rw [nodesAmong, nodesAmong, List.append_nil, n.nodes_eq]
  rw [nodesAmong_append, nodesAmong_append, hlast, List.append_assoc]

theorem mem_nodesAmong_iff {d : Node} {ns : List Node} : d ∈ nodesAmong ns ↔ ∃ n ∈ ns, d ∈ n.nodes := by
  induction ns with
  | nil => simp [nodesAmong]
  | cons n rest ih => simp [nodesAmong, ih]

theorem Node.mem_nodes_iff {root d : Node} : d ∈ root.nodes ↔ root.Encloses d := by
  constructor
  · -- down the tree: a node of the tree is its root or one of a child's nodes
    intro hd
    rw [root.nodes_eq, List.mem_append, mem_nodesAmong_iff, List.mem_singleton] at hd
    rcases hd with ⟨c, hc, hd⟩ | rfl
    · exact .head hc (mem_nodes_iff.1 hd)
    · exact .refl
  · intro h
    induction h using Relation.ReflTransGen.head_induction_on with
    | refl =>
      rw [nodes_eq]
      exact List.mem_append_right _ List.mem_cons_self
    | head hc _ ih =>
      rw [nodes_eq]
      exact List.mem_append_left _ (mem_nodesAmong_iff.2 ⟨_, hc, ih⟩)
termination_by sizeOf root
decreasing_by exact Node.lt_of_mem_children hc

mutual

theorem Node.errorTotal_eq_countP : ∀ n : Node, n.errorTotal = n.nodes.countP Node.isError
  | .mk _ _ _ _ _ _ _ _ children => by
    rw [Node.errorTotal, Node.nodes, List.countP_append, List.countP_singleton, errorTotals_eq_countP children,
      Nat.add_comm]

theorem errorTotals_eq_countP : ∀ ns : List Node, errorTotals ns = (nodesAmong ns).countP Node.isError
  | [] => rfl
  | n :: rest => by
    rw [errorTotals, nodesAmong, List.countP_append, n.errorTotal_eq_countP, errorTotals_eq_countP rest]

end

theorem Node.errorTotal_eq (n : Node) :
    n.errorTotal = (if n.isError then 1 else 0) + errorTotals n.children := by
  cases n
  rw [Node.errorTotal]

theorem errorTotals_append (ms ns : List Node) : errorTotals (ms ++ ns) = errorTotals ms + errorTotals ns := by
  induction ms with
  | nil => rw [List.nil_append, errorTotals, Nat.zero_add]
  | cons m rest ih => rw [List.cons_append, errorTotals, errorTotals, ih, Nat.add_assoc]

theorem errorTotals_singleton (n : Node) : errorTotals [n] = n.errorTotal := by
  rw [errorTotals, errorTotals, Nat.add_zero]

theorem errorTotals_reverse (ns : List Node) : errorTotals ns.reverse = errorTotals ns := by
  induction ns with
  | nil => rfl
  | cons n rest ih =>
    rw [List.reverse_cons, errorTotals_append, ih, errorTotals_singleton, errorTotals, Nat.add_comm]

/-- The count for a stack is what was counted before it and the error nodes of its trees, in whatever order they
wait. -/
theorem countErrors_eq (stack : List Node) (count : Nat) :
    countErrors stack count = count + errorTotals stack := by
  cases stack with
  | nil => rw [countErrors, errorTotals, Nat.add_zero]
  | cons n rest =>
    have hpending : errorTotals (n.children.reverse ++ rest) = errorTotals n.children + errorTotals rest := by
      rw [errorTotals_append, errorTotals_reverse]
    rw [countErrors, countErrors_eq, hpending, errorTotals, n.errorTotal_eq]
    split <;> omega
termination_by weights stack
decreasing_by
  rw [weights_append, weights_reverse, weights, n.weight_eq]
  omega

theorem Node.errorCount_eq (root : Node) : root.errorCount = root.errorTotal := by
  rw [Node.errorCount, countErrors_eq, errorTotals_singleton, Nat.zero_add]

/-- Where the loop stands: the nodes it has taken off the stack so far, the stack with its top last, and the
error nodes counted. -/
structure Visit where
  visited : List Node := []
  stack : List Node
  count : Nat := 0

namespace Visit

/-- One turn of the loop. -/
def turn (v : Visit) : Turn Visit Visit :=
  match v.stack.getLast? with
  | none => .done v
  | some n => .again
    { visited := v.visited ++ [n]
      stack := v.stack.dropLast ++ n.children
      count := if n.isError then v.count + 1 else v.count }

/-- Where the loop ends: the nodes of the trees on the stack have been visited too, the last first. -/
def finish (v : Visit) : Visit where
  visited := v.visited ++ (nodesAmong v.stack).reverse
  stack := []
  count := countErrors v.stack.reverse v.count

/-- A turn finds the stack empty, or leads to the same end with one node less to visit. -/
theorem turn_cases (v : Visit) :
    v.turn = .done v.finish ∨ ∃ next, v.turn = .again next ∧ v.finish = next.finish ∧
      (nodesAmong next.stack).length < (nodesAmong v.stack).length := by
  obtain ⟨visited, stack, count⟩ := v
  rcases stack.eq_nil_or_concat' with rfl | ⟨below, n, rfl⟩
  · left
    simp [turn, finish, nodesAmong, countErrors]
  · right
    have hcount : countErrors (below ++ [n]).reverse count =
        countErrors (below ++ n.children).reverse (if n.isError then count + 1 else count) := by
      rw [List.reverse_concat, countErrors, List.reverse_append]
    have hvisited : visited ++ (nodesAmong (below ++ [n])).reverse =
        visited ++ [n] ++ (nodesAmong (below ++ n.children)).reverse := by
      rw [nodesAmong_concat, List.reverse_concat, List.append_assoc, List.singleton_append]
    refine ⟨⟨visited ++ [n], below ++ n.children, if n.isError then count + 1 else count⟩, ?_, ?_, ?_⟩
    · simp only [turn, List.getLast?_concat, List.dropLast_concat]
    · simp only [finish, hcount, hvisited]
    · rw [nodesAmong_concat, List.length_append, List.length_singleton]
      exact Nat.lt_succ_self _

theorem turns_eq_finish (v : Visit) : turns turn ((nodesAmong v.stack).length + 1) v = some v.finish := by
  apply turns_eq (f := finish) (P := fun _ => True) (m := fun v => (nodesAmong v.stack).length)
  · intro v _
    rcases v.turn_cases with hdone | ⟨next, hnext, hsame, hless⟩
    · exact Or.inl hdone
    · exact Or.inr ⟨next, hnext, hsame, trivial, hless⟩
  · trivial
  · exact Nat.lt_succ_self _

end Visit

/-- The error nodes of a tree are counted by visiting each of its nodes once.

The loop ends after one turn for each node, and one that finds the stack empty. It has then visited the root and
all that is below it, a node before those below it and later children first, and has counted what recursion over
the tree counts: the nodes of kind `ERROR` and the missing ones. -/
theorem errorCount_visits_nodes_once (root : Node) :
    (∀ d, d ∈ root.nodes ↔ root.Encloses d) ∧
    turns Visit.turn (root.nodes.length + 1) { stack := [root] } =
      some { visited := root.nodes.reverse, stack := [], count := root.errorCount } ∧
    root.errorCount = root.errorTotal ∧
    root.errorTotal = root.nodes.countP fun d => d.kind = "ERROR" ∨ d.missing = true := by
  have hnodes : nodesAmong [root] = root.nodes := by rw [nodesAmong, nodesAmong, List.append_nil]
  refine ⟨fun d => Node.mem_nodes_iff, ?_, root.errorCount_eq, ?_⟩
  · have hturns := Visit.turns_eq_finish { stack := [root] }
    simp only [Visit.finish, hnodes, List.nil_append, List.reverse_singleton] at hturns
    rw [hturns, Node.errorCount]
  · rw [root.errorTotal_eq_countP]
    refine List.countP_congr fun d _ => ?_
    simp [Node.isError]

end SourceOutline.Syntax
