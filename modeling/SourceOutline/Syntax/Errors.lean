import SourceOutline.Syntax.Node

/-! Counting the error nodes of a tree, by recursion and with an explicit stack. -/
namespace SourceOutline.Syntax

mutual

/-- The error nodes of a tree, by recursion over it. -/
def Node.errorTotal : Node → Nat
  | .mk kind named missing startByte endByte startRow endRow field children =>
    (if (Node.mk kind named missing startByte endByte startRow endRow field children).isError
      then 1 else 0) + errorTotals children

def errorTotals : List Node → Nat
  | [] => 0
  | n :: ns => n.errorTotal + errorTotals ns

end

mutual

def Node.weight : Node → Nat
  | .mk _ _ _ _ _ _ _ _ children => 1 + weights children

def weights : List Node → Nat
  | [] => 0
  | n :: ns => n.weight + weights ns

end

theorem weights_append (xs ys : List Node) : weights (xs ++ ys) = weights xs + weights ys := by
  induction xs with
  | nil => simp [weights]
  | cons x xs ih => simp [weights, ih, Nat.add_assoc]

theorem weights_reverse (xs : List Node) : weights xs.reverse = weights xs := by
  induction xs with
  | nil => rfl
  | cons x xs ih => simp [weights, weights_append, ih, Nat.add_comm]

theorem Node.weight_eq (n : Node) : n.weight = 1 + weights n.children := by
  cases n
  simp [Node.weight]

/-- Counts error nodes with a stack of the trees still to visit, its top first. -/
def countErrors (stack : List Node) (count : Nat) : Nat :=
  match stack with
  | [] => count
  | n :: rest =>
    countErrors (n.children.reverse ++ rest) (if n.isError then count + 1 else count)
termination_by weights stack
decreasing_by
  simp [weights_append, weights_reverse, weights, Node.weight_eq]

def Node.errorCount (n : Node) : Nat :=
  countErrors [n] 0

end SourceOutline.Syntax
