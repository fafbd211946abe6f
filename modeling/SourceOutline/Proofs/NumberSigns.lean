import SourceOutline.Proofs.CommentFree

/-!
Numbers behind minuses and parentheses. Every minus around a number is put before its text, and parentheses leave no
trace, so the text has a proper sign as long as there is at most one minus.
-/
namespace SourceOutline

open SourceOutline.Syntax

/-- The kind of literal that a node of a number is. -/
def numberKind? : String → Option String
  | "int_literal" => some "int"
  | "float_literal" => some "float"
  | "imaginary_literal" => some "imag"
  | _ => none

/-- A node that is a literal within parentheses, each around a single part, and behind minuses, in any order; the
minuses are counted. -/
inductive IsSigned (source : Source) (literal : Node) : Nat → Node → Prop
  | literal : IsSigned source literal 0 literal
  | parenthesized {minuses : Nat} {n inner : Node} (hkind : n.kind = "parenthesized_expression")
      (hparts : n.parts = [inner]) (hinner : IsSigned source literal minuses inner) :
      IsSigned source literal minuses n
  | minus {minuses : Nat} {n operand operator : Node} (hkind : n.kind = "unary_expression")
      (hoperand : n.child? "operand" = some operand) (hoperator : n.child? "operator" = some operator)
      (htext : source.text operator = "-") (hinner : IsSigned source literal minuses operand) :
      IsSigned source literal (minuses + 1) n

/-- As many minuses as given. -/
def minusText (minuses : Nat) : String :=
  String.ofList (List.replicate minuses '-')

/-- The sign of a number behind so many minuses: they cancel in pairs. -/
def signText (minuses : Nat) : String :=
  if minuses % 2 = 1 then "-" else ""

theorem minusText_succ (minuses : Nat) : minusText (minuses + 1) = "-" ++ minusText minuses := by
  apply String.toList_injective
  simp [minusText, List.replicate_succ]

/-- Minuses that are written out are a sign only if there are no two of them. -/
theorem minusText_eq_signText_iff (minuses : Nat) : minusText minuses = signText minuses ↔ minuses ≤ 1 := by
  constructor
  · intro h
    have hlength := congrArg String.length h
    have hmost : (signText minuses).length ≤ 1 := by
      unfold signText
      split <;> decide
    have hcount : (minusText minuses).length = minuses := by simp [minusText]
    omega
  · intro h
    have hcases : minuses = 0 ∨ minuses = 1 := by omega
    rcases hcases with rfl | rfl <;> rfl

section Reading

variable {source : Source} {literal : Node} {kind : String}

theorem shape_of_numberKind? {node kind : String} (hkind : numberKind? node = some kind) :
    ExprShape.ofKind node = .literal kind ∧ isNumericKind kind = true := by
  unfold numberKind? at hkind
  split at hkind
  · cases hkind
    exact ⟨rfl, rfl⟩
  · cases hkind
    exact ⟨rfl, rfl⟩
  · cases hkind
    exact ⟨rfl, rfl⟩
  · cases hkind

theorem exprOf_number (hkind : numberKind? literal.kind = some kind) :
    exprOf source literal = .basic kind (source.text literal) := by
  rw [exprOf_step, (shape_of_numberKind? hkind).1]

theorem exprOf_parenthesized {n inner : Node} (hkind : n.kind = "parenthesized_expression")
    (hparts : n.parts = [inner]) : exprOf source n = exprOf source inner := by
  have hshape : ExprShape.ofKind n.kind = .parenthesized := by
    rw [hkind]
    rfl
  rw [exprOf_step, hshape, hparts]

theorem exprOf_minus {n operand operator : Node} {value : String} (hkind : n.kind = "unary_expression")
    (hoperand : n.child? "operand" = some operand) (hoperator : n.child? "operator" = some operator)
    (htext : source.text operator = "-") (hnumeric : isNumericKind kind = true)
    (hinner : exprOf source operand = .basic kind value) : exprOf source n = .basic kind ("-" ++ value) := by
  have hshape : ExprShape.ofKind n.kind = .unary := by
    rw [hkind]
    rfl
  rw [exprOf_step, hshape, hoperand, hoperator]
  simp only [htext, if_true, hinner, Expr.negated?, hnumeric, Option.getD_some]

/-- A number keeps its kind, and every minus around it is written out. -/
theorem IsSigned.exprOf_eq {minuses : Nat} {n : Node} (h : IsSigned source literal minuses n)
    (hkind : numberKind? literal.kind = some kind) :
    exprOf source n = .basic kind (minusText minuses ++ source.text literal) := by
  have hnumeric := (shape_of_numberKind? hkind).2
  induction h with
  | literal =>
    rw [exprOf_number hkind]
    simp [minusText]
  | parenthesized hparenthesized hparts _ ih =>
    rw [exprOf_parenthesized hparenthesized hparts, ih]
  | minus hunary hoperand hoperator htext _ ih =>
    rw [exprOf_minus hunary hoperand hoperator htext hnumeric ih, minusText_succ, String.append_assoc]

theorem basic_append_inj {a b text : String} (h : Expr.basic kind (a ++ text) = .basic kind (b ++ text)) : a = b := by
  have hvalue : a ++ text = b ++ text := by injection h
  have hchars := congrArg String.toList hvalue
  rw [String.toList_append, String.toList_append] at hchars
  exact String.toList_injective (List.append_cancel_right hchars)

end Reading

/-- A number within parentheses and behind minuses is read as a literal of its kind, with all the minuses before its
text. That is the number with its sign, one minus if their count is odd and none if it is even, exactly when there are
no two of them. -/
theorem exprOf_signs_number (source : Source) {literal n : Node} {kind : String} {minuses : Nat}
    (hkind : numberKind? literal.kind = some kind) (h : IsSigned source literal minuses n) :
    exprOf source n = .basic kind (minusText minuses ++ source.text literal) ∧
    (exprOf source n = .basic kind (signText minuses ++ source.text literal) ↔ minuses ≤ 1) := by
  have hread := h.exprOf_eq hkind
  refine ⟨hread, ?_⟩
  rw [hread, ← minusText_eq_signText_iff]
  exact ⟨basic_append_inj, fun hsign => by rw [hsign]⟩

-- an imaginary number in parentheses behind a minus, and a number behind two minuses
private def ledger : Source :=
  .ofString "-(.5i) -(-12)"

private def spanOf (kind : String) (named : Bool) (start stop : Nat) (field : Option String)
    (children : List Node) : Node where
  kind := kind
  named := named
  missing := false
  startByte := start
  endByte := stop
  startRow := 0
  endRow := 0
  field := field
  children := children

private def half : Node :=
  spanOf "imaginary_literal" true 2 5 none []

private def owedHalf : Node :=
  spanOf "unary_expression" true 0 6 none
    [spanOf "-" false 0 1 (some "operator") [],
      spanOf "parenthesized_expression" true 1 6 (some "operand")
        [spanOf "(" false 1 2 none [], half, spanOf ")" false 5 6 none []]]

private def dozen : Node :=
  spanOf "int_literal" true 10 12 (some "operand") []

private def refundedDozen : Node :=
  spanOf "unary_expression" true 7 13 none
    [spanOf "-" false 7 8 (some "operator") [],
      spanOf "parenthesized_expression" true 8 13 (some "operand")
        [spanOf "(" false 8 9 none [],
          spanOf "unary_expression" true 9 12 none [spanOf "-" false 9 10 (some "operator") [], dozen],
          spanOf ")" false 12 13 none []]]

theorem exprOf_signs_number_half :
    IsSigned ledger half 1 owedHalf ∧ exprOf ledger owedHalf = .basic "imag" "-.5i" := by
  have hminus : ledger.text (spanOf "-" false 0 1 (some "operator") []) = "-" := by decide +kernel
  have hsigned : IsSigned ledger half 1 owedHalf := .minus rfl rfl rfl hminus (.parenthesized rfl rfl .literal)
  have htext : ledger.text half = ".5i" := by decide +kernel
  have hkind : numberKind? half.kind = some "imag" := rfl
  obtain ⟨-, hsign⟩ := exprOf_signs_number ledger hkind hsigned
  have hread := hsign.2 (Nat.le_refl 1)
  rw [htext] at hread
  exact ⟨hsigned, hread⟩

/-- Two minuses do not cancel: what is written before the number is no sign. -/
theorem exprOf_of_two_minuses :
    IsSigned ledger dozen 2 refundedDozen ∧ ledger.text dozen = "12" ∧
    exprOf ledger refundedDozen = .basic "int" "--12" ∧ exprOf ledger refundedDozen ≠ .basic "int" "12" := by
  have houter : ledger.text (spanOf "-" false 7 8 (some "operator") []) = "-" := by decide +kernel
  have hinner : ledger.text (spanOf "-" false 9 10 (some "operator") []) = "-" := by decide +kernel
  have hsigned : IsSigned ledger dozen 2 refundedDozen :=
    .minus rfl rfl rfl houter (.parenthesized rfl rfl (.minus rfl rfl rfl hinner .literal))
  have htext : ledger.text dozen = "12" := by decide +kernel
  have hread : exprOf ledger refundedDozen = .basic "int" "--12" := by
    have hkind : numberKind? dozen.kind = some "int" := rfl
    have hall := hsigned.exprOf_eq hkind
    rw [htext] at hall
    exact hall
  refine ⟨hsigned, htext, hread, ?_⟩
  rw [hread]
  simp

end SourceOutline
