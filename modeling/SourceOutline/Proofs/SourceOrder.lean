import Mathlib.Data.List.Chain
import Mathlib.Data.List.Flatten
import SourceOutline.Proofs.NodeVisits
import SourceOutline.Proofs.Provenance

/-!
Declarations, fields and structs keep the order of the source. In a tree whose rows are in order, the specs that
are gathered from a declaration start one after another, however deep the groups that hold them are nested.
-/
namespace SourceOutline

open SourceOutline.Syntax

namespace Syntax.Node

/-- Whether the rows of a tree are in order. What a node encloses, itself and all below it, starts on the rows from
its first to its last, and each named node starts no earlier than the named sibling before it ends. -/
structure InRowOrder (root : Node) : Prop where
  within : ∀ n d, root.Encloses n → n.Encloses d → n.startRow ≤ d.startRow ∧ d.startRow ≤ n.endRow
  apart : ∀ n, root.Encloses n → n.namedChildren.IsChain fun a b => a.endRow ≤ b.startRow

instance (root : Node) : Decidable root.InRowOrder :=
  decidable_of_iff
    (∀ n ∈ root.nodes, (∀ d ∈ n.nodes, n.startRow ≤ d.startRow ∧ d.startRow ≤ n.endRow) ∧
      n.namedChildren.IsChain fun a b => a.endRow ≤ b.startRow) <| by
    simp only [mem_nodes_iff]
    exact ⟨fun h => ⟨fun n d hn hd => (h n hn).1 d hd, fun n hn => (h n hn).2⟩,
      fun h n hn => ⟨fun d hd => h.within n d hn hd, h.apart n hn⟩⟩

/-- Rows count from zero, lines from one. -/
def line (n : Node) : Int :=
  n.startRow + 1

theorem line_le_line_iff {a b : Node} : a.line ≤ b.line ↔ a.startRow ≤ b.startRow := by
  unfold line
  omega

theorem mem_children_of_mem_namedChildren {n c : Node} (h : c ∈ n.namedChildren) : c ∈ n.children :=
  (List.mem_filter.1 h).1

theorem lt_of_mem_namedChildren {n c : Node} (h : c ∈ n.namedChildren) : sizeOf c < sizeOf n :=
  lt_of_mem_children (mem_children_of_mem_namedChildren h)

namespace InRowOrder

variable {root n : Node}

theorem of_encloses (h : root.InRowOrder) (hn : root.Encloses n) : n.InRowOrder where
  within m d hm hd := h.within m d (hn.trans hm) hd
  apart m hm := h.apart m (hn.trans hm)

theorem of_mem_children (h : root.InRowOrder) (hn : n ∈ root.children) : n.InRowOrder :=
  h.of_encloses (.single hn)

theorem of_mem_namedChildren (h : root.InRowOrder) (hn : n ∈ root.namedChildren) : n.InRowOrder :=
  h.of_mem_children (mem_children_of_mem_namedChildren hn)

theorem of_child? {field : String} (h : root.InRowOrder) (hn : root.child? field = some n) : n.InRowOrder :=
  h.of_mem_children (mem_children_of_child? hn)

theorem of_mem_parts (h : root.InRowOrder) (hn : n ∈ root.parts) : n.InRowOrder :=
  h.of_mem_children (mem_children_of_mem_parts hn)

theorem startRow_le_endRow (h : n.InRowOrder) : n.startRow ≤ n.endRow :=
  (h.within n n .refl .refl).2

/-- Not only neighbours: a named child ends before any later one starts. -/
theorem pairwise_namedChildren (h : n.InRowOrder) :
    n.namedChildren.Pairwise fun a b => a.endRow ≤ b.startRow := by
  have hrows : ∀ c ∈ n.namedChildren, c.startRow ≤ c.endRow := by
    intro c hc
    exact (h.of_mem_namedChildren hc).startRow_le_endRow
  have hchain := h.apart n .refl
  generalize n.namedChildren = siblings at hrows hchain
  induction siblings with
  | nil => exact .nil
  | cons a rest ih =>
    have hrest := ih (fun c hc => hrows c (List.mem_cons_of_mem _ hc)) hchain.tail
    refine List.Pairwise.cons (fun c hc => ?_) hrest
    cases rest with
    | nil => cases hc
    | cons b rest =>
      have hnext : a.endRow ≤ b.startRow := (List.isChain_cons_cons.1 hchain).1
      rcases List.mem_cons.1 hc with rfl | hlater
      · exact hnext
      · have hb : b.startRow ≤ b.endRow := hrows b (by simp)
        have hbc : b.endRow ≤ c.startRow := List.rel_of_pairwise_cons hrest hlater
        omega

/-- What is picked from the named children starts in order, if what is picked from each does. -/
theorem pairwise_flatMap (h : n.InRowOrder) {pick : Node → List Node}
    (hin : ∀ c ∈ n.namedChildren, ∀ d ∈ pick c, c.Encloses d)
    (hone : ∀ c ∈ n.namedChildren, (pick c).Pairwise fun a b => a.startRow ≤ b.startRow) :
    (n.namedChildren.flatMap pick).Pairwise fun a b => a.startRow ≤ b.startRow := by
  refine List.pairwise_flatMap.2 ⟨hone, h.pairwise_namedChildren.imp_of_mem ?_⟩
  intro a b ha hb hab x hx y hy
  have hxa : x.startRow ≤ a.endRow := ((h.of_mem_namedChildren ha).within a x .refl (hin a ha x hx)).2
  have hby : b.startRow ≤ y.startRow := ((h.of_mem_namedChildren hb).within b y .refl (hin b hb y hy)).1
  omega

end InRowOrder

end Syntax.Node

section Specs

variable {isSpec : String → Bool}

/-- Whether a spec is in a node: as a named child, or in a group that is in the node. -/
inductive Gathers (isSpec : String → Bool) : Node → Node → Prop
  | spec {n s : Node} (hs : s ∈ n.namedChildren) (hkind : isSpec s.kind = true) : Gathers isSpec n s
  | group {n g s : Node} (hg : g ∈ n.namedChildren) (hkind : isSpecList g.kind = true)
      (h : Gathers isSpec g s) : Gathers isSpec n s

/-- The specs that a named node adds to those of its parent. -/
def specsAt (isSpec : String → Bool) (n : Node) : List Node :=
  if isSpec n.kind then [n] else if isSpecList n.kind then specNodes isSpec n else []

theorem mem_specsAt_iff {n s : Node} : s ∈ specsAt isSpec n ↔
    (isSpec n.kind = true ∧ s = n) ∨
      (isSpec n.kind = false ∧ isSpecList n.kind = true ∧ s ∈ specNodes isSpec n) := by
  unfold specsAt
  by_cases hs : isSpec n.kind = true
  · simp [hs]
  · by_cases hg : isSpecList n.kind = true
    · simp [hs, hg]
    · simp [hs, hg]

theorem nodes_specs (earlier ns : List Node) :
    (specs isSpec earlier ns).map (·.node) = (ns.filter (·.named)).flatMap (specsAt isSpec) := by
  induction ns generalizing earlier with
  | nil => rw [specs]; rfl
  | cons c rest ih =>
    rw [specs]
    by_cases hn : c.named = true
    · rw [if_pos hn, List.filter_cons_of_pos hn, List.flatMap_cons, specsAt]
      by_cases hs : isSpec c.kind = true
      · rw [if_pos hs, if_pos hs, List.map_cons, ih, List.singleton_append]
      · rw [if_neg hs, if_neg hs]
        by_cases hg : isSpecList c.kind = true
        · rw [if_pos hg, if_pos hg, List.map_append, ih, specNodes]
        · rw [if_neg hg, if_neg hg, ih, List.nil_append]
    · rw [if_neg hn, List.filter_cons_of_neg hn, ih]

theorem specNodes_eq (n : Node) : specNodes isSpec n = n.namedChildren.flatMap (specsAt isSpec) :=
  nodes_specs [] n.children

theorem gathers_of_mem_specNodes {n s : Node} (h : s ∈ specNodes isSpec n) : Gathers isSpec n s := by
  rw [specNodes_eq] at h
  obtain ⟨c, hc, hs⟩ := List.mem_flatMap.1 h
  rcases mem_specsAt_iff.1 hs with ⟨hkind, rfl⟩ | ⟨-, hgroup, hin⟩
  · exact .spec hc hkind
  · exact .group hc hgroup (gathers_of_mem_specNodes hin)
termination_by sizeOf n
decreasing_by exact Node.lt_of_mem_namedChildren hc

theorem Gathers.mem_specNodes (hgroup : ∀ kind, isSpecList kind = true → isSpec kind = false) {n s : Node}
    (h : Gathers isSpec n s) : s ∈ specNodes isSpec n := by
  induction h with
  | spec hs hkind =>
    rw [specNodes_eq]
    exact List.mem_flatMap.2 ⟨_, hs, mem_specsAt_iff.2 (Or.inl ⟨hkind, rfl⟩)⟩
  | group hg hkind _ ih =>
    rw [specNodes_eq]
    exact List.mem_flatMap.2 ⟨_, hg, mem_specsAt_iff.2 (Or.inr ⟨hgroup _ hkind, hkind, ih⟩)⟩

theorem Gathers.encloses {n s : Node} (h : Gathers isSpec n s) : n.Encloses s := by
  induction h with
  | spec hs _ => exact .single (Node.mem_children_of_mem_namedChildren hs)
  | group hg _ _ ih => exact .head (Node.mem_children_of_mem_namedChildren hg) ih

theorem Gathers.kind {n s : Node} (h : Gathers isSpec n s) : isSpec s.kind = true := by
  induction h with
  | spec _ hkind => exact hkind
  | group _ _ _ ih => exact ih

/-- Groups do not change the order of the specs. -/
theorem pairwise_specNodes {n : Node} (h : n.InRowOrder) :
    (specNodes isSpec n).Pairwise fun a b => a.startRow ≤ b.startRow := by
  rw [specNodes_eq]
  refine h.pairwise_flatMap (fun c hc d hd => ?_) (fun c hc => ?_)
  · rcases mem_specsAt_iff.1 hd with ⟨-, rfl⟩ | ⟨-, -, hin⟩
    · exact .refl
    · exact (gathers_of_mem_specNodes hin).encloses
  · unfold specsAt
    split_ifs
    · exact List.pairwise_singleton _ _
    · exact pairwise_specNodes (h.of_mem_namedChildren hc)
    · exact .nil
termination_by sizeOf n
decreasing_by exact Node.lt_of_mem_namedChildren hc

end Specs

section Lines

def Decl.line : Decl → Int
  | .type spec => spec.line
  | .value spec => spec.line

/-- The kinds of specs that declare something in a node of the top level. -/
def specKinds (top kind : String) : Bool :=
  (top == "type_declaration" && (kind == "type_spec" || kind == "type_alias")) ||
    (top == "const_declaration" && kind == "const_spec") || (top == "var_declaration" && kind == "var_spec")

/-- Whether a node of the top level declares something at a spec, which may be in any nesting of groups. A type
without a name is not declared. -/
structure Syntax.Node.DeclaresAt (n s : Node) : Prop where
  gathers : Gathers (specKinds n.kind) n s
  name : n.kind = "type_declaration" → s.child? "name" ≠ none

/-- The specs at which a node of the top level declares something. -/
def declaring (n : Node) : List Node :=
  (specNodes (specKinds n.kind) n).filter fun s => n.kind != "type_declaration" || (s.child? "name").isSome

theorem specKinds_of_isSpecList (top kind : String) (h : isSpecList kind = true) : specKinds top kind = false := by
  simp only [isSpecList, Bool.or_eq_true, beq_iff_eq] at h
  rcases h with (rfl | rfl) | rfl <;> simp [specKinds]

theorem mem_declaring_iff {n s : Node} : s ∈ declaring n ↔ n.DeclaresAt s := by
  have hmem : s ∈ specNodes (specKinds n.kind) n ↔ Gathers (specKinds n.kind) n s :=
    ⟨gathers_of_mem_specNodes, Gathers.mem_specNodes (specKinds_of_isSpecList n.kind)⟩
  have hname : (n.kind != "type_declaration" || (s.child? "name").isSome) = true ↔
      (n.kind = "type_declaration" → s.child? "name" ≠ none) := by
    simp [Option.isSome_iff_ne_none, Decidable.imp_iff_not_or]
  rw [declaring, List.mem_filter, hmem, hname]
  exact ⟨fun h => ⟨h.1, h.2⟩, fun h => ⟨h.gathers, h.name⟩⟩

theorem pairwise_declaring {n : Node} (h : n.InRowOrder) :
    (declaring n).Pairwise fun a b => a.startRow ≤ b.startRow :=
  (pairwise_specNodes h).filter _

variable (source : Source)

theorem lines_typeSpecsOf {p : Placed} (hkind : p.node.kind = "type_declaration") :
    (typeSpecsOf source p).map (·.line) = (declaring p.node).map Node.line := by
  have hspecs : specKinds p.node.kind = fun kind => kind == "type_spec" || kind == "type_alias" := by
    funext kind
    simp [specKinds, hkind]
  rw [typeSpecsOf, declaring, hspecs, hkind, specNodes, Placed.specs]
  generalize specs _ [] p.node.children = found
  generalize found.length = count
  induction found with
  | nil => rfl
  | cons spec rest ih =>
    cases hname : spec.node.child? "name" with
    | none => simpa [hname] using ih
    | some name => simpa [hname, Node.line] using ih

theorem lines_valueSpecsOf {p : Placed} {keyword : String} (hkind : p.node.kind = keyword ++ "_declaration")
    (hword : keyword = "const" ∨ keyword = "var") :
    (valueSpecsOf source keyword p).map (·.line) = (declaring p.node).map Node.line := by
  have hspecs : specKinds p.node.kind = (· == if keyword == "const" then "const_spec" else "var_spec") := by
    funext kind
    rcases hword with rfl | rfl <;> simp [specKinds, hkind]
  have hall : declaring p.node = specNodes (specKinds p.node.kind) p.node := by
    refine List.filter_eq_self.2 fun s _ => ?_
    rcases hword with rfl | rfl <;> simp [hkind]
  rw [hall, hspecs, valueSpecsOf, specNodes, Placed.specs, List.map_map, List.map_map]
  rfl

theorem declaring_of_other {n : Node} (ht : n.kind ≠ "type_declaration") (hc : n.kind ≠ "const_declaration")
    (hv : n.kind ≠ "var_declaration") : declaring n = [] := by
  refine List.eq_nil_iff_forall_not_mem.2 fun s hs => ?_
  have hkind := (mem_declaring_iff.1 hs).gathers.kind
  simp [specKinds, ht, hc, hv] at hkind

/-- A node of the top level declares types, or constants or variables, or nothing. -/
theorem declsOf_cases (p : Placed) :
    (p.node.kind = "type_declaration" ∧ declsOf source p = (typeSpecsOf source p).map .type) ∨
    (∃ keyword, (keyword = "const" ∨ keyword = "var") ∧ p.node.kind = keyword ++ "_declaration" ∧
      declsOf source p = (valueSpecsOf source keyword p).map .value) ∨
    (declaring p.node = [] ∧ declsOf source p = []) := by
  by_cases ht : p.node.kind = "type_declaration"
  · exact Or.inl ⟨ht, by simp only [declsOf, ht]⟩
  · by_cases hc : p.node.kind = "const_declaration"
    · exact Or.inr (Or.inl ⟨"const", .inl rfl, hc, by simp only [declsOf, hc]⟩)
    · by_cases hv : p.node.kind = "var_declaration"
      · exact Or.inr (Or.inl ⟨"var", .inr rfl, hv, by simp only [declsOf, hv]⟩)
      · exact Or.inr (Or.inr ⟨declaring_of_other ht hc hv, by simp [declsOf]⟩)

/-- Every declaration stands on the line of its spec. -/
theorem lines_declsOf (p : Placed) :
    (declsOf source p).map Decl.line = (declaring p.node).map Node.line := by
  rcases declsOf_cases source p with ⟨hkind, h⟩ | ⟨keyword, hword, hkind, h⟩ | ⟨hnone, h⟩
  · rw [h, ← lines_typeSpecsOf source hkind, List.map_map]
    rfl
  · rw [h, ← lines_valueSpecsOf source hkind hword, List.map_map]
    rfl
  · rw [h, hnone]
    rfl

theorem lines_ofSyntax (root : Node) (path : String) :
    (GoFile.ofSyntax source root path).decls.map Decl.line =
      (root.namedChildren.flatMap declaring).map Node.line := by
  have hnodes : root.namedChildren = (placed [] root.children).map (·.node) := (nodes_placed [] root.children).symm
  simp only [GoFile.ofSyntax, hnodes, List.map_flatMap, List.flatMap_map, lines_declsOf]

end Lines

section Fields

mutual

/-- The field lists of the structs in a type, at every depth. -/
def TypeExpr.fieldLists : TypeExpr → List (List Field)
  | .named _ => []
  | .qualified _ _ => []
  | .pointer target => target.fieldLists
  | .array element _ => element.fieldLists
  | .map key value => key.fieldLists ++ value.fieldLists
  | .struct fields => fields :: fieldListsIn fields
  | .unsupported _ _ => []

def Field.fieldLists : Field → List (List Field)
  | ⟨_, type, _, _, _⟩ => type.fieldLists

def fieldListsIn : List Field → List (List Field)
  | [] => []
  | field :: rest => field.fieldLists ++ fieldListsIn rest

end

def Expr.fieldLists : Expr → List (List Field)
  | .composite type _ => type.fieldLists
  | _ => []

def Decl.fieldLists : Decl → List (List Field)
  | .type spec => spec.type.fieldLists
  | .value spec => (spec.type.map TypeExpr.fieldLists).getD [] ++ spec.values.flatMap Expr.fieldLists

/-- The field lists of all structs that a file writes out, in declared types and in initial values. -/
def GoFile.fieldLists (file : GoFile) : List (List Field) :=
  file.decls.flatMap Decl.fieldLists

theorem mem_fieldListsIn_iff {list : List Field} {fields : List Field} :
    list ∈ fieldListsIn fields ↔ ∃ f ∈ fields, list ∈ f.type.fieldLists := by
  induction fields with
  | nil => simp [fieldListsIn]
  | cons f rest ih =>
    have hf : f.fieldLists = f.type.fieldLists := by cases f; rfl
    simp [fieldListsIn, ih, hf]

/-- Whether the fields of structs stand in the order of their lines. -/
def InLineOrder (lists : List (List Field)) : Prop :=
  ∀ fields ∈ lists, (fields.map (·.line)).Pairwise (· ≤ ·)

theorem inLineOrder_nil : InLineOrder [] := by
  intro fields h
  cases h

theorem inLineOrder_append {as bs : List (List Field)} : InLineOrder (as ++ bs) ↔ InLineOrder as ∧ InLineOrder bs := by
  simp only [InLineOrder, List.forall_mem_append]

variable {source : Source}

theorem mem_namedChildren_of_mem_placed {n : Node} {p : Placed} (h : p ∈ placed [] n.children) :
    p.node ∈ n.namedChildren := by
  rw [Node.namedChildren, ← nodes_placed [] n.children]
  exact List.mem_map_of_mem h

theorem exists_of_mem_fieldsOf {list : Node} {f : Field} (h : f ∈ fieldsOf source [] list.children) :
    ∃ c ∈ list.children, ∃ earlier, f = fieldOf source earlier c := by
  rw [fieldsOf_eq] at h
  obtain ⟨p, hp, rfl⟩ := List.mem_map.1 h
  have hnamed := mem_namedChildren_of_mem_placed (List.mem_filter.1 hp).1
  exact ⟨p.node, Node.mem_children_of_mem_namedChildren hnamed, p.earlier, rfl⟩

theorem lines_fieldsOf (list : Node) :
    (fieldsOf source [] list.children).map (·.line) =
      (list.namedChildren.filter (·.kind == "field_declaration")).map Node.line := by
  have hline : ∀ p : Placed, (fieldOf source p.earlier p.node).line = p.node.line := by
    intro p
    rw [fieldOf_step, Node.line]
  rw [fieldsOf_eq, Node.namedChildren, ← nodes_placed [] list.children, List.filter_map, List.map_map, List.map_map]
  exact List.map_congr_left fun p _ => hline p

theorem pairwise_fieldsOf {list : Node} (h : list.InRowOrder) :
    ((fieldsOf source [] list.children).map (·.line)).Pairwise (· ≤ ·) := by
  have hstarts : list.namedChildren.Pairwise fun a b => a.startRow ≤ b.startRow := by
    refine h.pairwise_namedChildren.imp_of_mem fun {a b} ha _ hab => ?_
    have hrows := (h.of_mem_namedChildren ha).startRow_le_endRow
    omega
  rw [lines_fieldsOf, List.pairwise_map]
  exact (hstarts.filter _).imp Node.line_le_line_iff.2

theorem inLineOrder_fieldOf {earlier : List Node} {n : Node}
    (h : InLineOrder (typeIn source (n.child? "type")).fieldLists) :
    InLineOrder (fieldOf source earlier n).type.fieldLists := by
  rw [fieldOf_step]
  dsimp only
  split_ifs
  · exact h
  · exact h

theorem inLineOrder_typeIn {n? : Option Node} (h : ∀ n, n? = some n → InLineOrder (typeOf source n).fieldLists) :
    InLineOrder (typeIn source n?).fieldLists := by
  cases n? with
  | none => exact inLineOrder_nil
  | some n => exact h n rfl

theorem inLineOrder_struct {fields : List Field} (hhere : (fields.map (·.line)).Pairwise (· ≤ ·))
    (hbelow : ∀ f ∈ fields, InLineOrder f.type.fieldLists) : InLineOrder (TypeExpr.struct fields).fieldLists := by
  intro list hlist
  rw [TypeExpr.fieldLists, List.mem_cons, mem_fieldListsIn_iff] at hlist
  rcases hlist with rfl | ⟨f, hf, hin⟩
  · exact hhere
  · exact hbelow f hf list hin

/-- A type keeps the order of the fields in it, at every depth. -/
theorem inLineOrder_typeOf {n : Node} (h : n.InRowOrder) : InLineOrder (typeOf source n).fieldLists := by
  -- the steps down the tree: to a field's child, to the first part, and to the type of a listed field
  have hchild : ∀ field c, n.child? field = some c → InLineOrder (typeOf source c).fieldLists :=
    fun field c hc => inLineOrder_typeOf (h.of_child? hc)
  have hpart : ∀ c, n.parts.head? = some c → InLineOrder (typeOf source c).fieldLists :=
    fun c hc => inLineOrder_typeOf (h.of_mem_parts (List.mem_of_mem_head? hc))
  have hlist : ∀ list, fieldList? n = some list → list.InRowOrder :=
    fun list hl => h.of_mem_children (List.mem_of_find?_eq_some hl)
  have hfields : ∀ list, fieldList? n = some list → ∀ c ∈ list.children, ∀ type, c.child? "type" = some type →
      InLineOrder (typeOf source type).fieldLists :=
    fun list hl c hc type ht =>
      inLineOrder_typeOf (((hlist list hl).of_mem_children hc).of_child? ht)
  rw [typeOf_step]
  cases TypeShape.ofKind n.kind with
  | named => exact inLineOrder_nil
  | other => exact inLineOrder_nil
  | qualified =>
    cases n.child? "package" with
    | none => exact inLineOrder_nil
    | some package =>
      cases n.child? "name" with
      | none => exact inLineOrder_nil
      | some name => exact inLineOrder_nil
  | pointer => exact inLineOrder_typeIn hpart
  | array => exact inLineOrder_typeIn (hchild "element")
  | map =>
    exact inLineOrder_append.2 ⟨inLineOrder_typeIn (hchild "key"), inLineOrder_typeIn (hchild "value")⟩
  | struct =>
    cases hl : fieldList? n with
    | none => exact inLineOrder_struct .nil (by simp)
    | some list =>
      refine inLineOrder_struct (pairwise_fieldsOf (hlist list hl)) fun f hf => ?_
      obtain ⟨c, hc, earlier, rfl⟩ := exists_of_mem_fieldsOf hf
      exact inLineOrder_fieldOf (inLineOrder_typeIn (hfields list hl c hc))
  | parenthesized =>
    cases hp : n.parts.head? with
    | none => exact inLineOrder_nil
    | some inner => exact hpart inner hp
termination_by sizeOf n
decreasing_by
  · exact Node.lt_of_child? hc
  · exact lt_of_head?_parts hc
  · exact Nat.lt_trans (Node.lt_of_child? ht)
      (Nat.lt_trans (Node.lt_of_mem_children hc) (lt_of_fieldList? hl))

theorem fieldLists_of_negated? {e f : Expr} (h : e.negated? = some f) : f.fieldLists = [] := by
  cases e with
  | basic kind value =>
    rw [Expr.negated?] at h
    split_ifs at h
    cases h
    rfl
  | _ => cases h

theorem inLineOrder_exprOf {n : Node} (h : n.InRowOrder) : InLineOrder (exprOf source n).fieldLists := by
  have htype : ∀ c, n.child? "type" = some c → InLineOrder (typeOf source c).fieldLists :=
    fun c hc => inLineOrder_typeOf (h.of_child? hc)
  have hpart : ∀ c ∈ n.parts, InLineOrder (exprOf source c).fieldLists :=
    fun c hc => inLineOrder_exprOf (h.of_mem_parts hc)
  rw [exprOf_step]
  cases ExprShape.ofKind n.kind with
  | literal kind => exact inLineOrder_nil
  | identifier => exact inLineOrder_nil
  | other => exact inLineOrder_nil
  | composite => exact inLineOrder_typeIn htype
  | unary =>
    cases n.child? "operand" with
    | none => exact inLineOrder_nil
    | some operand =>
      cases n.child? "operator" with
      | none => exact inLineOrder_nil
      | some operator =>
        dsimp only
        split_ifs
        · cases hneg : (exprOf source operand).negated? with
          | none => exact inLineOrder_nil
          | some e =>
            rw [Option.getD_some, fieldLists_of_negated? hneg]
            exact inLineOrder_nil
        · exact inLineOrder_nil
  | parenthesized =>
    cases hp : n.parts with
    | nil => exact inLineOrder_nil
    | cons inner rest =>
      cases rest with
      | nil => exact hpart inner (by simp [hp])
      | cons second others => exact inLineOrder_nil
termination_by sizeOf n
decreasing_by exact Node.lt_of_mem_parts hc

theorem inLineOrder_flatMap {α : Type} {items : List α} {lists : α → List (List Field)} :
    InLineOrder (items.flatMap lists) ↔ ∀ a ∈ items, InLineOrder (lists a) := by
  simp only [InLineOrder, List.forall_mem_flatMap]

theorem Placed.inRowOrder_of_mem_specs {isSpec : String → Bool} {p q : Placed} (h : p.node.InRowOrder)
    (hq : q ∈ p.specs isSpec) : q.node.InRowOrder := by
  have hnode : q.node ∈ specNodes isSpec p.node := List.mem_map_of_mem hq
  exact h.of_encloses (gathers_of_mem_specNodes hnode).encloses

theorem inLineOrder_typeSpecsOf {p : Placed} (h : p.node.InRowOrder) :
    ∀ spec ∈ typeSpecsOf source p, InLineOrder (Decl.type spec).fieldLists := by
  intro spec hspec
  obtain ⟨q, hq, hread⟩ := List.mem_filterMap.1 hspec
  obtain ⟨name, -, rfl⟩ := Option.map_eq_some_iff.1 hread
  have hrows := Placed.inRowOrder_of_mem_specs h hq
  exact inLineOrder_typeIn fun type ht => inLineOrder_typeOf (hrows.of_child? ht)

theorem inLineOrder_valueSpecsOf {p : Placed} (h : p.node.InRowOrder) (keyword : String) :
    ∀ spec ∈ valueSpecsOf source keyword p, InLineOrder (Decl.value spec).fieldLists := by
  intro spec hspec
  obtain ⟨q, hq, rfl⟩ := List.mem_map.1 hspec
  have hrows := Placed.inRowOrder_of_mem_specs h hq
  have hchild : ∀ field c, q.node.child? field = some c → c.InRowOrder :=
    fun field c hc => hrows.of_child? hc
  refine inLineOrder_append.2 ⟨?_, inLineOrder_flatMap.2 fun e he => ?_⟩
  · dsimp only
    cases ht : q.node.child? "type" with
    | none => exact inLineOrder_nil
    | some type => exact inLineOrder_typeOf (hchild "type" type ht)
  · dsimp only at he
    cases hv : q.node.child? "value" with
    | none =>
      rw [hv] at he
      cases he
    | some list =>
      rw [hv] at he
      obtain ⟨value, hin, rfl⟩ := List.mem_map.1 he
      exact inLineOrder_exprOf ((hchild "value" list hv).of_mem_parts hin)

theorem inLineOrder_declsOf {p : Placed} (h : p.node.InRowOrder) :
    ∀ d ∈ declsOf source p, InLineOrder d.fieldLists := by
  intro d hd
  rcases declsOf_cases source p with ⟨-, heq⟩ | ⟨keyword, -, -, heq⟩ | ⟨-, heq⟩
  · rw [heq] at hd
    obtain ⟨spec, hspec, rfl⟩ := List.mem_map.1 hd
    exact inLineOrder_typeSpecsOf h spec hspec
  · rw [heq] at hd
    obtain ⟨spec, hspec, rfl⟩ := List.mem_map.1 hd
    exact inLineOrder_valueSpecsOf h keyword spec hspec
  · rw [heq] at hd
    cases hd

theorem inLineOrder_ofSyntax {root : Node} (h : root.InRowOrder) (path : String) :
    InLineOrder (GoFile.ofSyntax source root path).fieldLists := by
  refine inLineOrder_flatMap.2 fun d hd => ?_
  obtain ⟨p, hp, hin⟩ := List.mem_flatMap.1 hd
  exact inLineOrder_declsOf (h.of_mem_namedChildren (mem_namedChildren_of_mem_placed hp)) d hin

end Fields

theorem lines_structs_sublist (index : Index) (file : GoFile) :
    ((fileOutline index file).value.structs.map (·.line)).Sublist (file.decls.map Decl.line) := by
  have hone : ∀ (scope : Scope) (d : Decl),
      ((declOutline scope d).value.structs.map (·.line)).Sublist [d.line] := by
    intro scope d
    cases d with
    | value spec => simp [declOutline, Noted.map]
    | type spec =>
      simp only [declOutline, structOf, Noted.map]
      cases spec.type with
      | struct fields => exact .refl _
      | _ => exact List.nil_sublist _
  simp only [fileOutline, Noted.map, Noted.collect, Model.Outline.join_eq, List.map_map, List.flatMap_map,
    List.map_flatMap, Function.comp_apply]
  rw [List.map_eq_flatMap]
  exact List.Sublist.flatMap_right _ fun d _ => hone _ d

/-- Declarations, fields and structs keep the order of the source.

Where the rows of a tree are in order, the declarations read off it stand in the order of their lines. They stand
on the lines of the specs in it, in whatever nesting of groups these are. The fields of each struct that is
written out, at every depth, and the structs of the outline stand in the order of their lines too. -/
theorem ofSyntax_keeps_source_order (source : Source) (root : Node) (path : String) (h : root.InRowOrder) :
    ((GoFile.ofSyntax source root path).decls.map Decl.line).Pairwise (· ≤ ·) ∧
    (∀ line, line ∈ (GoFile.ofSyntax source root path).decls.map Decl.line ↔
      ∃ n ∈ root.namedChildren, ∃ s, n.DeclaresAt s ∧ line = s.line) ∧
    (∀ fields ∈ (GoFile.ofSyntax source root path).fieldLists, (fields.map (·.line)).Pairwise (· ≤ ·)) ∧
    ∀ index, ((fileOutline index (GoFile.ofSyntax source root path)).value.structs.map (·.line)).Pairwise
      (· ≤ ·) := by
  have hspecs : (root.namedChildren.flatMap declaring).Pairwise fun a b => a.startRow ≤ b.startRow := by
    refine h.pairwise_flatMap (fun c _ s hs => (mem_declaring_iff.1 hs).gathers.encloses) (fun c hc => ?_)
    exact pairwise_declaring (h.of_mem_namedChildren hc)
  have hdecls : ((GoFile.ofSyntax source root path).decls.map Decl.line).Pairwise (· ≤ ·) := by
    rw [lines_ofSyntax, List.pairwise_map]
    exact hspecs.imp Node.line_le_line_iff.2
  refine ⟨hdecls, fun line => ?_, inLineOrder_ofSyntax h path, fun index => ?_⟩
  · simp only [lines_ofSyntax, List.mem_map, List.mem_flatMap, mem_declaring_iff]
    constructor
    · rintro ⟨s, ⟨n, hn, hs⟩, rfl⟩
      exact ⟨n, hn, s, hs, rfl⟩
    · rintro ⟨n, hn, s, hs, rfl⟩
      exact ⟨s, ⟨n, hn, hs⟩, rfl⟩
  · exact hdecls.sublist (lines_structs_sublist index _)

private def onRows (kind : String) (first last : Nat) (children : List Node) : Node where
  kind := kind
  named := true
  missing := false
  startByte := 0
  endByte := 0
  startRow := first
  endRow := last
  field := none
  children := children

private def fieldOn (first last : Nat) (type : Node) : Node :=
  onRows "field_declaration" first last [{ type with field := some "type" }]

private def structOn (first last : Nat) (fields : List Node) : Node :=
  onRows "struct_type" first last [onRows "field_declaration_list" first last fields]

private def typeOn (first last : Nat) (type : Node) : Node :=
  onRows "type_spec" first last
    [{ onRows "type_identifier" first first [] with field := some "name" }, { type with field := some "type" }]

-- a struct in a struct, variables in a group in a group, and a struct on the row where the variables end
private def stall : Node :=
  onRows "source_file" 0 11
    [onRows "type_declaration" 0 5 [typeOn 0 5 (structOn 0 5
      [fieldOn 1 1 (onRows "type_identifier" 1 1 []),
        fieldOn 2 4 (structOn 2 4 [onRows "field_declaration" 3 3 [], onRows "field_declaration" 3 3 []])])],
     onRows "comment" 6 6 [],
     onRows "var_declaration" 7 11 [onRows "var_spec_list" 7 11
      [onRows "var_spec" 8 8 [], onRows "var_spec_list" 8 10 [onRows "var_spec" 9 9 [], onRows "var_spec" 10 10 []]]],
     onRows "type_declaration" 11 11 [typeOn 11 11 (structOn 11 11 [])]]

private def stallFile : GoFile :=
  GoFile.ofSyntax (.ofString "") stall ""

theorem ofSyntax_keeps_source_order_stall :
    stall.InRowOrder ∧ stallFile.decls.map Decl.line = [1, 9, 10, 11, 12] ∧
      stallFile.fieldLists.map (fun fields => fields.map (·.line)) = [[2, 3], [4, 4], []] ∧
      (fileOutline {} stallFile).value.structs.map (·.line) = [1, 12] ∧
      (stallFile.decls.map Decl.line).Pairwise (· ≤ ·) ∧
      (∀ fields ∈ stallFile.fieldLists, (fields.map (·.line)).Pairwise (· ≤ ·)) ∧
      ((fileOutline {} stallFile).value.structs.map (·.line)).Pairwise (· ≤ ·) := by
  have hrows : stall.InRowOrder := by decide
  obtain ⟨hdecls, -, hfields, hstructs⟩ := ofSyntax_keeps_source_order (.ofString "") stall "" hrows
  exact ⟨hrows, by decide +kernel, by decide +kernel, by decide +kernel, hdecls, hfields, hstructs {}⟩

end SourceOutline
