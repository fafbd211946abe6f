import Mathlib.Data.List.Basic
import SourceOutline.Decl.OfSyntax

/-!
Comments document and do nothing else: a tree without its comments, at every depth, declares what the tree
declares. Only comments that fill no field of their parent are taken out.
-/
namespace SourceOutline

namespace Syntax

/-- A comment that fills no field of its parent. -/
def Node.isLoose (n : Node) : Bool :=
  n.isComment && n.field.isNone

mutual

/-- A tree without the loose comments below its root. -/
def Node.bare : Node → Node
  | .mk kind named missing startByte endByte startRow endRow field children =>
    .mk kind named missing startByte endByte startRow endRow field (bareAll children)

/-- Siblings without the loose comments among them and below them. -/
def bareAll : List Node → List Node
  | [] => []
  | n :: rest => if n.isLoose then bareAll rest else n.bare :: bareAll rest

end

mutual

/-- The loose comments below a node, at every depth. -/
def Node.looseBelow : Node → List Node
  | .mk _ _ _ _ _ _ _ _ children => looseAmong children

/-- The loose comments among siblings and below them. -/
def looseAmong : List Node → List Node
  | [] => []
  | n :: rest => (if n.isLoose then [n] else []) ++ n.looseBelow ++ looseAmong rest

end

namespace Node

theorem bare_eq (n : Node) : n.bare = { n with children := bareAll n.children } := by
  cases n
  rfl

@[simp] theorem bare_kind (n : Node) : n.bare.kind = n.kind := by rw [bare_eq]

@[simp] theorem bare_named (n : Node) : n.bare.named = n.named := by rw [bare_eq]

@[simp] theorem bare_field (n : Node) : n.bare.field = n.field := by rw [bare_eq]

@[simp] theorem bare_startRow (n : Node) : n.bare.startRow = n.startRow := by rw [bare_eq]

@[simp] theorem bare_children (n : Node) : n.bare.children = bareAll n.children := by rw [bare_eq]

@[simp] theorem bare_isComment (n : Node) : n.bare.isComment = n.isComment := by simp [isComment]

@[simp] theorem bare_isLoose (n : Node) : n.bare.isLoose = n.isLoose := by simp [isLoose]

theorem kind_of_isLoose {n : Node} (h : n.isLoose = true) : n.kind = "comment" := by
  simp only [isLoose, isComment, Bool.and_eq_true, beq_iff_eq] at h
  exact h.1

theorem field_of_isLoose {n : Node} (h : n.isLoose = true) : n.field = none := by
  simp only [isLoose, Bool.and_eq_true, Option.isNone_iff_eq_none] at h
  exact h.2

end Node

mutual

theorem Node.looseBelow_bare : ∀ n : Node, n.bare.looseBelow = []
  | .mk _ _ _ _ _ _ _ _ children => looseAmong_bareAll children

theorem looseAmong_bareAll : ∀ ns : List Node, looseAmong (bareAll ns) = []
  | [] => rfl
  | n :: rest => by
    have hrest := looseAmong_bareAll rest
    rw [bareAll]
    split
    · exact hrest
    · next hl => simp [looseAmong, hl, n.looseBelow_bare, hrest]

end

@[simp] theorem Source.text_bare (source : Source) (n : Node) : source.text n.bare = source.text n := by
  rw [Source.text, Source.text, Node.bare_eq]

/-- A property of nodes that taking out loose comments leaves alone: no loose comment has it, and what is
below a node does not matter. -/
structure Firm (p : Node → Bool) : Prop where
  bare : ∀ n, p n.bare = p n
  loose : ∀ n, n.isLoose = true → p n = false

namespace Firm

variable {p : Node → Bool}

theorem filter_bareAll (h : Firm p) (ns : List Node) :
    (bareAll ns).filter p = (ns.filter p).map Node.bare := by
  induction ns with
  | nil => rfl
  | cons n rest ih =>
    rw [bareAll]
    by_cases hl : n.isLoose = true
    · simp [hl, ih, h.loose n hl]
    · by_cases hp : p n = true
      · simp [hl, ih, h.bare, hp]
      · simp [hl, ih, h.bare, hp]

theorem find?_bareAll (h : Firm p) (ns : List Node) :
    (bareAll ns).find? p = (ns.find? p).map Node.bare := by
  rw [← List.head?_filter, ← List.head?_filter, h.filter_bareAll, List.head?_map]

theorem any_bareAll (h : Firm p) (ns : List Node) : (bareAll ns).any p = ns.any p := by
  rw [Bool.eq_iff_iff, List.any_eq_true, List.any_eq_true]
  constructor
  · rintro ⟨n, hn, hp⟩
    have hin : n ∈ (bareAll ns).filter p := List.mem_filter.2 ⟨hn, hp⟩
    rw [h.filter_bareAll] at hin
    obtain ⟨m, hm, -⟩ := List.mem_map.1 hin
    exact ⟨m, List.mem_filter.1 hm⟩
  · rintro ⟨n, hn, hp⟩
    have hin : n.bare ∈ (bareAll ns).filter p := by
      rw [h.filter_bareAll]
      exact List.mem_map_of_mem (List.mem_filter.2 ⟨hn, hp⟩)
    exact ⟨n.bare, List.mem_filter.1 hin⟩

theorem ofField (field : String) : Firm (·.field == some field) where
  bare n := by simp
  loose n h := by simp [Node.field_of_isLoose h]

theorem ofKind {kind : String} (hk : kind ≠ "comment") : Firm (·.kind == kind) where
  bare n := by simp
  loose n h := by simpa [Node.kind_of_isLoose h] using hk.symm

theorem and (h : Firm p) {q : Node → Bool} (hq : ∀ n, q n.bare = q n) : Firm fun n => q n && p n where
  bare n := by rw [hq, h.bare]
  loose n hl := by rw [h.loose n hl, Bool.and_false]

end Firm

namespace Node

@[simp] theorem child?_bare (n : Node) (field : String) :
    n.bare.child? field = (n.child? field).map bare := by
  rw [child?, bare_children, (Firm.ofField field).find?_bareAll, child?]

@[simp] theorem childrenIn_bare (n : Node) (field : String) :
    n.bare.childrenIn field = (n.childrenIn field).map bare := by
  rw [childrenIn, bare_children, (Firm.ofField field).filter_bareAll, childrenIn]

theorem parts_eq_filter (n : Node) : n.parts = n.children.filter fun c => c.named && !c.isComment := by
  rw [parts, namedChildren, List.filter_filter]
  exact List.filter_congr fun c _ => Bool.and_comm _ _

@[simp] theorem parts_bare (n : Node) : n.bare.parts = n.parts.map bare := by
  have hfirm : Firm fun c : Node => c.named && !c.isComment :=
    { bare := fun c => by simp
      loose := fun c hl => by simp [isComment, kind_of_isLoose hl] }
  rw [parts_eq_filter, parts_eq_filter, bare_children, hfirm.filter_bareAll]

end Node

end Syntax

open Syntax

section Undocumented

mutual

/-- A field without its doc and those of the fields in its type. -/
def Field.undocumented : Field → Field
  | ⟨names, type, tag, _, line⟩ => ⟨names, type.undocumented, tag, none, line⟩

/-- A type without the docs of the fields in it. -/
def TypeExpr.undocumented : TypeExpr → TypeExpr
  | .named name => .named name
  | .qualified package name => .qualified package name
  | .pointer target => .pointer target.undocumented
  | .array element length => .array element.undocumented length
  | .map key value => .map key.undocumented value.undocumented
  | .struct fields => .struct (undocumentedFields fields)
  | .unsupported shape text => .unsupported shape text

def undocumentedFields : List Field → List Field
  | [] => []
  | field :: rest => field.undocumented :: undocumentedFields rest

end

def Expr.undocumented : Expr → Expr
  | .composite type elements => .composite type.undocumented elements
  | e => e

def TypeSpec.undocumented (spec : TypeSpec) : TypeSpec :=
  { spec with type := spec.type.undocumented, doc := none }

def ValueSpec.undocumented (spec : ValueSpec) : ValueSpec :=
  { spec with
    type := spec.type.map TypeExpr.undocumented
    values := spec.values.map Expr.undocumented
    doc := none }

def Decl.undocumented : Decl → Decl
  | .type spec => .type spec.undocumented
  | .value spec => .value spec.undocumented

/-- A file without its docs. All else stays: names, types, tags, values, lines and their order. -/
def GoFile.undocumented (file : GoFile) : GoFile :=
  { file with decls := file.decls.map Decl.undocumented }

end Undocumented

section Types

variable (source : Source)

/-- What a node stands for as a type, with the steps into its children as `typeIn`. -/
theorem typeOf_step (n : Node) :
    typeOf source n =
      match TypeShape.ofKind n.kind with
      | .named => .named (source.text n)
      | .qualified =>
        match n.child? "package", n.child? "name" with
        | some package, some name => .qualified (source.text package) (source.text name)
        | _, _ => .unsupported n.kind (source.text n)
      | .pointer => .pointer (typeIn source n.parts.head?)
      | .array =>
        .array (typeIn source (n.child? "element")) ((n.child? "length").map source.text)
      | .map => .map (typeIn source (n.child? "key")) (typeIn source (n.child? "value"))
      | .struct => .struct (((fieldList? n).map fun l => fieldsOf source [] l.children).getD [])
      | .parenthesized =>
        (n.parts.head?.map (typeOf source)).getD (.unsupported n.kind (source.text n))
      | .other => .unsupported n.kind (source.text n) := by
  rw [typeOf]
  cases TypeShape.ofKind n.kind with
  | named => rfl
  | qualified => rfl
  | pointer =>
    dsimp only
    split
    · next target h => rw [h]; rfl
    · next h => rw [h]; rfl
  | array =>
    dsimp only
    split
    · next element h => rw [h]; rfl
    · next h => rw [h]; rfl
  | map =>
    dsimp only
    congr 1
    · split
      · next key h => rw [h]; rfl
      · next h => rw [h]; rfl
    · split
      · next value h => rw [h]; rfl
      · next h => rw [h]; rfl
  | struct =>
    dsimp only
    split
    · next list h => rw [h]; rfl
    · next h => rw [h]; rfl
  | parenthesized =>
    dsimp only
    split
    · next inner h => rw [h]; rfl
    · next h => rw [h]; rfl
  | other => rfl

theorem fieldOf_step (earlier : List Node) (n : Node) :
    fieldOf source earlier n =
      let names := ((n.childrenIn "name").filter (·.named)).map source.text
      let declared := typeIn source (n.child? "type")
      { names := names
        type :=
          if names.isEmpty && n.children.any (·.kind == "*") then .pointer declared else declared
        tag := ((n.child? "tag").map source.text).getD ""
        doc := Comment.doc source n.startRow earlier
        line := n.startRow + 1 } := by
  rw [fieldOf]
  cases h : n.child? "type" with
  | none => rfl
  | some type => rfl

/-- Where the docs are left out, it does not matter what stands before a field. -/
theorem undocumented_fieldsOf (earlier : List Node) (ns : List Node) :
    undocumentedFields (fieldsOf source earlier ns) =
      (ns.filter fun n => n.named && n.kind == "field_declaration").map fun n =>
        (fieldOf source [] n).undocumented := by
  induction ns generalizing earlier with
  | nil => simp [fieldsOf, undocumentedFields]
  | cons n rest ih =>
    have hdoc : (fieldOf source earlier n).undocumented = (fieldOf source [] n).undocumented := by
      rw [fieldOf_step, fieldOf_step]
      rfl
    rw [fieldsOf]
    by_cases hn : n.named = true
    · by_cases hk : (n.kind == "field_declaration") = true
      · simp [hn, hk, undocumentedFields, hdoc, ih]
      · simp [hn, hk, ih]
    · simp [hn, ih]

theorem fieldList?_bare (n : Node) : fieldList? n.bare = (fieldList? n).map Node.bare := by
  have hfirm : Firm fun c : Node => c.named && c.kind == "field_declaration_list" :=
    (Firm.ofKind (by decide)).and Node.bare_named
  rw [fieldList?, Node.bare_children, hfirm.find?_bareAll, fieldList?]

theorem map_text_bare (ns : List Node) : (ns.map Node.bare).map source.text = ns.map source.text := by
  simp [Function.comp_def]

theorem filter_map_bare {p : Node → Bool} (hp : ∀ n, p n.bare = p n) (ns : List Node) :
    (ns.map Node.bare).filter p = (ns.filter p).map Node.bare := by
  rw [List.filter_map]
  exact congrArg _ (List.filter_congr fun n _ => hp n)

/-- A node that stands for the same type without its comments, docs apart. -/
def TypeKept (n : Node) : Prop :=
  (typeOf source n.bare).undocumented = (typeOf source n).undocumented

variable {source}

theorem typeIn_bare {n? : Option Node} (h : ∀ n, n? = some n → TypeKept source n) :
    (typeIn source (n?.map Node.bare)).undocumented = (typeIn source n?).undocumented := by
  cases n? with
  | none => rfl
  | some n => exact h n rfl

theorem fieldOf_bare {n : Node} (h : ∀ type, n.child? "type" = some type → TypeKept source type) :
    (fieldOf source [] n.bare).undocumented = (fieldOf source [] n).undocumented := by
  have hnames : ((n.bare.childrenIn "name").filter (·.named)).map source.text =
      ((n.childrenIn "name").filter (·.named)).map source.text := by
    rw [Node.childrenIn_bare, filter_map_bare Node.bare_named, map_text_bare]
  have hstar : n.bare.children.any (·.kind == "*") = n.children.any (·.kind == "*") := by
    rw [Node.bare_children, (Firm.ofKind (by decide)).any_bareAll]
  have htag : (n.bare.child? "tag").map source.text = (n.child? "tag").map source.text := by
    simp [Function.comp_def]
  have htype := typeIn_bare h
  rw [← Node.child?_bare] at htype
  rw [fieldOf_step, fieldOf_step, hnames, hstar, htag, Node.bare_startRow]
  simp only [Field.undocumented]
  split
  · simp only [TypeExpr.undocumented, htype]
  · simp only [htype]

theorem fieldsOf_bareAll {ns : List Node}
    (h : ∀ n ∈ ns, ∀ type, n.child? "type" = some type → TypeKept source type) :
    undocumentedFields (fieldsOf source [] (bareAll ns)) =
      undocumentedFields (fieldsOf source [] ns) := by
  have hfirm : Firm fun c : Node => c.named && c.kind == "field_declaration" :=
    (Firm.ofKind (by decide)).and Node.bare_named
  rw [undocumented_fieldsOf, undocumented_fieldsOf, hfirm.filter_bareAll, List.map_map]
  refine List.map_congr_left fun n hn => ?_
  exact fieldOf_bare (h n (List.mem_filter.1 hn).1)

variable (source)

theorem typeKept (n : Node) : TypeKept source n := by
  -- the steps down the tree: to a field's child, to the first part, and to the type of a listed field
  have hchild : ∀ field c, n.child? field = some c → TypeKept source c :=
    fun field c hc => typeKept c
  have hpart : ∀ c, n.parts.head? = some c → TypeKept source c := fun c hc => typeKept c
  have hfields : ∀ list, fieldList? n = some list → ∀ c ∈ list.children, ∀ type,
      c.child? "type" = some type → TypeKept source type :=
    fun list hl c hc type ht => typeKept type
  unfold TypeKept
  rw [typeOf_step source n.bare, typeOf_step source n, Node.bare_kind, Source.text_bare]
  cases TypeShape.ofKind n.kind with
  | named => rfl
  | other => rfl
  | qualified =>
    simp only [Node.child?_bare]
    cases n.child? "package" with
    | none => rfl
    | some package =>
      cases n.child? "name" with
      | none => rfl
      | some name => simp only [Option.map_some, Source.text_bare]
  | pointer =>
    simp only [TypeExpr.undocumented, Node.parts_bare, List.head?_map, typeIn_bare hpart]
  | array =>
    simp only [TypeExpr.undocumented, Node.child?_bare, typeIn_bare (hchild "element"), Option.map_map,
      Function.comp_def, Source.text_bare]
  | map =>
    simp only [TypeExpr.undocumented, Node.child?_bare, typeIn_bare (hchild "key"),
      typeIn_bare (hchild "value")]
  | struct =>
    rw [fieldList?_bare]
    cases hl : fieldList? n with
    | none => rfl
    | some list =>
      simp only [Option.map_some, Option.getD_some, TypeExpr.undocumented, Node.bare_children,
        fieldsOf_bareAll (hfields list hl)]
  | parenthesized =>
    simp only [Node.parts_bare, List.head?_map]
    cases hp : n.parts.head? with
    | none => rfl
    | some inner => exact hpart inner hp
termination_by sizeOf n
decreasing_by
  · exact Node.lt_of_child? hc
  · exact lt_of_head?_parts hc
  · exact Nat.lt_trans (Node.lt_of_child? ht)
      (Nat.lt_trans (Node.lt_of_mem_children hc) (lt_of_fieldList? hl))

end Types

section Values

variable (source : Source)

@[simp] theorem entryText_bare (n : Node) : entryText source n.bare = entryText source n := by
  simp only [entryText, Node.bare_kind, Node.parts_bare, List.head?_map, Source.text_bare]
  cases n.kind == "literal_element" with
  | false => rfl
  | true =>
    cases n.parts.head? with
    | none => rfl
    | some inner => exact source.text_bare inner

@[simp] theorem elementOf_bare (n : Node) : elementOf source n.bare = elementOf source n := by
  simp only [elementOf, Node.bare_kind, Node.parts_bare, List.head?_map, List.getLast?_map,
    List.length_map, entryText_bare]
  cases n.parts.head? with
  | none => rfl
  | some key =>
    cases n.parts.getLast? with
    | none => rfl
    | some value =>
      cases decide (2 ≤ n.parts.length) with
      | false => rfl
      | true => simp only [Option.map_some, entryText_bare]

theorem elementsOf_bare (body? : Option Node) :
    elementsOf source (body?.map Node.bare) = elementsOf source body? := by
  cases body? with
  | none => rfl
  | some body =>
    simp only [Option.map_some, elementsOf, Node.parts_bare, List.filterMap_map, Function.comp_def,
      elementOf_bare]

theorem exprOf_step (n : Node) :
    exprOf source n =
      match ExprShape.ofKind n.kind with
      | .literal kind => .basic kind (source.text n)
      | .identifier => .ident (source.text n)
      | .composite =>
        .composite (typeIn source (n.child? "type")) (elementsOf source (n.child? "body"))
      | .unary =>
        match n.child? "operand", n.child? "operator" with
        | some operand, some operator =>
          if source.text operator = "-" then
            ((exprOf source operand).negated?).getD (.unsupported n.kind (source.text n))
          else .unsupported n.kind (source.text n)
        | _, _ => .unsupported n.kind (source.text n)
      | .parenthesized =>
        match n.parts with
        | [inner] => exprOf source inner
        | _ => .unsupported n.kind (source.text n)
      | .other => .unsupported n.kind (source.text n) := by
  rw [exprOf]
  cases ExprShape.ofKind n.kind with
  | literal kind => rfl
  | identifier => rfl
  | composite => rfl
  | unary =>
    dsimp only
    cases n.child? "operand" with
    | none => rfl
    | some operand =>
      cases n.child? "operator" with
      | none => rfl
      | some operator => rfl
  | parenthesized =>
    dsimp only
    cases n.parts with
    | nil => rfl
    | cons inner rest =>
      cases rest with
      | nil => rfl
      | cons second others => rfl
  | other => rfl

theorem negated?_undocumented (e : Expr) : e.undocumented.negated? = e.negated? := by
  cases e <;> rfl

/-- A minus turns on the text of a number only, so docs in a type do not matter to it. -/
theorem negated?_eq_of_undocumented {e f : Expr} (h : e.undocumented = f.undocumented) :
    e.negated? = f.negated? := by
  rw [← negated?_undocumented e, h, negated?_undocumented]

theorem exprOf_bare (n : Node) :
    (exprOf source n.bare).undocumented = (exprOf source n).undocumented := by
  have hchild : ∀ c, n.child? "operand" = some c →
      (exprOf source c.bare).undocumented = (exprOf source c).undocumented :=
    fun c hc => exprOf_bare c
  have hpart : ∀ c ∈ n.parts,
      (exprOf source c.bare).undocumented = (exprOf source c).undocumented :=
    fun c hc => exprOf_bare c
  rw [exprOf_step source n.bare, exprOf_step source n, Node.bare_kind, Source.text_bare]
  cases ExprShape.ofKind n.kind with
  | literal kind => rfl
  | identifier => rfl
  | other => rfl
  | composite =>
    simp only [Expr.undocumented, Node.child?_bare, elementsOf_bare,
      typeIn_bare fun type _ => typeKept source type]
  | unary =>
    simp only [Node.child?_bare]
    cases hd : n.child? "operand" with
    | none => rfl
    | some operand =>
      cases n.child? "operator" with
      | none => rfl
      | some operator =>
        simp only [Option.map_some, Source.text_bare, negated?_eq_of_undocumented (hchild operand hd)]
  | parenthesized =>
    rw [Node.parts_bare]
    cases hp : n.parts with
    | nil => rfl
    | cons inner rest =>
      cases rest with
      | nil => exact hpart inner (by simp [hp])
      | cons second others => rfl
termination_by sizeOf n
decreasing_by
  · exact Node.lt_of_child? hc
  · exact Node.lt_of_mem_parts hc

end Values

section Declarations

variable (source : Source)

theorem nodes_placed (earlier ns : List Node) :
    (placed earlier ns).map (·.node) = ns.filter (·.named) := by
  induction ns generalizing earlier with
  | nil => rfl
  | cons n rest ih =>
    rw [placed]
    by_cases hn : n.named = true
    · simp [hn, ih]
    · simp [hn, ih]

/-- The specs among siblings are those among the siblings without comments, whatever stands before. -/
theorem nodes_specs_bareAll {isSpec : String → Bool} (hs : isSpec "comment" = false)
    (earlier before ns : List Node) :
    (specs isSpec before (bareAll ns)).map (·.node) =
      ((specs isSpec earlier ns).map (·.node)).map Node.bare := by
  fun_induction specs isSpec earlier ns generalizing before with
  | case1 earlier => rw [bareAll, specs]; rfl
  | case2 earlier n rest hn hk ih =>
    have hl : ¬n.isLoose = true := fun hl => by simp [Node.kind_of_isLoose hl, hs] at hk
    rw [bareAll, if_neg hl, specs, if_pos (by simpa using hn), if_pos (by simpa using hk)]
    simp [ih]
  | case3 earlier n rest hn hk hg ihgroup ih =>
    have hl : ¬n.isLoose = true := fun hl => by simp [Node.kind_of_isLoose hl, isSpecList] at hg
    rw [bareAll, if_neg hl, specs, if_pos (by simpa using hn), if_neg (by simpa using hk),
      if_pos (by simpa using hg)]
    simp [ih, ihgroup]
  | case4 earlier n rest hn hk hg ih =>
    rw [bareAll]
    by_cases hl : n.isLoose = true
    · rw [if_pos hl, ih]
    · rw [if_neg hl, specs, if_pos (by simpa using hn), if_neg (by simpa using hk),
        if_neg (by simpa using hg), ih]
  | case5 earlier n rest hn ih =>
    rw [bareAll]
    by_cases hl : n.isLoose = true
    · rw [if_pos hl, ih]
    · rw [if_neg hl, specs, if_neg (by simpa using hn), ih]

/-- The nodes of the specs of a declaration. -/
def specNodes (isSpec : String → Bool) (n : Node) : List Node :=
  (specs isSpec [] n.children).map (·.node)

theorem specNodes_bare {isSpec : String → Bool} (hs : isSpec "comment" = false) (n : Node) :
    specNodes isSpec n.bare = (specNodes isSpec n).map Node.bare := by
  rw [specNodes, specNodes, Node.bare_children, nodes_specs_bareAll hs]

/-- The type declared at a spec, docs apart. -/
def typeSpecAt (n : Node) : Option TypeSpec :=
  (n.child? "name").map fun name =>
    { name := source.text name
      type := (typeIn source (n.child? "type")).undocumented
      line := n.startRow + 1
      isAlias := n.kind == "type_alias" }

/-- The constants or variables declared at a spec, docs apart. -/
def valueSpecAt (keyword : String) (n : Node) : ValueSpec :=
  { keyword := keyword
    names := ((n.childrenIn "name").filter (·.kind == "identifier")).map source.text
    type := (n.child? "type").map fun type => (typeOf source type).undocumented
    values := match n.child? "value" with
      | some list => list.parts.map fun value => (exprOf source value).undocumented
      | none => []
    line := n.startRow + 1 }

/-- The import made at a spec. -/
def importAt (n : Node) : Option Import :=
  (n.child? "path").map fun path =>
    { path := unquoted (source.text path), localName := (n.child? "name").map source.text }

@[simp] theorem typeSpecAt_bare (n : Node) : typeSpecAt source n.bare = typeSpecAt source n := by
  simp only [typeSpecAt, Node.child?_bare, Option.map_map, Function.comp_def, Source.text_bare,
    Node.bare_startRow, Node.bare_kind, typeIn_bare fun type _ => typeKept source type]

@[simp] theorem valueSpecAt_bare (keyword : String) (n : Node) :
    valueSpecAt source keyword n.bare = valueSpecAt source keyword n := by
  have hnames : ((n.bare.childrenIn "name").filter (·.kind == "identifier")).map source.text =
      ((n.childrenIn "name").filter (·.kind == "identifier")).map source.text := by
    rw [Node.childrenIn_bare, filter_map_bare (fun c => by rw [Node.bare_kind]), map_text_bare]
  have htype : ∀ type : Node,
      (typeOf source type.bare).undocumented = (typeOf source type).undocumented := typeKept source
  simp only [valueSpecAt, hnames, Node.child?_bare, Option.map_map, Function.comp_def, htype,
    Node.bare_startRow]
  cases n.child? "value" with
  | none => rfl
  | some list =>
    simp only [Option.map_some, Node.parts_bare, List.map_map, Function.comp_def, exprOf_bare]

@[simp] theorem importAt_bare (n : Node) : importAt source n.bare = importAt source n := by
  simp only [importAt, Node.child?_bare, Option.map_map, Function.comp_def, Source.text_bare]

/-- The types declared at a node of the top level, docs apart. -/
def typesAt (n : Node) : List TypeSpec :=
  (specNodes (fun kind => kind == "type_spec" || kind == "type_alias") n).filterMap (typeSpecAt source)

/-- The constants or variables declared at a node of the top level, docs apart. -/
def valuesAt (keyword : String) (n : Node) : List ValueSpec :=
  (specNodes (· == if keyword == "const" then "const_spec" else "var_spec") n).map
    (valueSpecAt source keyword)

/-- The declarations at a node of the top level, docs apart. -/
def declsAt (n : Node) : List Decl :=
  match n.kind with
  | "type_declaration" => (typesAt source n).map .type
  | "const_declaration" => (valuesAt source "const" n).map .value
  | "var_declaration" => (valuesAt source "var" n).map .value
  | _ => []

/-- The imports at a node of the top level. -/
def importsAt (n : Node) : List Import :=
  if n.kind == "import_declaration" then
    (specNodes (· == "import_spec") n).filterMap (importAt source)
  else []

/-- The package named at a node of the top level, if it is a package clause. -/
def packagesAt (n : Node) : List String :=
  (packageOf source n).toList

@[simp] theorem packagesAt_bare (n : Node) : packagesAt source n.bare = packagesAt source n := by
  simp only [packagesAt, packageOf, Node.bare_kind, Node.parts_bare, List.head?_map, Option.map_map,
    Function.comp_def, Source.text_bare]

@[simp] theorem typesAt_bare (n : Node) : typesAt source n.bare = typesAt source n := by
  rw [typesAt, specNodes_bare rfl, List.filterMap_map]
  simp only [Function.comp_def, typeSpecAt_bare, typesAt]

@[simp] theorem valuesAt_bare (keyword : String) (n : Node) :
    valuesAt source keyword n.bare = valuesAt source keyword n := by
  have hs : ("comment" == if keyword == "const" then "const_spec" else "var_spec") = false := by
    split <;> rfl
  rw [valuesAt, specNodes_bare hs, List.map_map]
  simp only [Function.comp_def, valueSpecAt_bare, valuesAt]

@[simp] theorem declsAt_bare (n : Node) : declsAt source n.bare = declsAt source n := by
  simp only [declsAt, Node.bare_kind, typesAt_bare, valuesAt_bare]

@[simp] theorem importsAt_bare (n : Node) : importsAt source n.bare = importsAt source n := by
  rw [importsAt, importsAt, Node.bare_kind, specNodes_bare rfl, List.filterMap_map]
  simp only [Function.comp_def, importAt_bare]

theorem undocumented_typeSpecsOf (p : Placed) :
    (typeSpecsOf source p).map TypeSpec.undocumented = typesAt source p.node := by
  simp only [typeSpecsOf, List.map_filterMap, typesAt, specNodes, List.filterMap_map, Option.map_map,
    Function.comp_def]
  rfl

theorem undocumented_valueSpecsOf (keyword : String) (p : Placed) :
    (valueSpecsOf source keyword p).map ValueSpec.undocumented = valuesAt source keyword p.node := by
  simp only [valueSpecsOf, valuesAt, specNodes, List.map_map]
  refine List.map_congr_left fun spec _ => ?_
  simp only [Function.comp_apply, ValueSpec.undocumented, valueSpecAt, Option.map_map]
  cases spec.node.child? "value" with
  | none => rfl
  | some list => simp [Function.comp_def]

/-- Docs apart, the declarations at a node do not turn on what stands before it. -/
theorem undocumented_declsOf (p : Placed) :
    (declsOf source p).map Decl.undocumented = declsAt source p.node := by
  have htype : Decl.undocumented ∘ Decl.type = Decl.type ∘ TypeSpec.undocumented := rfl
  have hvalue : Decl.undocumented ∘ Decl.value = Decl.value ∘ ValueSpec.undocumented := rfl
  simp only [declsAt, ← undocumented_typeSpecsOf, ← undocumented_valueSpecsOf, List.map_map,
    ← htype, ← hvalue]
  unfold declsOf
  by_cases ht : p.node.kind = "type_declaration"
  · simp only [ht, List.map_map]
  · by_cases hc : p.node.kind = "const_declaration"
    · simp only [hc, List.map_map]
    · by_cases hv : p.node.kind = "var_declaration"
      · simp only [hv, List.map_map]
      · simp

theorem importsOf_eq (p : Placed) :
    (if p.node.kind == "import_declaration" then importsOf source p else []) =
      importsAt source p.node := by
  simp only [importsOf, importsAt, specNodes, List.filterMap_map]
  rfl

/-- What is read off each node at the top, and not off comments, is the same without comments. -/
theorem flatMap_placed_bareAll {β : Type} {read : Placed → List β} {readAt : Node → List β}
    (hread : ∀ p, read p = readAt p.node) (hbare : ∀ n, readAt n.bare = readAt n)
    (hloose : ∀ n, n.isLoose = true → readAt n = []) (ns : List Node) :
    (placed [] (bareAll ns)).flatMap read = (placed [] ns).flatMap read := by
  have hnodes : ∀ ms : List Node,
      (placed [] ms).flatMap read = (ms.filter (·.named)).flatMap readAt := by
    intro ms
    rw [← nodes_placed [] ms, List.flatMap_map, funext hread]
  rw [hnodes, hnodes]
  -- a loose comment may be a named node, and then adds nothing
  induction ns with
  | nil => rfl
  | cons n rest ih =>
    rw [bareAll]
    by_cases hl : n.isLoose = true
    · by_cases hn : n.named = true
      · simp [hl, hn, ih, hloose n hl]
      · simp [hl, hn, ih]
    · by_cases hn : n.named = true
      · simp [hl, hn, ih, hbare]
      · simp [hl, hn, ih]

end Declarations

/-- Comments say nothing but docs: a tree without its comments, at every depth, has the package, the imports
and the declarations of the tree, alike in all but their docs. -/
theorem ofSyntax_bare (source : Source) (root : Node) (path : String) :
    root.bare.looseBelow = [] ∧
      (GoFile.ofSyntax source root.bare path).undocumented =
        (GoFile.ofSyntax source root path).undocumented := by
  have hpackage : (placed [] root.bare.children).filterMap (fun p => packageOf source p.node) =
      (placed [] root.children).filterMap (fun p => packageOf source p.node) := by
    have hread : ∀ p : Placed, (packageOf source p.node).toList = packagesAt source p.node :=
      fun _ => rfl
    rw [List.filterMap_eq_flatMap_toList, List.filterMap_eq_flatMap_toList, Node.bare_children]
    refine flatMap_placed_bareAll hread (packagesAt_bare source) (fun n hl => ?_) root.children
    simp [packagesAt, packageOf, Node.kind_of_isLoose hl]
  have himports : (placed [] root.bare.children).flatMap (fun p =>
        if p.node.kind == "import_declaration" then importsOf source p else []) =
      (placed [] root.children).flatMap (fun p =>
        if p.node.kind == "import_declaration" then importsOf source p else []) := by
    rw [Node.bare_children]
    refine flatMap_placed_bareAll (importsOf_eq source) (importsAt_bare source) (fun n hl => ?_)
      root.children
    simp [importsAt, Node.kind_of_isLoose hl]
  have hdecls : ((placed [] root.bare.children).flatMap (declsOf source)).map Decl.undocumented =
      ((placed [] root.children).flatMap (declsOf source)).map Decl.undocumented := by
    rw [List.map_flatMap, List.map_flatMap, Node.bare_children]
    refine flatMap_placed_bareAll (undocumented_declsOf source) (declsAt_bare source) (fun n hl => ?_)
      root.children
    simp [declsAt, Node.kind_of_isLoose hl]
  refine ⟨root.looseBelow_bare, ?_⟩
  simp only [GoFile.undocumented, GoFile.ofSyntax, hpackage, himports, hdecls]

end SourceOutline
