import Mathlib.Data.List.Basic
import Mathlib.Logic.Relation
import SourceOutline.Proofs.CommentFree

/-!
Docs come from the adjacent block of comments: the longest run of comments right before a node, without empty
rows between them and without one that trails other text. No comment belongs to the docs of two siblings.
-/
namespace SourceOutline

open SourceOutline.Syntax

/-- Whether a node is another or below it. -/
def Syntax.Node.Encloses : Node → Node → Prop :=
  Relation.ReflTransGen fun outer inner => inner ∈ outer.children

namespace Comment

/-- Whether, of siblings from the last to the first, the one after place `i` is a comment that leads on to the
one there: no empty row is between them, and what comes before the comment ends on an earlier row. -/
def Adjoins (siblings : List Node) (i : Nat) : Prop :=
  ∃ next comment, siblings[i]? = some next ∧ siblings[i + 1]? = some comment ∧
    comment.kind = "comment" ∧ (next.startRow : Int) - comment.endRow ≤ 1 ∧
    ∀ before, siblings[i + 2]? = some before → before.endRow ≠ comment.startRow

/-- Whether the `k` siblings that come before a node are comments of its block. -/
def IsRun (siblings : List Node) (k : Nat) : Prop :=
  ∀ i, i < k → Adjoins siblings i

theorem adjoins_zero_iff {node comment : Node} {earlier : List Node} :
    Adjoins (node :: comment :: earlier) 0 ↔
      (comment.isComment && node.startRow ≤ comment.endRow + 1 && !isTrailing comment earlier) = true := by
  have hrows : (node.startRow : Int) - comment.endRow ≤ 1 ↔ node.startRow ≤ comment.endRow + 1 := by omega
  have htrailing : isTrailing comment earlier = false ↔
      ∀ before, earlier.head? = some before → before.endRow ≠ comment.startRow := by
    cases earlier with
    | nil => simp [isTrailing]
    | cons previous rest => simp [isTrailing]
  simp only [Bool.and_eq_true, Bool.not_eq_true', decide_eq_true_eq, Node.isComment, beq_iff_eq, htrailing, ← hrows]
  constructor
  · rintro ⟨next, c, hnext, hc, hkind, hrow, hbefore⟩
    obtain rfl : node = next := Option.some.inj hnext
    obtain rfl : comment = c := Option.some.inj hc
    refine ⟨⟨hkind, hrow⟩, fun before hhead => hbefore before ?_⟩
    simpa [List.head?_eq_getElem?] using hhead
  · rintro ⟨⟨hkind, hrow⟩, hbefore⟩
    refine ⟨node, comment, rfl, rfl, hkind, hrow, fun before hget => hbefore before ?_⟩
    simpa [List.head?_eq_getElem?] using hget

theorem isRun_zero (siblings : List Node) : IsRun siblings 0 := by
  intro i hi
  omega

theorem isRun_succ_iff {node : Node} {earlier : List Node} {k : Nat} :
    IsRun (node :: earlier) (k + 1) ↔ Adjoins (node :: earlier) 0 ∧ IsRun earlier k := by
  constructor
  · intro h
    exact ⟨h 0 (by omega), fun i hi => h (i + 1) (by omega)⟩
  · rintro ⟨hfirst, hrest⟩ i hi
    cases i with
    | zero => exact hfirst
    | succ i => exact hrest i (by omega)

theorem IsRun.le_length {node : Node} {earlier : List Node} {k : Nat} (h : IsRun (node :: earlier) k) :
    k ≤ earlier.length := by
  by_contra hlong
  obtain ⟨_, _, -, hget, -⟩ := h earlier.length (by omega)
  simp at hget

/-- The block is the longest run. -/
theorem block_eq_take (node : Node) (earlier : List Node) :
    ∃ k, IsRun (node :: earlier) k ∧ (∀ other, IsRun (node :: earlier) other → other ≤ k) ∧
      block node.startRow earlier = earlier.take k := by
  induction earlier generalizing node with
  | nil =>
    exact ⟨0, isRun_zero _, fun other hrun => hrun.le_length, rfl⟩
  | cons comment rest ih =>
    rw [block]
    by_cases hadjoins : Adjoins (node :: comment :: rest) 0
    · obtain ⟨k, hrun, hmost, hblock⟩ := ih comment
      refine ⟨k + 1, isRun_succ_iff.2 ⟨hadjoins, hrun⟩, fun other hother => ?_, ?_⟩
      · cases other with
        | zero => omega
        | succ other =>
          have hle := hmost other (isRun_succ_iff.1 hother).2
          omega
      · rw [if_pos (adjoins_zero_iff.1 hadjoins), hblock, List.take_succ_cons]
    · refine ⟨0, isRun_zero _, fun other hother => ?_, ?_⟩
      · by_contra hlong
        exact hadjoins (hother 0 (by omega))
      · rw [if_neg (mt adjoins_zero_iff.2 hadjoins), List.take_zero]

end Comment

namespace Placed

/-- Whether a node is a child of another, with the named siblings before it. -/
def IsIn (p : Placed) (parent : Node) : Prop :=
  ∃ before after, parent.children = before ++ p.node :: after ∧
    p.earlier = (before.filter (·.named)).reverse

/-- Whether the comments that document a node are the `k` siblings right before it. -/
structure HasBlock (p : Placed) (k : Nat) : Prop where
  run : Comment.IsRun (p.node :: p.earlier) k
  longest : ∀ other, Comment.IsRun (p.node :: p.earlier) other → other ≤ k

/-- The lines of the `k` comments right before a node, in the order of the source and without directives. -/
def docLines (source : Source) (p : Placed) (k : Nat) : List String :=
  (((p.earlier.take k).reverse.map source.text).filter (!Comment.isDirective ·)).flatMap Comment.lines

/-- Whether the named sibling at a place, counted from the first, is one of the comments that document a node. -/
def Uses (p : Placed) (place : Nat) : Prop :=
  ∃ k, p.HasBlock k ∧ place < p.earlier.length ∧ p.earlier.length - place ≤ k

theorem HasBlock.unique {p : Placed} {k l : Nat} (hk : p.HasBlock k) (hl : p.HasBlock l) : k = l :=
  Nat.le_antisymm (hl.longest k hk.run) (hk.longest l hl.run)

theorem hasBlock_iff {p : Placed} {k : Nat} :
    p.HasBlock k ↔ k = (Comment.block p.node.startRow p.earlier).length := by
  obtain ⟨l, hrun, hlongest, hblock⟩ := Comment.block_eq_take p.node p.earlier
  have hlength : (Comment.block p.node.startRow p.earlier).length = l := by
    rw [hblock, List.length_take, Nat.min_eq_left hrun.le_length]
  rw [hlength]
  exact ⟨fun h => h.unique ⟨hrun, hlongest⟩, fun h => h ▸ ⟨hrun, hlongest⟩⟩

theorem uses_iff {p : Placed} {place : Nat} : p.Uses place ↔ place < p.earlier.length ∧
    p.earlier.length - place ≤ (Comment.block p.node.startRow p.earlier).length := by
  simp only [Uses, hasBlock_iff, exists_eq_left]

theorem doc_of_hasBlock (source : Source) (p : Placed) :
    ∃ k, p.HasBlock k ∧ p.doc source =
      if p.docLines source k = [] then none else some ("\n".intercalate (p.docLines source k)) := by
  obtain ⟨k, hrun, hlongest, hblock⟩ := Comment.block_eq_take p.node p.earlier
  have hlines : ((((Comment.block p.node.startRow p.earlier).map source.text).filter
      (!Comment.isDirective ·)).reverse.flatMap Comment.lines) = p.docLines source k := by
    rw [hblock, docLines, List.map_reverse, List.filter_reverse]
  refine ⟨k, ⟨hrun, hlongest⟩, ?_⟩
  unfold doc Comment.doc
  dsimp only
  rw [hlines]
  cases p.docLines source k with
  | nil => rfl
  | cons line rest => rfl

section Siblings

variable {p q : Placed} {parent : Node} {place : Nat}

theorem IsIn.earlier_eq (h : p.IsIn parent) :
    p.earlier = (parent.namedChildren.take p.earlier.length).reverse := by
  obtain ⟨before, after, hchildren, hearlier⟩ := h
  have hnamed : parent.namedChildren = before.filter (·.named) ++ (p.node :: after).filter (·.named) := by
    rw [Node.namedChildren, hchildren, List.filter_append]
  have hlength : p.earlier.length = (before.filter (·.named)).length := by rw [hearlier, List.length_reverse]
  rw [hnamed, hlength, List.take_left, hearlier]

theorem IsIn.getElem?_eq (h : p.IsIn parent) (hnamed : p.node.named = true) :
    parent.namedChildren[p.earlier.length]? = some p.node := by
  obtain ⟨before, after, hchildren, hearlier⟩ := h
  have hsplit : parent.namedChildren = before.filter (·.named) ++ p.node :: after.filter (·.named) := by
    rw [Node.namedChildren, hchildren, List.filter_append, List.filter_cons_of_pos hnamed]
  have hlength : p.earlier.length = (before.filter (·.named)).length := by rw [hearlier, List.length_reverse]
  rw [hsplit, hlength, List.getElem?_append_right (Nat.le_refl _), Nat.sub_self, List.getElem?_cons_zero]

theorem IsIn.eq_of_length (hp : p.IsIn parent) (hq : q.IsIn parent) (hpnamed : p.node.named = true)
    (hqnamed : q.node.named = true) (hlength : p.earlier.length = q.earlier.length) : p = q := by
  have hnode : p.node = q.node := by
    have hget := hp.getElem?_eq hpnamed
    rw [hlength, hq.getElem?_eq hqnamed] at hget
    exact (Option.some.inj hget).symm
  have hearlier : p.earlier = q.earlier := by rw [hp.earlier_eq, hq.earlier_eq, hlength]
  cases p
  cases q
  simp_all

/-- Counted back from a node, a sibling stands as far away as there are named ones between them. -/
theorem IsIn.getElem?_before (hp : p.IsIn parent) (hq : q.IsIn parent) (hnamed : p.node.named = true)
    (hlt : p.earlier.length < q.earlier.length) :
    (q.node :: q.earlier)[q.earlier.length - p.earlier.length]? = some p.node := by
  have hback : q.earlier.reverse[p.earlier.length]? = some p.node := by
    rw [hq.earlier_eq, List.reverse_reverse, List.getElem?_take_of_lt hlt, hp.getElem?_eq hnamed]
  rw [List.getElem?_reverse hlt] at hback
  have hindex : q.earlier.length - p.earlier.length = q.earlier.length - 1 - p.earlier.length + 1 := by omega
  rw [hindex, List.getElem?_cons_succ, hback]

/-- A block does not reach beyond a named sibling that is no comment. -/
theorem Uses.after (huses : q.Uses place) (hp : p.IsIn parent) (hq : q.IsIn parent)
    (hnamed : p.node.named = true) (hcomment : p.node.kind ≠ "comment")
    (hlt : p.earlier.length < q.earlier.length) : p.earlier.length ≤ place := by
  obtain ⟨k, hblock, hplace, hk⟩ := huses
  by_contra hbefore
  -- the sibling would be one of the comments of the run
  obtain ⟨_, comment, -, hget, hkind, -⟩ :=
    hblock.run (q.earlier.length - p.earlier.length - 1) (by omega)
  have hindex : q.earlier.length - p.earlier.length - 1 + 1 = q.earlier.length - p.earlier.length := by omega
  rw [hindex, hp.getElem?_before hq hnamed hlt] at hget
  exact hcomment (Option.some.inj hget ▸ hkind)

theorem not_uses_both (hp : p.IsIn parent) (hq : q.IsIn parent) (hpnamed : p.node.named = true)
    (hqnamed : q.node.named = true) (hpkind : p.node.kind ≠ "comment") (hqkind : q.node.kind ≠ "comment")
    (hne : p ≠ q) (place : Nat) : ¬(p.Uses place ∧ q.Uses place) := by
  rintro ⟨huses, huses'⟩
  obtain ⟨_, -, hplace, -⟩ := id huses
  obtain ⟨_, -, hplace', -⟩ := id huses'
  rcases Nat.lt_trichotomy p.earlier.length q.earlier.length with hlt | heq | hgt
  · have hle := huses'.after hp hq hpnamed hpkind hlt
    omega
  · exact hne (hp.eq_of_length hq hpnamed hqnamed heq)
  · have hle := huses.after hq hp hqnamed hqkind hgt
    omega

end Siblings

end Placed

section Sites

variable {p : Placed} {earlier children : List Node}

theorem mem_placed_iff : p ∈ placed earlier children ↔ ∃ before after, children = before ++ p.node :: after ∧
    p.node.named = true ∧ p.earlier = (before.filter (·.named)).reverse ++ earlier := by
  induction children generalizing earlier with
  | nil => simp [placed]
  | cons c rest ih =>
    rw [placed]
    constructor
    · intro h
      by_cases hn : c.named = true
      · rw [if_pos hn] at h
        rcases List.mem_cons.1 h with rfl | hrest
        · exact ⟨[], rest, rfl, hn, rfl⟩
        · obtain ⟨before, after, hchildren, hnamed, hearlier⟩ := ih.1 hrest
          refine ⟨c :: before, after, by rw [hchildren, List.cons_append], hnamed, ?_⟩
          rw [hearlier, List.filter_cons_of_pos hn, List.reverse_cons, List.append_assoc, List.singleton_append]
      · rw [if_neg hn] at h
        obtain ⟨before, after, hchildren, hnamed, hearlier⟩ := ih.1 h
        refine ⟨c :: before, after, by rw [hchildren, List.cons_append], hnamed, ?_⟩
        rw [hearlier, List.filter_cons_of_neg hn]
    · rintro ⟨before, after, hchildren, hnamed, hearlier⟩
      cases before with
      | nil =>
        obtain ⟨rfl, rfl⟩ := List.cons.inj hchildren
        rw [if_pos hnamed, List.mem_cons]
        refine Or.inl ?_
        rw [List.filter_nil, List.reverse_nil, List.nil_append] at hearlier
        rw [← hearlier]
      | cons first before =>
        obtain ⟨rfl, hrest⟩ := List.cons.inj hchildren
        by_cases hn : c.named = true
        · rw [if_pos hn, List.mem_cons]
          refine Or.inr (ih.2 ⟨before, after, hrest, hnamed, ?_⟩)
          rw [hearlier, List.filter_cons_of_pos hn, List.reverse_cons, List.append_assoc, List.singleton_append]
        · rw [if_neg hn]
          refine ih.2 ⟨before, after, hrest, hnamed, ?_⟩
          rw [hearlier, List.filter_cons_of_neg hn]

theorem mem_placed_children_iff {parent : Node} :
    p ∈ placed [] parent.children ↔ p.IsIn parent ∧ p.node.named = true := by
  rw [mem_placed_iff]
  constructor
  · rintro ⟨before, after, hchildren, hnamed, hearlier⟩
    exact ⟨⟨before, after, hchildren, by rw [hearlier, List.append_nil]⟩, hnamed⟩
  · rintro ⟨⟨before, after, hchildren, hearlier⟩, hnamed⟩
    exact ⟨before, after, hchildren, hnamed, by rw [hearlier, List.append_nil]⟩

/-- A spec is one of the siblings, or a child of a node below one of them. -/
theorem mem_specs {isSpec : String → Bool} (h : p ∈ specs isSpec earlier children) :
    p ∈ placed earlier children ∨
      ∃ child ∈ children, ∃ group, child.Encloses group ∧ p ∈ placed [] group.children := by
  fun_induction specs isSpec earlier children with
  | case1 earlier => simp at h
  | case2 earlier c rest hn hk ih =>
    rw [placed, if_pos hn, List.mem_cons]
    rcases List.mem_cons.1 h with hself | hrest
    · exact Or.inl (Or.inl hself)
    · exact (ih hrest).imp Or.inr List.exists_mem_cons_of_exists
  | case3 earlier c rest hn hk hg ihgroup ih =>
    rw [placed, if_pos hn, List.mem_cons]
    rcases List.mem_append.1 h with hgroup | hrest
    · refine Or.inr ⟨c, List.mem_cons_self, ?_⟩
      rcases ihgroup hgroup with hin | ⟨child, hchild, group, hbelow, hin⟩
      · exact ⟨c, .refl, hin⟩
      · exact ⟨group, .head hchild hbelow, hin⟩
    · exact (ih hrest).imp Or.inr List.exists_mem_cons_of_exists
  | case4 earlier c rest hn hk hg ih =>
    rw [placed, if_pos hn, List.mem_cons]
    exact (ih h).imp Or.inr List.exists_mem_cons_of_exists
  | case5 earlier c rest hn ih =>
    rw [placed, if_neg hn]
    exact (ih h).imp_right List.exists_mem_cons_of_exists

theorem isIn_of_mem_specs {isSpec : String → Bool} {parent : Node} (h : p ∈ specs isSpec [] parent.children) :
    ∃ group, parent.Encloses group ∧ p.IsIn group := by
  rcases mem_specs h with hin | ⟨child, hchild, group, hbelow, hin⟩
  · exact ⟨parent, .refl, (mem_placed_children_iff.1 hin).1⟩
  · exact ⟨group, .head hchild hbelow, (mem_placed_children_iff.1 hin).1⟩

theorem fieldsOf_eq {source : Source} :
    fieldsOf source earlier children =
      ((placed earlier children).filter (·.node.kind == "field_declaration")).map fun p =>
        fieldOf source p.earlier p.node := by
  induction children generalizing earlier with
  | nil => simp [fieldsOf, placed]
  | cons c rest ih =>
    rw [fieldsOf, placed]
    by_cases hn : c.named = true
    · by_cases hk : (c.kind == "field_declaration") = true
      · simp [hn, hk, ih]
      · simp [hn, hk, ih]
    · simp [hn, ih]

theorem mem_fieldsOf {source : Source} {f : Field} (h : f ∈ fieldsOf source earlier children) :
    ∃ p ∈ placed earlier children, f.doc = p.doc source := by
  rw [fieldsOf_eq] at h
  obtain ⟨p, hp, rfl⟩ := List.mem_map.1 h
  refine ⟨p, (List.mem_filter.1 hp).1, ?_⟩
  rw [fieldOf]
  rfl

end Sites

/-- A node is documented by the lines of the longest run of comments right before it, directives apart, and by
nothing where these have no lines; a comment is in the run of at most one of the named siblings that are no
comments. The docs of specs and of fields are those of their nodes among all the named siblings. -/
theorem doc_of_adjacent_comments (source : Source) (parent : Node) :
    (∀ p : Placed, ∃ k, p.HasBlock k ∧ (p.doc source = none ↔ p.docLines source k = []) ∧
      (p.docLines source k ≠ [] → p.doc source = some ("\n".intercalate (p.docLines source k)))) ∧
    (∀ p q : Placed, p.IsIn parent → q.IsIn parent → p.node.named = true → q.node.named = true →
      p.node.kind ≠ "comment" → q.node.kind ≠ "comment" → p ≠ q → ∀ place, ¬(p.Uses place ∧ q.Uses place)) ∧
    (∀ p : Placed, p ∈ placed [] parent.children ↔ p.IsIn parent ∧ p.node.named = true) ∧
    (∀ (isSpec : String → Bool), ∀ p ∈ specs isSpec [] parent.children,
      ∃ group, parent.Encloses group ∧ p.IsIn group) ∧
    ∀ f ∈ fieldsOf source [] parent.children, ∃ p : Placed, p.IsIn parent ∧ f.doc = p.doc source := by
  refine ⟨fun p => ?_, ?_, fun p => mem_placed_children_iff, fun isSpec p => isIn_of_mem_specs, fun f hf => ?_⟩
  · obtain ⟨k, hblock, hdoc⟩ := p.doc_of_hasBlock source
    refine ⟨k, hblock, ?_, fun hlines => by rw [hdoc, if_neg hlines]⟩
    rw [hdoc, ite_eq_left_iff]
    simp
  · intro p q hp hq hpnamed hqnamed hpkind hqkind hne
    exact Placed.not_uses_both hp hq hpnamed hqnamed hpkind hqkind hne
  · obtain ⟨p, hp, hdoc⟩ := mem_fieldsOf hf
    exact ⟨p, (mem_placed_children_iff.1 hp).1, hdoc⟩

private def rowOf (kind : String) (row : Nat) : Node where
  kind := kind
  named := true
  missing := false
  startByte := 0
  endByte := 0
  startRow := row
  endRow := row
  field := none
  children := []

-- two comments, a spec with a comment that trails it, a comment and a spec
private def twoSpecs : Node :=
  { rowOf "const_declaration" 0 with
    children := [rowOf "comment" 1, rowOf "comment" 2, rowOf "const_spec" 3, rowOf "comment" 3,
      rowOf "comment" 4, rowOf "const_spec" 5] }

private def firstSpec : Placed where
  earlier := [rowOf "comment" 2, rowOf "comment" 1]
  node := rowOf "const_spec" 3

private def secondSpec : Placed where
  earlier := [rowOf "comment" 4, rowOf "comment" 3, rowOf "const_spec" 3, rowOf "comment" 2, rowOf "comment" 1]
  node := rowOf "const_spec" 5

theorem doc_of_adjacent_comments_specs :
    firstSpec.IsIn twoSpecs ∧ secondSpec.IsIn twoSpecs ∧ (∀ place, firstSpec.Uses place ↔ place < 2) ∧
      (∀ place, secondSpec.Uses place ↔ place = 4) ∧
      ∀ place, ¬(firstSpec.Uses place ∧ secondSpec.Uses place) := by
  have hfirst : firstSpec.IsIn twoSpecs := ⟨[_, _], [_, _, _], rfl, rfl⟩
  have hsecond : secondSpec.IsIn twoSpecs := ⟨[_, _, _, _, _], [], rfl, rfl⟩
  have hne : firstSpec ≠ secondSpec := fun h => absurd (congrArg (·.earlier.length) h) (by decide)
  have hblock : (Comment.block firstSpec.node.startRow firstSpec.earlier).length = 2 := by decide
  have hblock' : (Comment.block secondSpec.node.startRow secondSpec.earlier).length = 1 := by decide
  refine ⟨hfirst, hsecond, fun place => ?_, fun place => ?_,
    (doc_of_adjacent_comments (.ofString "") twoSpecs).2.1 _ _ hfirst hsecond rfl rfl (by decide) (by decide) hne⟩
  · rw [Placed.uses_iff, hblock]
    change place < 2 ∧ 2 - place ≤ 2 ↔ _
    omega
  · rw [Placed.uses_iff, hblock']
    change place < 5 ∧ 5 - place ≤ 1 ↔ _
    omega

end SourceOutline
