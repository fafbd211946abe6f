import SourceOutline.Proofs.Agreement

/-!
The order of the files of a package does not matter where every name is declared once: each file keeps its
outline and what it leaves out.
-/
namespace SourceOutline

/-- A list in another order, given by the places in the list. -/
def arrange {α : Type} (order : List Nat) (xs : List α) : List α :=
  order.filterMap (xs[·]?)

theorem arrange_map {α β : Type} (order : List Nat) (f : α → β) (xs : List α) :
    arrange order (xs.map f) = (arrange order xs).map f := by
  unfold arrange
  rw [List.map_filterMap]
  simp only [List.getElem?_map]

theorem arrange_range {α : Type} (xs : List α) : arrange (List.range xs.length) xs = xs := by
  induction xs with
  | nil => rfl
  | cons x rest ih =>
    unfold arrange at ih ⊢
    rw [List.length_cons, List.range_succ_eq_map, List.filterMap_cons, List.filterMap_map]
    simpa [Function.comp_def] using ih

theorem arrange_perm {α : Type} {order : List Nat} {xs : List α}
    (h : order.Perm (List.range xs.length)) : (arrange order xs).Perm xs := by
  have hp : (arrange order xs).Perm (arrange (List.range xs.length) xs) := h.filterMap _
  rwa [arrange_range] at hp

namespace Index

/-- A search that at most one element answers finds the same in any order. -/
private theorem findSome?_eq_of_perm {α β : Type} {f : α → Option β} {xs ys : List α}
    (hp : xs.Perm ys) (h1 : (xs.filterMap f).length ≤ 1) : xs.findSome? f = ys.findSome? f := by
  have hf : (xs.filterMap f).Perm (ys.filterMap f) := hp.filterMap f
  rw [← List.head?_filterMap, ← List.head?_filterMap]
  match hx : xs.filterMap f with
  | [] =>
    rw [hx] at hf
    rw [hf.nil_eq]
  | [a] =>
    rw [hx] at hf
    rw [hf.symm.eq_singleton]
  | a :: b :: rest =>
    rw [hx] at h1
    simp at h1

private theorem length_filterMap_typeNamed? (name : String) (decls : List Decl) :
    (decls.filterMap (·.typeNamed? name)).length = (typeNames ⟨decls⟩).count name := by
  induction decls with
  | nil => rfl
  | cons d rest ih =>
    cases d with
    | value spec => simpa [Decl.typeNamed?, typeNames] using ih
    | type spec =>
      by_cases h : spec.name = name
      · simpa [Decl.typeNamed?, typeNames, h] using ih
      · simpa [Decl.typeNamed?, typeNames, h] using ih

private theorem length_filterMap_valueNamed? (name : String) (decls : List Decl) :
    (decls.filterMap (·.valueNamed? name)).length ≤ (valueNames ⟨decls⟩).count name := by
  induction decls with
  | nil => simp
  | cons d rest ih =>
    cases d with
    | type spec => simpa [Decl.valueNamed?, valueNames] using ih
    | value spec =>
      have hcount : (valueNames ⟨.value spec :: rest⟩).count name =
          (spec.names.filter (· ≠ "_")).count name + (valueNames ⟨rest⟩).count name := by
        rw [← List.count_append]
        rfl
      rw [List.filterMap_cons]
      split
      · omega
      · next found hv =>
        have hd : declared? ⟨[.value spec]⟩ name = some found := by simp [declared?, hv]
        have hin : name ∈ valueNames ⟨[.value spec]⟩ := mem_valueNames_of_declared? hd
        have hone : 1 ≤ (spec.names.filter (· ≠ "_")).count name := by
          rw [Nat.succ_le_iff, List.count_pos_iff]
          simpa [valueNames] using hin
        rw [List.length_cons]
        omega

/-- Two indexes over the same declarations, in any order, answer alike where every name is declared once. -/
theorem agreeOn_of_perm {I J : Index} (hp : I.decls.Perm J.decls) (htypes : I.typeNames.Nodup)
    (hvalues : I.valueNames.Nodup) : AgreeOn (fun _ => True) (fun _ => True) I J where
  type_eq name _ := by
    refine findSome?_eq_of_perm hp ?_
    rw [length_filterMap_typeNamed?]
    exact List.nodup_iff_count.1 htypes name
  value_eq name _ := by
    have hd : I.declared? name = J.declared? name :=
      findSome?_eq_of_perm hp (Nat.le_trans (length_filterMap_valueNamed? name I.decls)
        (List.nodup_iff_count.1 hvalues name))
    unfold Index.value?
    rw [hd]
  type_mentions _ _ _ _ _ _ := trivial
  literal_mentions _ _ _ _ _ _ _ := trivial
  ident_mentions _ _ _ _ _ _ _ := trivial

end Index

theorem packageOutlines_arrange {files : List GoFile} {order : List Nat}
    (horder : order.Perm (List.range files.length))
    (htypes : (Index.ofFiles files).typeNames.Nodup)
    (hvalues : (Index.ofFiles files).valueNames.Nodup) :
    packageOutlines (arrange order files) = arrange order (packageOutlines files) := by
  have hp : (Index.ofFiles files).decls.Perm (Index.ofFiles (arrange order files)).decls :=
    (arrange_perm horder).symm.flatMap_right _
  have hagree := Index.agreeOn_of_perm hp htypes hvalues
  unfold packageOutlines
  rw [arrange_map]
  refine List.map_congr_left fun file _ => ?_
  exact (hagree.fileOutline_eq file (fun _ _ => trivial) (fun _ _ => trivial)).symm

/-- Where every type and every constant or variable is declared once, the outlines of the files in another
order are the outlines in that order, and each file adds the same omissions to the sink. -/
theorem extractFiles_arrange (files : List GoFile) (order : List Nat) (sink : Option Sink)
    (horder : order.Perm (List.range files.length))
    (htypes : (Index.ofFiles files).typeNames.Nodup)
    (hvalues : (Index.ofFiles files).valueNames.Nodup) :
    (extractFiles sink (arrange order files)).1 = arrange order (extractFiles sink files).1 ∧
      (extractFiles sink files).2 =
        Sink.record sink ((packageOutlines files).map (·.omitted)).flatten ∧
      (extractFiles sink (arrange order files)).2 =
        Sink.record sink (arrange order ((packageOutlines files).map (·.omitted))).flatten := by
  have h := packageOutlines_arrange horder htypes hvalues
  refine ⟨?_, ?_, ?_⟩
  · simp only [extractFiles, h, arrange_map]
  · simp only [extractFiles, List.flatMap_def]
  · simp only [extractFiles, h, arrange_map, List.flatMap_def]

/-- Three files that refer to each other, with an alias and a chain of references across files. -/
private def shopFiles : List GoFile :=
  [{ path := "a.go"
     decls := [
      .type { name := "Row", type := .array (.named "Cell") none },
      .value { keyword := "var", names := ["total", "_"], values := [.ident "limit", .ident "gone"] }] },
   { path := "b.go"
     decls := [
      .type { name := "Cell", type := .qualified "money" "Amount" },
      .value { keyword := "const", names := ["limit"], values := [.ident "base"] }] },
   { path := "c.go"
     decls := [
      .type { name := "Table", type := .struct [
        { names := ["Rows"], type := .array (.named "Row") none, line := 3 }] },
      .value { keyword := "const", names := ["base", "_"]
               values := [.basic "int" "7", .basic "int" "8"] }] }]

theorem extractFiles_arrange_shop :
    [2, 0, 1].Perm (List.range shopFiles.length) ∧
      (extractFiles (some {}) (arrange [2, 0, 1] shopFiles)).1 =
        arrange [2, 0, 1] (extractFiles (some {}) shopFiles).1 := by
  have horder : [2, 0, 1].Perm (List.range shopFiles.length) := by decide
  have htypes : (Index.ofFiles shopFiles).typeNames.Nodup := by decide
  have hvalues : (Index.ofFiles shopFiles).valueNames.Nodup := by decide
  exact ⟨horder, (extractFiles_arrange shopFiles [2, 0, 1] (some {}) horder htypes hvalues).1⟩

end SourceOutline
