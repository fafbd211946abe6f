import SourceOutline.Text.Blank

/-! Text cut at a separator: its pieces, and what pieces are joined to. -/
namespace SourceOutline.Text

theorem not_mem_of_mem_splitOn {sep : Char} {cs p : List Char} (h : p ∈ cs.splitOn sep) : sep ∉ p := by
  induction cs generalizing p with
  | nil =>
    rw [List.splitOn_nil, List.mem_singleton] at h
    simp [h]
  | cons c rest ih =>
    rw [List.splitOn_cons_eq_if_modifyHead] at h
    by_cases hc : c = sep
    · rw [if_pos (beq_iff_eq.2 hc)] at h
      rcases List.mem_cons.1 h with rfl | hin
      · simp
      · exact ih hin
    · rw [if_neg (by simpa using hc)] at h
      obtain ⟨first, others, hp⟩ := List.exists_cons_of_ne_nil (List.splitOn_ne_nil sep rest)
      rw [hp] at h ih
      rcases List.mem_cons.1 h with rfl | hin
      · have hfirst : sep ∉ first := ih List.mem_cons_self
        simpa [hfirst] using fun heq : sep = c => hc heq.symm
      · exact ih (List.mem_cons_of_mem _ hin)

/-- Rows that each end in the separator, and what follows the last of them. -/
theorem splitOn_rows {sep : Char} {rows : List (List Char)} {last : List Char} (hrows : ∀ row ∈ rows, sep ∉ row)
    (hlast : sep ∉ last) : (rows.flatMap (· ++ [sep]) ++ last).splitOn sep = rows ++ [last] := by
  induction rows with
  | nil => exact List.splitOn_eq_singleton hlast
  | cons row rest ih =>
    have hrow : sep ∉ row := hrows row List.mem_cons_self
    have hrest := ih fun other hother => hrows other (List.mem_cons_of_mem _ hother)
    simp only [List.flatMap_cons, List.append_assoc, List.cons_append, List.nil_append,
      List.splitOn_append_cons_self_of_not_mem hrow, hrest]

theorem intercalate_concat {sep : List Char} {ps : List (List Char)} (hne : ps ≠ []) (p : List Char) :
    sep.intercalate (ps ++ [p]) = sep.intercalate ps ++ sep ++ p := by
  induction ps with
  | nil => exact absurd rfl hne
  | cons q rest ih =>
    by_cases hrest : rest = []
    · simp [hrest]
    · rw [List.cons_append, List.intercalate_cons_of_ne_nil (by simp), ih hrest,
        List.intercalate_cons_of_ne_nil hrest]
      simp only [List.append_assoc]

theorem map_ofList_toList (ns : List String) : (ns.map String.toList).map String.ofList = ns := by
  rw [List.map_map]
  exact (List.map_congr_left fun n _ => String.ofList_toList).trans (List.map_id ns)

theorem map_toList_ofList (cs : List (List Char)) : (cs.map String.ofList).map String.toList = cs := by
  rw [List.map_map]
  exact (List.map_congr_left fun c _ => String.toList_ofList).trans (List.map_id cs)

end SourceOutline.Text
