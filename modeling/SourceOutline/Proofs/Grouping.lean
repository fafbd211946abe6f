import SourceOutline.Scan.Folder

/-! Groups by key: one for each key, in the order of first appearance, each with its elements in order. -/
namespace SourceOutline

variable {α : Type}

section Lookup

variable {entries others : List (String × α)} {key : String} {value : α}

theorem lookup_cons_eq (first : String) (v : α) (rest : List (String × α)) (key : String) :
    List.lookup key ((first, v) :: rest) = if key = first then some v else rest.lookup key := by
  by_cases h : key = first
  · simp [h]
  · simp [List.lookup_cons, beq_false_of_ne h, h]

/-- Among different keys, each has the value that it stands with. -/
theorem lookup_eq_some_iff_mem (h : (entries.map (·.1)).Nodup) :
    entries.lookup key = some value ↔ (key, value) ∈ entries := by
  induction entries with
  | nil => simp
  | cons entry rest ih =>
    obtain ⟨first, v⟩ := entry
    obtain ⟨hfirst, hrest⟩ := List.nodup_cons.1 h
    rw [lookup_cons_eq, List.mem_cons, Prod.mk.injEq]
    by_cases hkey : key = first
    · subst hkey
      have hnot : (key, value) ∉ rest := fun hmem => hfirst (List.mem_map.2 ⟨_, hmem, rfl⟩)
      simp [hnot, eq_comm]
    · simp [hkey, ih hrest]

theorem lookup_of_perm (h : (entries.map (·.1)).Nodup) (hperm : entries.Perm others) (key : String) :
    others.lookup key = entries.lookup key := by
  have hothers : (others.map (·.1)).Nodup := (hperm.map _).nodup_iff.1 h
  refine Option.ext fun value => ?_
  rw [lookup_eq_some_iff_mem h, lookup_eq_some_iff_mem hothers, hperm.mem_iff]

end Lookup

namespace Scan

/-- The elements under a key, in order. -/
def under (key : String) (elements : List (String × α)) : List α :=
  (elements.filter (·.1 == key)).map (·.2)

theorem mem_under {key : String} {elements : List (String × α)} {x : α} :
    x ∈ under key elements ↔ (key, x) ∈ elements := by
  constructor
  · intro hx
    obtain ⟨⟨k, y⟩, hmem, rfl⟩ := List.mem_map.1 hx
    obtain ⟨hin, hkey⟩ := List.mem_filter.1 hmem
    have hk : k = key := by simpa using hkey
    exact hk ▸ hin
  · intro hx
    exact List.mem_map.2 ⟨(key, x), List.mem_filter.2 ⟨hx, by simp⟩, rfl⟩

theorem under_append_singleton (key : String) (elements : List (String × α)) (k : String) (x : α) :
    under key (elements ++ [(k, x)]) =
      under key elements ++ if k = key then [x] else [] := by
  unfold under
  rw [List.filter_append, List.map_append]
  by_cases h : k = key
  · simp [h]
  · simp [h]

private theorem nodup_eraseDups (keys : List String) : keys.eraseDups.Nodup := by
  match keys with
  | [] => simp
  | key :: rest =>
    have hshort : (rest.filter fun k => !k == key).length < rest.length + 1 :=
      Nat.lt_succ_of_le (List.length_filter_le _ rest)
    rw [List.eraseDups_cons, List.nodup_cons]
    exact ⟨by simp, nodup_eraseDups _⟩
termination_by keys.length

/-- Adding to a group changes the group of its key only. -/
private theorem addToGroup_of_mem {keys : List String} (hn : keys.Nodup) {key : String}
    (hk : key ∈ keys) (x : α) (members : String → List α) :
    addToGroup key x (keys.map fun k => (k, members k)) =
      keys.map fun k => (k, members k ++ if key = k then [x] else []) := by
  induction keys with
  | nil => simp at hk
  | cons first rest ih =>
    obtain ⟨hfirst, hrest⟩ := List.nodup_cons.1 hn
    rw [List.map_cons, List.map_cons, addToGroup]
    by_cases h : first = key
    · subst h
      have hsame : rest.map (fun k => (k, members k)) =
          rest.map fun k => (k, members k ++ if first = k then [x] else []) := by
        refine List.map_congr_left fun k hin => ?_
        have hne : first ≠ k := fun heq => hfirst (heq ▸ hin)
        simp [hne]
      simp [hsame]
    · have hin : key ∈ rest := (List.mem_cons.1 hk).resolve_left fun heq => h heq.symm
      have hne : ¬key = first := fun heq => h heq.symm
      simp [h, hne, ih hrest hin]

private theorem addToGroup_of_not_mem {keys : List String} {key : String} (hk : key ∉ keys) (x : α)
    (members : String → List α) :
    addToGroup key x (keys.map fun k => (k, members k)) =
      (keys.map fun k => (k, members k)) ++ [(key, [x])] := by
  induction keys with
  | nil => rfl
  | cons first rest ih =>
    have hne : ¬first = key := fun heq => hk (heq ▸ List.mem_cons_self)
    have hrest : key ∉ rest := fun hin => hk (List.mem_cons_of_mem _ hin)
    simp [addToGroup, hne, ih hrest]

/-- The groups after some elements, each with its key. -/
private def keyedGroups (elements : List (String × α)) : List (String × List α) :=
  (elements.map (·.1)).eraseDups.map fun key => (key, under key elements)

private theorem under_eq_nil {key : String} {elements : List (String × α)}
    (hk : key ∉ elements.map (·.1)) : under key elements = [] := by
  rw [List.eq_nil_iff_forall_not_mem]
  intro x hx
  exact hk (List.mem_map.2 ⟨(key, x), mem_under.1 hx, rfl⟩)

private theorem addToGroup_keyedGroups (elements : List (String × α)) (key : String) (x : α) :
    addToGroup key x (keyedGroups elements) = keyedGroups (elements ++ [(key, x)]) := by
  unfold keyedGroups
  simp only [under_append_singleton]
  rw [List.map_append, List.eraseDups_append]
  by_cases hk : key ∈ elements.map (·.1)
  · have hold : [key].removeAll (elements.map (·.1)) = [] := by simp [List.removeAll, hk]
    rw [addToGroup_of_mem (nodup_eraseDups _) (List.mem_eraseDups.2 hk), List.map_cons, List.map_nil,
      hold, List.eraseDups_nil, List.append_nil]
  · have hnew : [key].removeAll (elements.map (·.1)) = [key] := by simp [List.removeAll, hk]
    have hkeep : ∀ k ∈ (elements.map (·.1)).eraseDups,
        (k, under k elements) = (k, under k elements ++ if key = k then [x] else []) := by
      intro k hin
      have hne : key ≠ k := fun heq => hk (heq ▸ List.mem_eraseDups.1 hin)
      rw [if_neg hne, List.append_nil]
    rw [addToGroup_of_not_mem (fun h => hk (List.mem_eraseDups.1 h)), List.map_cons, List.map_nil,
      hnew, List.map_append, List.map_congr_left hkeep]
    simp [List.eraseDups_cons, under_eq_nil hk]

private theorem foldl_addToGroup (before elements : List (String × α)) :
    elements.foldl (fun groups (key, x) => addToGroup key x groups) (keyedGroups before) =
      keyedGroups (before ++ elements) := by
  induction elements generalizing before with
  | nil => simp
  | cons e rest ih =>
    obtain ⟨key, x⟩ := e
    rw [List.foldl_cons]
    simp only [addToGroup_keyedGroups]
    rw [ih, List.append_assoc, List.singleton_append]

/-- There is one group for each key, in the order in which the keys first appear, and it holds exactly the
elements under its key. -/
theorem grouped_eq (elements : List (String × α)) :
    grouped elements = (elements.map (·.1)).eraseDups.map fun key => under key elements := by
  have h := foldl_addToGroup [] elements
  rw [List.nil_append] at h
  unfold grouped
  rw [show ([] : List (String × List α)) = keyedGroups [] from rfl, h, keyedGroups, List.map_map]
  rfl

theorem mem_grouped {elements : List (String × α)} {group : List α} :
    group ∈ grouped elements ↔ ∃ key ∈ elements.map (·.1), group = under key elements := by
  rw [grouped_eq, List.mem_map]
  simp only [List.mem_eraseDups, eq_comm]

private theorem flatten_addToGroup (key : String) (x : α) (groups : List (String × List α)) :
    ((addToGroup key x groups).map (·.2)).flatten.Perm (x :: (groups.map (·.2)).flatten) := by
  induction groups with
  | nil => exact .refl _
  | cons group rest ih =>
    rw [addToGroup]
    split
    · rw [List.map_cons, List.map_cons, List.flatten_cons, List.flatten_cons, List.append_assoc]
      exact List.perm_middle
    · rw [List.map_cons, List.map_cons, List.flatten_cons, List.flatten_cons]
      exact (ih.append_left _).trans List.perm_middle

/-- Grouping loses no element and takes none twice. -/
theorem flatten_grouped (elements : List (String × α)) :
    (grouped elements).flatten.Perm (elements.map (·.2)) := by
  suffices h : ∀ groups : List (String × List α),
      ((elements.foldl (fun groups (key, x) => addToGroup key x groups) groups).map (·.2)).flatten.Perm
        (elements.map (·.2) ++ (groups.map (·.2)).flatten) by
    simpa [grouped] using h []
  induction elements with
  | nil => exact fun _ => .refl _
  | cons e rest ih =>
    intro groups
    refine (ih _).trans ?_
    refine ((flatten_addToGroup e.1 e.2 groups).append_left _).trans ?_
    exact List.perm_middle

end Scan

end SourceOutline
