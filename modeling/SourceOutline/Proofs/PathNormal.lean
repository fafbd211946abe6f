import SourceOutline.Path
import SourceOutline.Proofs.Pieces

/-! Normal forms of paths: what their components are, and that a path in normal form stays as it is. -/
namespace SourceOutline

namespace Path

/-- The components of a normal form, given backwards: names, and before them, unless the path is rooted,
any number of `..`. -/
inductive Normal (rooted : Bool) : List (List Char) → Prop
  | nil : Normal rooted []
  | up {done : List (List Char)} (hroot : rooted = false) (hdone : Normal rooted done)
      (hups : ∀ c ∈ done, c = ['.', '.']) : Normal rooted (['.', '.'] :: done)
  | name {c : List Char} {done : List (List Char)} (hempty : c ≠ []) (hdot : c ≠ ['.'])
      (hup : c ≠ ['.', '.']) (hslash : '/' ∉ c) (hdone : Normal rooted done) : Normal rooted (c :: done)

namespace Normal

variable {rooted : Bool} {done : List (List Char)}

theorem push (h : Normal rooted done) {c : List Char} (hslash : '/' ∉ c) :
    Normal rooted (pushComponent rooted done c) := by
  unfold pushComponent
  split
  · exact h
  · next hc =>
    obtain ⟨hempty, hdot⟩ := not_or.1 hc
    split
    · next hup =>
      subst hup
      cases h with
      | nil =>
        cases hr : rooted with
        | true => exact .nil
        | false => exact .up rfl .nil (by simp)
      | up hroot hdone hups =>
        dsimp only
        rw [if_pos rfl]
        exact .up hroot (.up hroot hdone hups) (by simpa using hups)
      | name _ _ hlast _ hdone =>
        dsimp only
        rw [if_neg hlast]
        exact hdone
    · next hup => exact .name hempty hdot hup hslash h

/-- A component of a normal form is taken as it is. -/
theorem push_eq {c : List Char} (h : Normal rooted (c :: done)) :
    pushComponent rooted done c = c :: done := by
  cases h with
  | up hroot hdone hups =>
    cases hdone with
    | nil => simp [pushComponent, hroot]
    | up _ _ _ => simp [pushComponent]
    | name _ _ hup _ _ => exact absurd (hups _ List.mem_cons_self) hup
  | name hempty hdot hup _ _ => simp [pushComponent, hempty, hdot, hup]

theorem of_cons {c : List Char} (h : Normal rooted (c :: done)) : Normal rooted done := by
  cases h with
  | up _ hdone _ => exact hdone
  | name _ _ _ _ hdone => exact hdone

/-- A component of a normal form stands between two slashes. -/
theorem mem {c : List Char} (h : Normal rooted done) (hc : c ∈ done) : c ≠ [] ∧ '/' ∉ c := by
  induction h with
  | nil => simp at hc
  | up _ _ _ ih =>
    rcases List.mem_cons.1 hc with rfl | hin
    · decide
    · exact ih hin
  | name hempty _ _ hslash _ ih =>
    rcases List.mem_cons.1 hc with rfl | hin
    · exact ⟨hempty, hslash⟩
    · exact ih hin

/-- The components of a normal form, taken one by one, come to themselves. -/
theorem foldl_push (h : Normal rooted done) : done.reverse.foldl (pushComponent rooted) [] = done := by
  induction done with
  | nil => rfl
  | cons c rest ih =>
    rw [List.reverse_cons, List.foldl_append, ih h.of_cons]
    exact h.push_eq

end Normal

/-- Normalization comes to components in normal form. -/
theorem normal_foldl {rooted : Bool} {cs done : List (List Char)} (hcs : ∀ c ∈ cs, '/' ∉ c)
    (h : Normal rooted done) : Normal rooted (cs.foldl (pushComponent rooted) done) := by
  induction cs generalizing done with
  | nil => exact h
  | cons c rest ih =>
    exact ih (fun d hd => hcs d (List.mem_cons_of_mem _ hd)) (h.push (hcs c List.mem_cons_self))

theorem normal_normalComponents (path : List Char) :
    Normal (leadingSlashes path != 0) (normalComponents path).reverse := by
  rw [normalComponents, List.reverse_reverse]
  exact normal_foldl (fun c hc => Text.not_mem_of_mem_splitOn hc) .nil

theorem leadingSlashes_le (path : List Char) : leadingSlashes path ≤ 2 := by
  unfold leadingSlashes
  split <;> omega

theorem leadingSlashes_replicate {slashes : Nat} {rest : List Char} (hle : slashes ≤ 2)
    (hrest : rest.head? ≠ some '/') :
    leadingSlashes (List.replicate slashes '/' ++ rest) = slashes := by
  have hcases : slashes = 0 ∨ slashes = 1 ∨ slashes = 2 := by omega
  cases rest with
  | nil => rcases hcases with rfl | rfl | rfl <;> rfl
  | cons c cs =>
    have hc : c ≠ '/' := fun heq => hrest (by rw [heq]; rfl)
    rcases hcases with rfl | rfl | rfl <;> simp [leadingSlashes, hc]

theorem components_replicate (slashes : Nat) (rest : List Char) :
    components (List.replicate slashes '/' ++ rest) = List.replicate slashes [] ++ components rest := by
  induction slashes with
  | zero => rfl
  | succ n ih =>
    rw [List.replicate_succ, List.replicate_succ, List.cons_append, List.cons_append, ← ih]
    rw [components, List.splitOn_cons_eq_if_modifyHead, if_pos (beq_self_eq_true _), components]

theorem foldl_push_empty (rooted : Bool) (n : Nat) (done : List (List Char)) :
    (List.replicate n []).foldl (pushComponent rooted) done = done := by
  induction n with
  | zero => rfl
  | succ n ih => exact ih

/-- What is put together from parts between slashes does not start with one. -/
theorem head?_intercalate_parts {cs : List (List Char)} (h : ∀ c ∈ cs, c ≠ [] ∧ '/' ∉ c) :
    (['/'].intercalate cs).head? ≠ some '/' := by
  cases cs with
  | nil => simp [List.intercalate]
  | cons first rest =>
    obtain ⟨hne, hslash⟩ := h first List.mem_cons_self
    obtain ⟨c, after, rfl⟩ := List.exists_cons_of_ne_nil hne
    have hc : c ≠ '/' := fun heq => hslash (by simp [heq])
    cases rest <;> simp [List.intercalate, hc]

section Assembled

variable {rooted : Bool} {cs : List (List Char)}

theorem head?_intercalate (h : Normal rooted cs.reverse) :
    (['/'].intercalate cs).head? ≠ some '/' :=
  head?_intercalate_parts fun _ hc => h.mem (List.mem_reverse.2 hc)

/-- The components of a normal form come to themselves when they are put together and taken apart. -/
theorem foldl_components_intercalate (h : Normal rooted cs.reverse) :
    (components (['/'].intercalate cs)).foldl (pushComponent rooted) [] = cs.reverse := by
  cases cs with
  | nil => rfl
  | cons first rest =>
    rw [components, List.splitOn_intercalate '/' (fun c hc => (h.mem (List.mem_reverse.2 hc)).2)
      (List.cons_ne_nil _ _)]
    simpa using h.foldl_push

end Assembled

/-- Components in normal form are assembled to a path in normal form. -/
theorem normalizeChars_assemble {slashes : Nat} {cs : List (List Char)} (hle : slashes ≤ 2)
    (hnormal : Normal (slashes != 0) cs.reverse) :
    normalizeChars (assemble slashes cs) = assemble slashes cs := by
  unfold assemble
  split
  -- nothing is left of the path, and `.` is normal
  · rfl
  · have hlead := leadingSlashes_replicate hle (head?_intercalate hnormal)
    have hcomponents : normalComponents (List.replicate slashes '/' ++ ['/'].intercalate cs) = cs := by
      rw [normalComponents, hlead, components_replicate, List.foldl_append, foldl_push_empty,
        foldl_components_intercalate hnormal, List.reverse_reverse]
    next hne =>
      rw [normalizeChars, hlead, hcomponents, assemble]
      split
      · next h => exact absurd h hne
      · rfl

/-- A path in normal form is its own normal form. -/
theorem normalizeChars_normalizeChars (path : List Char) :
    normalizeChars (normalizeChars path) = normalizeChars path :=
  normalizeChars_assemble (leadingSlashes_le path) (normal_normalComponents path)

/-- Whether a path starts at the root. -/
def IsAbsolute (path : String) : Prop :=
  path.toList.head? = some '/'

instance (path : String) : Decidable (IsAbsolute path) :=
  inferInstanceAs (Decidable (_ = _))

theorem isAbsolute_ofList {cs : List Char} : IsAbsolute (String.ofList cs) ↔ cs.head? = some '/' := by
  rw [IsAbsolute, String.toList_ofList]

theorem leadingSlashes_pos {path : List Char} (h : path.head? = some '/') : 0 < leadingSlashes path := by
  cases path with
  | nil => simp at h
  | cons c cs =>
    obtain rfl : c = '/' := by simpa using h
    unfold leadingSlashes
    split <;> simp_all

theorem isAbsolute_normalize {path : String} (h : IsAbsolute path) : IsAbsolute (normalize path) := by
  rw [normalize, isAbsolute_ofList, normalizeChars]
  obtain ⟨n, hn⟩ := Nat.exists_eq_add_of_lt (leadingSlashes_pos h)
  rw [hn, Nat.zero_add]
  rfl

theorem isAbsolute_join {cwd : String} (hcwd : IsAbsolute cwd) (path : String) :
    IsAbsolute (join cwd path) := by
  rw [join, isAbsolute_ofList]
  unfold joinChars
  split
  · next hpath => rw [hpath]; rfl
  · split <;> simp [List.head?_append, show cwd.toList.head? = some '/' from hcwd]

theorem join_of_isAbsolute {path : String} (h : IsAbsolute path) (cwd : String) :
    join cwd path = path := by
  have hjoin : joinChars cwd.toList path.toList = path.toList := by
    unfold joinChars
    split
    · rfl
    · next hslash =>
      obtain ⟨rest, hrest⟩ := List.head?_eq_some_iff.1 h
      exact absurd hrest (hslash rest)
  rw [join, hjoin, String.ofList_toList]

/-- Seen from an absolute folder, an absolute normal form stays as it is. -/
theorem absolute_absolute {cwd : String} (hcwd : IsAbsolute cwd) (path : String) :
    absolute cwd (absolute cwd path) = absolute cwd path := by
  have habs : IsAbsolute (absolute cwd path) := isAbsolute_normalize (isAbsolute_join hcwd path)
  rw [absolute, join_of_isAbsolute habs cwd]
  simp only [absolute, normalize, String.toList_ofList, normalizeChars_normalizeChars]

end Path

end SourceOutline
