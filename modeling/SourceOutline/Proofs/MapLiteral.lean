import SourceOutline.Extract.Values

/-!
Map literals: which elements are in the map, and what is said about the others. The loop over the elements keeps
the map at the first occurrences of the keys that it has passed.
-/
namespace SourceOutline

/-- Whether an element adds to a map: it has a key that no element before it has. -/
def Element.adds (before : List Element) (e : Element) : Bool :=
  match e.key with
  | none => false
  | some key => !before.any (·.key == some key)

def Element.pair? (e : Element) : Option (String × String) :=
  e.key.map fun key => (key, e.value)

/-- Why an element is not in the map. -/
def Element.fault (e : Element) : Reason :=
  match e.key with
  | none => .keylessElement
  | some key => .duplicateKey key

/-- What is said about an element after those before it. Nothing is said where it brings a key that is new. -/
def Element.complaint (before : List Element) (e : Element) : Option String :=
  match e.key with
  | none => some "map element without key"
  | some key => if some key ∈ before.map (·.key) then some ("duplicate map key " ++ key) else none

/-- The elements of a literal that are in the map, in order. -/
def keptElements (elements : List Element) : List Element :=
  (elements.zipIdx.filter fun p => p.1.adds (elements.take p.2)).map (·.1)

/-- The elements of a literal that are not in the map, in order. -/
def droppedElements (elements : List Element) : List Element :=
  (elements.zipIdx.filter fun p => !p.1.adds (elements.take p.2)).map (·.1)

section Places

/-- The place of the first element with a key; the number of elements where none has it. -/
def firstPlace (elements : List Element) (key : String) : Nat :=
  (elements.map (·.key)).idxOf (some key)

variable {elements : List Element} {key : String}

theorem mem_keys_iff : some key ∈ elements.map (·.key) ↔ ∃ e ∈ elements, e.key = some key :=
  List.mem_map

theorem firstPlace_append (h : ∃ e ∈ elements, e.key = some key) (more : List Element) :
    firstPlace (elements ++ more) key = firstPlace elements key := by
  unfold firstPlace
  rw [List.map_append, List.idxOf_append, if_pos (mem_keys_iff.2 h)]

theorem firstPlace_lt (h : ∃ e ∈ elements, e.key = some key) : firstPlace elements key < elements.length := by
  have hlt := List.idxOf_lt_length_of_mem (mem_keys_iff.2 h)
  rwa [List.length_map] at hlt

theorem firstPlace_new (h : ¬∃ e ∈ elements, e.key = some key) {e : Element} (hkey : e.key = some key) :
    firstPlace (elements ++ [e]) key = elements.length := by
  have hnot : some key ∉ elements.map (·.key) := fun hin => h (mem_keys_iff.1 hin)
  unfold firstPlace
  rw [List.map_append, List.idxOf_append, if_neg hnot, List.length_map]
  simp [hkey]

end Places

section Adding

variable {before : List Element} {e : Element} {key : String}

theorem Element.mem_of_not_adds (hkey : e.key = some key) (hadds : e.adds before = false) :
    ∃ other ∈ before, other.key = some key := by
  simpa [Element.adds, hkey] using hadds

theorem Element.not_mem_of_adds (hkey : e.key = some key) (hadds : e.adds before = true) :
    ¬∃ other ∈ before, other.key = some key := by
  simpa [Element.adds, hkey] using hadds

end Adding

/-- The pairs of a map are the first occurrences of the keys among some elements: each key once, in the order in
which they are first met, with the value that they are first met with. -/
structure FirstsOf (elements : List Element) (pairs : List (String × String)) : Prop where
  distinct : (pairs.map (·.1)).Nodup
  keys : ∀ key, key ∈ pairs.map (·.1) ↔ ∃ e ∈ elements, e.key = some key
  ordered : (pairs.map (·.1)).Pairwise fun a b => firstPlace elements a < firstPlace elements b
  value : ∀ key text, (key, text) ∈ pairs → elements[firstPlace elements key]? = some ⟨text, some key⟩

namespace FirstsOf

variable {before : List Element} {pairs : List (String × String)} {e : Element} {key : String}

theorem nil : FirstsOf [] [] := by
  constructor <;> simp

theorem any_eq (h : FirstsOf before pairs) (key : String) :
    pairs.any (·.1 == key) = before.any (·.key == some key) := by
  have hkeys := h.keys key
  rw [Bool.eq_iff_iff]
  simpa using hkeys

/-- An element that adds nothing leaves the first occurrences as they are. -/
theorem skip (h : FirstsOf before pairs) (hadds : e.adds before = false) : FirstsOf (before ++ [e]) pairs := by
  have hplace : ∀ key ∈ pairs.map (·.1), firstPlace (before ++ [e]) key = firstPlace before key :=
    fun key hkey => firstPlace_append ((h.keys key).1 hkey) [e]
  constructor
  · exact h.distinct
  · intro key
    rw [h.keys key]
    constructor
    · rintro ⟨other, hother, hsame⟩
      exact ⟨other, List.mem_append_left _ hother, hsame⟩
    · rintro ⟨other, hother, hsame⟩
      rcases List.mem_append.1 hother with hbefore | hlast
      · exact ⟨other, hbefore, hsame⟩
      · obtain rfl := List.mem_singleton.1 hlast
        exact Element.mem_of_not_adds hsame hadds
  · apply h.ordered.imp_of_mem
    intro a b ha hb hlt
    rwa [hplace a ha, hplace b hb]
  · intro key text hpair
    have hkey : key ∈ pairs.map (·.1) := List.mem_map_of_mem hpair
    have hlt := firstPlace_lt ((h.keys key).1 hkey)
    rw [hplace key hkey, List.getElem?_append_left hlt]
    exact h.value key text hpair

/-- An element that adds a key is its first occurrence, after all the others. -/
theorem add (h : FirstsOf before pairs) (hkey : e.key = some key) (hadds : e.adds before = true) :
    FirstsOf (before ++ [e]) (pairs ++ [(key, e.value)]) := by
  have hnew := Element.not_mem_of_adds hkey hadds
  have hlast := firstPlace_new hnew hkey
  have hplace : ∀ other ∈ pairs.map (·.1),
      firstPlace (before ++ [e]) other = firstPlace before other ∧ firstPlace before other < before.length := by
    intro other hother
    have hin := (h.keys other).1 hother
    exact ⟨firstPlace_append hin [e], firstPlace_lt hin⟩
  constructor
  · rw [List.map_append, List.nodup_append]
    refine ⟨h.distinct, by simp, ?_⟩
    rintro a ha b hb rfl
    obtain rfl : a = key := by simpa using hb
    exact hnew ((h.keys a).1 ha)
  · intro other
    rw [List.map_append, List.mem_append, h.keys other]
    simp [or_and_right, exists_or, hkey, eq_comm]
  · rw [List.map_append, List.pairwise_append]
    refine ⟨?_, by simp, ?_⟩
    · apply h.ordered.imp_of_mem
      intro a b ha hb hlt
      rwa [(hplace a ha).1, (hplace b hb).1]
    · intro a ha b hb
      obtain rfl : b = key := by simpa using hb
      rw [(hplace a ha).1, hlast]
      exact (hplace a ha).2
  · intro other text hpair
    rcases List.mem_append.1 hpair with hold | hadded
    · obtain ⟨hsame, hlt⟩ := hplace other (List.mem_map_of_mem hold)
      rw [hsame, List.getElem?_append_left hlt]
      exact h.value other text hold
    · obtain ⟨rfl, rfl⟩ : other = key ∧ text = e.value := by simpa using hadded
      rw [hlast, List.getElem?_concat_length, ← hkey]

end FirstsOf

section Loop

variable {before : List Element} {pairs : List (String × String)} {e : Element}

theorem mapEntries_of_not_adds (name : String) (line : Int) (h : FirstsOf before pairs)
    (hadds : e.adds before = false) (rest : List Element) :
    mapEntries name line pairs (e :: rest) =
      ⟨(mapEntries name line pairs rest).value,
        ⟨.initializer, name, e.fault, line⟩ :: (mapEntries name line pairs rest).omitted⟩ := by
  cases hkey : e.key with
  | none => simp only [mapEntries, Element.fault, hkey]
  | some key =>
    have hin : pairs.any (·.1 == key) = true := by
      rw [h.any_eq]
      simpa [Element.adds, hkey] using hadds
    simp only [mapEntries, Element.fault, hkey, if_pos hin]

theorem mapEntries_of_adds (name : String) (line : Int) (h : FirstsOf before pairs)
    (hadds : e.adds before = true) (rest : List Element) :
    ∃ key, e.key = some key ∧
      mapEntries name line pairs (e :: rest) = mapEntries name line (pairs ++ [(key, e.value)]) rest := by
  cases hkey : e.key with
  | none => simp [Element.adds, hkey] at hadds
  | some key =>
    have hnot : ¬pairs.any (·.1 == key) = true := by
      rw [h.any_eq]
      simpa [Element.adds, hkey] using hadds
    exact ⟨key, rfl, by simp only [mapEntries, hkey, if_neg hnot]⟩

/-- The loop over the elements, from any place in the literal on. -/
private theorem mapEntries_from (name : String) (line : Int) (h : FirstsOf before pairs) (rest : List Element) :
    mapEntries name line pairs rest =
        ⟨pairs ++ ((rest.zipIdx before.length).filter fun p =>
            p.1.adds ((before ++ rest).take p.2)).filterMap (·.1.pair?),
          ((rest.zipIdx before.length).filter fun p =>
            !p.1.adds ((before ++ rest).take p.2)).map fun p =>
              ⟨.initializer, name, p.1.fault, line⟩⟩ ∧
      FirstsOf (before ++ rest) (mapEntries name line pairs rest).value := by
  -- the map has exactly the keys of the elements passed, so these decide whether the next one adds to it
  induction rest generalizing before pairs with
  | nil =>
    rw [List.append_nil]
    exact ⟨by simp [mapEntries, Noted.pure], h⟩
  | cons e rest ih =>
    have hhere : (before ++ e :: rest).take before.length = before := List.take_left
    have hlen : before.length + 1 = (before ++ [e]).length := by simp
    rw [List.zipIdx_cons, List.filter_cons, List.filter_cons, hhere, hlen, List.append_cons]
    cases hadds : e.adds before with
    | false =>
      obtain ⟨heq, hfirsts⟩ := ih (h.skip hadds)
      rw [mapEntries_of_not_adds name line h hadds]
      refine ⟨?_, hfirsts⟩
      rw [heq]
      simp
    | true =>
      obtain ⟨key, hkey, hnext⟩ := mapEntries_of_adds name line h hadds rest
      obtain ⟨heq, hfirsts⟩ := ih (h.add hkey hadds)
      rw [hnext]
      refine ⟨?_, hfirsts⟩
      rw [heq]
      simp [Element.pair?, hkey]

end Loop

section Literal

variable (name : String) (line : Int) (elements : List Element)

/-- The map of a literal holds the elements that add to it, and each other element is reported. -/
theorem mapEntries_eq :
    mapEntries name line [] elements =
      ⟨(keptElements elements).filterMap Element.pair?,
        (droppedElements elements).map fun e => ⟨.initializer, name, e.fault, line⟩⟩ := by
  rw [(mapEntries_from name line .nil elements).1, keptElements, droppedElements, List.filterMap_map,
    List.map_map]
  rfl

theorem mapEntries_firsts : FirstsOf elements (mapEntries name line [] elements).value :=
  (mapEntries_from name line .nil elements).2

theorem mapEntries_length (pairs : List (String × String)) :
    (mapEntries name line pairs elements).value.length + (mapEntries name line pairs elements).omitted.length =
      pairs.length + elements.length := by
  induction elements generalizing pairs with
  | nil => rfl
  | cons e rest ih =>
    have hsame := ih pairs
    rw [mapEntries]
    cases e.key with
    | none =>
      simp only [List.length_cons]
      omega
    | some key =>
      have hmore := ih (pairs ++ [(key, e.value)])
      rw [List.length_append, List.length_singleton] at hmore
      dsimp only
      split
      · simp only [List.length_cons]
        omega
      · rw [hmore, List.length_cons]
        omega

theorem Element.complaint_eq (before : List Element) (e : Element) :
    e.complaint before = if e.adds before then none else some e.fault.text := by
  cases hkey : e.key with
  | none =>
    have hadds : e.adds before = false := by simp only [Element.adds, hkey]
    simp only [Element.complaint, Element.fault, hkey, hadds]
    rfl
  | some key =>
    cases hadds : e.adds before with
    | false =>
      have hin := mem_keys_iff.2 (Element.mem_of_not_adds hkey hadds)
      simp only [Element.complaint, Element.fault, hkey, if_pos hin]
      rfl
    | true =>
      have hnot := mt mem_keys_iff.1 (Element.not_mem_of_adds hkey hadds)
      simp only [Element.complaint, hkey, if_neg hnot]
      rfl

theorem mapEntries_complaints :
    (mapEntries name line [] elements).omitted.map (fun o => (o.subject, o.name, o.reason.text, o.line)) =
      elements.zipIdx.filterMap fun p =>
        (p.1.complaint (elements.take p.2)).map fun text => (Subject.initializer, name, text, line) := by
  rw [mapEntries_eq, droppedElements, List.map_map, List.map_map, ← List.filterMap_eq_map, List.filterMap_filter]
  congr 1
  funext p
  rw [Element.complaint_eq]
  cases p.1.adds (elements.take p.2) <;> rfl

end Literal

/-- A map literal keeps the first occurrence of each key.

Its entry holds the keys of the elements once each, in the order in which they are first met and with the values
that they are first met with. What is left out is, in the order of the elements, those without a key and those with
a key that was met before; so each element is in the map or is left out. -/
theorem mapEntry_keeps_firsts (scope : Scope) (name : String) (spec : ValueSpec) (value : TypeExpr)
    (elements : List Element) :
    ∃ entry pairs, (mapEntry scope name spec value elements).value = some entry ∧
      entry.value = .entries pairs ∧ FirstsOf elements pairs ∧
      (mapEntry scope name spec value elements).omitted.map
          (fun o => (o.subject, o.name, o.reason.text, o.line)) =
        (elements.zipIdx.filterMap fun p =>
          (p.1.complaint (elements.take p.2)).map fun text =>
            (Subject.initializer, name, text, spec.line)) ∧
      elements.length = pairs.length + (mapEntry scope name spec value elements).omitted.length := by
  have hfirsts := mapEntries_firsts name spec.line elements
  have hsaid := mapEntries_complaints name spec.line elements
  have hlength := mapEntries_length name spec.line elements []
  rw [List.length_nil, Nat.zero_add] at hlength
  exact ⟨_, _, rfl, rfl, hfirsts, hsaid, hlength.symm⟩

example :
    (mapEntries "codes" 3 [] [⟨"1", some "a"⟩, ⟨"2", none⟩, ⟨"3", some "b"⟩, ⟨"4", some "a"⟩]).value =
      [("a", "1"), ("b", "3")] := by
  decide

end SourceOutline
