import SourceOutline.Extract.Outline
import SourceOutline.Proofs.Chains
import SourceOutline.Proofs.Mentions

/-!
Two indexes that answer alike on a set of names, closed under what the answers mention, extract the same
outline from every declaration within that set.
-/
namespace SourceOutline

/-- Two indexes give the same answers on type names in `types` and on constants and variables in `values`,
and no answer leads out of these sets. -/
structure Index.AgreeOn (types values : String → Prop) (I J : Index) : Prop where
  type_eq : ∀ name, types name → I.type? name = J.type? name
  value_eq : ∀ name, values name → I.value? name = J.value? name
  type_mentions : ∀ name spec, types name → I.type? name = some spec →
    ∀ m ∈ spec.type.mentions, types m
  literal_mentions : ∀ name spec e, values name → I.value? name = some (spec, e) →
    ∀ m ∈ e.typeMentions, types m
  ident_mentions : ∀ name spec e, values name → I.value? name = some (spec, e) →
    ∀ m ∈ e.identMentions, values m

namespace Index.AgreeOn

variable {types values : String → Prop} {I J : Index}

theorem hop_eq (h : AgreeOn types values I J) {name : String} (hn : types name) :
    I.hop name = J.hop name := by
  unfold Index.hop
  rw [h.type_eq name hn]

theorem types_of_hop (h : AgreeOn types values I J) {name target : String} (hn : types name)
    (hh : I.hop name = .next target) : types target := by
  unfold Index.hop at hh
  split at hh
  · simp at hh
  · split at hh
    · simp at hh
    · next spec hs =>
      split at hh
      · next hcore =>
        have hm : target ∈ spec.type.innermost.pointee.mentions := by
          rw [hcore, ← Hop.next.inj hh]
          simp
        exact h.type_mentions name spec hn hs target (spec.type.mentions_core_subset hm)
      · simp at hh
      · simp at hh

theorem walk_eq (h : AgreeOn types values I J) (visited : List String) {name : String}
    (hn : types name) : I.walk visited name = J.walk visited name := by
  fun_induction Index.walk I visited name with
  | case1 visited name type hs => rw [J.walk_step, ← h.hop_eq hn, hs]
  | case2 visited name target hs hv => rw [J.walk_step, ← h.hop_eq hn, hs]; exact (if_pos hv).symm
  | case3 visited name target hs hv ih =>
    rw [J.walk_step, ← h.hop_eq hn, hs, ih (h.types_of_hop hn hs)]
    exact (if_neg hv).symm

theorem follow_eq (h : AgreeOn types values I J) (visited : List String) {name : String}
    (hn : values name) : I.follow visited name = J.follow visited name := by
  fun_induction Index.follow I visited name with
  | case1 visited name hb => rw [J.follow_step, if_pos hb]
  | case2 visited name hb hv => rw [J.follow_step, if_neg hb, if_pos hv]
  | case3 visited name hb hv hf => rw [J.follow_step, if_neg hb, if_neg hv, ← h.value_eq name hn, hf]
  | case4 visited name hb hv spec next hf ih =>
    have hnext : values next :=
      h.ident_mentions name spec (.ident next) hn hf next (by simp)
    rw [J.follow_step, if_neg hb, if_neg hv, ← h.value_eq name hn, hf]
    exact ih hnext
  | case5 visited name hb hv spec value hi hf =>
    rw [J.follow_step, if_neg hb, if_neg hv, ← h.value_eq name hn, hf]
    cases value with
    | ident next => exact absurd rfl (hi next)
    | _ => rfl

/-- The value at the end of a chain of identifiers mentions types within the set only. -/
theorem types_of_follow (h : AgreeOn types values I J) {visited : List String} {name : String}
    {e : Expr} (hn : values name) (hf : I.follow visited name = .ok e) :
    ∀ m ∈ e.typeMentions, types m := by
  fun_induction Index.follow I visited name with
  | case1 visited name hb =>
    cases hf
    simp [Expr.typeMentions]
  | case2 visited name hb hv => cases hf
  | case3 visited name hb hv hn => cases hf
  | case4 visited name hb hv spec next hs ih =>
    exact ih (h.ident_mentions name spec _ hn hs next (by simp)) hf
  | case5 visited name hb hv spec value hi hs =>
    cases hf
    exact h.literal_mentions name spec _ hn hs

variable (imports : ImportTable)

theorem namedElement_eq (h : AgreeOn types values I J) {name : String} (hn : types name) :
    namedElement ⟨I, imports⟩ name = namedElement ⟨J, imports⟩ name := by
  unfold namedElement Index.resolve
  rw [h.walk_eq [] hn]
  rfl

mutual

theorem elementResolution_eq (h : AgreeOn types values I J) :
    (t : TypeExpr) → (∀ m ∈ t.mentions, types m) →
      elementResolution ⟨I, imports⟩ t = elementResolution ⟨J, imports⟩ t
  | .array element _, hm => elementResolution_eq h element hm
  | .pointer target, hm => targetResolution_eq h target hm
  | .named name, hm => by
    rw [elementResolution, elementResolution, h.namedElement_eq imports (hm name (by simp))]
  | .qualified _ _, _ => rfl
  | .struct fields, hm => by
    rw [elementResolution, elementResolution, extractFields_eq h fields hm]
  | .map _ _, _ => rfl
  | .unsupported _ _, _ => rfl

theorem targetResolution_eq (h : AgreeOn types values I J) :
    (t : TypeExpr) → (∀ m ∈ t.mentions, types m) →
      targetResolution ⟨I, imports⟩ t = targetResolution ⟨J, imports⟩ t
  | .named name, hm => by
    rw [targetResolution, targetResolution, h.namedElement_eq imports (hm name (by simp))]
  | .struct fields, hm => by
    rw [targetResolution, targetResolution, extractFields_eq h fields hm]
  | .qualified _ _, _ => rfl
  | .array _ _, _ => rfl
  | .pointer _, _ => rfl
  | .map _ _, _ => rfl
  | .unsupported _ _, _ => rfl

theorem typeResolution_eq (h : AgreeOn types values I J) :
    (t : TypeExpr) → (∀ m ∈ t.mentions, types m) →
      typeResolution ⟨I, imports⟩ t = typeResolution ⟨J, imports⟩ t
  | .struct fields, hm => by
    rw [typeResolution, typeResolution, extractFields_eq h fields hm]
  | .array element _, hm => elementResolution_eq h element hm
  | .named _, _ => rfl
  | .qualified _ _, _ => rfl
  | .map _ value, _ => by cases value <;> rfl
  | .pointer _, _ => rfl
  | .unsupported _ _, _ => rfl

theorem classifyField_eq (h : AgreeOn types values I J) :
    (f : Field) → (∀ m ∈ f.mentions, types m) →
      classifyField ⟨I, imports⟩ f = classifyField ⟨J, imports⟩ f
  | ⟨names, type, tag, doc, line⟩, hm => by
    unfold classifyField
    rw [typeResolution_eq h type hm]

theorem extractFields_eq (h : AgreeOn types values I J) :
    (fields : List Field) → (∀ m ∈ fieldMentions fields, types m) →
      extractFields ⟨I, imports⟩ fields = extractFields ⟨J, imports⟩ fields
  | [], _ => rfl
  | field :: rest, hm => by
    have hfield : ∀ m ∈ field.mentions, types m := fun m hin => hm m (List.mem_append_left _ hin)
    have hrest : ∀ m ∈ fieldMentions rest, types m := fun m hin => hm m (List.mem_append_right _ hin)
    rw [extractFields, extractFields, classifyField_eq h field hfield, extractFields_eq h rest hrest]

end

theorem compositeType_eq (h : AgreeOn types values I J) {t : TypeExpr}
    (hm : ∀ m ∈ t.mentions, types m) : compositeType I t = compositeType J t := by
  cases t with
  | named name =>
    have hn : types name := hm name (by simp)
    simp only [compositeType, h.type_eq name hn]
  | _ => rfl

theorem types_of_compositeType (h : AgreeOn types values I J) {t : TypeExpr}
    (hm : ∀ m ∈ t.mentions, types m) : ∀ m ∈ (compositeType I t).mentions, types m := by
  cases t with
  | named name =>
    have hn : types name := hm name (by simp)
    simp only [compositeType]
    split
    · next spec hs =>
      have hspec := h.type_mentions name spec hn hs
      split
      · next ht => rw [ht] at hspec; exact hspec
      · next ht => rw [ht] at hspec; exact hspec
      · exact hm
    · exact hm
  | _ => exact hm

theorem sliceEntry_eq (h : AgreeOn types values I J) (name : String) (spec : ValueSpec)
    {element : TypeExpr} (elements : List Element) (hm : ∀ m ∈ element.mentions, types m) :
    sliceEntry ⟨I, imports⟩ name spec element elements =
      sliceEntry ⟨J, imports⟩ name spec element elements := by
  unfold sliceEntry
  rw [h.elementResolution_eq imports element hm]

theorem valueEntry_eq (h : AgreeOn types values I J) (name : String) (spec : ValueSpec) {e : Expr}
    (hm : ∀ m ∈ e.typeMentions, types m) :
    valueEntry ⟨I, imports⟩ name spec e = valueEntry ⟨J, imports⟩ name spec e := by
  cases e with
  | composite type elements =>
    have hc := h.types_of_compositeType hm
    simp only [valueEntry, ← h.compositeType_eq hm]
    split
    · exact mapEntry_of_imports rfl name spec _ elements
    · next element length ht =>
      rw [ht] at hc
      exact h.sliceEntry_eq imports name spec elements hc
    · rfl
  | _ => rfl

theorem initializerEntry_eq (h : AgreeOn types values I J) (name : String) (spec : ValueSpec)
    {e : Expr} (ht : ∀ m ∈ e.typeMentions, types m) (hi : ∀ m ∈ e.identMentions, values m) :
    initializerEntry ⟨I, imports⟩ name spec e = initializerEntry ⟨J, imports⟩ name spec e := by
  cases e with
  | ident other =>
    have hv : values other := hi other (by simp)
    simp only [initializerEntry, Index.dereference, ← h.follow_eq [] hv]
    split
    · rfl
    · next target hf => exact h.valueEntry_eq imports name spec (h.types_of_follow hv hf)
  | _ => exact h.valueEntry_eq imports name spec ht

theorem valueEntries_eq (h : AgreeOn types values I J) (spec : ValueSpec)
    (ht : ∀ m ∈ spec.values.flatMap Expr.typeMentions, types m)
    (hi : ∀ m ∈ spec.values.flatMap Expr.identMentions, values m) :
    valueEntries ⟨I, imports⟩ spec = valueEntries ⟨J, imports⟩ spec := by
  have hsteps : spec.values.zipIdx.map (fun p =>
        initializerEntry ⟨I, imports⟩ (spec.nameFor p.2) spec p.1) =
      spec.values.zipIdx.map (fun p =>
        initializerEntry ⟨J, imports⟩ (spec.nameFor p.2) spec p.1) := by
    refine List.map_congr_left fun p hp => ?_
    have hmem : p.1 ∈ spec.values := List.fst_mem_of_mem_zipIdx hp
    exact h.initializerEntry_eq imports _ spec
      (fun m hin => ht m (List.mem_flatMap.2 ⟨p.1, hmem, hin⟩))
      (fun m hin => hi m (List.mem_flatMap.2 ⟨p.1, hmem, hin⟩))
  unfold valueEntries
  rw [hsteps]

theorem typedEntries_eq (h : AgreeOn types values I J) (spec : ValueSpec)
    (ht : ∀ t, spec.type = some t → ∀ m ∈ t.mentions, types m) :
    typedEntries ⟨I, imports⟩ spec = typedEntries ⟨J, imports⟩ spec := by
  unfold typedEntries
  split
  · rfl
  · next t hs => rw [h.typeResolution_eq imports t (ht t hs)]

theorem structOf_eq (h : AgreeOn types values I J) (spec : TypeSpec)
    (hm : ∀ m ∈ spec.type.mentions, types m) :
    structOf ⟨I, imports⟩ spec = structOf ⟨J, imports⟩ spec := by
  unfold structOf
  split
  · next fields hs =>
    rw [hs] at hm
    rw [h.extractFields_eq imports fields hm]
  · rfl

theorem declOutline_eq (h : AgreeOn types values I J) (d : Decl)
    (ht : ∀ m ∈ d.typeMentions, types m) (hi : ∀ m ∈ d.identMentions, values m) :
    declOutline ⟨I, imports⟩ d = declOutline ⟨J, imports⟩ d := by
  cases d with
  | type spec => rw [declOutline, declOutline, h.structOf_eq imports spec ht]
  | value spec =>
    have htyped : ∀ t, spec.type = some t → ∀ m ∈ t.mentions, types m := by
      intro t hs m hin
      exact ht m (List.mem_append_left _ (by rw [hs]; exact hin))
    have hvalues : ∀ m ∈ spec.values.flatMap Expr.typeMentions, types m :=
      fun m hin => ht m (List.mem_append_right _ hin)
    rw [declOutline, declOutline, h.typedEntries_eq imports spec htyped,
      h.valueEntries_eq imports spec hvalues hi]

/-- A file that mentions names within the sets only has the same outline under both indexes, and leaves
out the same. -/
theorem fileOutline_eq (h : AgreeOn types values I J) (file : GoFile)
    (ht : ∀ m ∈ file.typeMentions, types m) (hi : ∀ m ∈ file.identMentions, values m) :
    fileOutline I file = fileOutline J file := by
  have hdecls : file.decls.map (declOutline ⟨I, file.importTable⟩) =
      file.decls.map (declOutline ⟨J, file.importTable⟩) := by
    refine List.map_congr_left fun d hd => ?_
    exact h.declOutline_eq _ d (fun m hin => ht m (List.mem_flatMap.2 ⟨d, hd, hin⟩))
      (fun m hin => hi m (List.mem_flatMap.2 ⟨d, hd, hin⟩))
  simp only [fileOutline, hdecls]

end Index.AgreeOn

end SourceOutline
