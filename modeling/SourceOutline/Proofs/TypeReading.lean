import SourceOutline.Extract.Types

/-!
The text of a type can be read in one way only. No text of a type begins that of another one where a closing bracket
or nothing follows, so types that differ have different texts. Maps are known by the text of their values, save that
a qualified name loses its package there.
-/
namespace SourceOutline

/-- The characters that stand between the names of a type. -/
def isTypeMark (c : Char) : Bool :=
  c == '*' || c == '[' || c == ']' || c == '.'

/-- A name, of a type or of a package, as it stands in the text of a type. -/
structure IsTypeName (name : String) : Prop where
  nonempty : name ≠ ""
  unmarked : ∀ c ∈ name.toList, isTypeMark c = false

/-- A length that can stand between brackets. A slice has none. -/
def IsTypeLength (length : Option String) : Prop :=
  ∀ n, length = some n → n ≠ "" ∧ '[' ∉ n.toList ∧ ']' ∉ n.toList

/-- Types made of names, pointers, arrays and maps. -/
inductive TypeExpr.IsReadable : TypeExpr → Prop
  | named {name : String} (hname : IsTypeName name) : IsReadable (.named name)
  | qualified {package name : String} (hpackage : IsTypeName package) (hname : IsTypeName name) :
      IsReadable (.qualified package name)
  | pointer {target : TypeExpr} (htarget : IsReadable target) : IsReadable (.pointer target)
  | array {element : TypeExpr} {length : Option String} (helement : IsReadable element)
      (hlength : IsTypeLength length) : IsReadable (.array element length)
  | map {key value : TypeExpr} (hkey : IsReadable key) (hvalue : IsReadable value) : IsReadable (.map key value)

/-- What can follow a type: the bracket that closes the key of a map, or nothing. -/
def ClosesType (rest : List Char) : Prop :=
  ∀ c, rest.head? = some c → c = ']'

theorem closesType_nil : ClosesType [] := by
  simp [ClosesType]

theorem closesType_bracket (rest : List Char) : ClosesType (']' :: rest) := by
  simp [ClosesType]

theorem takeWhile_append_of_stop {p : Char → Bool} {cs rest : List Char} (hcs : ∀ c ∈ cs, p c = true)
    (hrest : ∀ c, rest.head? = some c → p c = false) : (cs ++ rest).takeWhile p = cs := by
  rw [List.takeWhile_append_of_pos hcs]
  cases rest with
  | nil => simp
  | cons c rest => simp [hrest c rfl]

/-- Two texts are cut alike where a class of characters ends. -/
theorem append_inj_of_stop {p : Char → Bool} {a b r s : List Char} (ha : ∀ c ∈ a, p c = true)
    (hb : ∀ c ∈ b, p c = true) (hr : ∀ c, r.head? = some c → p c = false)
    (hs : ∀ c, s.head? = some c → p c = false) (h : a ++ r = b ++ s) : a = b ∧ r = s := by
  have hab : a = b := by
    rw [← takeWhile_append_of_stop ha hr, h, takeWhile_append_of_stop hb hs]
  rw [hab] at h
  exact ⟨hab, List.append_cancel_left h⟩

section Names

variable {a b : String} {r s : List Char}

theorem IsTypeName.append_inj (ha : IsTypeName a) (hb : IsTypeName b)
    (hr : ∀ c, r.head? = some c → isTypeMark c = true) (hs : ∀ c, s.head? = some c → isTypeMark c = true)
    (h : a.toList ++ r = b.toList ++ s) : a = b ∧ r = s := by
  obtain ⟨hab, hrs⟩ := append_inj_of_stop (p := fun c => !isTypeMark c) (by simpa using ha.unmarked)
    (by simpa using hb.unmarked) (by simpa using hr) (by simpa using hs) h
  exact ⟨String.toList_injective hab, hrs⟩

theorem ClosesType.isTypeMark (hr : ClosesType r) : ∀ c, r.head? = some c → isTypeMark c = true := by
  intro c hc
  rw [hr c hc]
  decide

theorem IsTypeLength.eq_of_text {m n : Option String} (hm : IsTypeLength m) (hn : IsTypeLength n)
    (h : lengthText m = lengthText n) : m = n := by
  cases m with
  | none =>
    cases n with
    | none => rfl
    | some n => exact absurd h.symm (hn n rfl).1
  | some m =>
    cases n with
    | none => exact absurd h (hm m rfl).1
    | some n => exact congrArg some h

theorem IsTypeLength.unclosed {m : Option String} (hm : IsTypeLength m) :
    ∀ c ∈ (lengthText m).toList, (c != ']') = true := by
  cases m with
  | none => simp [lengthText]
  | some m =>
    intro c hc
    have hne : c ≠ ']' := fun heq => (hm m rfl).2.2 (heq ▸ hc)
    simpa using hne

theorem IsTypeLength.append_inj {m n : Option String} (hm : IsTypeLength m) (hn : IsTypeLength n)
    (h : (lengthText m).toList ++ ']' :: r = (lengthText n).toList ++ ']' :: s) : m = n ∧ r = s := by
  obtain ⟨hmn, hrs⟩ := append_inj_of_stop hm.unclosed hn.unclosed (by simp) (by simp) h
  exact ⟨hm.eq_of_text hn (String.toList_injective hmn), List.tail_eq_of_cons_eq hrs⟩

end Names

namespace TypeExpr

section Texts

variable (package name : String) (length : Option String) (t u : TypeExpr)

theorem toList_text_qualified : (qualified package name).text.toList = package.toList ++ '.' :: name.toList := by
  simp [text]

theorem toList_text_pointer : (pointer t).text.toList = '*' :: t.text.toList := by
  simp [text]

theorem toList_text_array :
    (array t length).text.toList = '[' :: ((lengthText length).toList ++ ']' :: t.text.toList) := by
  simp [text]

theorem toList_text_map :
    (map t u).text.toList = "map".toList ++ '[' :: (t.text.toList ++ ']' :: u.text.toList) := by
  simp [text]

end Texts

/-- How a type begins: whether with a mark, and what mark comes first, unless it closes the type. -/
def opening : TypeExpr → Bool × Option Char
  | .qualified _ _ => (false, some '.')
  | .pointer _ => (true, some '*')
  | .array _ _ => (true, some '[')
  | .map _ _ => (false, some '[')
  | _ => (false, none)

/-- How the text of a type begins. -/
def openingOf (cs : List Char) : Bool × Option Char :=
  (cs.head?.any isTypeMark, (cs.dropWhile (!isTypeMark ·)).head?.filter (· ≠ ']'))

theorem openingOf_name {name : String} {rest : List Char} (hname : IsTypeName name)
    (hrest : ∀ c, rest.head? = some c → isTypeMark c = true) :
    openingOf (name.toList ++ rest) = (false, rest.head?.filter (· ≠ ']')) := by
  have hfirst : (name.toList ++ rest).head?.any isTypeMark = false := by
    have hne : name.toList ≠ [] := by simpa using hname.nonempty
    obtain ⟨c, cs, hcs⟩ := List.exists_cons_of_ne_nil hne
    have hc := hname.unmarked c (by simp [hcs])
    simp [hcs, hc]
  have hstop : (name.toList ++ rest).dropWhile (!isTypeMark ·) = rest := by
    rw [List.dropWhile_append_of_pos (by simpa using hname.unmarked)]
    cases rest with
    | nil => rfl
    | cons c rest => simp [hrest c rfl]
  rw [openingOf, hfirst, hstop]

theorem isTypeName_map : IsTypeName "map" := by
  constructor
  · decide
  · simp [isTypeMark]

theorem IsReadable.openingOf_text {t : TypeExpr} (ht : t.IsReadable) {r : List Char} (hr : ClosesType r) :
    openingOf (t.text.toList ++ r) = t.opening := by
  cases ht with
  | named hname =>
    have hclosed : r.head?.filter (· ≠ ']') = none := by
      simpa [ClosesType] using hr
    rw [text, openingOf_name hname hr.isTypeMark, hclosed]
    rfl
  | qualified hpackage _ =>
    rw [toList_text_qualified, List.append_assoc, openingOf_name hpackage (by simp [isTypeMark])]
    rfl
  | pointer _ =>
    rw [toList_text_pointer]
    rfl
  | array _ _ =>
    rw [toList_text_array]
    rfl
  | map _ _ =>
    rw [toList_text_map, List.append_assoc, openingOf_name isTypeName_map (by simp [isTypeMark])]
    rfl

theorem IsReadable.opening_eq {t u : TypeExpr} (ht : t.IsReadable) (hu : u.IsReadable) {r s : List Char}
    (hr : ClosesType r) (hs : ClosesType s) (h : t.text.toList ++ r = u.text.toList ++ s) :
    t.opening = u.opening := by
  rw [← ht.openingOf_text hr, h, hu.openingOf_text hs]

/-- Unique readability: a type and what follows it are known from their text. -/
theorem IsReadable.text_append_inj {t u : TypeExpr} (ht : t.IsReadable) (hu : u.IsReadable) {r s : List Char}
    (hr : ClosesType r) (hs : ClosesType s) (h : t.text.toList ++ r = u.text.toList ++ s) : t = u ∧ r = s := by
  -- the two types open alike, so in each case `u` has the constructor of `t`
  induction ht generalizing u r s with
  | named hname =>
    have hopening := (IsReadable.named hname).opening_eq hu hr hs h
    cases hu with
    | named hother =>
      obtain ⟨rfl, hrs⟩ := hname.append_inj hother hr.isTypeMark hs.isTypeMark h
      exact ⟨rfl, hrs⟩
    | _ => simp [opening] at hopening
  | qualified hpackage hname =>
    have hopening := (IsReadable.qualified hpackage hname).opening_eq hu hr hs h
    cases hu with
    | qualified hother hothername =>
      simp only [toList_text_qualified, List.append_assoc, List.cons_append] at h
      obtain ⟨rfl, hdot⟩ := hpackage.append_inj hother (by simp [isTypeMark]) (by simp [isTypeMark]) h
      have hrest := List.tail_eq_of_cons_eq hdot
      obtain ⟨rfl, hrs⟩ := hname.append_inj hothername hr.isTypeMark hs.isTypeMark hrest
      exact ⟨rfl, hrs⟩
    | _ => simp [opening] at hopening
  | pointer htarget ih =>
    have hopening := (IsReadable.pointer htarget).opening_eq hu hr hs h
    cases hu with
    | pointer hother =>
      simp only [toList_text_pointer, List.cons_append] at h
      obtain ⟨rfl, hrs⟩ := ih hother hr hs (List.tail_eq_of_cons_eq h)
      exact ⟨rfl, hrs⟩
    | _ => simp [opening] at hopening
  | array helement hlength ih =>
    have hopening := (IsReadable.array helement hlength).opening_eq hu hr hs h
    cases hu with
    | array hother hotherlength =>
      simp only [toList_text_array, List.cons_append, List.append_assoc] at h
      obtain ⟨rfl, hrest⟩ := hlength.append_inj hotherlength (List.tail_eq_of_cons_eq h)
      obtain ⟨rfl, hrs⟩ := ih hother hr hs hrest
      exact ⟨rfl, hrs⟩
    | _ => simp [opening] at hopening
  | map hkey hvalue ihkey ihvalue =>
    have hopening := (IsReadable.map hkey hvalue).opening_eq hu hr hs h
    cases hu with
    | map hotherkey hothervalue =>
      simp only [toList_text_map, List.append_assoc, List.cons_append] at h
      have hinner := List.tail_eq_of_cons_eq (List.append_cancel_left h)
      obtain ⟨rfl, hclose⟩ := ihkey hotherkey (closesType_bracket _) (closesType_bracket _) hinner
      obtain ⟨rfl, hrs⟩ := ihvalue hothervalue hr hs (List.tail_eq_of_cons_eq hclose)
      exact ⟨rfl, hrs⟩
    | _ => simp [opening] at hopening

theorem IsReadable.eq_of_text {t u : TypeExpr} (ht : t.IsReadable) (hu : u.IsReadable) (h : t.text = u.text) :
    t = u :=
  (ht.text_append_inj hu closesType_nil closesType_nil (by rw [h])).1

/-- The names of other packages. -/
def IsQualified (t : TypeExpr) : Prop :=
  ∃ package name, t = .qualified package name

/-- The type without the package of a qualified name. -/
def unqualified : TypeExpr → TypeExpr
  | .qualified _ name => .named name
  | t => t

theorem unqualified_of_not_isQualified {t : TypeExpr} (h : ¬t.IsQualified) : t.unqualified = t := by
  cases t with
  | qualified package name => exact absurd ⟨package, name, rfl⟩ h
  | _ => rfl

theorem IsReadable.unqualified {t : TypeExpr} (ht : t.IsReadable) : t.unqualified.IsReadable := by
  cases ht with
  | qualified _ hname => exact .named hname
  | named hname => exact .named hname
  | pointer htarget => exact .pointer htarget
  | array helement hlength => exact .array helement hlength
  | map hkey hvalue => exact .map hkey hvalue

end TypeExpr

section MapKinds

variable {scope scope' : Scope} {t u : TypeExpr}

theorem mapResolution_kind : (mapResolution scope t).kind = t.unqualified.text := by
  cases t <;> rfl

theorem mapResolution_origin_of_not_isQualified (h : ¬t.IsQualified) : (mapResolution scope t).origin = none := by
  cases t with
  | qualified package name => exact absurd ⟨package, name, rfl⟩ h
  | _ => rfl

theorem mapResolution_kind_eq_iff (ht : t.IsReadable) (hu : u.IsReadable) :
    (mapResolution scope t).kind = (mapResolution scope' u).kind ↔ t.unqualified = u.unqualified := by
  rw [mapResolution_kind, mapResolution_kind]
  exact ⟨ht.unqualified.eq_of_text hu.unqualified, fun h => by rw [h]⟩

/-- The origin of a map gives back the package that its kind lacks. -/
theorem eq_of_mapResolution_origin (hkind : t.unqualified = u.unqualified)
    (horigin : (mapResolution scope t).origin = (mapResolution scope' u).origin) : t = u := by
  by_cases ht : t.IsQualified
  · obtain ⟨package, name, rfl⟩ := ht
    by_cases hu : u.IsQualified
    · obtain ⟨package', name', rfl⟩ := hu
      have hsame : scope.origin package name = scope'.origin package' name' := Option.some.inj horigin
      have hpackage : package = package' := congrArg Model.Origin.package hsame
      have hname : name = name' := congrArg Model.Origin.entity hsame
      rw [hpackage, hname]
    · rw [mapResolution_origin_of_not_isQualified hu] at horigin
      cases horigin
  · by_cases hu : u.IsQualified
    · obtain ⟨package', name', rfl⟩ := hu
      rw [mapResolution_origin_of_not_isQualified ht] at horigin
      cases horigin
    · rwa [TypeExpr.unqualified_of_not_isQualified ht, TypeExpr.unqualified_of_not_isQualified hu] at hkind

end MapKinds

/-- Types that differ have different texts. Maps to two such types have different kinds when neither is a qualified
name; a qualified name counts there as the plain name, and where that makes two kinds equal the origins differ. -/
theorem text_determines_type :
    (∀ t u : TypeExpr, t.IsReadable → u.IsReadable → t.text = u.text → t = u) ∧
    ∀ (scope scope' : Scope) (key key' t u : TypeExpr), t.IsReadable → u.IsReadable → t ≠ u →
      ∃ r r', (typeResolution scope (.map key t)).value = .ok r ∧
        (typeResolution scope' (.map key' u)).value = .ok r' ∧
        (¬t.IsQualified → ¬u.IsQualified → r.kind ≠ r'.kind) ∧
        (r.kind = r'.kind ↔ t.unqualified = u.unqualified) ∧
        (r.kind = r'.kind → r.origin ≠ r'.origin) := by
  refine ⟨fun t u ht hu h => ht.eq_of_text hu h, ?_⟩
  intro scope scope' key key' t u ht hu hne
  have hkind := @mapResolution_kind_eq_iff scope scope' t u ht hu
  refine ⟨_, _, rfl, rfl, ?_, hkind, ?_⟩
  · intro htq huq hsame
    have h := hkind.1 hsame
    rw [TypeExpr.unqualified_of_not_isQualified htq, TypeExpr.unqualified_of_not_isQualified huq] at h
    exact hne h
  · intro hsame horigin
    exact hne (eq_of_mapResolution_origin (hkind.1 hsame) horigin)

/-- A map of arrays to pointers, and a map of lone names to arrays. -/
private def arraysToPointers : TypeExpr :=
  .map (.array (.named "map") (some "2*n")) (.pointer (.qualified "time" "Time"))

private def namesToArrays : TypeExpr :=
  .map (.named "map") (.array (.map (.named "n") (.named "Time")) none)

private theorem isReadable_arraysToPointers : arraysToPointers.IsReadable := by
  refine .map (.array (.named ⟨by decide, by simp [isTypeMark]⟩) ?_)
    (.pointer (.qualified ⟨by decide, by simp [isTypeMark]⟩ ⟨by decide, by simp [isTypeMark]⟩))
  rintro n ⟨⟩
  decide

private theorem isReadable_namesToArrays : namesToArrays.IsReadable := by
  refine .map (.named ⟨by decide, by simp [isTypeMark]⟩)
    (.array (.map (.named ⟨by decide, by simp [isTypeMark]⟩) (.named ⟨by decide, by simp [isTypeMark]⟩)) ?_)
  simp [IsTypeLength]

theorem text_determines_type_nested :
    arraysToPointers.IsReadable ∧ namesToArrays.IsReadable ∧ arraysToPointers.text ≠ namesToArrays.text ∧
    ∃ r r', (typeResolution {} (.map (.named "k") arraysToPointers)).value = .ok r ∧
      (typeResolution {} (.map (.named "k") namesToArrays)).value = .ok r' ∧ r.kind ≠ r'.kind := by
  have ht := isReadable_arraysToPointers
  have hu := isReadable_namesToArrays
  have hne : arraysToPointers ≠ namesToArrays := by simp [arraysToPointers, namesToArrays]
  have htq : ¬arraysToPointers.IsQualified := by simp [TypeExpr.IsQualified, arraysToPointers]
  have huq : ¬namesToArrays.IsQualified := by simp [TypeExpr.IsQualified, namesToArrays]
  obtain ⟨r, r', hr, hr', hkind, -⟩ :=
    text_determines_type.2 {} {} (.named "k") (.named "k") arraysToPointers namesToArrays ht hu hne
  refine ⟨ht, hu, ?_, r, r', hr, hr', hkind htq huq⟩
  exact fun h => hne (text_determines_type.1 arraysToPointers namesToArrays ht hu h)

/-- A name and the same name of another package are two types, but one kind of map. -/
theorem map_kind_of_qualified_name :
    (TypeExpr.named "Time").IsReadable ∧ (TypeExpr.qualified "time" "Time").IsReadable ∧
    TypeExpr.named "Time" ≠ .qualified "time" "Time" ∧
    ∃ r r', (typeResolution {} (.map (.named "string") (.named "Time"))).value = .ok r ∧
      (typeResolution {} (.map (.named "string") (.qualified "time" "Time"))).value = .ok r' ∧
      r.kind = r'.kind := by
  have hname : IsTypeName "Time" := ⟨by decide, by simp [isTypeMark]⟩
  have hpackage : IsTypeName "time" := ⟨by decide, by simp [isTypeMark]⟩
  exact ⟨.named hname, .qualified hpackage hname, by simp, _, _, rfl, rfl, rfl⟩

end SourceOutline
