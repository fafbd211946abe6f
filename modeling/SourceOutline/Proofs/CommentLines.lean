import SourceOutline.Comment
import SourceOutline.Proofs.Pieces

/-!
Cleaning a comment undoes writing one: the lines between the delimiters of a block, with a margin of stars or without
one, are found again. Whatever text is cleaned, unless it is a line comment, only plain lines come out of it.
-/
namespace SourceOutline

namespace Text

/-- A text that neither begins nor ends with a blank. -/
structure IsTrimmed (cs : List Char) : Prop where
  start : ∀ c, cs.head? = some c → isBlank c = false
  finish : ∀ c, cs.getLast? = some c → isBlank c = false

theorem isTrimmed_iff {cs : List Char} :
    IsTrimmed cs ↔ cs.head?.all (!isBlank ·) = true ∧ cs.getLast?.all (!isBlank ·) = true := by
  simp only [Option.all_eq_true, Bool.not_eq_true']
  exact ⟨fun h => ⟨h.start, h.finish⟩, fun h => ⟨h.1, h.2⟩⟩

instance (cs : List Char) : Decidable (IsTrimmed cs) :=
  decidable_of_iff _ isTrimmed_iff.symm

theorem head?_trimStart {cs : List Char} {c : Char} (h : (trimStart cs).head? = some c) : isBlank c = false := by
  have hnot := List.head?_dropWhile_not isBlank cs
  rw [trimStart] at h
  rwa [h] at hnot

theorem getLast?_trimEnd {cs : List Char} {c : Char} (h : (trimEnd cs).getLast? = some c) : isBlank c = false := by
  rw [trimEnd, dropEndWhile, List.getLast?_reverse] at h
  exact head?_trimStart h

theorem trimStart_eq_self {cs : List Char} (h : ∀ c, cs.head? = some c → isBlank c = false) : trimStart cs = cs := by
  cases cs with
  | nil => rfl
  | cons c rest =>
    have hc : isBlank c = false := h c rfl
    rw [trimStart, List.dropWhile_cons_of_neg (by simp [hc])]

theorem trimEnd_eq_self {cs : List Char} (h : ∀ c, cs.getLast? = some c → isBlank c = false) : trimEnd cs = cs := by
  have hreverse : trimStart cs.reverse = cs.reverse := by
    apply trimStart_eq_self
    intro c hc
    rw [List.head?_reverse] at hc
    exact h c hc
  rw [trimStart] at hreverse
  rw [trimEnd, dropEndWhile, hreverse, List.reverse_reverse]

theorem IsTrimmed.trim_eq {cs : List Char} (h : IsTrimmed cs) : trim cs = cs := by
  rw [trim, trimStart_eq_self h.start, trimEnd_eq_self h.finish]

theorem trimStart_suffix (cs : List Char) : trimStart cs <:+ cs :=
  List.dropWhile_suffix isBlank

theorem trimEnd_isPrefix (cs : List Char) : trimEnd cs <+: cs := by
  obtain ⟨before, hbefore⟩ := trimStart_suffix cs.reverse
  refine ⟨before.reverse, ?_⟩
  rw [trimStart] at hbefore
  rw [trimEnd, dropEndWhile, ← List.reverse_append, hbefore, List.reverse_reverse]

theorem trim_subset (cs : List Char) : trim cs ⊆ cs := by
  intro c hc
  exact (trimStart_suffix cs).subset ((trimEnd_isPrefix _).subset hc)

/-- The last character of a tail, if there is one, is that of the whole text. -/
theorem IsTrimmed.trimStart_tail {c : Char} {rest : List Char} (h : IsTrimmed (c :: rest)) :
    IsTrimmed (trimStart rest) := by
  constructor
  · exact fun d hd => head?_trimStart hd
  · intro d hd
    obtain ⟨before, hbefore⟩ := trimStart_suffix rest
    apply h.finish d
    rw [← hbefore, ← List.cons_append, List.getLast?_append, hd, Option.some_or]

theorem isTrimmed_trim (cs : List Char) : IsTrimmed (trim cs) := by
  constructor
  · intro c hc
    obtain ⟨after, hafter⟩ := trimEnd_isPrefix (trimStart cs)
    apply @head?_trimStart cs
    rw [← hafter]
    rw [trim] at hc
    simp [hc]
  · exact fun c hc => getLast?_trimEnd hc

end Text

namespace Comment

/-- A line as it stands in a doc: some text on one row, with no blanks around it. -/
structure IsPlainLine (line : String) : Prop where
  nonempty : line ≠ ""
  one_row : '\n' ∉ line.toList
  trimmed : Text.IsTrimmed line.toList

instance (line : String) : Decidable (IsPlainLine line) :=
  decidable_of_iff (line ≠ "" ∧ '\n' ∉ line.toList ∧ Text.IsTrimmed line.toList)
    ⟨fun h => ⟨h.1, h.2.1, h.2.2⟩, fun h => ⟨h.nonempty, h.one_row, h.trimmed⟩⟩

/-- A block comment with the given rows between the rows of its delimiters. -/
def writtenBlock (rows : List String) : String :=
  "/*\n" ++ String.join (rows.map (· ++ "\n")) ++ " */"

/-- A row with a star in its margin. -/
def starred (line : String) : String :=
  " * " ++ line

section Cleaning

theorem cleanLine_subset (line : List Char) : cleanLine line ⊆ line := by
  have htrim := Text.trim_subset line
  rw [cleanLine]
  split
  · rename_i rest hstar
    rw [hstar] at htrim
    intro c hc
    exact htrim (List.mem_cons_of_mem _ ((Text.trimStart_suffix rest).subset hc))
  · exact htrim

theorem isTrimmed_cleanLine (line : List Char) : Text.IsTrimmed (cleanLine line) := by
  have htrim := Text.isTrimmed_trim line
  rw [cleanLine]
  split
  · rename_i rest hstar
    rw [hstar] at htrim
    exact htrim.trimStart_tail
  · exact htrim

theorem cleanLine_of_trimmed {line : List Char} (h : Text.IsTrimmed line) (hstar : line.head? ≠ some '*') :
    cleanLine line = line := by
  rw [cleanLine, h.trim_eq]
  split
  · simp at hstar
  · rfl

/-- The star in the margin goes, and with it the blanks on both sides of it. -/
theorem cleanLine_starred {line : String} (h : IsPlainLine line) : cleanLine (starred line).toList = line.toList := by
  have hne : line.toList ≠ [] := by simpa using h.nonempty
  have htrimmed : Text.IsTrimmed ('*' :: ' ' :: line.toList) := by
    constructor
    · simp [Text.isBlank]
    · have hlast := List.getLast?_eq_some_getLast hne
      intro c hc
      apply h.trimmed.finish c
      simpa [List.getLast?_cons, hlast] using hc
  have htrim : Text.trim (starred line).toList = '*' :: ' ' :: line.toList := by
    rw [← htrimmed.trim_eq]
    simp [starred, Text.trim, Text.trimStart, Text.isBlank]
  have hblank : Text.trimStart (' ' :: line.toList) = line.toList := by
    have hstart := Text.trimStart_eq_self h.trimmed.start
    rw [Text.trimStart] at hstart ⊢
    rw [List.dropWhile_cons_of_pos (by decide), hstart]
  rw [cleanLine, htrim]
  exact hblank

theorem cleanChars_of_not_line {text : List Char} (h : ¬['/', '/'] <+: Text.trim text) :
    cleanChars text =
      (((dropClosing (dropOpening (Text.trim text))).splitOn '\n').map cleanLine).filter (· ≠ []) := by
  rw [cleanChars]
  split
  · rename_i rest hline
    exact absurd ⟨rest, hline.symm⟩ h
  · rfl

/-- What stands between the delimiters of a block is cleaned row by row. -/
theorem cleanChars_delimited (body : List Char) :
    cleanChars ('/' :: '*' :: (body ++ ['*', '/'])) =
      ((body.splitOn '\n').map cleanLine).filter (· ≠ []) := by
  have htrimmed : Text.IsTrimmed ('/' :: '*' :: (body ++ ['*', '/'])) := by
    constructor
    · simp [Text.isBlank]
    · intro c hc
      have hlast : '/' = c := by simpa [List.getLast?_cons] using hc
      rw [← hlast]
      decide
  have hline : ¬['/', '/'] <+: Text.trim ('/' :: '*' :: (body ++ ['*', '/'])) := by
    rw [htrimmed.trim_eq]
    simp
  have hclosing : dropClosing (body ++ ['*', '/']) = body := by simp [dropClosing]
  rw [cleanChars_of_not_line hline, htrimmed.trim_eq, dropOpening, hclosing]

/-- The rows of a written block come back cleaned, less those that are left empty. -/
theorem cleanChars_writtenBlock {rows : List String} (h : ∀ row ∈ rows, '\n' ∉ row.toList) :
    cleanChars (writtenBlock rows).toList =
      ((rows.map String.toList).map cleanLine).filter (· ≠ []) := by
  have hchars : (writtenBlock rows).toList =
      '/' :: '*' :: ((([] : List Char) :: rows.map String.toList).flatMap (· ++ ['\n']) ++ [' '] ++ ['*', '/']) := by
    simp [writtenBlock, String.toList_join, List.flatMap_map]
  have hrows : ∀ row ∈ ([] : List Char) :: rows.map String.toList, '\n' ∉ row := by
    simpa using h
  rw [hchars, cleanChars_delimited, Text.splitOn_rows hrows (by decide)]
  have hends : cleanLine [] = [] ∧ cleanLine [' '] = [] := by decide
  simp [hends]

end Cleaning

/-- Lines are found again in a block whose rows are cleaned to them. -/
theorem lines_writtenBlock {ls : List String} {write : String → String} (hne : ∀ line ∈ ls, line ≠ "")
    (hrow : ∀ line ∈ ls, '\n' ∉ (write line).toList)
    (hclean : ∀ line ∈ ls, cleanLine (write line).toList = line.toList) :
    lines (writtenBlock (ls.map write)) = ls := by
  have hchars : ((ls.map write).map String.toList).map cleanLine = ls.map String.toList := by
    rw [List.map_map, List.map_map]
    exact List.map_congr_left hclean
  have hkept : (ls.map String.toList).filter (· ≠ []) = ls.map String.toList := by
    rw [List.filter_eq_self]
    simpa using hne
  rw [lines, cleanChars_writtenBlock (by simpa using hrow), hchars, hkept, Text.map_ofList_toList]

/-- What comes out of a text that is no line comment. -/
theorem isPlainLine_of_mem_lines {text line : String} (htext : ¬"//".toList <+: Text.trim text.toList)
    (h : line ∈ lines text) : IsPlainLine line := by
  rw [lines, cleanChars_of_not_line htext] at h
  obtain ⟨cleaned, hcleaned, rfl⟩ := List.mem_map.1 h
  obtain ⟨hmem, hne⟩ := List.mem_filter.1 hcleaned
  obtain ⟨row, hrow, rfl⟩ := List.mem_map.1 hmem
  constructor
  · simpa using hne
  · rw [String.toList_ofList]
    exact fun hfeed => Text.not_mem_of_mem_splitOn hrow (cleanLine_subset row hfeed)
  · rw [String.toList_ofList]
    exact isTrimmed_cleanLine row

/-- Cleaning undoes writing. Plain lines come back as they were from a block in which each of them stands on a row of
its own after a star, and, when none of them begins with a star, from one without stars; and whatever text is cleaned,
unless it is a line comment, all lines that come out of it are plain. -/
theorem lines_undo_writing :
    (∀ ls : List String, (∀ line ∈ ls, IsPlainLine line) → lines (writtenBlock (ls.map starred)) = ls) ∧
    (∀ ls : List String, (∀ line ∈ ls, IsPlainLine line ∧ line.toList.head? ≠ some '*') →
      lines (writtenBlock ls) = ls) ∧
    ∀ text : String, ¬"//".toList <+: Text.trim text.toList → ∀ line ∈ lines text, IsPlainLine line := by
  refine ⟨?_, ?_, ?_⟩
  · intro ls h
    apply lines_writtenBlock
    · exact fun line hline => (h line hline).nonempty
    · intro line hline
      simpa [starred] using (h line hline).one_row
    · exact fun line hline => cleanLine_starred (h line hline)
  · intro ls h
    have hback : lines (writtenBlock (ls.map id)) = ls := by
      apply lines_writtenBlock
      · exact fun line hline => (h line hline).1.nonempty
      · exact fun line hline => (h line hline).1.one_row
      · exact fun line hline => cleanLine_of_trimmed (h line hline).1.trimmed (h line hline).2
    rwa [List.map_id] at hback
  · exact fun text htext line hline => isPlainLine_of_mem_lines htext hline

theorem lines_undo_writing_marks :
    lines "/*\n * *\n * a */ b\n * // c\n */" = ["*", "a */ b", "// c"] ∧
    lines "/*\n/* a\nb *\n */" = ["/* a", "b *"] ∧
    ∀ line ∈ lines " /** a\n *\u3000b\n\n * */", IsPlainLine line := by
  obtain ⟨hstarred, hbare, hplain⟩ := lines_undo_writing
  refine ⟨?_, ?_, ?_⟩
  · exact hstarred ["*", "a */ b", "// c"] (by decide)
  · exact hbare ["/* a", "b *"] (by decide)
  · exact hplain _ (by decide)

end Comment

end SourceOutline
