import Mathlib.Data.List.DropRight
import SchemaBinding.Proofs.Binding.TemplateLiteral
import SchemaBinding.Proofs.Sdl.BlockString
import SchemaBinding.Proofs.Text.Trimming

/-!
# The value of a block string

A reader takes the value of a block string from its lines: it takes away the
indentation that all lines but the first have in common, and drops the blank
lines at both ends.  The layout of a description adds a blank line at either end
and an indentation of its own, and a reader takes both away again.  So what a
reader changes about a description depends on the description alone: the blank
lines at its ends are lost, and of a text that starts blank the lines behind the
first one lose the indentation that they share.
-/

namespace SchemaBinding.Sdl

open Binding (unifyLineEnds unifyLineEnds_of_not_mem)

namespace Reader

/-! ## Values -/

def isSpace (c : Char) : Bool :=
  c = ' ' || c = '\t'

def isBlankLine (line : List Char) : Bool :=
  line.all isSpace

/-- How much white space a line starts with. -/
def indentation (line : List Char) : Nat :=
  (line.takeWhile isSpace).length

/-- The least indentation of the lines that are not blank, and none where all are. -/
def commonIndent (lines : List (List Char)) : Nat :=
  ((lines.filter (!isBlankLine ·)).map indentation).min?.getD 0

/-- Takes the common indentation from all lines but the first. -/
def stripIndent : List (List Char) → List (List Char)
  | [] => []
  | first :: rest => first :: rest.map (List.drop (commonIndent rest))

def dropBlankEnds (lines : List (List Char)) : List (List Char) :=
  (lines.dropWhile isBlankLine).rdropWhile isBlankLine

/-- The value of a block string that holds this text between its fences. -/
def blockStringValue (text : List Char) : List Char :=
  ['\n'].intercalate (dropBlankEnds (stripIndent (Text.split '\n' (unifyLineEnds text))))

end Reader

open Reader

variable {line first : List Char} {lines rest : List (List Char)}

/-! ## Indentation -/

theorem indentation_eq_zero_iff : indentation line = 0 ↔ startsBlank line = false := by
  cases line with
  | nil => simp [indentation, startsBlank]
  | cons c cs =>
    rw [indentation, List.takeWhile_cons, startsBlank, isSpace]
    split
    next h => simp [h]
    next h => simpa using h

theorem indentation_le_length (line : List Char) : indentation line ≤ line.length :=
  (List.takeWhile_prefix isSpace).length_le

theorem commonIndent_append_of_blank
    {blanks : List (List Char)} (h : ∀ line ∈ blanks, isBlankLine line = true)
    (lines : List (List Char)) : commonIndent (lines ++ blanks) = commonIndent lines := by
  have hnone : blanks.filter (!isBlankLine ·) = [] := by
    apply List.filter_eq_nil_iff.mpr
    intro line hline
    simp [h line hline]
  rw [commonIndent, commonIndent, List.filter_append, hnone, List.append_nil]

theorem commonIndent_of_blank (h : ∀ line ∈ lines, isBlankLine line = true) :
    commonIndent lines = 0 :=
  commonIndent_append_of_blank h []

/-- Some line has the common indentation, and no line has less. -/
theorem exists_indentation_eq_commonIndent (hmem : line ∈ lines) (h : isBlankLine line = false) :
    (∃ least ∈ lines, isBlankLine least = false ∧ indentation least = commonIndent lines) ∧
      commonIndent lines ≤ indentation line := by
  have hkept : indentation line ∈ (lines.filter (!isBlankLine ·)).map indentation :=
    List.mem_map_of_mem (List.mem_filter.mpr ⟨hmem, by simp [h]⟩)
  obtain ⟨m, hm⟩ : ∃ m, ((lines.filter (!isBlankLine ·)).map indentation).min? = some m := by
    apply Option.isSome_iff_exists.mp
    rw [Option.isSome_iff_ne_none, ne_eq, List.min?_eq_none_iff]
    exact List.ne_nil_of_mem hkept
  obtain ⟨hleast, hle⟩ := List.min?_eq_some_iff.mp hm
  have hcommon : commonIndent lines = m := by
    rw [commonIndent, hm]
    rfl
  rw [hcommon]
  constructor
  · obtain ⟨least, hmemleast, hindent⟩ := List.mem_map.mp hleast
    obtain ⟨hlines, hblank⟩ := List.mem_filter.mp hmemleast
    exact ⟨least, hlines, by simpa using hblank, hindent⟩
  · exact hle _ hkept

theorem commonIndent_le (hmem : line ∈ lines) (h : isBlankLine line = false) :
    commonIndent lines ≤ indentation line :=
  (exists_indentation_eq_commonIndent hmem h).2

/-- Lines share no indentation if one of them has none. -/
theorem commonIndent_eq_zero_iff (hmem : line ∈ lines) (h : isBlankLine line = false) :
    commonIndent lines = 0 ↔
      ∃ line ∈ lines, isBlankLine line = false ∧ startsBlank line = false := by
  constructor
  · intro hzero
    obtain ⟨⟨least, hleast, hblank, hindent⟩, -⟩ := exists_indentation_eq_commonIndent hmem h
    exact ⟨least, hleast, hblank, indentation_eq_zero_iff.mp (hindent.trans hzero)⟩
  · rintro ⟨line, hline, hblank, hstart⟩
    have hle := commonIndent_le hline hblank
    rw [indentation_eq_zero_iff.mpr hstart] at hle
    omega

/-! ## Blank lines at the ends -/

theorem dropBlankEnds_append
    {blanks : List (List Char)} (h : ∀ line ∈ blanks, isBlankLine line = true)
    (lines : List (List Char)) : dropBlankEnds (lines ++ blanks) = dropBlankEnds lines :=
  rdropWhile_dropWhile_append h lines

theorem dropBlankEnds_cons_of_blank (h : isBlankLine first = true) (rest : List (List Char)) :
    dropBlankEnds (first :: rest) = dropBlankEnds rest := by
  rw [dropBlankEnds, List.dropWhile_cons_of_pos h, dropBlankEnds]

theorem dropBlankEnds_sublist (lines : List (List Char)) : (dropBlankEnds lines).Sublist lines :=
  ((List.rdropWhile_prefix _ _).sublist).trans (List.dropWhile_sublist _)

theorem dropBlankEnds_eq_self_iff :
    dropBlankEnds lines = lines ↔
      (∀ line ∈ lines.head?, isBlankLine line = false) ∧
        ∀ line ∈ lines.getLast?, isBlankLine line = false := by
  have hfront : lines.dropWhile isBlankLine = lines ↔
      ∀ line ∈ lines.head?, isBlankLine line = false := by
    cases lines with
    | nil => simp
    | cons first rest => simp [List.dropWhile_eq_self_iff]
  have hback : lines.rdropWhile isBlankLine = lines ↔
      ∀ line ∈ lines.getLast?, isBlankLine line = false := by
    cases lines using List.reverseRecOn with
    | nil => simp
    | append_singleton front last => simp [List.rdropWhile_eq_self_iff]
  rw [← hfront, ← hback]
  constructor
  · intro h
    have hlength : lines.length ≤ (lines.dropWhile isBlankLine).length := by
      have hprefix := List.rdropWhile_prefix isBlankLine (lines.dropWhile isBlankLine)
      rw [dropBlankEnds] at h
      rw [h] at hprefix
      exact hprefix.length_le
    have hwhole := (List.dropWhile_sublist isBlankLine).eq_of_length_le hlength
    rw [dropBlankEnds, hwhole] at h
    exact ⟨hwhole, h⟩
  · rintro ⟨hwhole, hsame⟩
    rw [dropBlankEnds, hwhole, hsame]

/-! ## Layouts -/

/-- A line as the layout indents it. -/
def indented (indent line : List Char) : List Char :=
  if line = [] then [] else indent ++ line

theorem isBlankLine_append (front back : List Char) :
    isBlankLine (front ++ back) = (isBlankLine front && isBlankLine back) :=
  List.all_append

theorem isBlankLine_drop (n : Nat) (h : isBlankLine line = true) :
    isBlankLine (line.drop n) = true := by
  apply List.all_eq_true.mpr
  intro c hc
  exact List.all_eq_true.mp h c (List.mem_of_mem_drop hc)

section Indented

variable {indent : List Char} (hindent : isBlankLine indent = true)

include hindent

theorem isBlankLine_indented (line : List Char) :
    isBlankLine (indented indent line) = isBlankLine line := by
  rw [indented]
  split
  next hnone => rw [hnone]
  next => rw [isBlankLine_append, hindent, Bool.true_and]

theorem indentation_indented (h : isBlankLine line = false) :
    indentation (indented indent line) = indent.length + indentation line := by
  have hne : line ≠ [] := by
    rintro rfl
    cases h
  rw [indented, if_neg hne, indentation,
    List.takeWhile_append_of_pos (List.all_eq_true.mp hindent), List.length_append, indentation]

theorem commonIndent_map_indented (hmem : line ∈ lines) (h : isBlankLine line = false) :
    commonIndent (lines.map (indented indent)) = indent.length + commonIndent lines := by
  have hindented : ∀ {line}, line ∈ lines → isBlankLine line = false →
      commonIndent (lines.map (indented indent)) ≤ indent.length + indentation line := by
    intro line hline hblank
    rw [← indentation_indented hindent hblank]
    apply commonIndent_le (List.mem_map_of_mem hline)
    rw [isBlankLine_indented hindent, hblank]
  apply Nat.le_antisymm
  · obtain ⟨⟨least, hleast, hblank, hcommon⟩, -⟩ := exists_indentation_eq_commonIndent hmem h
    rw [← hcommon]
    exact hindented hleast hblank
  · have hmap : indented indent line ∈ lines.map (indented indent) := List.mem_map_of_mem hmem
    have hsome : isBlankLine (indented indent line) = false := by
      rw [isBlankLine_indented hindent, h]
    obtain ⟨⟨_, hleast, hblank, hcommon⟩, -⟩ := exists_indentation_eq_commonIndent hmap hsome
    obtain ⟨least, hline, rfl⟩ := List.mem_map.mp hleast
    rw [isBlankLine_indented hindent] at hblank
    rw [← hcommon, indentation_indented hindent hblank]
    exact Nat.add_le_add_left (commonIndent_le hline hblank) _

end Indented

theorem drop_indented (indent line : List Char) (n : Nat) :
    (indented indent line).drop (indent.length + n) = line.drop n := by
  rw [indented]
  split
  next hnone => rw [hnone, List.drop_nil, List.drop_nil]
  next => rw [List.drop_length_add_append]

/-- Blank lines at the end do not count, however far they are indented. -/
theorem dropBlankEnds_stripIndent_append
    {blanks : List (List Char)} (h : ∀ line ∈ blanks, isBlankLine line = true)
    (first : List Char) (rest : List (List Char)) :
    dropBlankEnds (stripIndent (first :: (rest ++ blanks))) =
      dropBlankEnds (stripIndent (first :: rest)) := by
  have hblanks : ∀ line ∈ blanks.map (List.drop (commonIndent rest)), isBlankLine line = true := by
    intro line hline
    obtain ⟨original, horiginal, rfl⟩ := List.mem_map.mp hline
    exact isBlankLine_drop _ (h original horiginal)
  rw [stripIndent, stripIndent, commonIndent_append_of_blank h, List.map_append,
    ← List.cons_append, dropBlankEnds_append hblanks]

/-- A reader takes away the indentation that the layout has added. -/
theorem dropBlankEnds_stripIndent_indented
    {indent : List Char} (hindent : isBlankLine indent = true) (first : List Char)
    (rest : List (List Char)) :
    dropBlankEnds (stripIndent (first :: rest.map (indented indent))) =
      dropBlankEnds (stripIndent (first :: rest)) := by
  by_cases hrest : ∃ line ∈ rest, isBlankLine line = false
  · obtain ⟨line, hline, hblank⟩ := hrest
    have hlines : (rest.map (indented indent)).map
        (List.drop (commonIndent (rest.map (indented indent)))) =
          rest.map (List.drop (commonIndent rest)) := by
      rw [List.map_map, commonIndent_map_indented hindent hline hblank]
      apply List.map_congr_left
      intro line _
      exact drop_indented indent line _
    rw [stripIndent, stripIndent, hlines]
  · have hblank : ∀ line ∈ rest, isBlankLine line = true := by
      intro line hline
      cases h : isBlankLine line with
      | true => rfl
      | false => exact absurd ⟨line, hline, h⟩ hrest
    have hindented : ∀ line ∈ rest.map (indented indent), isBlankLine line = true := by
      intro line hline
      obtain ⟨original, horiginal, rfl⟩ := List.mem_map.mp hline
      rw [isBlankLine_indented hindent, hblank original horiginal]
    have hnone := dropBlankEnds_stripIndent_append hblank first []
    have hnone' := dropBlankEnds_stripIndent_append hindented first []
    rw [List.nil_append] at hnone hnone'
    rw [hnone, hnone']

/-! ## The lines of a layout -/

/-- What stands on the line of the opening fence. -/
def firstRow (text : List Char) : List Char :=
  if startsBlank text then (Text.lines text).headD [] else []

/-- The lines between those of the fences. -/
def innerRows (text : List Char) : List (List Char) :=
  if startsBlank text then (Text.lines text).drop 1 else Text.lines text

theorem laidOut_eq_intercalate (indent text : List Char) :
    laidOut indent text =
      ['\n'].intercalate (firstRow text :: (innerRows text).map (indented indent) ++ [indent]) := by
  have hrow : layOutLine indent = fun line => indented indent line ++ ['\n'] := by
    funext line
    rw [layOutLine, indented]
  rw [Text.intercalate_concat, List.flatMap_cons, List.flatMap_map, laidOut, hrow]
  rfl

/-- A text that starts blank keeps its lines, and any other gets a blank line in front. -/
def openedLines (text : List Char) : List (List Char) :=
  if startsBlank text then Text.split '\n' text else [] :: Text.split '\n' text

theorem startsBlank_headD_split (text : List Char) :
    startsBlank ((Text.split '\n' text).headD []) = startsBlank text := by
  cases text with
  | nil => rfl
  | cons c cs =>
    by_cases hc : c = '\n'
    · rw [hc]
      simp [Text.split, startsBlank]
    · rw [Text.split_cons_of_ne hc]
      rfl

theorem exists_openedLines_eq {text : List Char} (hreturn : '\r' ∉ text) :
    ∃ left, (∀ line ∈ left, line = []) ∧
      openedLines text = firstRow text :: (innerRows text ++ left) := by
  obtain ⟨left, hleft, hsplit⟩ := Text.exists_lines_append hreturn
  refine ⟨left, hleft, ?_⟩
  rw [openedLines, firstRow, innerRows]
  cases hstart : startsBlank text with
  | false => simp [hsplit]
  | true =>
    -- the first line is not empty, so it is one of the lines
    have hne : Text.lines text ≠ [] := by
      intro hnone
      rw [hnone, List.nil_append] at hsplit
      have hfirst := startsBlank_headD_split text
      rw [hstart, hsplit] at hfirst
      cases left with
      | nil => cases hfirst
      | cons line left =>
        rw [List.headD_cons, hleft line List.mem_cons_self] at hfirst
        cases hfirst
    obtain ⟨first, rest, hlines⟩ := List.exists_cons_of_ne_nil hne
    simp [hsplit, hlines]

/-! ## The value of a description -/

theorem mem_innerRows {text line : List Char} (h : line ∈ innerRows text) :
    line ∈ Text.lines text := by
  rw [innerRows] at h
  split at h
  · exact List.mem_of_mem_drop h
  · exact h

theorem firstRow_eq_nil_or_mem (text : List Char) :
    firstRow text = [] ∨ firstRow text ∈ Text.lines text := by
  rw [firstRow]
  split
  · cases Text.lines text with
    | nil => exact Or.inl rfl
    | cons first rest => exact Or.inr List.mem_cons_self
  · exact Or.inl rfl

theorem lineEnd_not_mem_of_mem_lines
    {text line : List Char} (hreturn : '\r' ∉ text) (h : line ∈ Text.lines text) :
    '\n' ∉ line ∧ '\r' ∉ line := by
  obtain ⟨left, -, hsplit⟩ := Text.exists_lines_append hreturn
  have hmem : line ∈ Text.split '\n' text := by
    rw [hsplit]
    exact List.mem_append_left left h
  exact ⟨Text.separator_not_mem_of_mem_split hmem,
    fun hin => hreturn (Text.mem_of_mem_split hmem hin)⟩

/-- The lines that a reader finds in a layout. -/
theorem split_laidOut
    {indent text : List Char} (hindent : ∀ c ∈ indent, c = ' ') (hreturn : '\r' ∉ text) :
    Text.split '\n' (unifyLineEnds (laidOut indent text)) =
      firstRow text :: (innerRows text).map (indented indent) ++ [indent] := by
  have hspaces : '\n' ∉ indent ∧ '\r' ∉ indent := by
    constructor
    · intro hmem
      cases hindent _ hmem
    · intro hmem
      cases hindent _ hmem
  have hrows : ∀ row ∈ firstRow text :: (innerRows text).map (indented indent) ++ [indent],
      '\n' ∉ row ∧ '\r' ∉ row := by
    intro row hrow
    rw [List.mem_append, List.mem_cons, List.mem_singleton] at hrow
    rcases hrow with (rfl | hinner) | rfl
    · rcases firstRow_eq_nil_or_mem text with hnone | hmem
      · simp [hnone]
      · exact lineEnd_not_mem_of_mem_lines hreturn hmem
    · obtain ⟨line, hline, rfl⟩ := List.mem_map.mp hinner
      have hplain := lineEnd_not_mem_of_mem_lines hreturn (mem_innerRows hline)
      rw [indented]
      split
      · simp
      · simp [hspaces, hplain]
    · exact hspaces
  have hreturns : '\r' ∉ laidOut indent text := by
    rw [laidOut_eq_intercalate]
    intro hmem
    rcases Text.mem_intercalate hmem with hfeed | ⟨row, hrow, hin⟩
    · cases hfeed
    · exact (hrows row hrow).2 hin
  rw [unifyLineEnds_of_not_mem hreturns, laidOut_eq_intercalate,
    Text.split_intercalate (by simp) fun row hrow => (hrows row hrow).1]

/-- Up to blank lines at the ends a reader finds in a block string what the
description holds, without the indentation that its lines share. -/
theorem dropBlankEnds_blockText
    {indent text : List Char} (hindent : ∀ c ∈ indent, c = ' ') (hreturn : '\r' ∉ text) :
    dropBlankEnds (stripIndent (Text.split '\n' (unifyLineEnds (blockText indent text)))) =
      dropBlankEnds (stripIndent (openedLines text)) := by
  have hblank : isBlankLine indent = true := by
    apply List.all_eq_true.mpr
    intro c hc
    rw [hindent c hc]
    rfl
  rw [blockText]
  split
  next =>
    obtain ⟨left, hleft, hopened⟩ := exists_openedLines_eq hreturn
    have hleft : ∀ line ∈ left, isBlankLine line = true := by
      intro line hline
      rw [hleft line hline]
      rfl
    rw [split_laidOut hindent hreturn, hopened, List.cons_append,
      dropBlankEnds_stripIndent_append (by simpa using hblank),
      dropBlankEnds_stripIndent_append hleft, dropBlankEnds_stripIndent_indented hblank]
  next hline =>
    obtain ⟨hfeed, hstart, -⟩ := by simpa only [not_or, Bool.not_eq_true] using hline
    have hsplit : Text.split '\n' text = [text] := by
      have hsingle : Text.split '\n' (['\n'].intercalate [text]) = [text] :=
        Text.split_intercalate (by simp) (by simpa using hfeed)
      rwa [List.intercalate_singleton] at hsingle
    have hcommon : commonIndent [text] = 0 := by
      cases hblank : isBlankLine text with
      | true => exact commonIndent_of_blank (by simpa using hblank)
      | false =>
        exact (commonIndent_eq_zero_iff List.mem_cons_self hblank).mpr
          ⟨text, List.mem_cons_self, hblank, hstart⟩
    have hempty : isBlankLine [] = true := rfl
    rw [unifyLineEnds_of_not_mem hreturn, openedLines, if_neg (by simp [hstart]), hsplit,
      stripIndent, stripIndent, hcommon, dropBlankEnds_cons_of_blank hempty]
    rfl

/-- The lines of a description as a reader gets them, blank ones at the ends included. -/
def shownLines (text : List Char) : List (List Char) :=
  let lines := Text.split '\n' text
  if startsBlank text then stripIndent lines else lines.map (List.drop (commonIndent lines))

theorem blockStringValue_blockText
    {indent text : List Char} (hindent : ∀ c ∈ indent, c = ' ') (hreturn : '\r' ∉ text) :
    blockStringValue (blockText indent text) =
      ['\n'].intercalate (dropBlankEnds (shownLines text)) := by
  have hempty : isBlankLine [] = true := rfl
  rw [blockStringValue, dropBlankEnds_blockText hindent hreturn, openedLines, shownLines]
  split
  · rfl
  · rw [stripIndent, dropBlankEnds_cons_of_blank hempty]

theorem length_shownLines (text : List Char) :
    (shownLines text).length = (Text.split '\n' text).length := by
  rw [shownLines]
  split
  · obtain ⟨first, rest, hsplit⟩ := List.exists_cons_of_ne_nil (Text.split_ne_nil '\n' text)
    rw [hsplit, stripIndent, List.length_cons, List.length_map, List.length_cons]
  · rw [List.length_map]

theorem lineEnd_not_mem_of_mem_shownLines
    {text line : List Char} (h : line ∈ shownLines text) : '\n' ∉ line := by
  -- what is left of a line is the line from some place on
  have hdrop : ∃ original ∈ Text.split '\n' text, ∃ n, line = original.drop n := by
    rw [shownLines] at h
    split at h
    · obtain ⟨first, rest, hsplit⟩ := List.exists_cons_of_ne_nil (Text.split_ne_nil '\n' text)
      rw [hsplit, stripIndent] at h
      rw [hsplit]
      rcases List.mem_cons.mp h with rfl | hrest
      · exact ⟨line, List.mem_cons_self, 0, rfl⟩
      · obtain ⟨original, horiginal, rfl⟩ := List.mem_map.mp hrest
        exact ⟨original, List.mem_cons_of_mem first horiginal, _, rfl⟩
    · obtain ⟨original, horiginal, rfl⟩ := List.mem_map.mp h
      exact ⟨original, horiginal, _, rfl⟩
  obtain ⟨original, horiginal, n, rfl⟩ := hdrop
  intro hmem
  exact Text.separator_not_mem_of_mem_split horiginal (List.mem_of_mem_drop hmem)

/-- A text is got back if it is empty, or if a reader takes nothing away from its lines. -/
theorem intercalate_dropBlankEnds_eq_iff (text : List Char) :
    ['\n'].intercalate (dropBlankEnds (shownLines text)) = text ↔
      text = [] ∨ shownLines text = Text.split '\n' text ∧
        dropBlankEnds (Text.split '\n' text) = Text.split '\n' text := by
  have hsub := dropBlankEnds_sublist (shownLines text)
  constructor
  · intro h
    by_cases hnone : dropBlankEnds (shownLines text) = []
    · left
      rw [← h, hnone]
      rfl
    · right
      have hkept : Text.split '\n' text = dropBlankEnds (shownLines text) := by
        conv_lhs => rw [← h]
        apply Text.split_intercalate hnone
        intro line hline
        exact lineEnd_not_mem_of_mem_shownLines (hsub.subset hline)
      have hwhole : dropBlankEnds (shownLines text) = shownLines text := by
        apply hsub.eq_of_length
        rw [← hkept, length_shownLines]
      have hshown : shownLines text = Text.split '\n' text := hwhole.symm.trans hkept.symm
      rw [hshown] at hwhole
      exact ⟨hshown, hwhole⟩
  · rintro (rfl | ⟨hshown, hwhole⟩)
    · rfl
    · rw [hshown, hwhole, Text.intercalate_split]

/-- Behind a first line that starts blank no indentation is lost if a line has none. -/
theorem map_drop_commonIndent_eq_iff (hmem : line ∈ rest) (h : isBlankLine line = false) :
    rest.map (List.drop (commonIndent rest)) = rest ↔
      ∃ line ∈ rest, isBlankLine line = false ∧ startsBlank line = false := by
  rw [← commonIndent_eq_zero_iff hmem h]
  constructor
  · intro hsame
    have hline : line.drop (commonIndent rest) = id line :=
      List.map_eq_map_iff.mp (hsame.trans (List.map_id rest).symm) line hmem
    have hlength := congrArg List.length hline
    have hle := (commonIndent_le hmem h).trans (indentation_le_length line)
    rw [List.length_drop, id] at hlength
    omega
  · intro hzero
    rw [hzero]
    exact List.map_id rest

theorem shownLines_eq_iff
    {text : List Char}
    (hfirst : ∀ line ∈ (Text.split '\n' text).head?, isBlankLine line = false)
    (hlast : ∀ line ∈ (Text.split '\n' text).getLast?, isBlankLine line = false) :
    shownLines text = Text.split '\n' text ↔
      (startsBlank text = true → 1 < (Text.split '\n' text).length →
        ∃ line ∈ (Text.split '\n' text).tail, isBlankLine line = false ∧ startsBlank line = false) := by
  obtain ⟨first, rest, hsplit⟩ := List.exists_cons_of_ne_nil (Text.split_ne_nil '\n' text)
  have hstarts := startsBlank_headD_split text
  rw [hsplit] at hfirst hlast hstarts
  rw [shownLines, hsplit]
  have hblank : isBlankLine first = false := hfirst first rfl
  rw [List.headD_cons] at hstarts
  cases hstart : startsBlank text with
  | false =>
    have hcommon : commonIndent (first :: rest) = 0 :=
      (commonIndent_eq_zero_iff List.mem_cons_self hblank).mpr
        ⟨first, List.mem_cons_self, hblank, hstarts.trans hstart⟩
    have hsame : (first :: rest).map (List.drop 0) = first :: rest := List.map_id _
    rw [if_neg Bool.false_ne_true, hcommon, hsame]
    simp
  | true =>
    rw [if_pos rfl, stripIndent, List.tail_cons]
    cases hrest : rest.getLast? with
    | none =>
      rw [List.getLast?_eq_none_iff.mp hrest]
      simp
    | some last =>
      have hmem : last ∈ rest := List.mem_of_getLast? hrest
      have hsome : isBlankLine last = false := by
        apply hlast
        rw [List.getLast?_cons, hrest]
        rfl
      have hlong : 1 < (first :: rest).length := by
        have hpos := List.length_pos_of_mem hmem
        rw [List.length_cons]
        omega
      rw [← map_drop_commonIndent_eq_iff hmem hsome, List.cons.injEq]
      constructor
      · rintro ⟨-, hsame⟩ _ _
        exact hsame
      · intro hsame
        exact ⟨rfl, hsame rfl hlong⟩

/-- The lines of a text that a block string gives back as they are.  Neither end is
blank, and what stands behind a first line that starts blank is not indented as a
whole. -/
structure KeepsLines (text : List Char) : Prop where
  first : ∀ line ∈ (Text.split '\n' text).head?, isBlankLine line = false
  last : ∀ line ∈ (Text.split '\n' text).getLast?, isBlankLine line = false
  margin : startsBlank text = true → 1 < (Text.split '\n' text).length →
    ∃ line ∈ (Text.split '\n' text).tail, isBlankLine line = false ∧ startsBlank line = false

theorem blockStringValue_blockText_eq_iff
    {indent text : List Char} (hindent : ∀ c ∈ indent, c = ' ') (hreturn : '\r' ∉ text) :
    blockStringValue (blockText indent text) = text ↔ text = [] ∨ KeepsLines text := by
  rw [blockStringValue_blockText hindent hreturn, intercalate_dropBlankEnds_eq_iff,
    dropBlankEnds_eq_self_iff]
  apply or_congr_right
  constructor
  · rintro ⟨hshown, hfirst, hlast⟩
    exact ⟨hfirst, hlast, (shownLines_eq_iff hfirst hlast).mp hshown⟩
  · intro h
    exact ⟨(shownLines_eq_iff h.first h.last).mpr h.margin, h.first, h.last⟩

/-- A description is printed as one block string, and a reader gets it back from there
exactly if it is empty or keeps its lines. -/
theorem description_read_back_iff
    {indent text : String} (hindent : indent.toList.all (· == ' ') = true)
    (hreturn : '\r' ∉ text.toList) :
    ∃ raw, scan (describe indent (some text)).toList = some [.blockString raw] ∧
      (blockStringValue raw = text.toList ↔ text = "" ∨ KeepsLines text.toList) := by
  have hspaces : ∀ c ∈ indent.toList, c = ' ' := by simpa using hindent
  refine ⟨blockText indent.toList text.toList, ?_, ?_⟩
  · exact (closed_describe indent hindent (some text)).reads.scan_eq
  · rw [blockStringValue_blockText_eq_iff hspaces hreturn, String.toList_eq_nil_iff]

/-- A line at the margin keeps the first line as it is, and without one the last line
loses its indentation. -/
theorem description_read_back_margins :
    "    ".toList.all (· == ' ') = true ∧ '\r' ∉ " a \"\"\"\n\n  b\nc".toList ∧
      '\r' ∉ " a \"\"\"\n\n  b".toList ∧
      (∃ raw, scan (describe "    " (some " a \"\"\"\n\n  b\nc")).toList = some [.blockString raw] ∧
        blockStringValue raw = " a \"\"\"\n\n  b\nc".toList) ∧
      ∃ raw, scan (describe "    " (some " a \"\"\"\n\n  b")).toList = some [.blockString raw] ∧
        blockStringValue raw ≠ " a \"\"\"\n\n  b".toList := by
  have hindent : "    ".toList.all (· == ' ') = true := by decide
  have hkept : '\r' ∉ " a \"\"\"\n\n  b\nc".toList := by decide
  have hlost : '\r' ∉ " a \"\"\"\n\n  b".toList := by decide
  refine ⟨hindent, hkept, hlost, ?_, ?_⟩
  · obtain ⟨raw, hscan, hvalue⟩ := description_read_back_iff hindent hkept
    refine ⟨raw, hscan, hvalue.mpr (Or.inr ⟨?_, ?_, fun _ _ => ?_⟩)⟩
    · rintro _ ⟨rfl⟩
      rfl
    · rintro _ ⟨rfl⟩
      rfl
    · exact ⟨['c'], by decide, rfl, rfl⟩
  · obtain ⟨raw, hscan, hvalue⟩ := description_read_back_iff hindent hlost
    refine ⟨raw, hscan, ?_⟩
    intro hsame
    rcases hvalue.mp hsame with hempty | hkeeps
    · exact absurd hempty (by decide)
    · have hmargin := hkeeps.margin rfl (by decide)
      exact absurd hmargin (by decide)

end SchemaBinding.Sdl
