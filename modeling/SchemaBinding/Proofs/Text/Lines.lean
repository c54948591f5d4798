import Mathlib.Data.List.Infix
import SchemaBinding.Text.Lines

/-!
# Texts and their pieces

Cutting a text at a separator is undone by putting the separator back between
the pieces, and pieces without the separator are found again.  The lines of a
text are its pieces between line feeds, without the carriage returns that belong
to line ends and without an empty last piece.
-/

namespace SchemaBinding.Text

variable {separator : Char} {text piece : List Char}

/-! ## Pieces -/

theorem split_cons_of_ne
    {separator c : Char} (hc : c ≠ separator) (cs : List Char) :
    split separator (c :: cs) =
      (c :: (split separator cs).headD []) :: (split separator cs).tail := by
  rw [split, if_neg hc]
  cases hpieces : split separator cs with
  | nil => exact absurd hpieces (split_ne_nil separator cs)
  | cons piece pieces => rfl

theorem split_eq_splitOn (separator : Char) (text : List Char) :
    split separator text = text.splitOn separator := by
  rw [List.splitOn]
  induction text with
  | nil => rfl
  | cons c cs ih =>
    rw [List.splitOnP_cons_eq_if_modifyHead, ← ih]
    by_cases hc : c = separator
    · rw [split, if_pos hc, if_pos (beq_iff_eq.mpr hc)]
    · obtain ⟨first, others, hsplit⟩ := List.exists_cons_of_ne_nil (split_ne_nil separator cs)
      rw [split_cons_of_ne hc, if_neg (fun h => hc (beq_iff_eq.mp h)), hsplit]
      rfl

theorem split_append_cons (separator : Char) (front rest : List Char) :
    split separator (front ++ separator :: rest) =
      split separator front ++ split separator rest := by
  rw [split_eq_splitOn, split_eq_splitOn, split_eq_splitOn]
  exact List.splitOnP_append_cons front rest (beq_self_eq_true separator)

theorem intercalate_split (separator : Char) (text : List Char) :
    [separator].intercalate (split separator text) = text := by
  rw [split_eq_splitOn]
  exact List.intercalate_splitOn separator

theorem split_intercalate
    {pieces : List (List Char)} (hne : pieces ≠ []) (h : ∀ piece ∈ pieces, separator ∉ piece) :
    split separator ([separator].intercalate pieces) = pieces := by
  rw [split_eq_splitOn]
  exact List.splitOn_intercalate separator h hne

theorem split_of_not_mem (h : separator ∉ piece) : split separator piece = [piece] := by
  have hsplit := split_intercalate (List.cons_ne_nil piece [])
    (fun other hother => List.mem_singleton.mp hother ▸ h)
  rwa [List.intercalate_singleton] at hsplit

/-- The last piece is the one without a separator behind it. -/
theorem intercalate_concat (separator : Char) (pieces : List (List Char)) (last : List Char) :
    [separator].intercalate (pieces ++ [last]) = pieces.flatMap (· ++ [separator]) ++ last := by
  induction pieces with
  | nil => simp
  | cons piece pieces ih =>
    rw [List.cons_append, List.intercalate_cons_of_ne_nil (by simp), ih, List.flatMap_cons,
      List.append_assoc _ _ last]

theorem mem_intercalate
    {c : Char} {pieces : List (List Char)} (h : c ∈ [separator].intercalate pieces) :
    c = separator ∨ ∃ piece ∈ pieces, c ∈ piece := by
  induction pieces with
  | nil => simp at h
  | cons piece pieces ih =>
    cases pieces with
    | nil => exact Or.inr ⟨piece, List.mem_cons_self, by simpa using h⟩
    | cons next others =>
      rw [List.intercalate_cons_cons, List.mem_append, List.mem_append, List.mem_singleton] at h
      rcases h with (hpiece | hseparator) | hothers
      · exact Or.inr ⟨piece, List.mem_cons_self, hpiece⟩
      · exact Or.inl hseparator
      · rcases ih hothers with hseparator | ⟨other, hother, hmem⟩
        · exact Or.inl hseparator
        · exact Or.inr ⟨other, List.mem_cons_of_mem piece hother, hmem⟩

/-- Pieces that are left out take their separators with them. -/
theorem sublist_intercalate {pieces others : List (List Char)}
    (h : pieces.Sublist others) :
    ([separator].intercalate pieces).Sublist ([separator].intercalate others) := by
  induction h with
  | slnil => exact List.Sublist.refl _
  | cons piece h ih =>
    rename_i few more
    cases more with
    | nil => rw [List.sublist_nil.mp h]; exact List.nil_sublist _
    | cons next more =>
      rw [List.intercalate_cons_cons]
      exact ih.trans (List.sublist_append_right _ _)
  | cons_cons piece h ih =>
    rename_i few more
    cases few with
    | nil =>
      cases more with
      | nil => exact List.Sublist.refl _
      | cons next more =>
        rw [List.intercalate_singleton, List.intercalate_cons_cons, List.append_assoc]
        exact List.sublist_append_left _ _
    | cons next few =>
      cases more with
      | nil => cases h
      | cons other more =>
        rw [List.intercalate_cons_cons, List.intercalate_cons_cons]
        exact ih.append_left _

/-- The first piece of a text is where the text starts, the other ones lie further inside. -/
theorem within_of_mem_split (text : List Char) :
    (∀ piece ∈ (split separator text).head?, piece <+: text) ∧
      ∀ piece ∈ split separator text, piece <:+: text := by
  induction text with
  | nil => simp [split]
  | cons c cs ih =>
    obtain ⟨hfirst, hpieces⟩ := ih
    rw [split]
    split
    · constructor
      · rintro piece ⟨rfl⟩
        exact List.nil_prefix
      · intro piece hpiece
        rcases List.mem_cons.mp hpiece with rfl | hmem
        · exact List.nil_infix
        · exact List.infix_cons (hpieces piece hmem)
    · cases hsplit : split separator cs with
      | nil => exact absurd hsplit (split_ne_nil separator cs)
      | cons first others =>
        rw [hsplit] at hfirst hpieces
        have hgrown : c :: first <+: c :: cs :=
          List.cons_prefix_cons.mpr ⟨rfl, hfirst first rfl⟩
        constructor
        · rintro piece ⟨rfl⟩
          exact hgrown
        · intro piece hpiece
          rcases List.mem_cons.mp hpiece with rfl | hmem
          · exact hgrown.isInfix
          · exact List.infix_cons (hpieces piece (List.mem_cons_of_mem first hmem))

theorem headD_split_prefix (separator : Char) (text : List Char) :
    (split separator text).headD [] <+: text := by
  obtain ⟨first, others, hsplit⟩ := List.exists_cons_of_ne_nil (split_ne_nil separator text)
  have hfirst : first <+: text := (within_of_mem_split text).1 first (by rw [hsplit]; rfl)
  rwa [hsplit, List.headD_cons]

theorem mem_of_mem_split
    {c : Char} (h : piece ∈ split separator text) (hc : c ∈ piece) : c ∈ text :=
  ((within_of_mem_split text).2 piece h).mem hc

theorem separator_not_mem_of_mem_split (h : piece ∈ split separator text) : separator ∉ piece := by
  induction text generalizing piece with
  | nil =>
    obtain rfl : piece = [] := by simpa [split] using h
    exact List.not_mem_nil
  | cons c cs ih =>
    by_cases hc : c = separator
    · rw [split, if_pos hc] at h
      rcases List.mem_cons.mp h with rfl | hrest
      · exact List.not_mem_nil
      · exact ih hrest
    · obtain ⟨first, others, hsplit⟩ := List.exists_cons_of_ne_nil (split_ne_nil separator cs)
      rw [split_cons_of_ne hc, hsplit] at h
      rw [hsplit] at ih
      rcases List.mem_cons.mp h with rfl | hrest
      · intro hmem
        rcases List.mem_cons.mp hmem with rfl | hfirst
        · exact hc rfl
        · exact ih List.mem_cons_self hfirst
      · exact ih (List.mem_cons_of_mem first hrest)

/-! ## Lines -/

theorem closeLines_cons_cons (piece next : List Char) (pieces : List (List Char)) :
    closeLines (piece :: next :: pieces) = dropReturn piece :: closeLines (next :: pieces) :=
  rfl

theorem infix_of_mem_closeLines
    {pieces : List (List Char)} {line : List Char} (h : line ∈ closeLines pieces) :
    ∃ piece ∈ pieces, line <:+: piece := by
  fun_induction closeLines pieces with
  | case1 => cases h
  | case2 => cases h
  | case3 last hlast =>
    obtain rfl := List.mem_singleton.mp h
    exact ⟨line, by simp, List.infix_rfl⟩
  | case4 piece others hothers ih =>
    rcases List.mem_cons.mp h with rfl | hmem
    · refine ⟨piece, by simp, ?_⟩
      rw [dropReturn]
      split
      · exact (List.dropLast_prefix piece).isInfix
      · exact List.infix_rfl
    · obtain ⟨found, hfound, hinside⟩ := ih hmem
      exact ⟨found, List.mem_cons_of_mem piece hfound, hinside⟩

/-- Every line lies inside its text. -/
theorem infix_of_mem_lines {line : List Char} (h : line ∈ lines text) : line <:+: text := by
  obtain ⟨piece, hpiece, hline⟩ := infix_of_mem_closeLines h
  exact hline.trans ((within_of_mem_split text).2 piece hpiece)

theorem dropReturn_of_not_mem {line : List Char} (h : '\r' ∉ line) : dropReturn line = line := by
  rw [dropReturn, if_neg]
  intro hlast
  exact h (List.mem_of_getLast? hlast)

/-- Of pieces without carriage returns only an empty last one is no line. -/
theorem exists_closeLines_append
    {pieces : List (List Char)} (h : ∀ piece ∈ pieces, '\r' ∉ piece) :
    ∃ left, (∀ piece ∈ left, piece = []) ∧ pieces = closeLines pieces ++ left := by
  fun_induction closeLines pieces with
  | case1 => exact ⟨[], by simp, rfl⟩
  | case2 => exact ⟨[[]], by simp, rfl⟩
  | case3 last hlast => exact ⟨[], by simp, rfl⟩
  | case4 piece others hothers ih =>
    obtain ⟨left, hleft, heq⟩ := ih fun other hother => h other (List.mem_cons_of_mem piece hother)
    refine ⟨left, hleft, ?_⟩
    rw [dropReturn_of_not_mem (h piece List.mem_cons_self), List.cons_append, ← heq]

theorem exists_lines_append (h : '\r' ∉ text) :
    ∃ left, (∀ piece ∈ left, piece = []) ∧ split '\n' text = lines text ++ left := by
  apply exists_closeLines_append
  intro piece hpiece hmem
  exact h (mem_of_mem_split hpiece hmem)

end SchemaBinding.Text
