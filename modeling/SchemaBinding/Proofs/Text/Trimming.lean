import Mathlib.Data.List.DropRight
import SchemaBinding.Text.Blank

/-!
# Trimmed texts

Two texts are the same once they are trimmed just where one and the same core
stands in both of them, with nothing but white space around it.
-/

namespace SchemaBinding

theorem rdropWhile_append_of_all {α : Type} {p : α → Bool} {blanks : List α}
    (h : ∀ x ∈ blanks, p x = true) (kept : List α) :
    (kept ++ blanks).rdropWhile p = kept.rdropWhile p := by
  have hback : ∀ x ∈ blanks.reverse, p x = true := fun x hx => h x (List.mem_reverse.mp hx)
  rw [List.rdropWhile, List.reverse_append, List.dropWhile_append_of_pos hback, List.rdropWhile]

/-- What is dropped at both ends may as well not be there. -/
theorem rdropWhile_dropWhile_append {α : Type} {p : α → Bool} {blanks : List α}
    (h : ∀ x ∈ blanks, p x = true) (xs : List α) :
    ((xs ++ blanks).dropWhile p).rdropWhile p = (xs.dropWhile p).rdropWhile p := by
  rw [List.dropWhile_append]
  split
  next hnone => rw [List.dropWhile_eq_nil_iff.mpr h, List.isEmpty_iff.mp hnone]
  next => exact rdropWhile_append_of_all h _

namespace Text

variable {core : List Char} {text left right : String}

/-- In the text there is nothing but white space around the core. -/
def HasCore (core : List Char) (text : String) : Prop :=
  ∃ front back, text.toList = front ++ core ++ back ∧ ∀ c ∈ front ++ back, isBlank c = true

/-- The texts differ in the white space at their ends at most. -/
def SameCore (left right : String) : Prop :=
  ∃ core, HasCore core left ∧ HasCore core right

theorem hasCore_trim (text : String) : HasCore (trim text.toList) text := by
  have hfront := List.takeWhile_append_dropWhile (p := isBlank) (l := text.toList)
  have hback := List.takeWhile_append_dropWhile (p := isBlank)
    (l := (text.toList.dropWhile isBlank).reverse)
  refine ⟨text.toList.takeWhile isBlank,
    ((text.toList.dropWhile isBlank).reverse.takeWhile isBlank).reverse, ?_, ?_⟩
  · rw [trim, trimEnd, List.append_assoc, ← List.reverse_append, hback, List.reverse_reverse, hfront]
  · intro c hc
    rcases List.mem_append.mp hc with hc | hc
    · exact List.mem_takeWhile_imp hc
    · exact List.mem_takeWhile_imp (List.mem_reverse.mp hc)

theorem HasCore.trim_eq (h : HasCore core text) : trim text.toList = trim core := by
  obtain ⟨front, back, htext, hblank⟩ := h
  have hfront : ∀ c ∈ front, isBlank c = true := fun c hc => hblank c (List.mem_append_left _ hc)
  have hback : ∀ c ∈ back, isBlank c = true := fun c hc => hblank c (List.mem_append_right _ hc)
  rw [htext, List.append_assoc, trim, List.dropWhile_append_of_pos hfront]
  exact rdropWhile_dropWhile_append hback core

theorem sameTrimmed_eq_true_iff : sameTrimmed left right = true ↔ SameCore left right := by
  rw [sameTrimmed, decide_eq_true_eq]
  constructor
  · intro hsame
    exact ⟨trim left.toList, hasCore_trim left, hsame ▸ hasCore_trim right⟩
  · rintro ⟨core, hleft, hright⟩
    rw [hleft.trim_eq, hright.trim_eq]

end Text

end SchemaBinding
