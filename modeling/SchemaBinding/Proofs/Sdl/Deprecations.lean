import SchemaBinding.Proofs.Sdl.BlockStringValue
import SchemaBinding.Proofs.Sdl.Outline
import SchemaBinding.Proofs.Sdl.StringValue

/-!
# Deprecations read back

The directive behind a field or a value is the last part of its row, and rows
end where their lines end.  A reader takes one directive from it, whatever item
comes next, and finds the reason of the deprecation in that directive or
supplies the one that the directive leaves out.
-/

namespace SchemaBinding.Sdl

open Reader

/-! ## The reason of a directive -/

/-- The characters that a constant stands for, if it is a string. -/
def Reader.constantText? : List Token → Option (List Char)
  | [.string text] => stringValue? text
  | [.blockString raw] => some (blockStringValue raw)
  | _ => none

/-- The reason that a reader takes from a directive, if it marks a deprecation. -/
def Tree.Directive.reason? (directive : Tree.Directive) : Option (List Char) :=
  if directive.name = "deprecated" then
    match directive.arguments.lookup "reason" with
    | none => some defaultReason.toList
    | some value => constantText? value
  else none

/-- `mark` is read as one directive, which marks a deprecation for this reason. -/
def ReadsDeprecated (mark reason : String) : Prop :=
  ∃ tokens directive, Reads mark tokens ∧
    (∀ rest, Boundary rest → takeDirectives (tokens ++ rest) = some ([directive], rest)) ∧
      directive.reason? = some reason.toList

/-- A reason that is left out is the one that a reader supplies. -/
theorem exists_deprecationTree_eq (reason : String) :
    ∃ directive, deprecationTree (some reason) = [directive] ∧
      directive.reason? = some reason.toList := by
  rw [deprecationTree]
  split
  next hdefault =>
    subst hdefault
    exact ⟨_, rfl, rfl⟩
  next => exact ⟨_, rfl, stringValue?_flatMap_escapeChar reason.toList⟩

theorem readsDeprecated_deprecationMark (reason : String) :
    ReadsDeprecated (deprecationMark (some reason)) reason := by
  obtain ⟨directive, htree, hreason⟩ := exists_deprecationTree_eq reason
  refine ⟨deprecationTokens (some reason), directive, reads_deprecationMark _, ?_, hreason⟩
  intro rest hrest
  rw [takeDirectives_deprecationTokens _ hrest, htree]

theorem deprecationMark_some_ne_empty (reason : String) : deprecationMark (some reason) ≠ "" := by
  rw [deprecationMark]
  split
  · decide
  · simp [String.append_eq_empty_iff]

/-! ## Lines of a directive -/

/-- No line ends inside `text`. -/
def Unbroken (text : String) : Prop :=
  ∀ c ∈ text.toList, isLineEnd c = false

instance (text : String) : Decidable (Unbroken text) :=
  decidable_of_iff (text.toList.all (!isLineEnd ·) = true) (by simp [Unbroken])

theorem Unbroken.append {text other : String} (h : Unbroken text) (hother : Unbroken other) :
    Unbroken (text ++ other) := by
  intro c hc
  rw [String.toList_append] at hc
  exact (List.mem_append.mp hc).elim (h c) (hother c)

theorem isLineEnd_of_isHexDigit {c : Char} (h : isHexDigit c = true) : isLineEnd c = false := by
  rw [Bool.eq_false_iff]
  intro hend
  rw [isLineEnd, Bool.or_eq_true, decide_eq_true_iff, decide_eq_true_iff] at hend
  rcases hend with rfl | rfl <;> exact absurd h (by decide)

theorem isLineEnd_of_mem_escapeChar {c d : Char} (h : d ∈ Json.escapeChar c) :
    isLineEnd d = false := by
  have hescape {second : Char} (hsecond : isLineEnd second = false) (hd : d ∈ ['\\', second]) :
      isLineEnd d = false := by
    rcases List.mem_pair.mp hd with rfl | rfl
    · decide
    · exact hsecond
  unfold Json.escapeChar at h
  split_ifs at h with _ _ _ _ hfeed hreturn
  · exact hescape (by decide) h
  · exact hescape (by decide) h
  · exact hescape (by decide) h
  · exact hescape (by decide) h
  · exact hescape (by decide) h
  · exact hescape (by decide) h
  · exact hescape (by decide) h
  · have hdigit (n : Nat) : isLineEnd (Json.hexDigit n) = false :=
      isLineEnd_of_isHexDigit (isHexDigit_hexDigit n)
    simp only [List.mem_cons, List.not_mem_nil, or_false] at h
    rcases h with rfl | rfl | rfl | rfl | rfl | rfl
    · decide
    · decide
    · decide
    · decide
    · exact hdigit _
    · exact hdigit _
  · obtain rfl := List.mem_singleton.mp h
    simp [isLineEnd, hfeed, hreturn]

theorem unbroken_quote (text : String) : Unbroken (Json.quote text) := by
  intro c hc
  rw [Json.quote, String.toList_ofList, Json.quoteChars, List.mem_append, List.mem_cons,
    List.mem_singleton] at hc
  rcases hc with (rfl | htext) | rfl
  · decide
  · obtain ⟨d, -, hd⟩ := List.mem_flatMap.mp htext
    exact isLineEnd_of_mem_escapeChar hd
  · decide

/-- A directive stays on its line, also where its reason does not. -/
theorem unbroken_deprecationMark (deprecation : Option String) :
    Unbroken (deprecationMark deprecation) := by
  cases deprecation with
  | none =>
    rw [deprecationMark]
    decide
  | some reason =>
    rw [deprecationMark]
    split
    · decide
    · have hopen : Unbroken " @deprecated(reason: " := by decide
      have hclose : Unbroken ")" := by decide
      exact (hopen.append (unbroken_quote reason)).append hclose

/-! ## Rows of a document -/

theorem fieldRow_eq (f : Field) :
    fieldRow f = fieldRow { f with deprecation := none } ++ deprecationMark f.deprecation := by
  simp [fieldRow, deprecationMark]

theorem valueRow_eq (v : EnumValue) :
    valueRow v = valueRow { v with deprecation := none } ++ deprecationMark v.deprecation := by
  simp [valueRow, deprecationMark]

/-- The rows between the braces of a definition. -/
def bodyRows : TypeBody → List String
  | .object fields _ => fields.items.map fieldRow
  | .interface fields => fields.items.map fieldRow
  | .inputObject fields => fields.items.map fieldRow
  | .enumeration values => values.map valueRow
  | .union _ => []
  | .scalar => []

/-- `piece` stands somewhere in `text`. -/
def Holds (text piece : String) : Prop :=
  ∃ before after, text = before ++ piece ++ after

theorem Holds.trans {text piece part : String} (h : Holds text piece) (hpart : Holds piece part) :
    Holds text part := by
  obtain ⟨before, after, rfl⟩ := h
  obtain ⟨front, back, rfl⟩ := hpart
  exact ⟨before ++ front, back ++ after, by simp only [String.append_assoc]⟩

/-- Behind an item of a row comes the separator, or nothing at all. -/
theorem exists_intercalate_eq
    (separator : String) {items : List String} {item : String} (h : item ∈ items) :
    ∃ before after, separator.intercalate items = before ++ item ++ after ∧
      (after = "" ∨ ∃ rest, after = separator ++ rest) := by
  induction items with
  | nil => cases h
  | cons first others ih =>
    cases others with
    | nil =>
      obtain rfl := List.mem_singleton.mp h
      exact ⟨"", "", by simp, Or.inl rfl⟩
    | cons second others =>
      rw [String.intercalate_cons_cons]
      rcases List.mem_cons.mp h with rfl | hrest
      · exact ⟨"", separator ++ separator.intercalate (second :: others),
          by simp [String.append_assoc], Or.inr ⟨_, rfl⟩⟩
      · obtain ⟨before, after, hothers, hafter⟩ := ih hrest
        rw [hothers]
        exact ⟨first ++ separator ++ before, after, by simp [String.append_assoc], hafter⟩

theorem holds_intercalate
    (separator : String) {items : List String} {item : String} (h : item ∈ items) :
    Holds (separator.intercalate items) item := by
  obtain ⟨before, after, hitems, -⟩ := exists_intercalate_eq separator h
  exact ⟨before, after, hitems⟩

/-- Every row of a block has a line end behind it. -/
theorem holds_block {rows : List String} {row : String} (h : row ∈ rows) :
    Holds (block rows) (row ++ "\n") := by
  obtain ⟨before, after, hrows, hafter⟩ := exists_intercalate_eq "\n" h
  rw [block, if_neg (List.ne_nil_of_mem h), hrows]
  rcases hafter with rfl | ⟨rest, rfl⟩
  · exact ⟨" \x7b\n" ++ before, "\x7d", by simp [String.append_assoc]⟩
  · exact ⟨" \x7b\n" ++ before, rest ++ "\n\x7d", by simp [String.append_assoc]⟩

theorem holds_head {name : String} {body : TypeBody} {row : String} (h : row ∈ bodyRows body) :
    Holds (head name body) (row ++ "\n") := by
  cases body with
  | object fields interfaces =>
    exact Holds.trans ⟨"type " ++ name ++ implementsClause interfaces, "",
      by simp [head, fieldBlock, bodyRows]⟩ (holds_block h)
  | interface fields =>
    exact Holds.trans ⟨"interface " ++ name, "", by simp [head, fieldBlock, bodyRows]⟩ (holds_block h)
  | inputObject fields =>
    exact Holds.trans ⟨"input " ++ name, "", by simp [head, fieldBlock, bodyRows]⟩ (holds_block h)
  | enumeration values =>
    exact Holds.trans ⟨"enum " ++ name, "", by simp [head, bodyRows]⟩ (holds_block h)
  | union members => cases h
  | scalar => cases h

/-- The rows of every definition that is shown are lines of the document. -/
theorem holds_document
    {schema : Schema} {d : TypeDefinition} (hd : d ∈ visibleTypes schema) {row : String}
    (hrow : row ∈ bodyRows d.body) : Holds (document schema) (row ++ "\n") := by
  have hblock : definition d ∈ blocks schema :=
    List.mem_append_right _ (List.mem_map_of_mem hd)
  have hblocks : Holds (document schema) ("\n\n".intercalate (blocks schema)) := by
    rw [document]
    cases hcases : blocks schema with
    | nil =>
      rw [hcases] at hblock
      cases hblock
    | cons first others => exact ⟨"", "\n", by simp⟩
  have hdefinition : Holds (definition d) (head d.name d.body) :=
    ⟨describe "" d.description, "", by simp [definition]⟩
  exact ((hblocks.trans (holds_intercalate _ hblock)).trans hdefinition).trans (holds_head hrow)

end SchemaBinding.Sdl
