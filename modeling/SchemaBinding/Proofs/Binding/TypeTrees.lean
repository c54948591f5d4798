import SchemaBinding.Proofs.Binding.InputType

/-!
# Types as trees

The type of a field is written as text, and a reader of the binding's language
makes a tree of it.  In output position the tree follows the reference: a list
is an array, and non-null marks leave no trace.  In input position it is the
union that brackets and bars come to.  Both trees are read back from their
texts, and every name in them is the text of the reference's leaf.
-/

namespace SchemaBinding.Binding

namespace TypeExpr

/-- A type as it is written where no parentheses are needed. -/
def text : TypeExpr → String
  | name text => text
  | array item => item.text ++ "[]"
  | union left right => left.text ++ " | " ++ right.text

/-- The names in a type, from the left. -/
def names : TypeExpr → List String
  | name text => [text]
  | array item => item.names
  | union left right => left.names ++ right.names

def tokens : TypeExpr → List TypeToken
  | name text => [.name text]
  | array item => item.tokens ++ [.openBracket, .closeBracket]
  | union left right => left.tokens ++ [.bar] ++ right.tokens

/-- A type without unions. -/
def isPlain : TypeExpr → Bool
  | name _ => true
  | array item => item.isPlain
  | union .. => false

/-- A type that needs no parentheses: brackets stand behind no union, and the
members of a union follow each other. -/
def isFlat : TypeExpr → Bool
  | union left right => left.isFlat && right.isPlain
  | type => type.isPlain

end TypeExpr

/-! ## Reading trees back -/

theorem foldlM_tokens_of_isPlain
    {type : TypeExpr} (h : type.isPlain = true) (before : Option TypeExpr) (outer : List Frame) :
    type.tokens.foldlM stepType (⟨before, .missing⟩, outer) =
      some (⟨before, .complete type⟩, outer) := by
  induction type with
  | name text => rfl
  | array item ih =>
    rw [TypeExpr.tokens, List.foldlM_append, ih h]
    rfl
  | union left right => cases h

/-- Behind the tokens of a flat type its last member is complete. -/
theorem foldlM_tokens_of_isFlat
    {type : TypeExpr} (h : type.isFlat = true) (outer : List Frame) :
    ∃ before last, TypeExpr.join before last = type ∧
      type.tokens.foldlM stepType (⟨none, .missing⟩, outer) =
        some (⟨before, .complete last⟩, outer) := by
  induction type with
  | name text => exact ⟨none, .name text, rfl, rfl⟩
  | array item =>
    have harray : (TypeExpr.array item).isPlain = true := h
    exact ⟨none, .array item, rfl, foldlM_tokens_of_isPlain harray none outer⟩
  | union left right ihleft =>
    rw [TypeExpr.isFlat, Bool.and_eq_true] at h
    obtain ⟨before, last, hjoin, hleft⟩ := ihleft h.1
    refine ⟨some left, right, rfl, ?_⟩
    rw [TypeExpr.tokens, List.foldlM_append, List.foldlM_append, hleft]
    simp only [Option.bind_eq_bind, Option.bind_some, List.foldlM_cons, List.foldlM_nil,
      stepType, Option.pure_def, hjoin]
    exact foldlM_tokens_of_isPlain h.2 (some left) outer

/-- The type that tokens stand for, if they stand for one. -/
def typeOfTokens? (tokens : List TypeToken) : Option TypeExpr :=
  (tokens.foldlM stepType (.start, [])).bind typeOfState?

theorem typeOfTokens?_tokens {type : TypeExpr} (h : type.isFlat = true) :
    typeOfTokens? type.tokens = some type := by
  obtain ⟨before, last, hjoin, htokens⟩ := foldlM_tokens_of_isFlat h []
  rw [typeOfTokens?, Frame.start, htokens, Option.bind_some, typeOfState?, hjoin]

/-! ## The trees of references -/

/-- What a reference is in output position. -/
def outputType (inlineScalars : Bool) : TypeRef → TypeExpr
  | .named name => .name (leafText inlineScalars .output name)
  | .nonNull inner => outputType inlineScalars inner
  | .list inner => .array (outputType inlineScalars inner)

def typeTree (inlineScalars : Bool) : Position → TypeRef → TypeExpr
  | .output => outputType inlineScalars
  | .input => inputType inlineScalars

theorem text_outputType (inlineScalars : Bool) (r : TypeRef) :
    (outputType inlineScalars r).text = typeText inlineScalars .output r := by
  induction r with
  | named name => rfl
  | nonNull inner ih => exact ih
  | list inner ih => rw [outputType, TypeExpr.text, ih, typeText]

theorem isPlain_outputType (inlineScalars : Bool) (r : TypeRef) :
    (outputType inlineScalars r).isPlain = true := by
  induction r with
  | named name => rfl
  | nonNull inner ih => exact ih
  | list inner ih => exact ih

theorem names_outputType (inlineScalars : Bool) (r : TypeRef) :
    (outputType inlineScalars r).names = [leafText inlineScalars .output r.leaf] := by
  induction r with
  | named name => rfl
  | nonNull inner ih => exact ih
  | list inner ih => exact ih

/-- The text of the members that stand before the last one. -/
def textBefore : Option TypeExpr → String
  | none => ""
  | some type => type.text ++ " | "

theorem text_join (before : Option TypeExpr) (type : TypeExpr) :
    (TypeExpr.join before type).text = textBefore before ++ type.text := by
  cases before with
  | none => rw [textBefore, String.empty_append, TypeExpr.join]
  | some left => rfl

theorem textBefore_joinAll (before : Option TypeExpr) (members : List TypeExpr) :
    textBefore (joinAll before members) =
      textBefore before ++ String.join (members.map fun member => member.text ++ " | ") := by
  induction members generalizing before with
  | nil => simp [joinAll]
  | cons member members ih =>
    have hjoin : joinAll before (member :: members) =
        joinAll (some (.join before member)) members := rfl
    rw [hjoin, ih, textBefore, text_join]
    simp [String.append_assoc]

/-- A list repeats the text of its item, and so it repeats the members of the item's union. -/
theorem join_earlierMembers (inlineScalars : Bool) (r : TypeRef) :
    String.join ((earlierMembers (.name (leafText inlineScalars .input r.leaf)) r).map
        fun member => member.text ++ " | ") ++ leafText inlineScalars .input r.leaf =
      typeText inlineScalars .input r := by
  induction r with
  | named name => simp [earlierMembers, typeText, TypeRef.leaf]
  | nonNull inner ih => exact ih
  | list inner ih =>
    rw [typeText, ← ih]
    simp [earlierMembers, TypeRef.leaf, TypeExpr.text, String.append_assoc]

theorem text_inputType (inlineScalars : Bool) (r : TypeRef) :
    (inputType inlineScalars r).text = typeText inlineScalars .input r := by
  rw [inputType, text_join, textBefore_joinAll, textBefore, String.empty_append,
    ← join_earlierMembers]
  rfl

theorem text_typeTree (inlineScalars : Bool) (position : Position) (r : TypeRef) :
    (typeTree inlineScalars position r).text = typeText inlineScalars position r := by
  cases position with
  | output => exact text_outputType inlineScalars r
  | input => exact text_inputType inlineScalars r

/-- A union that is put together member by member is flat and has the names of its members. -/
theorem join_joinAll_induction
    {motive : TypeExpr → Prop} {members : List TypeExpr} {last : TypeExpr}
    (hunion : ∀ left right, motive left → right ∈ last :: members → motive (.union left right))
    (hmember : ∀ member ∈ last :: members, motive member) :
    motive (.join (joinAll none members) last) := by
  have hjoin : ∀ before : Option TypeExpr, (∀ type ∈ before, motive type) →
      ∀ right ∈ last :: members, motive (.join before right) := by
    intro before hbefore right hright
    cases before with
    | none => exact hmember right hright
    | some left => exact hunion left right (hbefore left rfl) hright
  have hbefore : ∀ rest, rest ⊆ members → ∀ before : Option TypeExpr,
      (∀ type ∈ before, motive type) → ∀ type ∈ joinAll before rest, motive type := by
    intro rest
    induction rest with
    | nil =>
      intro _ before hbefore
      exact hbefore
    | cons member rest ih =>
      intro hsubset before hbefore
      have hmem : member ∈ last :: members := List.mem_cons_of_mem last (hsubset (by simp))
      apply ih (fun type htype => hsubset (List.mem_cons_of_mem member htype))
      rintro type ⟨rfl⟩
      exact hjoin before hbefore member hmem
  exact hjoin (joinAll none members) (hbefore members (fun _ h => h) none (by simp)) last (by simp)

theorem eq_or_eq_array_of_mem_members
    {leaf type : TypeExpr} {r : TypeRef} (h : type ∈ leaf :: earlierMembers leaf r) :
    type = leaf ∨ type = .array leaf := by
  rcases List.mem_cons.mp h with rfl | hmem
  · exact Or.inl rfl
  · exact Or.inr (mem_earlierMembers_iff.mp hmem).2

theorem isFlat_inputType (inlineScalars : Bool) (r : TypeRef) :
    (inputType inlineScalars r).isFlat = true := by
  apply join_joinAll_induction (motive := fun type => type.isFlat = true)
  · intro left right hleft hright
    have hplain : right.isPlain = true := by
      rcases eq_or_eq_array_of_mem_members hright with rfl | rfl <;> rfl
    rw [TypeExpr.isFlat, hleft, hplain, Bool.and_self]
  · intro member hmember
    rcases eq_or_eq_array_of_mem_members hmember with rfl | rfl <;> rfl

theorem mem_names_inputType_iff {inlineScalars : Bool} {r : TypeRef} {x : String} :
    x ∈ (inputType inlineScalars r).names ↔ x = leafText inlineScalars .input r.leaf := by
  apply join_joinAll_induction
    (motive := fun type => x ∈ type.names ↔ x = leafText inlineScalars .input r.leaf)
  · intro left right hleft hright
    rw [TypeExpr.names, List.mem_append, hleft]
    rcases eq_or_eq_array_of_mem_members hright with rfl | rfl <;> simp [TypeExpr.names]
  · intro member hmember
    rcases eq_or_eq_array_of_mem_members hmember with rfl | rfl <;> simp [TypeExpr.names]

theorem isFlat_typeTree (inlineScalars : Bool) (position : Position) (r : TypeRef) :
    (typeTree inlineScalars position r).isFlat = true := by
  cases position with
  | output =>
    have hplain := isPlain_outputType inlineScalars r
    rw [typeTree]
    cases htype : outputType inlineScalars r with
    | name text => rfl
    | array item => rwa [htype] at hplain
    | union left right =>
      rw [htype] at hplain
      cases hplain
  | input => exact isFlat_inputType inlineScalars r

/-- The type of a field uses one name, which is the text of the leaf. -/
theorem mem_names_typeTree_iff
    {inlineScalars : Bool} {position : Position} {r : TypeRef} {x : String} :
    x ∈ (typeTree inlineScalars position r).names ↔ x = leafText inlineScalars position r.leaf := by
  cases position with
  | output => rw [typeTree, names_outputType, List.mem_singleton]
  | input => exact mem_names_inputType_iff

end SchemaBinding.Binding
