import SchemaBinding.Binding.TypeText
import SchemaBinding.Proofs.Binding.TypeReader

/-!
# What input types accept

In input position a list is written as the text of its item with brackets, a
bar, and the text of its item again.  The text is put together without
parentheses, so the brackets take only the last member of the item's union,
which is the leaf type at every depth.  A list therefore accepts what its item
accepts and arrays of leaf values, and no array inside an array.
-/

namespace SchemaBinding

/-- The number of list wrappers of a reference. -/
def TypeRef.listDepth : TypeRef → Nat
  | named _ => 0
  | nonNull inner => inner.listDepth
  | list inner => inner.listDepth + 1

namespace Binding

/-! ## Tokens of input types -/

/-- The tokens of a reference in input position. -/
def inputTokens (inlineScalars : Bool) : TypeRef → List TypeToken
  | .named name => [.name (leafText inlineScalars .input name)]
  | .nonNull inner => inputTokens inlineScalars inner
  | .list inner =>
    inputTokens inlineScalars inner ++ [.openBracket, .closeBracket, .bar] ++
      inputTokens inlineScalars inner

theorem isIdentifier_append
    {s t : String} (hs : isIdentifier s = true) (ht : t.toList.all isIdentifierChar = true) :
    isIdentifier (s ++ t) = true := by
  cases hchars : s.toList with
  | nil => simp [isIdentifier, hchars] at hs
  | cons c cs =>
    simp only [isIdentifier, hchars, Bool.and_eq_true] at hs
    simp only [isIdentifier, String.toList_append, hchars, List.cons_append, List.all_append,
      Bool.and_eq_true]
    exact ⟨hs.1, hs.2, ht⟩

theorem isIdentifier_primitiveType
    {name type : String} (h : primitiveType? name = some type) : isIdentifier type = true := by
  unfold primitiveType? at h
  split at h
  · cases h
    decide
  split at h
  · cases h
    decide
  split at h
  · cases h
    decide
  · cases h

theorem isIdentifier_leafText
    (inlineScalars : Bool) (position : Position) {name : String} (h : isIdentifier name = true) :
    isIdentifier (leafText inlineScalars position name) = true := by
  unfold leafText
  split
  · exact isIdentifier_append h (by cases position <;> decide)
  split
  · cases hprimitive : primitiveType? name with
    | none => exact h
    | some type => exact isIdentifier_primitiveType hprimitive
  · exact h

theorem scanType_brackets (rest : List Char) :
    scanType [] ("[] | ".toList ++ rest) =
      (scanType [] rest).map ([.openBracket, .closeBracket, .bar] ++ ·) := by
  change scanType [] ('[' :: ']' :: ' ' :: '|' :: ' ' :: rest) = _
  simp [scanType, goesOn, isIdentifierStart, typeMark?, pendingToken, Function.comp_def]

theorem endsName_brackets (rest : List Char) : EndsName ("[] | ".toList ++ rest) := by
  rintro _ ⟨rfl⟩
  rfl

theorem typeTokens_typeText
    (inlineScalars : Bool) {r : TypeRef} (h : isIdentifier r.leaf = true) :
    TypeTokens (typeText inlineScalars .input r) (inputTokens inlineScalars r) := by
  induction r with
  | named name => exact typeTokens_name (isIdentifier_leafText inlineScalars .input h)
  | nonNull inner ih => exact ih h
  | list inner ih =>
    intro rest hrest
    have htext : typeText inlineScalars .input (.list inner) =
        typeText inlineScalars .input inner ++ "[] | " ++ typeText inlineScalars .input inner :=
      rfl
    rw [htext, String.toList_append, String.toList_append, List.append_assoc, List.append_assoc,
      ih h _ (endsName_brackets _), scanType_brackets, ih h rest hrest, inputTokens]
    cases scanType [] rest <;> simp

/-! ## Reading input types -/

/-- The members of the union of an input type, the last one excepted. -/
def earlierMembers (leaf : TypeExpr) : TypeRef → List TypeExpr
  | .named _ => []
  | .nonNull inner => earlierMembers leaf inner
  | .list inner => earlierMembers leaf inner ++ [.array leaf] ++ earlierMembers leaf inner

def joinAll (before : Option TypeExpr) (members : List TypeExpr) : Option TypeExpr :=
  members.foldl (fun before type => some (.join before type)) before

/-- The name of the leaf is the last member of the union, at every depth. -/
theorem foldlM_inputTokens
    (inlineScalars : Bool) (r : TypeRef) (before : Option TypeExpr) (outer : List Frame) :
    (inputTokens inlineScalars r).foldlM stepType (⟨before, .missing⟩, outer) =
      some (⟨joinAll before
          (earlierMembers (.name (leafText inlineScalars .input r.leaf)) r),
        .complete (.name (leafText inlineScalars .input r.leaf))⟩, outer) := by
  induction r generalizing before with
  | named name => rfl
  | nonNull inner ih => exact ih before
  | list inner ih =>
    rw [inputTokens, List.foldlM_append, List.foldlM_append, ih before]
    simp only [Option.bind_eq_bind, Option.bind_some, List.foldlM_cons, List.foldlM_nil,
      stepType, Option.pure_def]
    rw [TypeRef.leaf, ih, earlierMembers, joinAll, joinAll, joinAll, List.foldl_append,
      List.foldl_append]
    rfl

/-- The type that an input type is read as. -/
def inputType (inlineScalars : Bool) (r : TypeRef) : TypeExpr :=
  let leaf := .name (leafText inlineScalars .input r.leaf)
  .join (joinAll none (earlierMembers leaf r)) leaf

theorem readType_typeText
    (inlineScalars : Bool) {r : TypeRef} (h : isIdentifier r.leaf = true) :
    readType (typeText inlineScalars .input r) = some (inputType inlineScalars r) := by
  have hscan := typeTokens_typeText inlineScalars h [] (by simp [EndsName])
  rw [List.append_nil] at hscan
  have hrun := foldlM_inputTokens inlineScalars r none []
  simp only [readType, hscan, scanType, pendingToken, Option.map_some, List.append_nil,
    Option.bind_eq_bind, Option.bind_some, Frame.start, hrun]
  rfl

/-! ## The values of input types -/

variable {names : String → Value → Prop} {value : Value}

theorem accepts_join (before : Option TypeExpr) (type : TypeExpr) :
    (TypeExpr.join before type).accepts names value ↔
      (∃ member ∈ before, member.accepts names value) ∨ type.accepts names value := by
  cases before <;> simp [TypeExpr.join, TypeExpr.accepts]

theorem exists_mem_joinAll_accepts (before : Option TypeExpr) (members : List TypeExpr) :
    (∃ type ∈ joinAll before members, type.accepts names value) ↔
      (∃ type ∈ before, type.accepts names value) ∨
        ∃ type ∈ members, type.accepts names value := by
  induction members generalizing before with
  | nil => simp [joinAll]
  | cons member members ih =>
    have hjoin : joinAll before (member :: members) =
        joinAll (some (.join before member)) members := rfl
    rw [hjoin, ih]
    simp [accepts_join, or_assoc]

/-- Whether a reference has a list wrapper. -/
def hasList : TypeRef → Bool
  | .named _ => false
  | .nonNull inner => hasList inner
  | .list _ => true

theorem hasList_iff_listDepth_pos {r : TypeRef} : hasList r = true ↔ 0 < r.listDepth := by
  induction r with
  | named name => simp [hasList, TypeRef.listDepth]
  | nonNull inner ih => exact ih
  | list inner ih => simp [hasList, TypeRef.listDepth]

theorem mem_earlierMembers_iff {leaf type : TypeExpr} {r : TypeRef} :
    type ∈ earlierMembers leaf r ↔ hasList r = true ∧ type = .array leaf := by
  induction r with
  | named name => simp [earlierMembers, hasList]
  | nonNull inner ih => exact ih
  | list inner ih =>
    simp only [earlierMembers, List.mem_append, List.mem_singleton, ih, hasList]
    constructor
    · rintro ((⟨-, h⟩ | h) | ⟨-, h⟩)
      · exact ⟨trivial, h⟩
      · exact ⟨trivial, h⟩
      · exact ⟨trivial, h⟩
    · rintro ⟨-, h⟩
      exact Or.inl (Or.inr h)

theorem inputType_of_hasList_eq_false
    (inlineScalars : Bool) {r : TypeRef} (h : hasList r = false) :
    inputType inlineScalars r = .name (leafText inlineScalars .input r.leaf) := by
  have hnone : earlierMembers (.name (leafText inlineScalars .input r.leaf)) r = [] := by
    refine List.eq_nil_iff_forall_not_mem.mpr fun type htype => ?_
    rw [mem_earlierMembers_iff, h] at htype
    cases htype.1
  rw [inputType, hnone]
  rfl

/-- An input type accepts leaf values and, with a list at any depth, arrays of them. -/
theorem inputType_accepts_iff (inlineScalars : Bool) (r : TypeRef) :
    (inputType inlineScalars r).accepts names value ↔
      names (leafText inlineScalars .input r.leaf) value ∨
        hasList r = true ∧
          (TypeExpr.array (.name (leafText inlineScalars .input r.leaf))).accepts names value := by
  rw [inputType, accepts_join, exists_mem_joinAll_accepts]
  simp only [mem_earlierMembers_iff]
  constructor
  · rintro ((⟨type, hnone, -⟩ | ⟨type, ⟨hlist, rfl⟩, haccepts⟩) | hleaf)
    · cases hnone
    · exact Or.inr ⟨hlist, haccepts⟩
    · exact Or.inl hleaf
  · rintro (hleaf | ⟨hlist, haccepts⟩)
    · exact Or.inr hleaf
    · exact Or.inl (Or.inr ⟨_, ⟨hlist, rfl⟩, haccepts⟩)

theorem inputType_list_accepts_iff (inlineScalars : Bool) (r : TypeRef) :
    (inputType inlineScalars (.list r)).accepts names value ↔
      (inputType inlineScalars r).accepts names value ∨
        (TypeExpr.array (.name (leafText inlineScalars .input r.leaf))).accepts names value := by
  rw [inputType_accepts_iff, inputType_accepts_iff, TypeRef.leaf]
  simp only [hasList, true_and]
  constructor
  · rintro (hleaf | harray)
    · exact Or.inl (Or.inl hleaf)
    · exact Or.inr harray
  · rintro ((hleaf | ⟨-, harray⟩) | harray)
    · exact Or.inl hleaf
    · exact Or.inr harray
    · exact Or.inr harray

/-- Only atoms belong to a name. -/
def atomsOnly (_ : String) : Value → Prop
  | .atom _ => True
  | .array _ => False

/-- An atom with `depth` arrays of one element around it. -/
def nestedAtom : Nat → Value
  | 0 => .atom "1"
  | depth + 1 => .array [nestedAtom depth]

/-- An array of one array of one atom. -/
def nestedArray : Value :=
  .array [.array [.atom "1"]]

/-- Two arrays around a value are one too many at any depth of lists. -/
theorem inputType_rejects_nestedAtom (inlineScalars : Bool) (r : TypeRef) (depth : Nat) :
    ¬ (inputType inlineScalars r).accepts atomsOnly (nestedAtom (depth + 2)) := by
  rw [inputType_accepts_iff]
  rintro (hleaf | ⟨-, items, hitems, hall⟩)
  · exact hleaf
  · obtain rfl : [nestedAtom (depth + 1)] = items := Value.array.inj hitems
    exact hall (nestedAtom (depth + 1)) (by simp)

/-- An item type with a list accepts the inner array, and the list accepts no array of arrays. -/
theorem nestedArray_of_hasList
    (inlineScalars : Bool) {r : TypeRef} (h : hasList r = true) :
    (TypeExpr.array (inputType inlineScalars r)).accepts atomsOnly nestedArray ∧
      ¬ (inputType inlineScalars (.list r)).accepts atomsOnly nestedArray := by
  refine ⟨⟨_, rfl, fun x hx => ?_⟩, inputType_rejects_nestedAtom inlineScalars (.list r) 0⟩
  obtain rfl : x = .array [.atom "1"] := by simpa using hx
  rw [inputType_accepts_iff]
  refine Or.inr ⟨h, _, rfl, fun y hy => ?_⟩
  obtain rfl : y = .atom "1" := by simpa using hy
  trivial

/-- The arrays of arrays of an item that nest `depth` times. -/
def TypeExpr.nested (item : TypeExpr) : Nat → TypeExpr
  | 0 => item
  | depth + 1 => .array (item.nested depth)

theorem nested_accepts_nestedAtom (text : String) (depth : Nat) :
    ((TypeExpr.name text).nested depth).accepts atomsOnly (nestedAtom depth) := by
  induction depth with
  | zero => trivial
  | succ depth ih =>
    refine ⟨_, rfl, fun x hx => ?_⟩
    obtain rfl : x = nestedAtom depth := by simpa using hx
    exact ih

/-- Arrays that nest as often as the lists are accepted up to one list, and not beyond. -/
theorem inputType_accepts_nested_iff (inlineScalars : Bool) (r : TypeRef) :
    (∀ names value,
      ((TypeExpr.name (leafText inlineScalars .input r.leaf)).nested r.listDepth).accepts
          names value →
        (inputType inlineScalars r).accepts names value) ↔
      r.listDepth ≤ 1 := by
  constructor
  · intro hnested
    refine Nat.le_of_not_lt fun hdeep => ?_
    obtain ⟨depth, hdepth⟩ : ∃ depth, r.listDepth = depth + 2 := ⟨r.listDepth - 2, by omega⟩
    rw [hdepth] at hnested
    exact inputType_rejects_nestedAtom inlineScalars r depth
      (hnested _ _ (nested_accepts_nestedAtom _ _))
  · intro hflat names value haccepts
    rw [inputType_accepts_iff, hasList_iff_listDepth_pos]
    obtain hzero | hone : r.listDepth = 0 ∨ r.listDepth = 1 := by omega
    · rw [hzero] at haccepts
      exact Or.inl haccepts
    · rw [hone] at haccepts
      exact Or.inr ⟨by omega, haccepts⟩

theorem readType_leafText
    (inlineScalars : Bool) {r : TypeRef} (h : isIdentifier r.leaf = true) :
    readType (leafText inlineScalars .input r.leaf) =
      some (.name (leafText inlineScalars .input r.leaf)) :=
  readType_typeText inlineScalars (r := .named r.leaf) h

/-- The text of a list of lists of numbers accepts no list of lists of numbers. -/
theorem nested_list_rejects_nested_array :
    ∃ type listType, readType (typeText true .input (.list (.named "Int"))) = some type ∧
      readType (typeText true .input (.list (.list (.named "Int")))) = some listType ∧
      (TypeExpr.array type).accepts atomsOnly nestedArray ∧
      ¬ listType.accepts atomsOnly nestedArray := by
  have hleaf : isIdentifier "Int" = true := by decide
  exact ⟨inputType true (.list (.named "Int")), inputType true (.list (.list (.named "Int"))),
    readType_typeText true hleaf, readType_typeText true hleaf, nestedArray_of_hasList true rfl⟩

/-- A list in input position accepts what its item accepts and the arrays of leaf
values, and a non-null mark changes nothing.  So a list accepts the arrays of
what its item accepts only where the item has no list inside, and arrays that
nest as often as the lists do only up to one list. -/
theorem input_list_accepts
    (inlineScalars : Bool) (r : TypeRef) (h : isIdentifier r.leaf = true) :
    ∃ type listType nonNullType leafType,
      readType (typeText inlineScalars .input r) = some type ∧
      readType (typeText inlineScalars .input (.list r)) = some listType ∧
      readType (typeText inlineScalars .input (.nonNull r)) = some nonNullType ∧
      readType (leafText inlineScalars .input r.leaf) = some leafType ∧
      (∀ names value, listType.accepts names value ↔
        type.accepts names value ∨ (TypeExpr.array leafType).accepts names value) ∧
      nonNullType = type ∧
      ((∀ names value, listType.accepts names value ↔
        type.accepts names value ∨ (TypeExpr.array type).accepts names value) ↔
        hasList r = false) ∧
      (∀ names value, type.accepts names value ↔
        leafType.accepts names value ∨
          hasList r = true ∧ (TypeExpr.array leafType).accepts names value) ∧
      ((∀ names value, (leafType.nested r.listDepth).accepts names value →
        type.accepts names value) ↔ r.listDepth ≤ 1) := by
  refine ⟨inputType inlineScalars r, inputType inlineScalars (.list r),
    inputType inlineScalars (.nonNull r), .name (leafText inlineScalars .input r.leaf),
    readType_typeText inlineScalars h, readType_typeText inlineScalars (r := .list r) h,
    readType_typeText inlineScalars (r := .nonNull r) h, readType_leafText inlineScalars h,
    fun names value => inputType_list_accepts_iff inlineScalars r, rfl, ?_,
    fun names value => inputType_accepts_iff inlineScalars r,
    inputType_accepts_nested_iff inlineScalars r⟩
  constructor
  · intro hlaw
    refine Bool.eq_false_iff.mpr fun hlist => ?_
    obtain ⟨harray, hreject⟩ := nestedArray_of_hasList inlineScalars hlist
    exact hreject ((hlaw atomsOnly nestedArray).mpr (Or.inr harray))
  · intro hlist names value
    rw [inputType_list_accepts_iff, inputType_of_hasList_eq_false inlineScalars hlist]

theorem input_list_accepts_identifiers :
    isIdentifier (TypeRef.list (.nonNull (.named "ID"))).leaf = true ∧
      ∃ type listType, readType "ID_Input[] | ID_Input" = some type ∧
        readType "ID_Input[] | ID_Input[] | ID_Input[] | ID_Input" = some listType ∧
        ∀ names value, listType.accepts names value ↔
          type.accepts names value ∨ (TypeExpr.array (.name "ID_Input")).accepts names value := by
  have hleaf : isIdentifier (TypeRef.list (.nonNull (.named "ID"))).leaf = true := by decide
  obtain ⟨type, listType, -, leafType, htype, hlist, -, hread, hlaw, -⟩ :=
    input_list_accepts false (.list (.nonNull (.named "ID"))) hleaf
  have hname : readType "ID_Input" = some (.name "ID_Input") := by decide +kernel
  obtain rfl : .name "ID_Input" = leafType := Option.some.inj (hname.symm.trans hread)
  exact ⟨hleaf, type, listType, htype, hlist, hlaw⟩

end Binding

end SchemaBinding
