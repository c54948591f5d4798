import Mathlib.Algebra.Group.Nat.Defs
import SchemaBinding.Proofs.Binding.TypeTrees

/-!
# Types by the number of their lists

Of the wrappers of a reference only the number of its lists shows in the text of
its type.  In output position each list adds a pair of brackets behind the leaf.
In input position each list doubles the union: the members before the last one
are arrays of the leaf, the last one is the leaf, and how deep the lists nest
shows nowhere but in their number.
-/

namespace SchemaBinding.Binding

/-! ## Output types -/

theorem typeText_output_eq (inlineScalars : Bool) (r : TypeRef) :
    typeText inlineScalars .output r =
      leafText inlineScalars .output r.leaf ++
        String.join (List.replicate r.listDepth "[]") := by
  induction r with
  | named name => simp [typeText, TypeRef.leaf, TypeRef.listDepth]
  | nonNull inner ih => exact ih
  | list inner ih =>
    rw [typeText, ih, TypeRef.listDepth, List.replicate_succ', String.join_append,
      String.append_assoc]
    simp [TypeRef.leaf]

/-! ## Input types -/

/-- The members of the union that an input type with `depth` lists is. -/
def inputAlternatives (leaf : String) (depth : Nat) : List String :=
  List.replicate (2 ^ depth - 1) (leaf ++ "[]") ++ [leaf]

theorem length_inputAlternatives (leaf : String) (depth : Nat) :
    (inputAlternatives leaf depth).length = 2 ^ depth := by
  have hpos : 0 < 2 ^ depth := Nat.two_pow_pos depth
  simp only [inputAlternatives, List.length_append, List.length_replicate, List.length_singleton]
  omega

/-- Each list doubles the members and adds one of its own between the halves. -/
theorem earlierMembers_eq_replicate (leaf : TypeExpr) (r : TypeRef) :
    earlierMembers leaf r = List.replicate (2 ^ r.listDepth - 1) (.array leaf) := by
  induction r with
  | named name => rfl
  | nonNull inner ih => exact ih
  | list inner ih =>
    have hpos : 0 < 2 ^ inner.listDepth := Nat.two_pow_pos inner.listDepth
    have hcount : 2 ^ (inner.listDepth + 1) - 1 =
        (2 ^ inner.listDepth - 1) + 1 + (2 ^ inner.listDepth - 1) := by
      rw [Nat.pow_succ]
      omega
    rw [earlierMembers, ih, TypeRef.listDepth, hcount, ← List.replicate_append_replicate,
      ← List.replicate_append_replicate]
    rfl

theorem intercalate_concat (separator last : String) (items : List String) :
    separator.intercalate (items ++ [last]) =
      String.join (items.map (· ++ separator)) ++ last := by
  induction items with
  | nil => simp
  | cons item items ih =>
    rw [List.cons_append, String.intercalate_cons_of_ne_nil (by simp), ih, List.map_cons,
      String.join_cons]
    simp only [String.append_assoc]

theorem typeText_input_eq (inlineScalars : Bool) (r : TypeRef) :
    typeText inlineScalars .input r =
      " | ".intercalate (inputAlternatives (leafText inlineScalars .input r.leaf) r.listDepth) := by
  rw [← join_earlierMembers, earlierMembers_eq_replicate, inputAlternatives, intercalate_concat,
    List.map_replicate, List.map_replicate]
  rfl

/-! ## Copies of the leaf -/

/-- A text holds `n` copies of a piece, each of them behind the end of the one before. -/
inductive Copies (piece : String) : Nat → String → Prop where
  | none (text : String) : Copies piece 0 text
  | next {n : Nat} {rest : String} (front : String) (h : Copies piece n rest) :
    Copies piece (n + 1) (front ++ piece ++ rest)

namespace Copies

variable {piece s t : String} {m n : Nat}

theorem single (piece : String) : Copies piece 1 piece := by
  have h : Copies piece 1 ("" ++ piece ++ "") := .next "" (.none "")
  rwa [String.empty_append, String.append_empty] at h

/-- A text in front adds no copy and takes none away. -/
theorem behind (front : String) (h : Copies piece n t) : Copies piece n (front ++ t) := by
  cases h with
  | none text => exact .none _
  | next between hrest =>
    rw [← String.append_assoc, ← String.append_assoc]
    exact .next (front ++ between) hrest

theorem append (hs : Copies piece m s) (ht : Copies piece n t) :
    Copies piece (m + n) (s ++ t) := by
  induction hs with
  | none text =>
    rw [Nat.zero_add]
    exact ht.behind text
  | next front _ ih =>
    rw [Nat.add_right_comm, String.append_assoc]
    exact .next front ih

end Copies

theorem copies_typeText (inlineScalars : Bool) (r : TypeRef) :
    Copies (leafText inlineScalars .input r.leaf) (2 ^ r.listDepth)
      (typeText inlineScalars .input r) := by
  induction r with
  | named name => exact .single _
  | nonNull inner ih => exact ih
  | list inner ih =>
    have hboth := ih.append (ih.behind "[] | ")
    rw [typeText, TypeRef.listDepth, Nat.pow_succ, Nat.mul_two, String.append_assoc]
    exact hboth

/-! ## Closed forms -/

/-- The text of a type is told by its leaf and the number of its lists.  In output
position it is the leaf and a pair of brackets for each list.  In input position it
is a union of two to the power of that number, of which the last member is the leaf
and all others are arrays of it; so it repeats the leaf as often. -/
theorem typeText_closed_form (inlineScalars : Bool) (r : TypeRef) :
    typeText inlineScalars .output r =
        leafText inlineScalars .output r.leaf ++
          String.join (List.replicate r.listDepth "[]") ∧
      typeText inlineScalars .input r =
        " | ".intercalate (inputAlternatives (leafText inlineScalars .input r.leaf) r.listDepth) ∧
      (inputAlternatives (leafText inlineScalars .input r.leaf) r.listDepth).length =
        2 ^ r.listDepth ∧
      Copies (leafText inlineScalars .input r.leaf) (2 ^ r.listDepth)
        (typeText inlineScalars .input r) ∧
      ∀ position (s : TypeRef), s.leaf = r.leaf → s.listDepth = r.listDepth →
        typeText inlineScalars position s = typeText inlineScalars position r := by
  refine ⟨typeText_output_eq inlineScalars r, typeText_input_eq inlineScalars r,
    length_inputAlternatives _ _, copies_typeText inlineScalars r, ?_⟩
  intro position s hleaf hdepth
  cases position with
  | output => rw [typeText_output_eq, typeText_output_eq, hleaf, hdepth]
  | input => rw [typeText_input_eq, typeText_input_eq, hleaf, hdepth]

/-- Non-null marks at any place make no difference, and two lists make four members. -/
theorem typeText_closed_form_identifiers :
    (TypeRef.nonNull (.list (.nonNull (.list (.named "ID"))))).leaf = "ID" ∧
      (TypeRef.nonNull (.list (.nonNull (.list (.named "ID"))))).listDepth = 2 ∧
      typeText true .input (.nonNull (.list (.nonNull (.list (.named "ID"))))) =
        typeText true .input (.list (.list (.named "ID"))) ∧
      typeText true .input (.list (.list (.named "ID"))) =
        "ID_Input[] | ID_Input[] | ID_Input[] | ID_Input" := by
  have hclosed := typeText_closed_form true (.list (.list (.named "ID")))
  exact ⟨rfl, rfl, hclosed.2.2.2.2 .input _ rfl rfl, rfl⟩

end SchemaBinding.Binding
