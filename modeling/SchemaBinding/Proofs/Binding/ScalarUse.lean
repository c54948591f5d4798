import SchemaBinding.Binding.Declaration

/-!
# Scalars where they are used

A scalar is declared once, as an alias of the type that the table gives it, and
is used in many places.  A use names the alias, so the table decides it too,
unless primitives are written out: then the four scalars that have a primitive
stand for it wherever they are used, also when their alias was configured to be
something else.
-/

namespace SchemaBinding.Binding

variable {options : Options} {position : Position} {name : String}

theorem declaration_scalar
    (h : name ≠ identifierScalar) (description : Option String) :
    declaration options ⟨name, description, .scalar⟩ =
      declarationComment options.docs description ++
        ("export type " ++ name ++ " = " ++ options.scalars.typeOf name) := by
  have halias : scalarAlias options.scalars name =
      "export type " ++ name ++ " = " ++ options.scalars.typeOf name := if_neg h
  exact congrArg (declarationComment options.docs description ++ ·) halias

theorem typeText_scalar (h : name ≠ identifierScalar) :
    typeText options.inlineScalars position (.named name) =
      if options.inlineScalars then (primitiveType? name).getD name else name := by
  rw [typeText, leafText, if_neg h]

theorem typeOf_eq (table : ScalarTable) (h : name ≠ identifierScalar) :
    table.typeOf name = (table.configured? name).getD ((knownType? name).getD fallbackType) := by
  rw [ScalarTable.typeOf, ScalarTable.typeAt, if_neg h]

/-- The scalars that have a primitive, each with its own. -/
def primitiveScalars : List (String × String) :=
  [("Int", "number"), ("Float", "number"), ("String", "string"), ("Boolean", "boolean")]

theorem mem_primitiveScalars
    {primitive : String} (h : primitiveType? name = some primitive) :
    (name, primitive) ∈ primitiveScalars := by
  unfold primitiveType? at h
  split at h
  next hnumber =>
    cases h
    rcases hnumber with rfl | rfl <;> decide
  split at h
  next hstring =>
    cases h
    subst hstring
    decide
  split at h
  next hboolean =>
    cases h
    subst hboolean
    decide
  next => cases h

/-- No scalar with a primitive is apart, and none is called what its primitive is. -/
theorem ne_of_primitiveType?
    {primitive : String} (h : primitiveType? name = some primitive) :
    name ≠ identifierScalar ∧ name ≠ "DateTime" ∧ primitive ≠ name := by
  have hall : ∀ scalar ∈ primitiveScalars,
      scalar.1 ≠ identifierScalar ∧ scalar.1 ≠ "DateTime" ∧ scalar.2 ≠ scalar.1 := by decide
  exact hall _ (mem_primitiveScalars h)

/-- The table gives a scalar its primitive where it says nothing else. -/
theorem eq_typeOf_iff_of_primitiveType?
    (table : ScalarTable) {primitive : String} (h : primitiveType? name = some primitive) :
    primitive = table.typeOf name ↔
      ∀ type, table.configured? name = some type → type = primitive := by
  obtain ⟨hidentifier, hdate, -⟩ := ne_of_primitiveType? h
  have hknown : knownType? name = some primitive := by rw [knownType?, if_neg hdate, h]
  rw [typeOf_eq table hidentifier, hknown]
  cases table.configured? name with
  | none => simp
  | some type =>
    constructor
    · rintro heq other ⟨rfl⟩
      exact heq.symm
    · intro hall
      exact (hall type rfl).symm

/-- A use of a scalar has the type that the table gives the scalar: it names the
alias that is declared as this type, or it is a primitive and the type is the same. -/
def FollowsTable (options : Options) (position : Position) (name : String) : Prop :=
  typeText options.inlineScalars position (.named name) = name ∧
      (∀ description, declaration options ⟨name, description, .scalar⟩ =
        declarationComment options.docs description ++
          ("export type " ++ name ++ " = " ++ options.scalars.typeOf name)) ∨
    primitiveType? name = some (typeText options.inlineScalars position (.named name)) ∧
      typeText options.inlineScalars position (.named name) = options.scalars.typeOf name

/-- Options under which `Int` is configured to be something else than a number. -/
def bigintOptions : Options where
  scalars := .ofList [("Int", "bigint")]

/-- A configured `Int` remains a number wherever it is used. -/
theorem not_followsTable_int :
    "Int" ≠ identifierScalar ∧ ∀ position, ¬ FollowsTable bigintOptions position "Int" := by
  refine ⟨by decide, fun position => ?_⟩
  have htext : typeText bigintOptions.inlineScalars position (.named "Int") = "number" := by
    cases position <;> decide
  have htype : bigintOptions.scalars.typeOf "Int" = "bigint" := by decide
  rintro (⟨hname, -⟩ | ⟨-, htable⟩)
  · rw [htext] at hname
    exact absurd hname (by decide)
  · rw [htext, htype] at htable
    exact absurd htable (by decide)

/-- The alias of a scalar is what the table says, and a configured type comes
first there.  A use of the scalar names the alias, or it is the primitive of the
scalar: that is the case where primitives are written out, and then a use has the
type of the alias exactly if no other type than the primitive is configured. -/
theorem scalar_uses
    (options : Options) (position : Position) (name : String) (h : name ≠ identifierScalar) :
    (∀ description, declaration options ⟨name, description, .scalar⟩ =
      declarationComment options.docs description ++
        ("export type " ++ name ++ " = " ++ options.scalars.typeOf name)) ∧
    (∀ type, options.scalars.configured? name = some type → options.scalars.typeOf name = type) ∧
    ((options.inlineScalars = true → primitiveType? name = none) →
      typeText options.inlineScalars position (.named name) = name ∧
        FollowsTable options position name) ∧
    (options.inlineScalars = true → ∀ primitive, primitiveType? name = some primitive →
      typeText options.inlineScalars position (.named name) = primitive ∧
        (FollowsTable options position name ↔
          ∀ type, options.scalars.configured? name = some type → type = primitive)) := by
  refine ⟨declaration_scalar h, ?_, ?_, ?_⟩
  · intro type htype
    rw [typeOf_eq _ h, htype, Option.getD_some]
  · intro hnone
    have htext : typeText options.inlineScalars position (.named name) = name := by
      rw [typeText_scalar h]
      cases hinline : options.inlineScalars with
      | false => rfl
      | true =>
        rw [hnone hinline]
        rfl
    exact ⟨htext, Or.inl ⟨htext, declaration_scalar h⟩⟩
  · intro hinline primitive hprimitive
    have htext : typeText options.inlineScalars position (.named name) = primitive := by
      rw [typeText_scalar h, hinline, if_pos rfl, hprimitive, Option.getD_some]
    refine ⟨htext, ?_⟩
    rw [FollowsTable, htext, ← eq_typeOf_iff_of_primitiveType? options.scalars hprimitive]
    constructor
    · rintro (⟨hname, -⟩ | ⟨-, htable⟩)
      · exact absurd hname (ne_of_primitiveType? hprimitive).2.2
      · exact htable
    · intro htable
      exact Or.inr ⟨hprimitive, htable⟩

theorem scalar_uses_int :
    "Int" ≠ identifierScalar ∧
      declaration bigintOptions ⟨"Int", none, .scalar⟩ = "export type Int = bigint" ∧
      typeText true .input (.named "Int") = "number" := by
  have hname : "Int" ≠ identifierScalar := by decide
  obtain ⟨hdeclaration, htable, -, hinlined⟩ := scalar_uses bigintOptions .input "Int" hname
  refine ⟨hname, ?_, (hinlined rfl "number" (by decide)).1⟩
  rw [hdeclaration, htable "bigint" (by decide)]
  rfl

end SchemaBinding.Binding
