import SchemaBinding.Proofs.Sdl.Grammar

/-!
# Well-spelled schemas

A schema can be printed as a document that can be read again when its names
are names of the notation and its defaults are constants of it.  Descriptions
and reasons of deprecations may say anything.
-/

namespace SchemaBinding.Sdl

open Reader

/-- Whether a text is one constant of the notation, without comments. -/
def IsConstant (literal : String) : Prop :=
  ∃ tokens, scan literal.toList = some tokens ∧ Bare tokens ∧
    takeConstant tokens = some (tokens, [])

instance (literal : String) : Decidable (IsConstant literal) :=
  match h : scan literal.toList with
  | none => isFalse fun ⟨_, hscan, _⟩ => by simp [h] at hscan
  | some tokens =>
    decidable_of_iff (Bare tokens ∧ takeConstant tokens = some (tokens, [])) <| by
      simp [IsConstant, h]

/-- An argument with a name, a type name and a default of the notation. -/
structure SpelledArgument (a : Argument) : Prop where
  name : isName a.name
  leaf : isName a.type.leaf
  default : ∀ literal ∈ a.default, IsConstant literal

instance (a : Argument) : Decidable (SpelledArgument a) :=
  decidable_of_iff
    (isName a.name ∧ isName a.type.leaf ∧ ∀ literal ∈ a.default, IsConstant literal)
    ⟨fun ⟨hname, hleaf, hdefault⟩ => ⟨hname, hleaf, hdefault⟩,
      fun h => ⟨h.name, h.leaf, h.default⟩⟩

structure SpelledField (f : Field) : Prop where
  name : isName f.name
  leaf : isName f.type.leaf
  default : ∀ literal ∈ f.default, IsConstant literal
  arguments : ∀ a ∈ f.arguments, SpelledArgument a

instance (f : Field) : Decidable (SpelledField f) :=
  decidable_of_iff
    (isName f.name ∧ isName f.type.leaf ∧ (∀ literal ∈ f.default, IsConstant literal) ∧
      ∀ a ∈ f.arguments, SpelledArgument a)
    ⟨fun ⟨hname, hleaf, hdefault, harguments⟩ => ⟨hname, hleaf, hdefault, harguments⟩,
      fun h => ⟨h.name, h.leaf, h.default, h.arguments⟩⟩

/-- The name of a value of an enumeration, which is no other constant. -/
def isValueName (name : String) : Bool :=
  isName name && name ∉ reservedNames

def SpelledBody : TypeBody → Prop
  | .object fields interfaces =>
    (∀ f ∈ fields.items, SpelledField f) ∧ ∀ name ∈ interfaces, isName name
  | .interface fields => ∀ f ∈ fields.items, SpelledField f
  | .inputObject fields => ∀ f ∈ fields.items, SpelledField f
  | .union members => ∀ name ∈ members, isName name
  | .enumeration values => ∀ v ∈ values, isValueName v.name
  | .scalar => True

instance : (body : TypeBody) → Decidable (SpelledBody body)
  | .object fields interfaces =>
    inferInstanceAs (Decidable ((∀ f ∈ fields.items, SpelledField f) ∧
      ∀ name ∈ interfaces, isName name))
  | .interface fields => inferInstanceAs (Decidable (∀ f ∈ fields.items, SpelledField f))
  | .inputObject fields => inferInstanceAs (Decidable (∀ f ∈ fields.items, SpelledField f))
  | .union members => inferInstanceAs (Decidable (∀ name ∈ members, isName name))
  | .enumeration values => inferInstanceAs (Decidable (∀ v ∈ values, isValueName v.name))
  | .scalar => isTrue trivial

structure SpelledDefinition (d : TypeDefinition) : Prop where
  name : isName d.name
  body : SpelledBody d.body

instance (d : TypeDefinition) : Decidable (SpelledDefinition d) :=
  decidable_of_iff (isName d.name ∧ SpelledBody d.body)
    ⟨fun ⟨hname, hbody⟩ => ⟨hname, hbody⟩, fun h => ⟨h.name, h.body⟩⟩

/-- A schema with names and defaults of the notation. -/
structure SpelledSchema (schema : Schema) : Prop where
  types : ∀ d ∈ schema.types.items, SpelledDefinition d
  roots : ∀ operation, ∀ name ∈ schema.rootName? operation, isName name

instance (schema : Schema) : Decidable (SpelledSchema schema) :=
  decidable_of_iff
    ((∀ d ∈ schema.types.items, SpelledDefinition d) ∧
      ∀ operation ∈ Operation.all, ∀ name ∈ schema.rootName? operation, isName name)
    ⟨fun ⟨htypes, hroots⟩ => ⟨htypes, fun operation =>
        hroots operation (by cases operation <;> decide)⟩,
      fun h => ⟨h.types, fun operation _ => h.roots operation⟩⟩

end SchemaBinding.Sdl
