import SchemaBinding.Schema

/-!
# Well-shaped schemas

The types of this library allow more than a schema means.  A field of an
object or an interface has no default, a field of an input object has no
arguments, and no reference says twice in a row that it is never null.  These
facts are about the parts of a schema one by one; names do not matter here.
-/

namespace SchemaBinding

/-- What holds of the fields of objects and interfaces. -/
structure Field.OutputShaped (f : Field) : Prop where
  wrapped : f.type.WellWrapped
  default_eq_none : f.default = none
  arguments_wrapped : ∀ a ∈ f.arguments, a.type.WellWrapped

instance TypeRef.decidableWellWrapped : (type : TypeRef) → Decidable type.WellWrapped
  | named _ => isTrue trivial
  | nonNull inner =>
    have := decidableWellWrapped inner
    inferInstanceAs (Decidable (inner.isNonNull = false ∧ inner.WellWrapped))
  | list inner => decidableWellWrapped inner

instance (f : Field) : Decidable f.OutputShaped :=
  decidable_of_iff
    (f.type.WellWrapped ∧ f.default = none ∧ ∀ a ∈ f.arguments, a.type.WellWrapped)
    ⟨fun ⟨htype, hdefault, harguments⟩ => ⟨htype, hdefault, harguments⟩,
      fun h => ⟨h.wrapped, h.default_eq_none, h.arguments_wrapped⟩⟩

/-- What holds of the fields of input objects. -/
structure Field.InputShaped (f : Field) : Prop where
  wrapped : f.type.WellWrapped
  arguments_eq_nil : f.arguments = []

instance (f : Field) : Decidable f.InputShaped :=
  decidable_of_iff (f.type.WellWrapped ∧ f.arguments = [])
    ⟨fun ⟨htype, harguments⟩ => ⟨htype, harguments⟩,
      fun h => ⟨h.wrapped, h.arguments_eq_nil⟩⟩

/-- Every field of a body is of the sort that its kind asks for. -/
def TypeBody.WellShaped : TypeBody → Prop
  | object fields _ => ∀ f ∈ fields.items, f.OutputShaped
  | interface fields => ∀ f ∈ fields.items, f.OutputShaped
  | inputObject fields => ∀ f ∈ fields.items, f.InputShaped
  | _ => True

instance : (body : TypeBody) → Decidable body.WellShaped
  | .object fields _ => inferInstanceAs (Decidable (∀ f ∈ fields.items, f.OutputShaped))
  | .interface fields => inferInstanceAs (Decidable (∀ f ∈ fields.items, f.OutputShaped))
  | .inputObject fields => inferInstanceAs (Decidable (∀ f ∈ fields.items, f.InputShaped))
  | .union _ => isTrue trivial
  | .enumeration _ => isTrue trivial
  | .scalar => isTrue trivial

/-- Every definition of a schema is well shaped. -/
def Schema.WellShaped (schema : Schema) : Prop :=
  ∀ d ∈ schema.types.items, d.body.WellShaped

instance (schema : Schema) : Decidable schema.WellShaped :=
  inferInstanceAs (Decidable (∀ d ∈ schema.types.items, d.body.WellShaped))

end SchemaBinding
