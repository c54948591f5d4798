import SchemaBinding.Proofs.Schema.Shape

/-!
# Consistent schemas

A schema is consistent when it is well shaped, no field of an input object is
deprecated, and each bound root names a type that the schema has.  These are
the schemas that an introspection result can describe.
-/

namespace SchemaBinding

theorem Operation.mem_all (operation : Operation) : operation ∈ Operation.all := by
  cases operation <;> decide

theorem mem_boundRoots_iff {schema : Schema} {root : Operation × String} :
    root ∈ schema.boundRoots ↔ schema.rootName? root.1 = some root.2 := by
  rw [Schema.boundRoots, List.mem_filterMap]
  constructor
  · rintro ⟨operation, -, hroot⟩
    obtain ⟨name, hname, rfl⟩ := Option.map_eq_some_iff.mp hroot
    exact hname
  · intro hname
    exact ⟨root.1, Operation.mem_all root.1, by rw [hname]; rfl⟩

/-- No field of an input object is deprecated. -/
def TypeBody.InputsCurrent : TypeBody → Prop
  | inputObject fields => ∀ f ∈ fields.items, f.deprecation = none
  | _ => True

instance : (body : TypeBody) → Decidable body.InputsCurrent
  | .inputObject fields => inferInstanceAs (Decidable (∀ f ∈ fields.items, f.deprecation = none))
  | .object .. => isTrue trivial
  | .interface _ => isTrue trivial
  | .union _ => isTrue trivial
  | .enumeration _ => isTrue trivial
  | .scalar => isTrue trivial

/-- What holds of every schema that an introspection result can describe. -/
structure Schema.Consistent (schema : Schema) : Prop where
  shaped : schema.WellShaped
  current : ∀ d ∈ schema.types.items, d.body.InputsCurrent
  rooted : ∀ root ∈ schema.boundRoots, (schema.type? root.2).isSome

instance (schema : Schema) : Decidable schema.Consistent :=
  decidable_of_iff
    (schema.WellShaped ∧ (∀ d ∈ schema.types.items, d.body.InputsCurrent) ∧
      ∀ root ∈ schema.boundRoots, (schema.type? root.2).isSome)
    ⟨fun ⟨hshaped, hcurrent, hrooted⟩ => ⟨hshaped, hcurrent, hrooted⟩,
      fun h => ⟨h.shaped, h.current, h.rooted⟩⟩

/-- An operation has a root type as soon as it has the name of one. -/
theorem Schema.Consistent.isSome_root?
    {schema : Schema} (h : schema.Consistent) (operation : Operation) :
    (schema.root? operation).isSome = (schema.rootName? operation).isSome := by
  rw [Schema.root?]
  cases hname : schema.rootName? operation with
  | none => rfl
  | some name =>
    have hbound : (operation, name) ∈ schema.boundRoots := mem_boundRoots_iff.mpr hname
    exact h.rooted (operation, name) hbound

end SchemaBinding
