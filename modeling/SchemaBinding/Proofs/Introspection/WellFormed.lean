import SchemaBinding.Proofs.Introspection.Loaded

/-!
# Well-formed schemas

What loading yields is told by the entries of the result: the types are those
of its convertible entries, the last of each name in the place of the first,
the roots are the ones that it names, and the whole is consistent.
-/

namespace SchemaBinding.Introspection

/-- What loading makes of the entries of a result. -/
structure WellFormed (entry : SchemaEntry) (schema : Schema) : Prop where
  types : Settled TypeEntry.key TypeEntry.Makes (entry.types.filter TypeEntry.isConvertible)
    schema.types
  query : schema.query = entry.query
  mutation : schema.mutation = entry.mutation
  subscription : schema.subscription = entry.subscription
  consistent : schema.Consistent
  isSome_root? : ∀ operation,
    (schema.root? operation).isSome = (schema.rootName? operation).isSome

/-- Whatever text or value is loaded, the schema that comes out is well formed. -/
theorem wellFormed_of_load
    (input : Input) (schema : Schema) (h : input.load = .ok schema) :
    ∃ entry, input.entries? = some entry ∧ WellFormed entry schema := by
  obtain ⟨entry, hentry, hschema⟩ := Input.exists_entries?_of_load h
  have hconsistent := consistent_of_schema hschema
  obtain ⟨ds, hds, rfl, -⟩ := schema_eq_ok hschema
  exact ⟨entry, hentry, settled_of_definitions hds, rfl, rfl, rfl, hconsistent,
    hconsistent.isSome_root?⟩

/-- A field whose type has no wrappers. -/
def crowdedField (name type : String) : Json :=
  .object [("name", .string name),
    ("type", .object [("kind", .string "SCALAR"), ("name", .string type)])]

/-- A result with a type and a field that come twice, and with entries that are left out. -/
def crowdedResult : Json :=
  .object [("__schema", .object
    [("queryType", .object [("name", .string "Q")]),
     ("types", .array
       [.object [("kind", .string "INTERFACE"), ("name", .string "Q")],
        .object [("kind", .string "SCALAR")],
        .object [("kind", .string "SCALAR"), ("name", .string "Date")],
        .object [("kind", .string "MAP"), ("name", .string "M")],
        .object [("kind", .string "OBJECT"), ("name", .string "Q"),
          ("fields", .array
            [crowdedField "a" "Int", crowdedField "b" "Int", crowdedField "a" "Date"])]])])]

def crowdedSchema : Schema where
  query := some "Q"
  types := .ofList
    [{ name := "Q"
       body := .object (.ofList
         [{ name := "a", type := .named "Date" }, { name := "b", type := .named "Int" }]) [] },
     { name := "Date", body := .scalar }]

theorem load_crowdedResult : (Input.value crowdedResult).load = .ok crowdedSchema := by
  rfl

theorem wellFormed_of_load_crowded :
    (Input.value crowdedResult).load = .ok crowdedSchema ∧
      ∃ entry, (Input.value crowdedResult).entries? = some entry ∧ WellFormed entry crowdedSchema :=
  ⟨load_crowdedResult, wellFormed_of_load _ _ load_crowdedResult⟩

end SchemaBinding.Introspection
