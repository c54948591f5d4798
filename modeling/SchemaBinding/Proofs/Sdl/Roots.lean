import SchemaBinding.Proofs.Introspection.Loaded
import SchemaBinding.Proofs.Schema.Consistent
import SchemaBinding.Proofs.Sdl.RoundTrip

/-!
# The roots that a document tells

A reader takes the roots from the schema block of a document.  Where there is
none, every operation has the object of its default name as its root, if the
document defines one.  The block is left out as soon as all bound roots have
default names, so a reader may find a root for an operation that the schema
leaves unbound; it never misses a root that the schema binds.
-/

namespace SchemaBinding.Sdl

open Reader Introspection

/-! ## Deriving roots -/

/-- The entries of a schema block. -/
def blockRoots? : Tree.Definition → Option (List (Operation × String))
  | .schema _ _ roots => some roots
  | _ => none

def definesObject (name : String) : Tree.Definition → Bool
  | .type _ typeName _ (.object ..) => typeName == name
  | _ => false

/-- The roots that a reader derives from the definitions of a document. -/
def derivedRoots (ds : List Tree.Definition) : List (Operation × String) :=
  match ds.findSome? blockRoots? with
  | some roots => roots
  | none =>
    (Operation.all.filter fun operation => ds.any (definesObject operation.defaultRoot)).map
      fun operation => (operation, operation.defaultRoot)

/-- The bound roots are objects that the document of a schema shows. -/
def RootsShown (schema : Schema) : Prop :=
  ∀ root ∈ schema.boundRoots, ∀ d ∈ schema.type? root.2,
    d.kind = .object ∧ d.isIntrospection = false

instance (schema : Schema) : Decidable (RootsShown schema) :=
  inferInstanceAs (Decidable (∀ root ∈ schema.boundRoots, ∀ d ∈ schema.type? root.2,
    d.kind = .object ∧ d.isIntrospection = false))

/-- A root that the schema leaves unbound and a reader finds all the same. -/
structure Adopted (schema : Schema) (root : Operation × String) : Prop where
  unbound : schema.rootName? root.1 = none
  default : root.2 = root.1.defaultRoot
  defaults : ∀ bound ∈ schema.boundRoots, bound.2 = bound.1.defaultRoot
  object : ∃ d, schema.type? root.2 = some d ∧ d.kind = .object

/-! ## Documents with a schema block -/

theorem derivedRoots_of_custom
    {schema : Schema} (h : ¬ ∀ bound ∈ schema.boundRoots, bound.2 = bound.1.defaultRoot) :
    derivedRoots (outline schema) = schema.boundRoots := by
  have hcustom : ¬ (schema.boundRoots.all fun root => root.2 == root.1.defaultRoot) = true := by
    simpa using h
  rw [outline, schemaTree?, if_neg hcustom]
  rfl

/-! ## Documents without one -/

theorem findSome?_blockRoots?_map (ds : List TypeDefinition) :
    (ds.map definitionTree).findSome? blockRoots? = none := by
  rw [List.findSome?_eq_none_iff]
  intro definition hdefinition
  obtain ⟨d, -, rfl⟩ := List.mem_map.mp hdefinition
  rfl

theorem definesObject_definitionTree {name : String} {d : TypeDefinition} :
    definesObject name (definitionTree d) = true ↔ d.name = name ∧ d.kind = .object := by
  obtain ⟨typeName, description, body⟩ := d
  cases body <;> simp [definesObject, definitionTree, bodyTree, TypeDefinition.kind, TypeBody.kind]

/-- A root under its default name can be seen, since no such name belongs to introspection. -/
theorem isIntrospection_eq_false_of_default
    {d : TypeDefinition} {operation : Operation} (h : d.name = operation.defaultRoot) :
    d.isIntrospection = false := by
  rw [TypeDefinition.isIntrospection, h]
  cases operation <;> decide

theorem mem_visibleTypes_of_object
    {schema : Schema} {d : TypeDefinition} (hmem : d ∈ schema.types.items)
    (hkind : d.kind = .object) (hshown : d.isIntrospection = false) : d ∈ visibleTypes schema := by
  have hscalar : isBuiltinScalar d = false := by simp [isBuiltinScalar, hkind]
  exact List.mem_filter.mpr ⟨hmem, by simp [hshown, hscalar]⟩

theorem any_definesObject_iff {schema : Schema} {operation : Operation} :
    ((visibleTypes schema).map definitionTree).any (definesObject operation.defaultRoot) = true ↔
      ∃ d, schema.type? operation.defaultRoot = some d ∧ d.kind = .object := by
  rw [List.any_map, List.any_eq_true]
  constructor
  · rintro ⟨d, hvisible, hobject⟩
    obtain ⟨hname, hkind⟩ := definesObject_definitionTree.mp hobject
    refine ⟨d, ?_, hkind⟩
    rw [← hname]
    exact Catalog.find?_name_of_mem (mem_of_mem_visibleTypes hvisible)
  · rintro ⟨d, hfound, hkind⟩
    obtain ⟨hmem, hname⟩ := Catalog.mem_of_find?_eq_some hfound
    have hshown := isIntrospection_eq_false_of_default hname
    exact ⟨d, mem_visibleTypes_of_object hmem hkind hshown,
      definesObject_definitionTree.mpr ⟨hname, hkind⟩⟩

theorem mem_derivedRoots_of_default
    {schema : Schema} (h : ∀ bound ∈ schema.boundRoots, bound.2 = bound.1.defaultRoot)
    {root : Operation × String} :
    root ∈ derivedRoots (outline schema) ↔
      root.2 = root.1.defaultRoot ∧ ∃ d, schema.type? root.2 = some d ∧ d.kind = .object := by
  have hdefault : (schema.boundRoots.all fun root => root.2 == root.1.defaultRoot) = true := by
    simpa using h
  rw [outline, schemaTree?, if_pos hdefault, Option.toList_none, List.nil_append, derivedRoots,
    findSome?_blockRoots?_map]
  simp only [List.mem_map, List.mem_filter]
  constructor
  · rintro ⟨operation, ⟨-, hany⟩, rfl⟩
    exact ⟨rfl, any_definesObject_iff.mp hany⟩
  · rintro ⟨hname, hobject⟩
    rw [hname] at hobject
    refine ⟨root.1, ⟨Operation.mem_all root.1, any_definesObject_iff.mpr hobject⟩, ?_⟩
    rw [← hname]

/-! ## Loaded schemas -/

theorem spelledSchema_of_loaded
    {schema : Schema} (hload : Loaded schema)
    (htypes : ∀ d ∈ schema.types.items, SpelledDefinition d) : SpelledSchema schema := by
  constructor
  · exact htypes
  · intro operation name hname
    have hroot : (operation, name) ∈ schema.boundRoots := mem_boundRoots_iff.mpr hname
    obtain ⟨d, hd⟩ := hload.exists_type?_eq_some hroot
    obtain ⟨hmem, rfl⟩ := Catalog.mem_of_find?_eq_some hd
    exact (htypes d hmem).name

theorem mem_derivedRoots_outline
    {schema : Schema} (hload : Loaded schema) (hshown : RootsShown schema)
    (root : Operation × String) :
    root ∈ derivedRoots (outline schema) ↔ root ∈ schema.boundRoots ∨ Adopted schema root := by
  by_cases hdefaults : ∀ bound ∈ schema.boundRoots, bound.2 = bound.1.defaultRoot
  · rw [mem_derivedRoots_of_default hdefaults]
    constructor
    · rintro ⟨hname, hobject⟩
      cases hroot : schema.rootName? root.1 with
      | none => exact Or.inr ⟨hroot, hname, hdefaults, hobject⟩
      | some name =>
        have hbound : (root.1, name) ∈ schema.boundRoots := mem_boundRoots_iff.mpr hroot
        have hdefault : name = root.1.defaultRoot := hdefaults _ hbound
        rw [← hname] at hdefault
        exact Or.inl (mem_boundRoots_iff.mpr (by rw [hroot, hdefault]))
    · rintro (hbound | hadopted)
      · obtain ⟨d, hd⟩ := hload.exists_type?_eq_some hbound
        exact ⟨hdefaults root hbound, d, hd, (hshown root hbound d hd).1⟩
      · exact ⟨hadopted.default, hadopted.object⟩
  · rw [derivedRoots_of_custom hdefaults]
    constructor
    · exact Or.inl
    · rintro (hbound | hadopted)
      · exact hbound
      · exact absurd hadopted.defaults hdefaults

/-! ## Roots that a document does not keep -/

/-- A reader of the document derives exactly the bound roots. -/
def KeepsRoots (schema : Schema) : Prop :=
  ∃ ds, Reader.read (document schema) = some ds ∧
    ∀ root, root ∈ derivedRoots ds ↔ root ∈ schema.boundRoots

/-- An introspection result with a query root and types. -/
def result (query : String) (types : List Json) : Json :=
  .object [("__schema", .object
    [("queryType", .object [("name", .string query)]), ("types", .array types)])]

/-- The entry of an object with one field, whose type is `Int`. -/
def objectEntry (name field : String) (arguments : List Json) : Json :=
  .object [("kind", .string "OBJECT"), ("name", .string name),
    ("fields", .array [.object [("name", .string field), ("args", .array arguments),
      ("type", .object [("kind", .string "SCALAR"), ("name", .string "Int")])]])]

/-- The entry of an argument with a default, whose type is `Int`. -/
def argumentEntry (name default : String) : Json :=
  .object [("name", .string name), ("defaultValue", .string default),
    ("type", .object [("kind", .string "SCALAR"), ("name", .string "Int")])]

/-- A schema with one field in each of its objects. -/
def plainSchema (query : String) (objects : List (String × Field)) : Schema where
  query := some query
  types := .ofList
    (objects.map fun (name, field) => { name, body := .object (.ofList [field]) [] })

/-- A schema with an object that is no root but has the default name of one. -/
def twinSchema : Schema :=
  plainSchema "Query"
    [("Query", { name := "mine", type := .named "Int" }),
     ("Subscription", { name := "price", type := .named "Int" })]

/-- A schema with a root whose name no document can hold. -/
def blankSchema : Schema :=
  plainSchema "My Query" [("My Query", { name := "mine", type := .named "Int" })]

/-- A schema with a default that ends a list of arguments. -/
def brokenSchema : Schema :=
  plainSchema "Query"
    [("Query",
      { name := "mine", type := .named "Int"
        arguments := [{ name := "of", type := .named "Int", default := some ")" }] })]

theorem loadValue_twin :
    loadValue (result "Query" [objectEntry "Query" "mine" [], objectEntry "Subscription" "price" []]) =
      .ok twinSchema := by
  rfl

theorem read_twin :
    (Reader.read (document twinSchema)).map derivedRoots =
      some [(.query, "Query"), (.subscription, "Subscription")] := by
  decide +kernel

/-- Loaded schemas whose roots are shown need not keep them: an unbound operation
may find an object of its default name, and nothing checks names and defaults. -/
theorem not_keepsRoots_of_loaded :
    (Loaded twinSchema ∧ RootsShown twinSchema ∧ ¬ KeepsRoots twinSchema) ∧
      (Loaded blankSchema ∧ RootsShown blankSchema ∧ ¬ KeepsRoots blankSchema) ∧
      (Loaded brokenSchema ∧ RootsShown brokenSchema ∧ ¬ KeepsRoots brokenSchema) := by
  refine ⟨⟨Or.inr ⟨_, loadValue_twin⟩, by decide, ?_⟩,
    ⟨Or.inr ⟨result "My Query" [objectEntry "My Query" "mine" []], rfl⟩, by decide, ?_⟩,
    ⟨Or.inr ⟨result "Query" [objectEntry "Query" "mine" [argumentEntry "of" ")"]], rfl⟩,
      by decide, ?_⟩⟩
  · rintro ⟨ds, hread, hroots⟩
    have hderived : derivedRoots ds = [(.query, "Query"), (.subscription, "Subscription")] := by
      have htwin := read_twin
      rw [hread] at htwin
      exact Option.some.inj htwin
    have hbound := (hroots (.subscription, "Subscription")).mp (by simp [hderived])
    exact absurd hbound (by decide)
  · rintro ⟨ds, hread, -⟩
    have hnone : Reader.read (document blankSchema) = none := by decide +kernel
    rw [hnone] at hread
    cases hread
  · rintro ⟨ds, hread, -⟩
    have hnone : Reader.read (document brokenSchema) = none := by decide +kernel
    rw [hnone] at hread
    cases hread

/-- The roots that a reader derives from the document of a loaded schema are the
bound ones and, where no bound root has a name of its own, the objects that
happen to have the default names of unbound operations. -/
theorem derivedRoots_document
    (schema : Schema) (hload : Loaded schema)
    (htypes : ∀ d ∈ schema.types.items, SpelledDefinition d) (hshown : RootsShown schema) :
    ∃ ds, Reader.read (document schema) = some ds ∧
      ∀ root, root ∈ derivedRoots ds ↔ root ∈ schema.boundRoots ∨ Adopted schema root := by
  refine ⟨outline schema, ?_, mem_derivedRoots_outline hload hshown⟩
  rw [read_eq_definitions (reads_document (spelledSchema_of_loaded hload htypes))]
  exact definitions_documentTokens (spelledSchema_of_loaded hload htypes) hload.wellShaped

theorem derivedRoots_document_twin :
    (Loaded twinSchema ∧ (∀ d ∈ twinSchema.types.items, SpelledDefinition d) ∧
      RootsShown twinSchema) ∧
    ∃ ds, Reader.read (document twinSchema) = some ds ∧
      ∀ root, root ∈ derivedRoots ds ↔ root ∈ twinSchema.boundRoots ∨ Adopted twinSchema root := by
  have hload : Loaded twinSchema := Or.inr ⟨_, loadValue_twin⟩
  have htypes : ∀ d ∈ twinSchema.types.items, SpelledDefinition d := by decide +kernel
  have hshown : RootsShown twinSchema := by decide
  exact ⟨⟨hload, htypes, hshown⟩, derivedRoots_document twinSchema hload htypes hshown⟩

end SchemaBinding.Sdl
