import SchemaBinding.Proofs.Binding.Pieces
import SchemaBinding.Proofs.Project.Settings

/-!
# What each option decides

The table of scalars, the order of declarations and the name of the module are
chosen apart, and each decides a part of its own: the table the types of scalar
aliases, the order how the declarations follow one another, the name what is
imported from.
-/

namespace SchemaBinding

namespace Binding

/-! ## One choice at a time -/

/-- The same options with another order of declarations. -/
def Options.withOrder (options : Options) (order : DeclarationOrder) : Options :=
  { options with order }

/-- The same options with another module to import from. -/
def Options.withModule (options : Options) (bindingModule : String) : Options :=
  { options with bindingModule }

theorem declarations_perm (options : Options) (schema : Schema) (first second : DeclarationOrder) :
    (declarations (options.withOrder first) schema).Perm
      (declarations (options.withOrder second) schema) := by
  have hperm : (declaredTypes schema first).Perm (declaredTypes schema second) :=
    (List.mergeSort_perm _ _).trans (List.mergeSort_perm _ _).symm
  exact hperm.map _

theorem document_withOrder (options : Options) (paths : Paths) (schema : Schema)
    (order : DeclarationOrder) :
    document (options.withOrder order) paths schema =
      opening options paths schema ++ typesSection (declarations (options.withOrder order) schema) ++
        closing schema := by
  have hopening : opening (options.withOrder order) paths schema = opening options paths schema := rfl
  rw [document_eq, hopening]

/-- No declaration looks at the name of the module. -/
theorem parts_withModule (options : Options) (schema : Schema) (name : String) :
    parts (options.withModule name) schema = parts options schema := by
  have hdeclaration (d : TypeDefinition) :
      declaration (options.withModule name) d = declaration options d := by
    obtain ⟨_, _, body⟩ := d
    cases body <;> rfl
  have hdeclarations : declarations (options.withModule name) schema = declarations options schema :=
    List.map_congr_left fun d _ => hdeclaration d
  rw [parts, parts, hdeclarations]
  rfl

/-- What stands behind the import. -/
def afterImport (parts : Parts) : String :=
  "\n\n" ++ "\n\n".intercalate [instanceInterface parts.operations, constructorInterface,
    bindingClass, typesSection parts.declarations, typeDefsSection parts.typeDefs] ++ "\n"

theorem assemble_eq_importLine (bindingModule : String) (paths : Paths) (parts : Parts) :
    assemble bindingModule paths parts =
      header paths ++ "\n\n" ++ importLine bindingModule ++ afterImport parts := by
  rw [assemble, sections, String.intercalate_cons_cons, String.intercalate_cons_cons, afterImport]
  simp only [String.append_assoc]

theorem exists_document_withModule (options : Options) (paths : Paths) (schema : Schema) :
    ∃ front back, ∀ name, document (options.withModule name) paths schema =
      front ++ "import \x7b makeBindingClass \x7d from '" ++ name ++ "'" ++ back := by
  refine ⟨header paths ++ "\n\n", afterImport (parts options schema), fun name => ?_⟩
  have hmodule : (options.withModule name).bindingModule = name := rfl
  have hdocument : document (options.withModule name) paths schema =
      header paths ++ "\n\n" ++ importLine name ++ afterImport (parts options schema) := by
    rw [document, parts_withModule, hmodule, assemble_eq_importLine]
  have hquoted (a b c d e : String) : a ++ (b ++ c ++ d) ++ e = a ++ b ++ c ++ d ++ e := by
    simp only [String.append_assoc]
  exact hdocument.trans (hquoted _ _ name _ _)

/-- The table of scalars decides the types in the aliases of declared scalars, and does so by
what it has for their names; the order of declarations decides the order of their blocks; the
name of a module stands in the quotes of the import.  No type is configured for the
identifier scalar, and the order of entries with different names is of no account. -/
theorem choices_apart (options : Options) (paths : Paths) (schema : Schema) :
    (∃ pieces : List Piece,
      (∀ table, document (options.withScalars table) paths schema = fillAll table pieces) ∧
      ∀ name, .aliasOf name ∈ pieces → name ≠ identifierScalar ∧
        ∃ d ∈ declaredTypes schema options.order, d.name = name ∧ d.body = .scalar) ∧
    (∀ table other : ScalarTable,
      (∀ d ∈ declaredTypes schema options.order, d.body = .scalar → d.name ≠ identifierScalar →
        table.configured? d.name = other.configured? d.name) →
      document (options.withScalars table) paths schema =
        document (options.withScalars other) paths schema) ∧
    (∃ front back, ∀ order, document (options.withOrder order) paths schema =
      front ++ typesSection (declarations (options.withOrder order) schema) ++ back) ∧
    (∀ first second, (declarations (options.withOrder first) schema).Perm
      (declarations (options.withOrder second) schema)) ∧
    (∃ front back, ∀ name, document (options.withModule name) paths schema =
      front ++ "import \x7b makeBindingClass \x7d from '" ++ name ++ "'" ++ back) ∧
    (∀ table : ScalarTable,
      document (options.withScalars (table.without identifierScalar)) paths schema =
        document (options.withScalars table) paths schema) ∧
    (∀ (table : ScalarTable) (entries others : List (String × String)), entries.Perm others →
      (entries.map Prod.fst).Nodup →
      document (options.withScalars (table.addAll entries)) paths schema =
        document (options.withScalars (table.addAll others)) paths schema) ∧
    ∀ (entries others one other : Toml.Entries),
      entries.lookup "scalars" = some (.table one) →
      others.lookup "scalars" = some (.table other) →
      (∀ name, name ≠ "scalars" → entries.lookup name = others.lookup name) →
      one.Perm other → (one.map Prod.fst).Nodup →
      (Settings.ofEntries entries).toOption = (Settings.ofEntries others).toOption := by
  refine ⟨⟨documentPieces options paths schema, fun table => ?_, fun name => ?_⟩, ?_, ?_,
    declarations_perm options schema, exists_document_withModule options paths schema, ?_, ?_, ?_⟩
  · exact (fillAll_documentPieces table options paths schema).symm
  · exact exists_of_alias_mem_documentPieces
  · exact fun table other => document_withScalars_congr
  · exact ⟨_, _, document_withOrder options paths schema⟩
  · exact fun table => document_withScalars_congr fun d _ _ hname => configured?_without hname
  · intro table entries others hperm hnodup
    exact document_withScalars_congr fun d _ _ _ => configured?_addAll_of_perm hperm hnodup d.name
  · intro entries others one other hone hother hsections hperm hnodup
    refine Settings.toOption_ofEntries_congr hsections ?_
    rw [hone, hother]
    exact Settings.toOption_scalarsOf_of_perm hperm hnodup

/-- A schema with three scalars, one of them the identifier scalar. -/
def calendarSchema : Schema where
  types := .ofList
    [{ name := "ID", body := .scalar }, { name := "Date", body := .scalar },
     { name := "Link", body := .scalar },
     { name := "Event", body := .object (.ofList
        [{ name := "id", type := .named "ID" }, { name := "day", type := .named "Date" }]) [] }]

theorem choices_apart_calendar :
    (∀ d ∈ declaredTypes calendarSchema .kind, d.body = .scalar → d.name ≠ identifierScalar →
      ScalarTable.configured? ⟨[("Event", "never"), ("Date", "Date")]⟩ d.name =
        ScalarTable.configured? ⟨[("Date", "Date"), ("ID", "never")]⟩ d.name) ∧
    document (Options.withScalars {} ⟨[("Event", "never"), ("Date", "Date")]⟩) ⟨"a", "b"⟩
        calendarSchema =
      document (Options.withScalars {} ⟨[("Date", "Date"), ("ID", "never")]⟩) ⟨"a", "b"⟩
        calendarSchema ∧
    document (Options.withScalars {} (.addAll {} [("Date", "Date"), ("Link", "URL")])) ⟨"a", "b"⟩
        calendarSchema =
      document (Options.withScalars {} (.addAll {} [("Link", "URL"), ("Date", "Date")])) ⟨"a", "b"⟩
        calendarSchema ∧
    (Settings.ofEntries
        [("scalars", .table [("Date", .string "Date"), ("Link", .string "URL")])]).toOption =
      (Settings.ofEntries
        [("scalars", .table [("Link", .string "URL"), ("Date", .string "Date")])]).toOption := by
  have hall : ∀ d ∈ calendarSchema.types.items, d.body = .scalar → d.name ≠ identifierScalar →
      ScalarTable.configured? ⟨[("Event", "never"), ("Date", "Date")]⟩ d.name =
        ScalarTable.configured? ⟨[("Date", "Date"), ("ID", "never")]⟩ d.name := by
    decide +kernel
  have hagree : ∀ d ∈ declaredTypes calendarSchema .kind, d.body = .scalar →
      d.name ≠ identifierScalar →
        ScalarTable.configured? ⟨[("Event", "never"), ("Date", "Date")]⟩ d.name =
          ScalarTable.configured? ⟨[("Date", "Date"), ("ID", "never")]⟩ d.name :=
    fun d hd => hall d (List.mem_of_mem_filter (List.mem_mergeSort.mp hd))
  obtain ⟨-, hscalars, -, -, -, -, hadded, hsettings⟩ :=
    choices_apart {} ⟨"a", "b"⟩ calendarSchema
  refine ⟨hagree, hscalars _ _ hagree, hadded {} _ _ (List.Perm.swap _ _ _) (by decide),
    hsettings _ _ _ _ rfl rfl (fun name hname => ?_) (List.Perm.swap _ _ _) (by decide)⟩
  rw [lookup_cons_eq, lookup_cons_eq, if_neg hname, if_neg hname]

end Binding

end SchemaBinding
