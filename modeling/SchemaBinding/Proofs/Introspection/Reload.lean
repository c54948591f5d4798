import SchemaBinding.Proofs.Introspection.Means
import SchemaBinding.Proofs.Introspection.Presentations
import SchemaBinding.Proofs.Introspection.Report

/-!
# Loading reports

Loading the report of a consistent schema gives that schema again, so loading
loses nothing that a schema can say.  Each part of a report is read as an entry
that makes the part it was written from: references to any depth, arguments,
fields, values, definitions, and then the schema.
-/

namespace SchemaBinding.Introspection

/-! ## Reading the parts of a report -/

/-- What a text that may be null is read as. -/
def ofText? : Option String → Datum
  | some text => .text text
  | none => .absent

theorem meaning?_text? (text : Option String) :
    meaning? true .text (Report.text? text) = some (ofText? text) := by
  cases text <;> rfl

theorem string?_ofText? (text : Option String) : (ofText? text).string? = text := by
  cases text <;> rfl

theorem deprecation_eq (reason : Option String) : deprecation reason.isSome reason = reason := by
  cases reason <;> rfl

theorem exists_meaning?_list?
    {ε α : Type} {record : Record} {ofDatum : Datum → ε} {R : ε → α → Prop} {report : α → Json}
    {xs : Option (List α)}
    (h : ∀ items ∈ xs, ∀ x ∈ items, ∃ d, Means (.record record) (report x) d ∧ R (ofDatum d) x) :
    ∃ d, meaning? true (.list (.record record)) (Report.list? report xs) = some d ∧
      Option.Rel (List.Forall₂ R) (d.listOf? ofDatum) xs := by
  cases xs with
  | none => exact ⟨.absent, rfl, .none⟩
  | some items =>
    obtain ⟨d, hd, hitems⟩ := exists_means_array (h items rfl)
    refine ⟨d, hd.meaning true, ?_⟩
    rw [Datum.listOf?_of_ne_absent ofDatum hd.present]
    exact .some hitems

theorem ofDatum_wrapping
    {kind name inner : Datum} (h : inner ≠ .absent) :
    RefEntry.ofDatum (.cons kind (.cons name (.cons inner .nil))) =
      .wrapping kind.string name.string? (.ofDatum inner) := by
  cases inner with
  | absent => exact absurd rfl h
  | text value => rfl
  | flag value => rfl
  | nil => rfl
  | cons head tail => rfl

theorem means_wrapping
    {kind : String} {inner : Json} {d : Datum} (h : Means (.record .typeRef) inner d) :
    Means (.record .typeRef) (Report.wrapping kind inner)
      (.cons (.text kind) (.cons .absent (.cons d .nil))) :=
  means_object rfl (by simp) (slotsMeaning?_cons rfl (slotsMeaning?_cons rfl
    (slotsMeaning?_cons (h.meaning true) rfl)))

section Parts

variable (schema : Schema)

theorem means_named (name : String) :
    Means (.record .typeRef) (Report.named schema name)
      (.cons (.text (Report.kindOf schema name).tag) (.cons (.text name) (.cons .absent .nil))) :=
  means_object rfl (by simp) rfl

theorem isWrapper_tag (kind : TypeKind) : isWrapper kind.tag = false := by
  cases kind <;> decide

/-- A reference is read back, to whatever depth it is wrapped. -/
theorem exists_means_reference
    {type : TypeRef} (h : type.WellWrapped) :
    ∃ d, Means (.record .typeRef) (Report.reference schema type) d ∧
      (RefEntry.ofDatum d).typeRef = .ok type := by
  induction type with
  | named name =>
    refine ⟨_, means_named schema name, ?_⟩
    change (RefEntry.plain (Report.kindOf schema name).tag (some name)).typeRef = _
    rw [RefEntry.typeRef, isWrapper_tag]
    rfl
  | nonNull inner ih =>
    obtain ⟨hnullable, hinner⟩ := h
    obtain ⟨d, hd, htype⟩ := ih hinner
    refine ⟨_, means_wrapping hd, ?_⟩
    have hwrap : wrap "NON_NULL" inner = .ok (.nonNull inner) := by
      rw [wrap, hnullable]
      rfl
    rw [ofDatum_wrapping hd.present, RefEntry.typeRef, htype]
    exact hwrap
  | list inner ih =>
    obtain ⟨d, hd, htype⟩ := ih h
    refine ⟨_, means_wrapping hd, ?_⟩
    rw [ofDatum_wrapping hd.present, RefEntry.typeRef, htype]
    rfl

theorem refAt_eq_ok
    {entry : RefEntry} {type : TypeRef} (h : entry.typeRef = .ok type) (location : String) :
    refAt location entry = .ok type := by
  rw [refAt, h]

theorem field_eq_ok
    {owner : String} {entry : FieldEntry} {type : TypeRef} {arguments : List Argument}
    (htype : refAt (place owner entry.name) entry.type = .ok type)
    (harguments : entry.arguments.mapM (InputEntry.argument (place owner entry.name)) =
      .ok arguments) :
    entry.field owner = .ok {
      name := entry.name, type, description := entry.description, arguments,
      deprecation := deprecation entry.isDeprecated entry.reason } := by
  rw [FieldEntry.field, htype]
  change (entry.arguments.mapM (InputEntry.argument (place owner entry.name)) >>= fun _ => _) = _
  rw [harguments]
  rfl

theorem exists_means_input
    {type : TypeRef} (h : type.WellWrapped) (name : String) (description default : Option String) :
    ∃ d, Means (.record .inputValue) (Report.input schema name description type default) d ∧
      ∃ entry, InputEntry.ofDatum d = ⟨name, description, entry, default⟩ ∧
        entry.typeRef = .ok type := by
  obtain ⟨reference, hreference, htype⟩ := exists_means_reference schema h
  refine ⟨.cons (.text name) (.cons (ofText? description) (.cons reference
    (.cons (ofText? default) .nil))), means_object rfl (by simp) ?_, _, ?_, htype⟩
  · exact slotsMeaning?_cons rfl (slotsMeaning?_cons (meaning?_text? description)
      (slotsMeaning?_cons (hreference.meaning false)
        (slotsMeaning?_cons (meaning?_text? default) rfl)))
  · rw [InputEntry.ofDatum, string?_ofText?, string?_ofText?]
    rfl

/-- The entry makes the argument, wherever it stands. -/
def InputEntry.IsArgument (entry : InputEntry) (a : Argument) : Prop :=
  ∀ owner, entry.argument owner = .ok a

def InputEntry.IsField (entry : InputEntry) (f : Field) : Prop :=
  ∀ owner, entry.field owner = .ok f

def FieldEntry.IsField (entry : FieldEntry) (f : Field) : Prop :=
  ∀ owner, entry.field owner = .ok f

theorem exists_means_argument
    {a : Argument} (h : a.type.WellWrapped) :
    ∃ d, Means (.record .inputValue) (Report.argument schema a) d ∧
      (InputEntry.ofDatum d).IsArgument a := by
  obtain ⟨d, hd, entry, hentry, htype⟩ :=
    exists_means_input schema h a.name a.description a.default
  refine ⟨d, hd, fun owner => ?_⟩
  rw [hentry, InputEntry.argument, refAt_eq_ok htype]
  rfl

theorem exists_means_inputField
    {f : Field} (h : f.InputShaped) (hcurrent : f.deprecation = none) :
    ∃ d, Means (.record .inputValue) (Report.inputField schema f) d ∧
      (InputEntry.ofDatum d).IsField f := by
  obtain ⟨d, hd, entry, hentry, htype⟩ :=
    exists_means_input schema h.wrapped f.name f.description f.default
  refine ⟨d, hd, fun owner => ?_⟩
  rw [hentry, InputEntry.field, refAt_eq_ok htype]
  obtain ⟨name, type, description, arguments, default, deprecation⟩ := f
  obtain rfl : arguments = [] := h.arguments_eq_nil
  obtain rfl : deprecation = none := hcurrent
  rfl

theorem exists_means_field
    {f : Field} (h : f.OutputShaped) :
    ∃ d, Means (.record .field) (Report.field schema f) d ∧
      (FieldEntry.ofDatum d).IsField f := by
  obtain ⟨reference, hreference, htype⟩ := exists_means_reference schema h.wrapped
  obtain ⟨arguments, harguments, hitems⟩ := exists_means_array fun a ha =>
    exists_means_argument schema (h.arguments_wrapped a ha)
  refine ⟨.cons (.text f.name) (.cons (ofText? f.description) (.cons arguments (.cons reference
    (.cons (.flag f.deprecation.isSome) (.cons (ofText? f.deprecation) .nil))))),
    means_object rfl (by simp) ?_, fun owner => ?_⟩
  · exact slotsMeaning?_cons rfl (slotsMeaning?_cons (meaning?_text? _)
      (slotsMeaning?_cons (harguments.meaning false) (slotsMeaning?_cons (hreference.meaning false)
        (slotsMeaning?_cons rfl (slotsMeaning?_cons (meaning?_text? _) rfl)))))
  · have hmade : (arguments.listOf InputEntry.ofDatum).mapM
        (InputEntry.argument (place owner f.name)) = .ok f.arguments :=
      mapM_eq_ok_iff.mpr (hitems.imp fun _ _ hargument => hargument _)
    have hfield := @field_eq_ok owner ⟨f.name, f.description, arguments.listOf InputEntry.ofDatum,
      RefEntry.ofDatum reference, f.deprecation.isSome, f.deprecation⟩ _ _
      (refAt_eq_ok htype _) hmade
    rw [deprecation_eq] at hfield
    rw [FieldEntry.ofDatum, string?_ofText?, string?_ofText?]
    obtain ⟨name, type, description, entries, default, reason⟩ := f
    obtain rfl : default = none := h.default_eq_none
    exact hfield

/-- The entry makes the value of an enumeration. -/
def ValueEntry.IsValue (entry : ValueEntry) (v : EnumValue) : Prop :=
  entry.value = v

def RefEntry.IsNamed (entry : RefEntry) (name : String) : Prop :=
  entry.name? = some name

theorem exists_means_enumValue (v : EnumValue) :
    ∃ d, Means (.record .enumValue) (Report.enumValue v) d ∧ (ValueEntry.ofDatum d).IsValue v := by
  refine ⟨.cons (.text v.name) (.cons (ofText? v.description)
    (.cons (.flag v.deprecation.isSome) (.cons (ofText? v.deprecation) .nil))),
    means_object rfl (by simp) ?_, ?_⟩
  · exact slotsMeaning?_cons rfl (slotsMeaning?_cons (meaning?_text? _)
      (slotsMeaning?_cons rfl (slotsMeaning?_cons (meaning?_text? _) rfl)))
  · rw [ValueEntry.IsValue, ValueEntry.ofDatum, string?_ofText?, string?_ofText?, ValueEntry.value]
    exact congrArg (EnumValue.mk v.name v.description) (deprecation_eq v.deprecation)

/-! ## Definitions -/

/-- An entry says of a definition what its report says. -/
structure TypeEntry.Describes (entry : TypeEntry) (d : TypeDefinition) : Prop where
  name : entry.name = some d.name
  kind : entry.kind = d.kind.tag
  description : entry.description = d.description
  fields : Option.Rel (List.Forall₂ FieldEntry.IsField) entry.fields
    (d.outputFields?.map Catalog.items)
  inputFields : Option.Rel (List.Forall₂ InputEntry.IsField) entry.inputFields d.body.inputFields?
  interfaces : Option.Rel (List.Forall₂ RefEntry.IsNamed) entry.interfaces d.body.interfaces?
  enumValues : Option.Rel (List.Forall₂ ValueEntry.IsValue) entry.enumValues d.body.values?
  possibleTypes : Option.Rel (List.Forall₂ RefEntry.IsNamed) entry.possibleTypes
    (schema.possibleTypes? d)

theorem outputShaped_of_mem
    {d : TypeDefinition} (hshaped : d.body.WellShaped) {fs : List Field}
    (hfs : fs ∈ d.outputFields?.map Catalog.items) : ∀ f ∈ fs, f.OutputShaped := by
  obtain ⟨name, description, body⟩ := d
  cases body with
  | object fields interfaces =>
    cases hfs
    exact hshaped
  | interface fields =>
    cases hfs
    exact hshaped
  | inputObject fields => cases hfs
  | union members => cases hfs
  | enumeration values => cases hfs
  | scalar => cases hfs

theorem inputFields?_eq_some
    {body : TypeBody} {fs : List Field} (h : body.inputFields? = some fs) :
    ∃ fields : Catalog Field, body = .inputObject fields ∧ fs = fields.items := by
  cases body with
  | inputObject fields =>
    cases h
    exact ⟨fields, rfl, rfl⟩
  | object fields interfaces => cases h
  | interface fields => cases h
  | union members => cases h
  | enumeration values => cases h
  | scalar => cases h

theorem exists_means_definition
    {d : TypeDefinition} (hshaped : d.body.WellShaped) (hcurrent : d.body.InputsCurrent) :
    ∃ datum, Means (.record .type) (Report.definition schema d) datum ∧
      (TypeEntry.ofDatum datum).Describes schema d := by
  have hinput : ∀ fs ∈ d.body.inputFields?, ∀ f ∈ fs, f.InputShaped ∧ f.deprecation = none := by
    intro fs hfs f hf
    obtain ⟨fields, hbody, rfl⟩ := inputFields?_eq_some hfs
    rw [hbody] at hshaped hcurrent
    exact ⟨hshaped f hf, hcurrent f hf⟩
  have hnames : ∀ names : Option (List String), ∃ e,
      meaning? true (.list (.record .typeRef)) (Report.list? (Report.named schema) names) = some e ∧
        Option.Rel (List.Forall₂ RefEntry.IsNamed) (e.listOf? RefEntry.ofDatum) names := by
    intro names
    exact exists_meaning?_list? fun _ _ name _ => ⟨_, means_named schema name, rfl⟩
  obtain ⟨fields, hfields, hfieldEntries⟩ := exists_meaning?_list? fun fs hfs f hf =>
    exists_means_field schema (outputShaped_of_mem hshaped hfs f hf)
  obtain ⟨inputFields, hinputFields, hinputEntries⟩ := exists_meaning?_list? fun fs hfs f hf =>
    exists_means_inputField schema (hinput fs hfs f hf).1 (hinput fs hfs f hf).2
  obtain ⟨interfaces, hinterfaces, hinterfaceNames⟩ := hnames d.body.interfaces?
  obtain ⟨values, hvalues, hvalueEntries⟩ :=
    exists_meaning?_list? fun vs (_ : vs ∈ d.body.values?) v _ => exists_means_enumValue v
  obtain ⟨possible, hpossible, hpossibleNames⟩ := hnames (schema.possibleTypes? d)
  refine ⟨.cons (.text d.kind.tag) (.cons (.text d.name) (.cons (ofText? d.description)
    (.cons fields (.cons inputFields (.cons interfaces (.cons values (.cons possible .nil))))))),
    means_object rfl (by simp) ?_, ?_⟩
  · exact slotsMeaning?_cons rfl (slotsMeaning?_cons rfl (slotsMeaning?_cons (meaning?_text? _)
      (slotsMeaning?_cons hfields (slotsMeaning?_cons hinputFields (slotsMeaning?_cons hinterfaces
        (slotsMeaning?_cons hvalues (slotsMeaning?_cons hpossible rfl)))))))
  · exact ⟨rfl, rfl, string?_ofText? _, hfieldEntries, hinputEntries, hinterfaceNames,
      hvalueEntries, hpossibleNames⟩

end Parts

section Definitions

variable {schema : Schema} {entry : TypeEntry}

theorem forall₂_of_rel_some
    {ε α : Type} {R : ε → α → Prop} {entries : Option (List ε)} {xs : List α}
    (h : Option.Rel (List.Forall₂ R) entries (some xs)) : List.Forall₂ R (entries.getD []) xs := by
  cases h with
  | some hitems => exact hitems

theorem filterMap_name?_eq
    {entries : List RefEntry} {names : List String}
    (h : List.Forall₂ RefEntry.IsNamed entries names) :
    entries.filterMap RefEntry.name? = names := by
  induction h with
  | nil => rfl
  | cons hname htail ih => rw [List.filterMap_cons_some hname, ih]

theorem namesOf_eq
    {entries : Option (List RefEntry)} {names : List String}
    (h : Option.Rel (List.Forall₂ RefEntry.IsNamed) entries (some names)) :
    namesOf entries = names :=
  filterMap_name?_eq (forall₂_of_rel_some h)

/-- What says the same as the report of a definition makes that definition. -/
theorem TypeEntry.Describes.body?_eq_ok
    {d : TypeDefinition} (h : entry.Describes schema d) :
    entry.body? d.name = .ok (some d.body) := by
  obtain ⟨name, description, body⟩ := d
  have hfields : ∀ fields : Catalog Field, body.outputFields? = some fields →
      (entry.fields.getD []).mapM (FieldEntry.field name) = .ok fields.items := by
    intro fields hbody
    have hrel := h.fields
    rw [TypeDefinition.outputFields?, hbody] at hrel
    exact mapM_eq_ok_iff.mpr ((forall₂_of_rel_some hrel).imp fun _ _ hfield => hfield name)
  change entry.body? name = .ok (some body)
  rw [TypeEntry.body?]
  cases body with
  | object fields interfaces =>
    have hkind : entry.kind = "OBJECT" := h.kind
    rw [hkind, if_pos rfl, hfields fields rfl, namesOf_eq h.interfaces]
    exact congrArg (fun fields => Except.ok (some (TypeBody.object fields interfaces)))
      (Catalog.ofList_items fields)
  | interface fields =>
    have hkind : entry.kind = "INTERFACE" := h.kind
    rw [hkind, if_neg (by decide), if_pos rfl, hfields fields rfl]
    exact congrArg (fun fields => Except.ok (some (TypeBody.interface fields)))
      (Catalog.ofList_items fields)
  | inputObject fields =>
    have hkind : entry.kind = "INPUT_OBJECT" := h.kind
    have hinputs : (entry.inputFields.getD []).mapM (InputEntry.field name) = .ok fields.items :=
      mapM_eq_ok_iff.mpr ((forall₂_of_rel_some h.inputFields).imp fun _ _ hfield => hfield name)
    rw [hkind, if_neg (by decide), if_neg (by decide), if_pos rfl, hinputs]
    exact congrArg (fun fields => Except.ok (some (TypeBody.inputObject fields)))
      (Catalog.ofList_items fields)
  | union members =>
    have hkind : entry.kind = "UNION" := h.kind
    rw [hkind, namesOf_eq h.possibleTypes]
    rfl
  | enumeration values =>
    have hkind : entry.kind = "ENUM" := h.kind
    have hvalues : (entry.enumValues.getD []).map ValueEntry.value = values := by
      rw [← List.forall₂_eq_eq_eq, List.forall₂_map_left_iff]
      exact forall₂_of_rel_some h.enumValues
    rw [hkind, hvalues]
    rfl
  | scalar =>
    have hkind : entry.kind = "SCALAR" := h.kind
    rw [hkind]
    rfl

theorem TypeEntry.Describes.definition?_eq_ok
    {d : TypeDefinition} (h : entry.Describes schema d) : entry.definition? = .ok (some d) := by
  rw [TypeEntry.definition?, h.name]
  change (entry.body? d.name >>= fun body => _) = _
  rw [h.body?_eq_ok, h.description]
  rfl

theorem definitions_eq_ok
    {entries : List TypeEntry} {ds : List TypeDefinition}
    (h : List.Forall₂ (TypeEntry.Describes schema) entries ds) : definitions entries = .ok ds := by
  induction h with
  | nil => rfl
  | cons hhead htail ih =>
    rw [definitions, hhead.definition?_eq_ok, ih]
    rfl

end Definitions

/-! ## Schemas -/

theorem exists_meaning?_root? (name : Option String) :
    ∃ d, meaning? true (.record .namedType) (Report.root? name) = some d ∧
      d.entryOf? nameOfDatum = name := by
  cases name with
  | none => exact ⟨.absent, rfl, rfl⟩
  | some name => exact ⟨.cons (.text name) .nil, rfl, rfl⟩

theorem unknownRoot?_eq_none
    {schema : Schema} (h : ∀ root ∈ schema.boundRoots, (schema.type? root.2).isSome) :
    unknownRoot? schema = none := by
  rw [unknownRoot?, Option.map_eq_none_iff, List.find?_eq_none]
  intro root hroot hnone
  rw [Option.isNone_iff_eq_none] at hnone
  have hknown := h root hroot
  rw [hnone] at hknown
  cases hknown

theorem schema_eq_ok_of_definitions
    {entry : SchemaEntry} {ds : List TypeDefinition} (h : definitions entry.types = .ok ds)
    (hroots : unknownRoot? ⟨.ofList ds, entry.query, entry.mutation, entry.subscription⟩ = none) :
    entry.schema = .ok ⟨.ofList ds, entry.query, entry.mutation, entry.subscription⟩ := by
  simp only [SchemaEntry.schema, h, bind, Except.bind, hroots]
  rfl

theorem exists_means_ofSchema
    {schema : Schema} (h : schema.Consistent) :
    ∃ d, Means (.record .schema) (Report.ofSchema schema) d ∧
      (SchemaEntry.ofDatum d).schema = .ok schema := by
  obtain ⟨query, hquery, hqueryName⟩ := exists_meaning?_root? schema.query
  obtain ⟨mutation, hmutation, hmutationName⟩ := exists_meaning?_root? schema.mutation
  obtain ⟨subscription, hsubscription, hsubscriptionName⟩ :=
    exists_meaning?_root? schema.subscription
  obtain ⟨types, htypes, hentries⟩ := exists_means_array fun d hd =>
    exists_means_definition schema (h.shaped d hd) (h.current d hd)
  refine ⟨.cons query (.cons mutation (.cons subscription (.cons types .nil))),
    ⟨by simp, fun nullable => ?_⟩, ?_⟩
  · have hslots : slotsMeaning? Record.schema.slots [Report.root? schema.query,
        Report.root? schema.mutation, Report.root? schema.subscription,
        .array (schema.types.items.map (Report.definition schema))] =
          some (.cons query (.cons mutation (.cons subscription (.cons types .nil)))) :=
      slotsMeaning?_cons hquery (slotsMeaning?_cons hmutation (slotsMeaning?_cons hsubscription
        (slotsMeaning?_cons (htypes.meaning false) rfl)))
    have hdirectives : Record.schema.slot? "directives" = none := rfl
    have hskip := meaning?_object_skip nullable hdirectives
      [("queryType", Report.root? schema.query), ("mutationType", Report.root? schema.mutation),
        ("subscriptionType", Report.root? schema.subscription),
        ("types", .array (schema.types.items.map (Report.definition schema)))] (.array [])
    exact hskip.trans ((meaning?_object_in_order nullable rfl).trans hslots)
  · have hdefinitions : definitions (types.listOf TypeEntry.ofDatum) = .ok schema.types.items :=
      definitions_eq_ok hentries
    have hroots : unknownRoot? ⟨.ofList schema.types.items, schema.query, schema.mutation,
        schema.subscription⟩ = none := by
      rw [Catalog.ofList_items]
      exact unknownRoot?_eq_none h.rooted
    rw [SchemaEntry.ofDatum, hqueryName, hmutationName, hsubscriptionName,
      schema_eq_ok_of_definitions hdefinitions hroots, Catalog.ofList_items]

theorem loadValue_bare_of_means
    {value : Json} {d : Datum} (h : Means (.record .schema) value d) :
    loadValue (bare value) = (SchemaEntry.ofDatum d).schema := by
  have hread : readSchema value = .ok d := by
    apply eq_ok_of_toOption_eq_some
    rw [readSchema, toOption_read_ofJson]
    exact h.meaning true
  have hresponse : SchemaEntry.ofResponse? (.cons .absent (.cons d .nil)) =
      some (SchemaEntry.ofDatum d) := Datum.entryOf?_of_ne_absent _ h.present
  rw [loadValue_eq, readValue_bare, hread]
  change schemaOfResponse (.cons .absent (.cons d .nil)) = _
  rw [schemaOfResponse, hresponse]

theorem loadValue_bare_report
    {schema : Schema} (h : schema.Consistent) :
    loadValue (bare (Report.ofSchema schema)) = .ok schema := by
  obtain ⟨d, hd, hschema⟩ := exists_means_ofSchema h
  rw [loadValue_bare_of_means hd, hschema]

/-- The consistent schemas are the ones that can be loaded. -/
theorem loaded_iff_consistent {schema : Schema} : Loaded schema ↔ schema.Consistent := by
  constructor
  · exact Loaded.consistent
  · intro h
    exact Or.inr ⟨_, loadValue_bare_report h⟩

/-- Loading the report of a schema gives the schema, inside the data of a response or bare. -/
theorem loadValue_report
    (schema : Schema) (h : schema.Consistent) :
    loadValue (bare (Report.ofSchema schema)) = .ok schema ∧
      loadValue (.object [("data", bare (Report.ofSchema schema))]) = .ok schema := by
  have hbare := loadValue_bare_report h
  exact ⟨hbare, (loadValue_response_bare _).trans hbare⟩

/-- A schema with a type of each kind, deep references and all sorts of notes. -/
def librarySchema : Schema where
  query := some "Query"
  subscription := some "Events"
  types := .ofList
    [{ name := "Query"
       body := .object (.ofList
         [{ name := "find", type := .nonNull (.list (.list (.nonNull (.named "Entry"))))
            arguments := [{ name := "by", type := .named "Filter", default := some "\x7b\x7d" },
              { name := "limit", type := .nonNull (.named "Int"), description := some "" }] },
          { name := "all", type := .list (.named "Node"), deprecation := some "Use find." }])
         ["Node"] },
     { name := "Node", description := some "Has an id.",
       body := .interface (.ofList [{ name := "id", type := .nonNull (.named "ID") }]) },
     { name := "Filter"
       body := .inputObject (.ofList
         [{ name := "kind", type := .nonNull (.named "Kind"), default := some "BOOK" }]) },
     { name := "Entry", body := .union ["Query", "Events"] },
     { name := "Kind"
       body := .enumeration [{ name := "BOOK" }, { name := "MAP", deprecation := some "" }] },
     { name := "Events", body := .object .empty [] },
     { name := "Date", body := .scalar }]

theorem loadValue_report_library :
    librarySchema.Consistent ∧
      loadValue (bare (Report.ofSchema librarySchema)) = .ok librarySchema ∧
      loadValue (.object [("data", bare (Report.ofSchema librarySchema))]) = .ok librarySchema := by
  have hconsistent : librarySchema.Consistent := by decide
  exact ⟨hconsistent, loadValue_report librarySchema hconsistent⟩

end SchemaBinding.Introspection
