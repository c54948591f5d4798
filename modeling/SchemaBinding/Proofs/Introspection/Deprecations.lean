import SchemaBinding.Proofs.Introspection.Records
import SchemaBinding.Proofs.Sdl.Deprecations

/-!
# Deprecations from results to documents

The record of a field or a value says whether it is deprecated, and it may give
a reason.  Both are kept through loading and printing: a reader of the document
finds the same deprecations, with the reasons of the records, or with the one
that is meant where a record gives none.
-/

namespace SchemaBinding.Introspection

open Json (Transcript)
open Sdl (document deprecationMark fieldRow valueRow visibleTypes)

/-! ## Two slots and a directive -/

/-- The directive text of an item that is deprecated or not, for a reason or for none. -/
structure TellsDeprecation (mark : String) (isDeprecated : Bool) (reason : Option String) :
    Prop where
  empty_iff : mark = "" ↔ isDeprecated = false
  reads : isDeprecated = true → Sdl.ReadsDeprecated mark (reason.getD Sdl.defaultReason)
  unbroken : Sdl.Unbroken mark

theorem tellsDeprecation_deprecationMark (isDeprecated : Bool) (reason : Option String) :
    TellsDeprecation (deprecationMark (deprecation isDeprecated reason)) isDeprecated reason := by
  refine ⟨?_, ?_, Sdl.unbroken_deprecationMark _⟩
  · cases isDeprecated with
    | false => exact ⟨fun _ => rfl, fun _ => rfl⟩
    | true => exact ⟨fun h => absurd h (Sdl.deprecationMark_some_ne_empty _), nofun⟩
  · rintro rfl
    exact Sdl.readsDeprecated_deprecationMark _

/-! ## Items of a document -/

/-- An item stands in the document on `row`, which goes on behind the `plain` one with
the deprecation that the record of the item gives. -/
def DeprecationTold (schema : Schema) (record : Record) (value : Transcript)
    (name plain row : String) : Prop :=
  ∃ mark isDeprecated reason, ItemGiven record value name isDeprecated reason ∧
    row = plain ++ mark ∧ Sdl.Holds (document schema) (row ++ "\n") ∧
      TellsDeprecation mark isDeprecated reason

def FieldTold (schema : Schema) (value : Transcript) (f : Field) : Prop :=
  DeprecationTold schema .field value f.name (fieldRow { f with deprecation := none }) (fieldRow f)

def ValueTold (schema : Schema) (value : Transcript) (v : EnumValue) : Prop :=
  DeprecationTold schema .enumValue value v.name (valueRow { v with deprecation := none })
    (valueRow v)

def textOf? : Option Transcript → Option String
  | some (.string text) => some text
  | _ => none

theorem TextGiven.textOf?_eq {given : Option Transcript} {text : Option String}
    (h : TextGiven given text) : textOf? given = text := by
  cases h <;> rfl

/-- The name that a record gives. -/
def recordName (record : Record) (value : Transcript) : String :=
  (textOf? (slotValue? record "name" value)).getD ""

/-- The records of the items of a definition are told in its rows. -/
def BodyTold (schema : Schema) (type : Transcript) : TypeBody → Prop
  | .object fields _ =>
    Settled (recordName .field) (FieldTold schema) (slotItems .type "fields" type) fields
  | .interface fields =>
    Settled (recordName .field) (FieldTold schema) (slotItems .type "fields" type) fields
  | .enumeration values =>
    List.Forall₂ (ValueTold schema) (slotItems .type "enumValues" type) values
  | _ => True

theorem fieldTold
    {schema : Schema} {value : Transcript} {owner : String} {entry : FieldEntry} {f : Field}
    (hgiven : FieldGiven value entry) (hmade : entry.field owner = .ok f)
    (hrow : Sdl.Holds (document schema) (fieldRow f ++ "\n")) : FieldTold schema value f := by
  obtain ⟨type, -, hrest⟩ := bind_eq_ok hmade
  obtain ⟨arguments, -, heq⟩ := bind_eq_ok hrest
  cases heq
  exact ⟨_, _, _, hgiven, Sdl.fieldRow_eq _, hrow, tellsDeprecation_deprecationMark _ _⟩

theorem valueTold
    {schema : Schema} {value : Transcript} {entry : ValueEntry} (hgiven : ValueGiven value entry)
    (hrow : Sdl.Holds (document schema) (valueRow entry.value ++ "\n")) :
    ValueTold schema value entry.value :=
  ⟨_, _, _, hgiven, Sdl.valueRow_eq _, hrow, tellsDeprecation_deprecationMark _ _⟩

theorem recordName_of_itemGiven
    {record : Record} {value : Transcript} {name : String} {isDeprecated : Bool}
    {reason : Option String} (h : ItemGiven record value name isDeprecated reason) :
    recordName record value = name := by
  rw [recordName, h.name]
  rfl

theorem fieldsTold
    {schema : Schema} {owner : String} {records : List Transcript}
    {entries : Option (List FieldEntry)} {fields : Catalog Field}
    (hgiven : List.Forall₂ FieldGiven records (entries.getD []))
    (hsettled : FieldsSettled owner entries fields)
    (hrows : ∀ f ∈ fields.items, Sdl.Holds (document schema) (fieldRow f ++ "\n")) :
    Settled (recordName .field) (FieldTold schema) records fields := by
  refine Settled.of_forall₂ hsettled hgiven (fun _ _ h => recordName_of_itemGiven h) ?_
  intro value entry f hf hfield hmade
  exact fieldTold hfield hmade (hrows f hf)

theorem valuesTold
    {schema : Schema} {records : List Transcript} {entries : List ValueEntry}
    (hgiven : List.Forall₂ ValueGiven records entries)
    (hrows : ∀ entry ∈ entries, Sdl.Holds (document schema) (valueRow entry.value ++ "\n")) :
    List.Forall₂ (ValueTold schema) records (entries.map ValueEntry.value) := by
  induction hgiven with
  | nil => exact .nil
  | cons hvalue _ ih =>
    rw [List.forall_mem_cons] at hrows
    exact .cons (valueTold hvalue hrows.1) (ih hrows.2)

theorem bodyTold
    {schema : Schema} {type : Transcript} {entry : TypeEntry} {d : TypeDefinition}
    (hgiven : TypeGiven type entry) (hmade : entry.Makes d) (hd : d ∈ visibleTypes schema) :
    BodyTold schema type d.body := by
  have hrows : ∀ row ∈ Sdl.bodyRows d.body, Sdl.Holds (document schema) (row ++ "\n") :=
    fun _ => Sdl.holds_document hd
  have hfills := hmade.body
  cases hbody : d.body with
  | object fields interfaces =>
    rw [hbody] at hfills hrows
    exact fieldsTold hgiven.fields hfills.1 fun f hf => hrows _ (List.mem_map_of_mem hf)
  | interface fields =>
    rw [hbody] at hfills hrows
    exact fieldsTold hgiven.fields hfills fun f hf => hrows _ (List.mem_map_of_mem hf)
  | enumeration values =>
    rw [hbody] at hfills hrows
    obtain rfl : values = (entry.enumValues.getD []).map ValueEntry.value := hfills
    refine valuesTold hgiven.values fun value hvalue => ?_
    exact hrows _ (List.mem_map_of_mem (List.mem_map_of_mem hvalue))
  | inputObject fields => trivial
  | union members => trivial
  | scalar => trivial

/-! ## Results and documents -/

/-- Whether a record has a name and one of the six kinds. -/
def definesType (type : Transcript) : Bool :=
  (textOf? (slotValue? .type "name" type)).isSome &&
    TypeKind.all.any fun kind => some kind.tag == textOf? (slotValue? .type "kind" type)

theorem TypeGiven.definesType_eq {type : Transcript} {entry : TypeEntry}
    (h : TypeGiven type entry) : definesType type = entry.isConvertible := by
  rw [definesType, h.name.textOf?_eq, h.kind]
  rfl

theorem TypeGiven.recordName_eq {type : Transcript} {entry : TypeEntry}
    (h : TypeGiven type entry) : recordName .type type = entry.key := by
  rw [recordName, h.name.textOf?_eq]
  rfl

/-- Each definition stands for the last record of its name, and if it is shown, each of
its fields and values tells the deprecation that its own record gives. -/
theorem deprecations_read_back
    {input : Input} {schema : Schema} (h : input.load = .ok schema) :
    Settled (recordName .type)
      (fun type d => d ∈ visibleTypes schema → BodyTold schema type d.body)
      (input.typeRecords.filter definesType) schema.types := by
  obtain ⟨entry, hentry, hschema⟩ := Input.exists_entries?_of_load h
  obtain ⟨ds, hds, rfl, -⟩ := schema_eq_ok hschema
  have hrecords : List.Forall₂ TypeGiven (input.typeRecords.filter definesType)
      (entry.types.filter TypeEntry.isConvertible) := by
    apply List.rel_filter ?_ (Input.typeGiven_of_entries? hentry)
    intro type entry hgiven
    dsimp only
    rw [hgiven.definesType_eq]
  refine Settled.of_forall₂ (settled_of_definitions hds) hrecords
    (fun _ _ hgiven => hgiven.recordName_eq) ?_
  intro type entry d _ hgiven hmade hd
  exact bodyTold hgiven hmade hd

/-- A field of a result with what it says about its deprecation. -/
def retiredField (name : String) (deprecation : List (String × Json)) : Json :=
  .object ([("name", .string name),
    ("type", .object [("kind", .string "SCALAR"), ("name", .string "Int")])] ++ deprecation)

/-- A result with all sorts of deprecations, one of them with a reason that needs escapes. -/
def retiredResult : Json :=
  .object [("__schema", .object [("types", .array
    [.object [("kind", .string "OBJECT"), ("name", .string "Q"),
       ("fields", .array
         [retiredField "a" [("isDeprecated", .boolean true),
            ("deprecationReason", .string "say \"no\" \\ twice\n\x07 \u00e9")],
          retiredField "b" [("isDeprecated", .boolean true), ("deprecationReason", .null)],
          retiredField "c" [("deprecationReason", .string "not yet")]])],
     .object [("kind", .string "ENUM"), ("name", .string "E"),
       ("enumValues", .array
         [.object [("name", .string "OLD"), ("isDeprecated", .boolean true),
            ("deprecationReason", .string "")],
          .object [("name", .string "NEW"), ("isDeprecated", .boolean false)]])]])])]

def retiredSchema : Schema where
  types := .ofList
    [{ name := "Q"
       body := .object (.ofList
         [{ name := "a", type := .named "Int"
            deprecation := some "say \"no\" \\ twice\n\x07 \u00e9" },
          { name := "b", type := .named "Int", deprecation := some Sdl.defaultReason },
          { name := "c", type := .named "Int" }]) [] },
     { name := "E"
       body := .enumeration [{ name := "OLD", deprecation := some "" }, { name := "NEW" }] }]

theorem deprecations_read_back_retired :
    (Input.value retiredResult).load = .ok retiredSchema ∧
      Settled (recordName .type)
        (fun type d => d ∈ visibleTypes retiredSchema → BodyTold retiredSchema type d.body)
        ((Input.value retiredResult).typeRecords.filter definesType) retiredSchema.types := by
  have hload : (Input.value retiredResult).load = .ok retiredSchema := by rfl
  exact ⟨hload, deprecations_read_back hload⟩

end SchemaBinding.Introspection
