import SchemaBinding.Proofs.Introspection.Made
import SchemaBinding.Proofs.Schema.Consistent

/-!
# Loaded schemas

A schema that comes out of loading is consistent, whatever the introspection
result says: each step of loading either fails or yields a part of the sort
that its place asks for, and the roots are bound to definitions that it has.
-/

namespace SchemaBinding.Introspection

/-! ## References and members -/

theorem wellWrapped_of_wrap
    {kind : String} {inner type : TypeRef} (hinner : inner.WellWrapped)
    (h : wrap kind inner = .ok type) : type.WellWrapped := by
  unfold wrap at h
  split at h
  · split at h
    · cases h
    next hnullable =>
      cases h
      exact ⟨Bool.eq_false_iff.mpr hnullable, hinner⟩
  · cases h
    exact hinner

theorem wellWrapped_of_leafRef
    {kind : String} {name : Option String} {type : TypeRef} (h : leafRef kind name = .ok type) :
    type.WellWrapped := by
  cases name with
  | none => cases h
  | some name =>
    cases h
    trivial

theorem wellWrapped_of_typeRef
    {entry : RefEntry} {type : TypeRef} (h : entry.typeRef = .ok type) : type.WellWrapped := by
  induction entry generalizing type with
  | plain kind name =>
    rw [RefEntry.typeRef] at h
    split at h
    · cases h
    · exact wellWrapped_of_leafRef h
  | wrapping kind name inner ih =>
    rw [RefEntry.typeRef] at h
    split at h
    · obtain ⟨innerType, hinner, hwrap⟩ := bind_eq_ok h
      exact wellWrapped_of_wrap (ih hinner) hwrap
    · exact wellWrapped_of_leafRef h

theorem wellWrapped_of_refAt
    {location : String} {entry : RefEntry} {type : TypeRef} (h : refAt location entry = .ok type) :
    type.WellWrapped := by
  unfold refAt at h
  split at h
  next htype =>
    cases h
    exact wellWrapped_of_typeRef htype
  next => cases h

theorem wellWrapped_of_argument
    {owner : String} {entry : InputEntry} {a : Argument} (h : entry.argument owner = .ok a) :
    a.type.WellWrapped := by
  obtain ⟨type, htype, heq⟩ := bind_eq_ok h
  cases heq
  exact wellWrapped_of_refAt htype

theorem of_mem_of_mapM_eq_ok
    {ε α β : Type} {f : α → Except ε β} {P : β → Prop} (hf : ∀ a b, f a = .ok b → P b)
    {as : List α} {bs : List β} (h : as.mapM f = .ok bs) : ∀ b ∈ bs, P b := by
  have hmade := mapM_eq_ok_iff.mp h
  clear h
  induction hmade with
  | nil => simp
  | cons hb _ ih => exact List.forall_mem_cons.mpr ⟨hf _ _ hb, ih⟩

theorem inputShaped_of_field
    {owner : String} {entry : InputEntry} {f : Field} (h : entry.field owner = .ok f) :
    f.InputShaped := by
  obtain ⟨type, htype, heq⟩ := bind_eq_ok h
  cases heq
  exact ⟨wellWrapped_of_refAt htype, rfl⟩

theorem deprecation_of_inputField
    {owner : String} {entry : InputEntry} {f : Field} (h : entry.field owner = .ok f) :
    f.deprecation = none := by
  obtain ⟨type, -, heq⟩ := bind_eq_ok h
  cases heq
  rfl

theorem outputShaped_of_field
    {owner : String} {entry : FieldEntry} {f : Field} (h : entry.field owner = .ok f) :
    f.OutputShaped := by
  obtain ⟨type, htype, hrest⟩ := bind_eq_ok h
  obtain ⟨arguments, harguments, heq⟩ := bind_eq_ok hrest
  cases heq
  exact ⟨wellWrapped_of_refAt htype, rfl,
    of_mem_of_mapM_eq_ok (fun _ _ => wellWrapped_of_argument) harguments⟩

/-! ## Definitions -/

/-- Every field is made from some entry, so it is of the sort that its kind asks for. -/
theorem TypeEntry.Fills.wellShaped
    {entry : TypeEntry} {owner : String} {body : TypeBody} (h : entry.Fills owner body) :
    body.WellShaped := by
  cases body with
  | object fields interfaces =>
    obtain ⟨hsettled, -⟩ := h
    intro f hf
    obtain ⟨entry, -, hfield⟩ := hsettled.last f hf
    exact outputShaped_of_field hfield
  | interface fields =>
    have hsettled : FieldsSettled owner entry.fields fields := h
    intro f hf
    obtain ⟨entry, -, hfield⟩ := hsettled.last f hf
    exact outputShaped_of_field hfield
  | inputObject fields =>
    have hsettled : InputFieldsSettled owner entry.inputFields fields := h
    intro f hf
    obtain ⟨entry, -, hfield⟩ := hsettled.last f hf
    exact inputShaped_of_field hfield
  | union members => trivial
  | enumeration values => trivial
  | scalar => trivial

/-- Nothing that an entry can say makes an input field deprecated. -/
theorem TypeEntry.Fills.inputsCurrent
    {entry : TypeEntry} {owner : String} {body : TypeBody} (h : entry.Fills owner body) :
    body.InputsCurrent := by
  cases body with
  | inputObject fields =>
    have hsettled : InputFieldsSettled owner entry.inputFields fields := h
    intro f hf
    obtain ⟨entry, -, hfield⟩ := hsettled.last f hf
    exact deprecation_of_inputField hfield
  | object fields interfaces => trivial
  | interface fields => trivial
  | union members => trivial
  | enumeration values => trivial
  | scalar => trivial

/-! ## Schemas -/

theorem consistent_of_schema
    {entry : SchemaEntry} {schema : Schema} (h : entry.schema = .ok schema) :
    schema.Consistent := by
  obtain ⟨ds, hds, rfl, hknown⟩ := schema_eq_ok h
  have hsettled := settled_of_definitions hds
  constructor
  · intro d hd
    obtain ⟨entry, -, hmakes⟩ := hsettled.last d hd
    exact hmakes.body.wellShaped
  · intro d hd
    obtain ⟨entry, -, hmakes⟩ := hsettled.last d hd
    exact hmakes.body.inputsCurrent
  · intro root hroot
    have hfound := List.find?_eq_none.mp (Option.map_eq_none_iff.mp hknown) root hroot
    simpa [Option.isSome_iff_ne_none] using hfound

/-! ## Loading -/

/-- The result of loading what a reader has read. -/
def loadRead (read : Except Fault Datum) : Except LoadError Schema :=
  match read with
  | .ok datum => schemaOfResponse datum
  | .error fault => .error (.unreadable fault)

theorem loadValue_eq (value : Json) : loadValue value = loadRead (readValue value) :=
  rfl

theorem loadText_eq (text : String) : loadText text = loadRead (readText text) :=
  rfl

/-- An introspection result as it comes in. -/
inductive Input where
  | text (content : String)
  | value (content : Json)

namespace Input

def read : Input → Except Fault Datum
  | text content => readText content
  | value content => readValue content

def load : Input → Except LoadError Schema
  | text content => loadText content
  | value content => loadValue content

/-- The entries of a result that can be read and has a schema. -/
def entries? (input : Input) : Option SchemaEntry :=
  input.read.toOption.bind SchemaEntry.ofResponse?

theorem load_eq (input : Input) : input.load = loadRead input.read := by
  cases input with
  | text content => exact loadText_eq content
  | value content => exact loadValue_eq content

theorem exists_entries?_of_load
    {input : Input} {schema : Schema} (h : input.load = .ok schema) :
    ∃ entry, input.entries? = some entry ∧ entry.schema = .ok schema := by
  rw [load_eq] at h
  unfold loadRead at h
  split at h
  next datum hdatum =>
    unfold schemaOfResponse at h
    split at h
    next entry hentry =>
      refine ⟨entry, ?_, h⟩
      rw [entries?, hdatum]
      exact hentry
    next => cases h
  next => cases h

/-- Once a result has been read and has a schema, its entries decide the rest. -/
theorem load_of_entries?
    {input : Input} {entry : SchemaEntry} (h : input.entries? = some entry) :
    input.load = entry.schema := by
  obtain ⟨datum, hdatum, hentry⟩ := Option.bind_eq_some_iff.mp h
  rw [load_eq, eq_ok_of_toOption_eq_some hdatum]
  change schemaOfResponse datum = entry.schema
  rw [schemaOfResponse, hentry]

end Input

/-- A schema that comes out of loading a text or a value. -/
def Loaded (schema : Schema) : Prop :=
  (∃ text, loadText text = .ok schema) ∨ ∃ value, loadValue value = .ok schema

theorem Loaded.exists_schemaOfResponse {schema : Schema} (h : Loaded schema) :
    ∃ entry : SchemaEntry, entry.schema = .ok schema := by
  obtain ⟨input, hload⟩ : ∃ input : Input, input.load = .ok schema := by
    rcases h with ⟨text, htext⟩ | ⟨value, hvalue⟩
    · exact ⟨.text text, htext⟩
    · exact ⟨.value value, hvalue⟩
  obtain ⟨entry, -, hschema⟩ := Input.exists_entries?_of_load hload
  exact ⟨entry, hschema⟩

theorem Loaded.consistent {schema : Schema} (h : Loaded schema) : schema.Consistent := by
  obtain ⟨entry, hentry⟩ := h.exists_schemaOfResponse
  exact consistent_of_schema hentry

theorem Loaded.wellShaped {schema : Schema} (h : Loaded schema) : schema.WellShaped :=
  h.consistent.shaped

theorem Loaded.exists_type?_eq_some
    {schema : Schema} (h : Loaded schema) {root : Operation × String}
    (hroot : root ∈ schema.boundRoots) : ∃ d, schema.type? root.2 = some d :=
  Option.isSome_iff_exists.mp (h.consistent.rooted root hroot)

end SchemaBinding.Introspection
