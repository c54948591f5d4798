import SchemaBinding.Introspection.Load
import SchemaBinding.Proofs.Results
import SchemaBinding.Proofs.Schema.Filling

/-!
# What entries make

Loading goes through the entries of a result in order.  It leaves out those
without a name and those of an unknown kind, and files what it makes of the
others under their names: a name keeps the place where it first came, and a
later entry takes the place of an earlier one.  The fields of a type are filed
in the same way.
-/

namespace SchemaBinding

/-- The tag by which introspection results name a kind. -/
def TypeKind.tag : TypeKind → String
  | enumeration => "ENUM"
  | inputObject => "INPUT_OBJECT"
  | interface => "INTERFACE"
  | object => "OBJECT"
  | scalar => "SCALAR"
  | union => "UNION"

namespace Introspection

/-! ## Fields -/

theorem name_of_inputField
    {owner : String} {entry : InputEntry} {f : Field} (h : entry.field owner = .ok f) :
    entry.name = f.name := by
  obtain ⟨type, -, heq⟩ := bind_eq_ok h
  cases heq
  rfl

theorem name_of_field
    {owner : String} {entry : FieldEntry} {f : Field} (h : entry.field owner = .ok f) :
    entry.name = f.name := by
  obtain ⟨type, -, hrest⟩ := bind_eq_ok h
  obtain ⟨arguments, -, heq⟩ := bind_eq_ok hrest
  cases heq
  rfl

/-- The fields that are made of entries, one for each name. -/
def FieldsSettled (owner : String) (entries : Option (List FieldEntry)) : Catalog Field → Prop :=
  Settled FieldEntry.name (fun entry f => entry.field owner = .ok f) (entries.getD [])

/-- The input fields that are made of entries, one for each name. -/
def InputFieldsSettled (owner : String) (entries : Option (List InputEntry)) :
    Catalog Field → Prop :=
  Settled InputEntry.name (fun entry f => entry.field owner = .ok f) (entries.getD [])

theorem fieldsSettled_of_mapM
    {owner : String} {entries : Option (List FieldEntry)} {fields : List Field}
    (h : (entries.getD []).mapM (FieldEntry.field owner) = .ok fields) :
    FieldsSettled owner entries (.ofList fields) :=
  settled_ofList (fun _ _ => name_of_field) (mapM_eq_ok_iff.mp h)

theorem inputFieldsSettled_of_mapM
    {owner : String} {entries : Option (List InputEntry)} {fields : List Field}
    (h : (entries.getD []).mapM (InputEntry.field owner) = .ok fields) :
    InputFieldsSettled owner entries (.ofList fields) :=
  settled_ofList (fun _ _ => name_of_inputField) (mapM_eq_ok_iff.mp h)

/-! ## Definitions -/

/-- An entry that becomes a definition: it has a name and one of the six kinds. -/
def TypeEntry.isConvertible (entry : TypeEntry) : Bool :=
  entry.name.isSome && TypeKind.all.any fun kind => kind.tag == entry.kind

/-- The name under which an entry is filed. -/
def TypeEntry.key (entry : TypeEntry) : String :=
  entry.name.getD ""

theorem isConvertible_eq_false_iff {entry : TypeEntry} :
    entry.isConvertible = false ↔ entry.name = none ∨ ∀ kind : TypeKind, entry.kind ≠ kind.tag := by
  have hall (kind : TypeKind) : kind ∈ TypeKind.all := by cases kind <;> decide
  rw [TypeEntry.isConvertible, Bool.and_eq_false_iff, List.any_eq_false, Option.isSome_eq_false_iff,
    Option.isNone_iff_eq_none]
  refine or_congr_right ⟨fun h kind heq => h kind (hall kind) (beq_iff_eq.mpr heq.symm), ?_⟩
  exact fun h kind _ heq => h kind (beq_iff_eq.mp heq).symm

/-- The body of a definition holds what its entry says. -/
def TypeEntry.Fills (entry : TypeEntry) (owner : String) : TypeBody → Prop
  | .object fields interfaces =>
    FieldsSettled owner entry.fields fields ∧ interfaces = namesOf entry.interfaces
  | .interface fields => FieldsSettled owner entry.fields fields
  | .inputObject fields => InputFieldsSettled owner entry.inputFields fields
  | .union members => members = namesOf entry.possibleTypes
  | .enumeration values => values = (entry.enumValues.getD []).map ValueEntry.value
  | .scalar => True

/-- A definition is what its entry says. -/
structure TypeEntry.Makes (entry : TypeEntry) (d : TypeDefinition) : Prop where
  name : entry.name = some d.name
  kind : entry.kind = d.kind.tag
  description : entry.description = d.description
  body : entry.Fills d.name d.body

theorem fills_of_body?
    {owner : String} {entry : TypeEntry} {body : TypeBody}
    (h : entry.body? owner = .ok (some body)) :
    entry.kind = body.kind.tag ∧ entry.Fills owner body := by
  unfold TypeEntry.body? at h
  split at h
  next hkind =>
    obtain ⟨fields, hfields, heq⟩ := bind_eq_ok h
    cases heq
    exact ⟨hkind, fieldsSettled_of_mapM hfields, rfl⟩
  split at h
  next hkind =>
    obtain ⟨fields, hfields, heq⟩ := bind_eq_ok h
    cases heq
    exact ⟨hkind, fieldsSettled_of_mapM hfields⟩
  split at h
  next hkind =>
    obtain ⟨fields, hfields, heq⟩ := bind_eq_ok h
    cases heq
    exact ⟨hkind, inputFieldsSettled_of_mapM hfields⟩
  split at h
  next hkind =>
    cases h
    exact ⟨hkind, rfl⟩
  split at h
  next hkind =>
    cases h
    exact ⟨hkind, rfl⟩
  split at h
  next hkind =>
    cases h
    exact ⟨hkind, trivial⟩
  next => cases h

/-- Only an entry of an unknown kind is left out once its name is there. -/
theorem kind_ne_tag_of_body?
    {owner : String} {entry : TypeEntry} (h : entry.body? owner = .ok none) (kind : TypeKind) :
    entry.kind ≠ kind.tag := by
  intro hkind
  unfold TypeEntry.body? at h
  rw [hkind] at h
  cases kind with
  | object =>
    obtain ⟨fields, -, heq⟩ := bind_eq_ok h
    cases heq
  | interface =>
    obtain ⟨fields, -, heq⟩ := bind_eq_ok h
    cases heq
  | inputObject =>
    obtain ⟨fields, -, heq⟩ := bind_eq_ok h
    cases heq
  | union => cases h
  | enumeration => cases h
  | scalar => cases h

theorem makes_of_definition?
    {entry : TypeEntry} {d : TypeDefinition} (h : entry.definition? = .ok (some d)) :
    entry.Makes d := by
  unfold TypeEntry.definition? at h
  split at h
  · cases h
  next name hname =>
    obtain ⟨body, hbody, heq⟩ := bind_eq_ok h
    cases body with
    | none => cases heq
    | some body =>
      cases heq
      obtain ⟨hkind, hfills⟩ := fills_of_body? hbody
      exact ⟨hname, hkind, rfl, hfills⟩

theorem isConvertible_eq_false_of_definition?
    {entry : TypeEntry} (h : entry.definition? = .ok none) : entry.isConvertible = false := by
  rw [isConvertible_eq_false_iff]
  unfold TypeEntry.definition? at h
  split at h
  next hname => exact Or.inl hname
  next name hname =>
    obtain ⟨body, hbody, heq⟩ := bind_eq_ok h
    cases body with
    | some body => cases heq
    | none => exact Or.inr (kind_ne_tag_of_body? hbody)

theorem TypeEntry.Makes.isConvertible
    {entry : TypeEntry} {d : TypeDefinition} (h : entry.Makes d) : entry.isConvertible = true := by
  have hkind : (TypeKind.all.any fun kind => kind.tag == entry.kind) = true := by
    rw [List.any_eq_true, h.kind]
    refine ⟨d.kind, ?_, beq_self_eq_true _⟩
    cases d.kind <;> decide
  rw [TypeEntry.isConvertible, h.name, hkind, Option.isSome_some, Bool.true_and]

theorem TypeEntry.Makes.key
    {entry : TypeEntry} {d : TypeDefinition} (h : entry.Makes d) : entry.key = d.name := by
  rw [TypeEntry.key, h.name, Option.getD_some]

/-- Each entry with a name and a known kind makes a definition, and no other entry does. -/
theorem forall₂_of_definitions
    {entries : List TypeEntry} {ds : List TypeDefinition} (h : definitions entries = .ok ds) :
    List.Forall₂ TypeEntry.Makes (entries.filter TypeEntry.isConvertible) ds := by
  induction entries generalizing ds with
  | nil =>
    cases h
    exact .nil
  | cons entry entries ih =>
    obtain ⟨definition, hdefinition, hrest⟩ := bind_eq_ok h
    obtain ⟨others, hothers, heq⟩ := bind_eq_ok hrest
    cases heq
    cases definition with
    | none =>
      have hskipped := isConvertible_eq_false_of_definition? hdefinition
      rw [List.filter_cons_of_neg (by simp [hskipped])]
      exact ih hothers
    | some d =>
      have hmakes := makes_of_definition? hdefinition
      rw [List.filter_cons_of_pos hmakes.isConvertible]
      exact .cons hmakes (ih hothers)

/-! ## Entries that are left out -/

theorem definition?_eq_ok_none {entry : TypeEntry} (h : entry.isConvertible = false) :
    entry.definition? = .ok none := by
  rw [TypeEntry.definition?]
  cases hname : entry.name with
  | none => rfl
  | some name =>
    have hkind : ∀ kind : TypeKind, entry.kind ≠ kind.tag :=
      (isConvertible_eq_false_iff.mp h).resolve_left (by rw [hname]; exact nofun)
    have hobject : entry.kind ≠ "OBJECT" := hkind .object
    have hinterface : entry.kind ≠ "INTERFACE" := hkind .interface
    have hinput : entry.kind ≠ "INPUT_OBJECT" := hkind .inputObject
    have hunion : entry.kind ≠ "UNION" := hkind .union
    have henum : entry.kind ≠ "ENUM" := hkind .enumeration
    have hscalar : entry.kind ≠ "SCALAR" := hkind .scalar
    have hbody : entry.body? name = .ok none := by
      rw [TypeEntry.body?, if_neg hobject, if_neg hinterface, if_neg hinput, if_neg hunion,
        if_neg henum, if_neg hscalar]
    dsimp only
    rw [hbody]
    rfl

/-- Entries that make no definition are left out before they are looked into. -/
theorem definitions_filter (entries : List TypeEntry) :
    definitions (entries.filter TypeEntry.isConvertible) = definitions entries := by
  induction entries with
  | nil => rfl
  | cons entry entries ih =>
    by_cases hentry : entry.isConvertible = true
    · rw [List.filter_cons_of_pos hentry, definitions, definitions, ih]
    · rw [List.filter_cons_of_neg hentry, ih, definitions,
        definition?_eq_ok_none (Bool.not_eq_true _ ▸ hentry)]
      cases definitions entries <;> rfl

/-- An entry of a schema without the entries that make no definition. -/
def SchemaEntry.trimmed (entry : SchemaEntry) : SchemaEntry :=
  { entry with types := entry.types.filter TypeEntry.isConvertible }

theorem SchemaEntry.schema_trimmed (entry : SchemaEntry) : entry.trimmed.schema = entry.schema := by
  rw [SchemaEntry.schema, SchemaEntry.schema, SchemaEntry.trimmed, definitions_filter]

/-! ## Schemas -/

theorem settled_of_definitions
    {entries : List TypeEntry} {ds : List TypeDefinition} (h : definitions entries = .ok ds) :
    Settled TypeEntry.key TypeEntry.Makes (entries.filter TypeEntry.isConvertible)
      (Catalog.ofList ds) :=
  settled_ofList (fun _ _ hmakes => hmakes.key) (forall₂_of_definitions h)

theorem schema_eq_ok
    {entry : SchemaEntry} {schema : Schema} (h : entry.schema = .ok schema) :
    ∃ ds, definitions entry.types = .ok ds ∧
      schema = ⟨.ofList ds, entry.query, entry.mutation, entry.subscription⟩ ∧
      unknownRoot? schema = none := by
  obtain ⟨ds, hds, hrest⟩ := bind_eq_ok h
  refine ⟨ds, hds, ?_⟩
  dsimp only at hrest
  split at hrest
  · cases hrest
  next hroot =>
    cases hrest
    exact ⟨rfl, hroot⟩

end Introspection

end SchemaBinding
