import SchemaBinding.Proofs.Introspection.Loaded
import SchemaBinding.Proofs.Introspection.Meaning

/-!
# Records of introspection results

A record stands in a result as an object with its slots as members, or as an
array of its slots in order.  What has been read of a record says, slot by
slot, what stands in the result under the key of the slot, or that nothing does.
-/

namespace SchemaBinding

namespace Json

@[elab_as_elim]
theorem Items.chainInduction
    {motive : Items → Prop} (items : Items) (closed : motive .closed)
    (broken : ∀ fault, motive (.broken fault))
    (cons : ∀ head tail, motive tail → motive (.cons head tail)) : motive items :=
  @Items.rec (fun _ => True) motive (fun _ => True) trivial (fun _ => trivial) (fun _ => trivial)
    (fun _ => trivial) (fun _ _ => trivial) (fun _ _ => trivial) (fun _ _ => trivial) closed broken
    (fun head tail _ htail => cons head tail htail) trivial (fun _ _ => trivial)
    (fun _ _ _ _ _ => trivial) items

@[elab_as_elim]
theorem Members.chainInduction
    {motive : Members → Prop} (members : Members) (closed : motive .closed)
    (broken : ∀ read skip, motive (.broken read skip))
    (cons : ∀ key value tail, motive tail → motive (.cons key value tail)) : motive members :=
  @Members.rec (fun _ => True) (fun _ => True) motive trivial (fun _ => trivial) (fun _ => trivial)
    (fun _ => trivial) (fun _ _ => trivial) (fun _ _ => trivial) (fun _ _ => trivial) trivial
    (fun _ => trivial) (fun _ _ _ _ => trivial) closed broken
    (fun key value tail _ htail => cons key value tail htail) members

def Items.toList : Items → List Transcript
  | .closed => []
  | .broken _ => []
  | .cons head tail => head :: tail.toList

/-- The members that have a key, in the order of the text. -/
def Members.keyed : Members → List (String × Transcript)
  | .closed => []
  | .broken _ _ => []
  | .cons none _ tail => tail.keyed
  | .cons (some key) value tail => (key, value) :: tail.keyed

end Json

namespace Introspection

open Json (Transcript Items Members)

/-! ## Slots of a record -/

/-- The values that stand for the slots of a record, under their keys. -/
def slotValues (record : Record) : Transcript → List (String × Transcript)
  | .object members => members.keyed
  | .array items => (record.slots.map Slot.key).zip items.toList
  | _ => []

def slotValue? (record : Record) (key : String) (value : Transcript) : Option Transcript :=
  (slotValues record value).lookup key

def itemsOf : Option Transcript → List Transcript
  | some (.array items) => items.toList
  | _ => []

/-- The items of the list in a slot. -/
def slotItems (record : Record) (key : String) (value : Transcript) : List Transcript :=
  itemsOf (slotValue? record key value)

/-- Reading `value` by a shape gives `d`. -/
def ReadAs (nullable : Bool) (shape : Shape) (value : Transcript) (d : Datum) : Prop :=
  ∃ source levels, read source levels nullable shape value = .ok d

/-- A slot is read as `d` where `given` stands for it, or nothing does. -/
def SlotReadAs (slot : Slot) (given : Option Transcript) (d : Datum) : Prop :=
  match given with
  | some value => ReadAs slot.isNullable slot.shape value d
  | none => settle slot none = .ok d

/-- Each slot is read from what is given under its key. -/
inductive SlotsReadAs (given : String → Option Transcript) : List Slot → Datum → Prop where
  | nil : SlotsReadAs given [] .nil
  | cons {slot : Slot} {slots : List Slot} {first rest : Datum}
      (head : SlotReadAs slot (given slot.key) first) (tail : SlotsReadAs given slots rest) :
      SlotsReadAs given (slot :: slots) (.cons first rest)

variable {source : Source} {levels : Option Nat} {record : Record}

theorem SlotsReadAs.congr
    {given other : String → Option Transcript} {slots : List Slot} {d : Datum}
    (h : SlotsReadAs given slots d) (heq : ∀ slot ∈ slots, given slot.key = other slot.key) :
    SlotsReadAs other slots d := by
  induction h with
  | nil => exact .nil
  | @cons slot slots _ _ head tail ih =>
    rw [List.forall_mem_cons] at heq
    exact .cons (heq.1 ▸ head) (ih heq.2)

/-- What reading a member does: it steps over the member, or finds the value of a slot
that has not been found before. -/
theorem cases_of_readMembers_cons
    {key? : Option String} {value : Transcript} {tail : Members}
    {found gathered : List (String × Datum)}
    (h : readMembers source levels record found (.cons key? value tail) = .ok gathered) :
    ∃ key, key? = some key ∧
      ((record.slot? key = none ∧ readMembers source levels record found tail = .ok gathered) ∨
        ∃ slot d, record.slot? key = some slot ∧ found.lookup key = none ∧
          ReadAs slot.isNullable slot.shape value d ∧
          readMembers source levels record ((key, d) :: found) tail = .ok gathered) := by
  cases key? with
  | none =>
    rw [readMembers] at h
    cases h
  | some key =>
    refine ⟨key, rfl, ?_⟩
    rw [readMembers] at h
    cases hslot : record.slot? key with
    | none =>
      rw [hslot] at h
      obtain ⟨-, -, htail⟩ := bind_eq_ok h
      exact Or.inl ⟨rfl, htail⟩
    | some slot =>
      rw [hslot] at h
      dsimp only at h
      split at h
      · cases h
      next hfresh =>
        obtain ⟨d, hd, htail⟩ := bind_eq_ok h
        rw [Option.not_isSome_iff_eq_none] at hfresh
        exact Or.inr ⟨slot, d, rfl, hfresh, ⟨source, levels, hd⟩, htail⟩

/-- What has been found stays, since no key is found twice. -/
theorem lookup_found_of_readMembers
    {members : Members} {found gathered : List (String × Datum)}
    (h : readMembers source levels record found members = .ok gathered) {key : String}
    {d : Datum} (hfound : found.lookup key = some d) : gathered.lookup key = some d := by
  induction members using Members.chainInduction generalizing found with
  | closed =>
    rw [readMembers] at h
    cases h
    exact hfound
  | broken fault skip =>
    rw [readMembers] at h
    cases h
  | cons key? value tail ih =>
    obtain ⟨other, -, ⟨-, htail⟩ | ⟨slot, e, -, hfresh, -, htail⟩⟩ := cases_of_readMembers_cons h
    · exact ih htail hfound
    · apply ih htail
      have hne : key ≠ other := by
        rintro rfl
        rw [hfresh] at hfound
        cases hfound
      rw [lookup_cons_eq, if_neg hne]
      exact hfound

/-- A key that has not been found yet is found among the members, or nowhere. -/
theorem lookup_keyed_of_readMembers
    {members : Members} {found gathered : List (String × Datum)}
    (h : readMembers source levels record found members = .ok gathered) {slot : Slot}
    (hslot : slot ∈ record.slots) (hfresh : found.lookup slot.key = none) :
    Option.Rel (ReadAs slot.isNullable slot.shape) (members.keyed.lookup slot.key)
      (gathered.lookup slot.key) := by
  have hknown := slot?_key_of_mem record slot hslot
  induction members using Members.chainInduction generalizing found with
  | closed =>
    rw [readMembers] at h
    cases h
    rw [hfresh, Members.keyed, List.lookup_nil]
    exact .none
  | broken fault skip =>
    rw [readMembers] at h
    cases h
  | cons key? value tail ih =>
    obtain ⟨key, rfl, ⟨hunknown, htail⟩ | ⟨other, d, hother, -, hread, htail⟩⟩ :=
      cases_of_readMembers_cons h
    · have hne : slot.key ≠ key := by
        rintro rfl
        rw [hknown] at hunknown
        cases hunknown
      rw [Members.keyed, lookup_cons_eq, if_neg hne]
      exact ih htail hfresh
    · rw [Members.keyed, lookup_cons_eq]
      by_cases hkey : slot.key = key
      · subst hkey
        obtain rfl : slot = other := Option.some.inj (hknown.symm.trans hother)
        have hfound : ((slot.key, d) :: found).lookup slot.key = some d := by
          rw [lookup_cons_eq, if_pos rfl]
        rw [if_pos rfl, lookup_found_of_readMembers htail hfound]
        exact .some hread
      · rw [if_neg hkey]
        apply ih htail
        rw [lookup_cons_eq, if_neg hkey]
        exact hfresh

theorem slotsReadAs_of_settleAll
    {given : String → Option Transcript} {gathered : List (String × Datum)} {slots : List Slot}
    {d : Datum}
    (hgathered : ∀ slot ∈ slots, Option.Rel (ReadAs slot.isNullable slot.shape)
      (given slot.key) (gathered.lookup slot.key))
    (h : settleAll gathered slots = .ok d) : SlotsReadAs given slots d := by
  induction slots generalizing d with
  | nil =>
    cases h
    exact .nil
  | cons slot slots ih =>
    obtain ⟨first, hfirst, hrest⟩ := bind_eq_ok h
    obtain ⟨rest, hslots, heq⟩ := bind_eq_ok hrest
    cases heq
    rw [List.forall_mem_cons] at hgathered
    refine .cons ?_ (ih hgathered.2 hslots)
    have hslot := hgathered.1
    generalize given slot.key = value? at hslot ⊢
    generalize gathered.lookup slot.key = datum? at hslot hfirst
    cases hslot with
    | none => exact hfirst
    | some hvalue =>
      cases hfirst
      exact hvalue

theorem slotsReadAs_of_restOfSlots
    {place : Nat} {slots : List Slot} {d : Datum} (h : restOfSlots record place slots = .ok d) :
    SlotsReadAs (fun _ => none) slots d := by
  induction slots generalizing place d with
  | nil =>
    cases h
    exact .nil
  | cons slot slots ih =>
    rw [restOfSlots] at h
    split at h
    next value hpresence =>
      obtain ⟨rest, hrest, heq⟩ := bind_eq_ok h
      cases heq
      refine .cons ?_ (ih hrest)
      change settle slot none = .ok value
      simp only [settle, hpresence]
    next => cases h

theorem slotsReadAs_of_readSlots
    {items : Items} {slots : List Slot} (hkeys : (slots.map Slot.key).Nodup) {place : Nat}
    {d : Datum} (h : readSlots source levels record slots place items = .ok d) :
    SlotsReadAs (((slots.map Slot.key).zip items.toList).lookup ·) slots d := by
  induction items using Items.chainInduction generalizing slots place d with
  | closed =>
    rw [readSlots] at h
    refine (slotsReadAs_of_restOfSlots h).congr fun slot _ => ?_
    rw [Items.toList, List.zip_nil_right, List.lookup_nil]
  | broken fault =>
    rw [readSlots] at h
    cases h
  | cons head tail ih =>
    cases slots with
    | nil =>
      rw [readSlots] at h
      cases h
    | cons slot slots =>
      rw [readSlots] at h
      obtain ⟨first, hfirst, hrest⟩ := bind_eq_ok h
      obtain ⟨rest, hslots, heq⟩ := bind_eq_ok hrest
      cases heq
      rw [List.map_cons, List.nodup_cons] at hkeys
      rw [List.map_cons, Items.toList, List.zip_cons_cons]
      refine .cons ?_ ((ih hkeys.2 hslots).congr fun other hother => ?_)
      · rw [lookup_cons_eq, if_pos rfl]
        exact ⟨source, levels, hfirst⟩
      · have hne : other.key ≠ slot.key := fun heq =>
          hkeys.1 (heq ▸ List.mem_map_of_mem hother)
        rw [lookup_cons_eq, if_neg hne]

/-! ## Values by shape -/

section Shapes

variable {nullable : Bool} {value : Transcript} {d : Datum}

theorem ReadAs.text (h : ReadAs nullable .text value d) :
    (∃ text, value = .string text ∧ d = .text text) ∨
      (nullable = true ∧ value = .null ∧ d = .absent) := by
  obtain ⟨source, levels, hread⟩ := h
  cases value with
  | null =>
    rw [read] at hread
    split at hread
    next hnullable =>
      cases hread
      exact Or.inr ⟨hnullable, rfl, rfl⟩
    next => cases hread
  | string text =>
    rw [read, if_pos rfl] at hread
    cases hread
    exact Or.inl ⟨text, rfl, rfl⟩
  | boolean | number | array | object | flawed => simp [read] at hread

theorem ReadAs.flag (h : ReadAs false .flag value d) :
    ∃ b, value = .boolean b ∧ d = .flag b := by
  obtain ⟨source, levels, hread⟩ := h
  cases value with
  | boolean b =>
    rw [read, if_pos rfl] at hread
    cases hread
    exact ⟨b, rfl, rfl⟩
  | null | string | number | array | object | flawed => simp [read] at hread

/-- Each item of a list is read by the shape of the items. -/
theorem ReadAs.list {α : Type} {item : Shape} (entry : Datum → α)
    (h : ReadAs nullable (.list item) value d) :
    List.Forall₂ (fun value a => ∃ d, ReadAs false item value d ∧ a = entry d)
      (itemsOf (some value)) (d.listOf entry) := by
  obtain ⟨source, levels, hread⟩ := h
  cases value with
  | null =>
    rw [read] at hread
    split at hread
    · cases hread
      exact .nil
    · cases hread
  | array items =>
    rw [read] at hread
    obtain ⟨inner, -, hitems⟩ := bind_eq_ok hread
    rw [itemsOf]
    clear hread
    induction items using Items.chainInduction generalizing d with
    | closed =>
      rw [readItems] at hitems
      cases hitems
      exact .nil
    | broken fault =>
      rw [readItems] at hitems
      cases hitems
    | cons head tail ih =>
      rw [readItems] at hitems
      obtain ⟨first, hfirst, hrest⟩ := bind_eq_ok hitems
      obtain ⟨rest, htail, heq⟩ := bind_eq_ok hrest
      cases heq
      exact .cons ⟨first, ⟨source, inner, hfirst⟩, rfl⟩ (ih htail)
  | boolean | number | string | object | flawed => simp [read] at hread

theorem ReadAs.slots_or_null (h : ReadAs nullable (.record record) value d) :
    (value ≠ .null ∧ SlotsReadAs (slotValue? record · value) record.slots d) ∨
      (value = .null ∧ d = .absent) := by
  obtain ⟨source, levels, hread⟩ := h
  cases value with
  | null =>
    rw [read] at hread
    split at hread
    · cases hread
      exact Or.inr ⟨rfl, rfl⟩
    · cases hread
  | array items =>
    rw [read] at hread
    obtain ⟨inner, -, hslots⟩ := bind_eq_ok hread
    have hkeys : (record.slots.map Slot.key).Nodup := by cases record <;> decide
    exact Or.inl ⟨nofun, slotsReadAs_of_readSlots hkeys hslots⟩
  | object members =>
    rw [read] at hread
    obtain ⟨inner, -, hmembers⟩ := bind_eq_ok hread
    obtain ⟨gathered, hgathered, hsettled⟩ := bind_eq_ok hmembers
    refine Or.inl ⟨nofun, slotsReadAs_of_settleAll (fun slot hslot => ?_) hsettled⟩
    exact lookup_keyed_of_readMembers hgathered hslot rfl
  | boolean | number | string | flawed => simp [read] at hread

end Shapes

/-! ## What is given in a slot -/

/-- A flag that is there, or that is off because it is not. -/
inductive FlagGiven : Option Transcript → Bool → Prop where
  | missing : FlagGiven none false
  | flag (b : Bool) : FlagGiven (some (.boolean b)) b

/-- A text that is there, or none. -/
inductive TextGiven : Option Transcript → Option String → Prop where
  | missing : TextGiven none none
  | null : TextGiven (some .null) none
  | text (text : String) : TextGiven (some (.string text)) (some text)

section Entries

variable {key : String} {given : Option Transcript} {d : Datum} {value : Transcript}

theorem SlotReadAs.text (h : SlotReadAs (.required key .text) given d) :
    given = some (.string d.string) := by
  cases given with
  | none => cases h
  | some value =>
    obtain ⟨text, rfl, rfl⟩ | ⟨hnullable, -⟩ := ReadAs.text h
    · rfl
    · cases hnullable

theorem SlotReadAs.text? (h : SlotReadAs (.optional key .text) given d) :
    TextGiven given d.string? := by
  cases given with
  | none =>
    cases h
    exact .missing
  | some value =>
    obtain ⟨text, rfl, rfl⟩ | ⟨-, rfl, rfl⟩ := ReadAs.text h
    · exact .text text
    · exact .null

theorem SlotReadAs.flag (h : SlotReadAs (.defaulted key .flag (.flag false)) given d) :
    FlagGiven given d.isSet := by
  cases given with
  | none =>
    cases h
    exact .missing
  | some value =>
    obtain ⟨b, rfl, rfl⟩ := ReadAs.flag h
    exact .flag b

theorem SlotReadAs.list {α : Type} {slot : Slot} {item : Shape} (entry : Datum → α)
    (hshape : slot.shape = .list item)
    (hpresence : slot.presence = .optional ∨ slot.presence = .defaulted .nil)
    (h : SlotReadAs slot given d) :
    List.Forall₂ (fun value a => ∃ d, ReadAs false item value d ∧ a = entry d)
      (itemsOf given) (d.listOf entry) := by
  cases given with
  | none =>
    have hd : settle slot none = .ok d := h
    rcases hpresence with hoptional | hdefaulted
    · simp only [settle, hoptional] at hd
      cases hd
      exact .nil
    · simp only [settle, hdefaulted] at hd
      cases hd
      exact .nil
  | some value =>
    have hread : ReadAs slot.isNullable slot.shape value d := h
    rw [hshape] at hread
    exact hread.list entry

theorem getD_listOf? {α : Type} (entry : Datum → α) (d : Datum) :
    (d.listOf? entry).getD [] = d.listOf entry := by
  cases d <;> rfl

/-! ## Entries -/

/-- What a record says about the name and the deprecation of a field or a value. -/
structure ItemGiven (record : Record) (value : Transcript) (name : String) (isDeprecated : Bool)
    (reason : Option String) : Prop where
  name : slotValue? record "name" value = some (.string name)
  flag : FlagGiven (slotValue? record "isDeprecated" value) isDeprecated
  reason : TextGiven (slotValue? record "deprecationReason" value) reason

def FieldGiven (value : Transcript) (entry : FieldEntry) : Prop :=
  ItemGiven .field value entry.name entry.isDeprecated entry.reason

def ValueGiven (value : Transcript) (entry : ValueEntry) : Prop :=
  ItemGiven .enumValue value entry.name entry.isDeprecated entry.reason

structure TypeGiven (value : Transcript) (entry : TypeEntry) : Prop where
  kind : slotValue? .type "kind" value = some (.string entry.kind)
  name : TextGiven (slotValue? .type "name" value) entry.name
  fields : List.Forall₂ FieldGiven (slotItems .type "fields" value) (entry.fields.getD [])
  values : List.Forall₂ ValueGiven (slotItems .type "enumValues" value) (entry.enumValues.getD [])

theorem ReadAs.slots (h : ReadAs false (.record record) value d) :
    SlotsReadAs (slotValue? record · value) record.slots d := by
  rcases h.slots_or_null with ⟨-, hslots⟩ | ⟨rfl, -⟩
  · exact hslots
  · obtain ⟨source, levels, hread⟩ := h
    simp [read] at hread

theorem fieldGiven_ofDatum (h : ReadAs false (.record .field) value d) :
    FieldGiven value (FieldEntry.ofDatum d) := by
  obtain _ | ⟨hname, _ | ⟨-, _ | ⟨-, _ | ⟨-, _ | ⟨hflag, _ | ⟨hreason, ⟨⟩⟩⟩⟩⟩⟩⟩ := h.slots
  exact ⟨hname.text, hflag.flag, hreason.text?⟩

theorem valueGiven_ofDatum (h : ReadAs false (.record .enumValue) value d) :
    ValueGiven value (ValueEntry.ofDatum d) := by
  obtain _ | ⟨hname, _ | ⟨-, _ | ⟨hflag, _ | ⟨hreason, ⟨⟩⟩⟩⟩⟩ := h.slots
  exact ⟨hname.text, hflag.flag, hreason.text?⟩

theorem typeGiven_ofDatum (h : ReadAs false (.record .type) value d) :
    TypeGiven value (TypeEntry.ofDatum d) := by
  obtain _ | ⟨hkind, _ | ⟨hname, _ | ⟨-, _ | ⟨hfields, _ | ⟨-, _ | ⟨-, _ | ⟨hvalues,
    _ | ⟨-, ⟨⟩⟩⟩⟩⟩⟩⟩⟩⟩ := h.slots
  refine ⟨hkind.text, hname.text?, ?_, ?_⟩
  · rw [TypeEntry.ofDatum, getD_listOf?]
    refine (hfields.list FieldEntry.ofDatum rfl (Or.inl rfl)).imp ?_
    rintro _ _ ⟨d, hd, rfl⟩
    exact fieldGiven_ofDatum hd
  · rw [TypeEntry.ofDatum, getD_listOf?]
    refine (hvalues.list ValueEntry.ofDatum rfl (Or.inl rfl)).imp ?_
    rintro _ _ ⟨d, hd, rfl⟩
    exact valueGiven_ofDatum hd

/-! ## Results -/

/-- A value that is there and not null. -/
def present? : Option Transcript → Option Transcript
  | some .null => none
  | given => given

/-- The schema of a response: the one inside its data, or else the one beside it. -/
def schemaRecord? (response : Transcript) : Option Transcript :=
  ((present? (slotValue? .response "data" response)).bind fun data =>
    present? (slotValue? .data "__schema" data)).or
    (present? (slotValue? .response "__schema" response))

/-- The records of the types of a schema. -/
def typeRecordsOf (schema : Transcript) : List Transcript :=
  slotItems .schema "types" schema

def TypesGiven (schema : Transcript) (entry : SchemaEntry) : Prop :=
  List.Forall₂ TypeGiven (typeRecordsOf schema) entry.types

/-- Null stands for a record that is not there, and every other value is read slot by slot. -/
theorem SlotReadAs.entry? {α : Type} {r : Record} {R : Transcript → α → Prop} (entry : Datum → α)
    (hR : ∀ value d, SlotsReadAs (slotValue? r · value) r.slots d → R value (entry d))
    (h : SlotReadAs (.optional key (.record r)) given d) :
    Option.Rel R (present? given) (d.entryOf? entry) := by
  cases given with
  | none =>
    cases h
    exact .none
  | some value =>
    rcases ReadAs.slots_or_null h with ⟨hvalue, hslots⟩ | ⟨rfl, rfl⟩
    · have hpresent : present? (some value) = some value := by
        cases value with
        | null => exact absurd rfl hvalue
        | _ => rfl
      have hentry : d.entryOf? entry = some (entry d) := by
        generalize r.slots = slots at hslots
        cases hslots <;> rfl
      rw [hpresent, hentry]
      exact .some (hR value d hslots)
    · exact .none

theorem typesGiven_ofDatum (h : SlotsReadAs (slotValue? .schema · value) Record.schema.slots d) :
    TypesGiven value (SchemaEntry.ofDatum d) := by
  obtain _ | ⟨-, _ | ⟨-, _ | ⟨-, _ | ⟨htypes, ⟨⟩⟩⟩⟩⟩ := h
  refine (htypes.list TypeEntry.ofDatum rfl (Or.inr rfl)).imp ?_
  rintro _ _ ⟨d, hd, rfl⟩
  exact typeGiven_ofDatum hd

theorem rel_ofData? (h : SlotReadAs (.optional key (.record .data)) given d) :
    Option.Rel TypesGiven
      ((present? given).bind fun data => present? (slotValue? .data "__schema" data))
      (SchemaEntry.ofData? d) := by
  have hdata : SchemaEntry.ofData? d = (d.entryOf? SchemaEntry.ofData?).bind id := by
    cases d <;> rfl
  have hschema : ∀ data d, SlotsReadAs (slotValue? .data · data) Record.data.slots d →
      Option.Rel TypesGiven (present? (slotValue? .data "__schema" data))
        (SchemaEntry.ofData? d) := by
    rintro data _ (_ | ⟨hschema, ⟨⟩⟩)
    exact hschema.entry? SchemaEntry.ofDatum fun _ _ => typesGiven_ofDatum
  have hinner := h.entry? SchemaEntry.ofData? hschema
  rw [hdata]
  generalize present? given = data? at hinner
  generalize d.entryOf? SchemaEntry.ofData? = entry? at hinner
  cases hinner with
  | none => exact .none
  | some hentry => exact hentry

theorem rel_ofResponse? (h : SlotsReadAs (slotValue? .response · value) Record.response.slots d) :
    Option.Rel TypesGiven (schemaRecord? value) (SchemaEntry.ofResponse? d) := by
  obtain _ | ⟨hdata, _ | ⟨hschema, ⟨⟩⟩⟩ := h
  have hinner := rel_ofData? hdata
  have houter := hschema.entry? SchemaEntry.ofDatum fun _ _ => typesGiven_ofDatum
  rw [schemaRecord?, SchemaEntry.ofResponse?]
  dsimp only [Slot.optional] at hinner
  generalize (present? (slotValue? .response "data" value)).bind _ = inner? at hinner ⊢
  generalize SchemaEntry.ofData? _ = entry? at hinner ⊢
  cases hinner with
  | none => exact houter
  | some htypes => exact .some htypes

end Entries

namespace Input

/-- What an introspection result holds, as its reader meets it. -/
def transcript : Input → Transcript
  | text content => (Json.transcribe content).value
  | value content => .ofJson content

/-- The records of the types in a result. -/
def typeRecords (input : Input) : List Transcript :=
  ((schemaRecord? input.transcript).map typeRecordsOf).getD []

theorem readAs_transcript {input : Input} {d : Datum} (h : input.read = .ok d) :
    ReadAs false (.record .response) input.transcript d := by
  cases input with
  | text content =>
    have hread : readText content = .ok d := h
    obtain ⟨datum, hdatum, hcomplete⟩ := bind_eq_ok hread
    split at hcomplete
    · cases hcomplete
      exact ⟨_, _, hdatum⟩
    · cases hcomplete
  | value content => exact ⟨_, _, h⟩

/-- Each entry for a type tells what its record says, and no record is passed over. -/
theorem typeGiven_of_entries? {input : Input} {entry : SchemaEntry}
    (h : input.entries? = some entry) :
    List.Forall₂ TypeGiven input.typeRecords entry.types := by
  obtain ⟨datum, hdatum, hentry⟩ := Option.bind_eq_some_iff.mp h
  have hread := readAs_transcript (eq_ok_of_toOption_eq_some hdatum)
  have hrel := rel_ofResponse? hread.slots
  rw [hentry] at hrel
  rw [typeRecords]
  generalize schemaRecord? input.transcript = schema? at hrel
  cases hrel with
  | some htypes => exact htypes

end Input

end Introspection

end SchemaBinding
