import Mathlib.Tactic
import SchemaBinding.Proofs.Introspection.Loaded
import SchemaBinding.Proofs.Introspection.Means
import SchemaBinding.Proofs.Introspection.Readers

/-!
# Presentations of one introspection result

An introspection result may come as a text or as a value, with the members of
its objects in any order, inside the data of a response or bare.  All of these
load the same schema or fail for the same reason.  Only what cannot be read at
all may be refused with different words, since a reader reports the fault that
it meets first.
-/

namespace SchemaBinding

/-- The values that come from a value by reordering members of its objects. -/
inductive Json.Reordered : Json → Json → Prop where
  | members {members others : List (String × Json)} (h : members.Perm others) :
    Reordered (.object members) (.object others)
  | item {front back : List Json} {value other : Json} (h : Reordered value other) :
    Reordered (.array (front ++ value :: back)) (.array (front ++ other :: back))
  | member {front back : List (String × Json)} {key : String} {value other : Json}
    (h : Reordered value other) :
    Reordered (.object (front ++ (key, value) :: back)) (.object (front ++ (key, other) :: back))
  | trans {value middle other : Json} (first : Reordered value middle)
    (second : Reordered middle other) : Reordered value other

namespace Introspection

open Json (Transcript Reordered)

/-! ## Results that agree -/

/-- Neither of two inputs can be read, or both have the same result. -/
inductive Agree : Except LoadError Schema → Except LoadError Schema → Prop where
  | unreadable (fault other : Fault) :
    Agree (.error (.unreadable fault)) (.error (.unreadable other))
  | same (result : Except LoadError Schema) : Agree result result

theorem agree_of_toOption_eq
    {x y : Except Fault Datum} (h : x.toOption = y.toOption) : Agree (loadRead x) (loadRead y) := by
  cases x with
  | error fault =>
    cases y with
    | error other => exact .unreadable fault other
    | ok datum => cases h
  | ok datum =>
    cases y with
    | error other => cases h
    | ok other =>
      cases h
      exact .same _

/-! ## Reordered members -/

/-- Where no record of the first value repeats a key, none of the second does,
and the two values mean the same. -/
def SameMeaning (value other : Json) : Prop :=
  ∀ shape, isUnrepeated shape value = true →
    isUnrepeated shape other = true ∧
      ∀ nullable, meaning? nullable shape other = meaning? nullable shape value

theorem sameMeaning_of_perm
    {members others : List (String × Json)} (h : members.Perm others) :
    SameMeaning (.object members) (.object others) := by
  intro shape hvalue
  cases shape with
  | text => exact ⟨rfl, fun _ => rfl⟩
  | flag => exact ⟨rfl, fun _ => rfl⟩
  | list item => exact ⟨rfl, fun _ => rfl⟩
  | record record =>
    obtain ⟨hkeys, hvalues⟩ := isUnrepeated_object_iff.mp hvalue
    have hperm : (memberMeanings record members).Perm (memberMeanings record others) :=
      memberMeanings_perm record h
    have hknown : (knownKeys record members).Perm (knownKeys record others) :=
      (h.map Prod.fst).filter _
    have hothers : (knownKeys record others).Nodup := hknown.nodup_iff.mp hkeys
    constructor
    · rw [isUnrepeated_object_iff]
      exact ⟨hothers, fun member hmember => hvalues member (h.mem_iff.mpr hmember)⟩
    · intro nullable
      rw [← map_fst_memberMeanings] at hkeys hothers
      rw [meaning?, meaning?]
      apply recordMeaning?_congr
      intro slot _
      rw [lookup_reverse_of_nodup hkeys, lookup_reverse_of_nodup hothers]
      exact (lookup_eq_of_perm hperm hkeys slot.key).symm

section Inside

variable {value other : Json} (h : SameMeaning value other)

include h

theorem itemsMeaning?_of_sameMeaning
    {shape : Shape} (front back : List Json)
    (hitems : itemsUnrepeated shape (front ++ value :: back) = true) :
    itemsUnrepeated shape (front ++ other :: back) = true ∧
      itemsMeaning? shape (front ++ other :: back) =
        itemsMeaning? shape (front ++ value :: back) := by
  induction front with
  | nil =>
    rw [List.nil_append, itemsUnrepeated, Bool.and_eq_true] at hitems
    obtain ⟨hother, hmeaning⟩ := h shape hitems.1
    rw [List.nil_append, List.nil_append, itemsUnrepeated, itemsMeaning?, itemsMeaning?, hother,
      hmeaning]
    exact ⟨hitems.2, rfl⟩
  | cons item front ih =>
    rw [List.cons_append, itemsUnrepeated, Bool.and_eq_true] at hitems
    obtain ⟨hother, hmeaning⟩ := ih hitems.2
    rw [List.cons_append, List.cons_append, itemsUnrepeated, itemsMeaning?, itemsMeaning?,
      hitems.1, hmeaning]
    exact ⟨hother, rfl⟩

theorem slotsMeaning?_of_sameMeaning
    {slots : List Slot} (front back : List Json)
    (hitems : slotsUnrepeated slots (front ++ value :: back) = true) :
    slotsUnrepeated slots (front ++ other :: back) = true ∧
      slotsMeaning? slots (front ++ other :: back) =
        slotsMeaning? slots (front ++ value :: back) := by
  induction front generalizing slots with
  | nil =>
    rw [List.nil_append] at hitems
    rw [List.nil_append, List.nil_append]
    cases slots with
    | nil => exact ⟨rfl, rfl⟩
    | cons slot slots =>
      rw [slotsUnrepeated, Bool.and_eq_true] at hitems
      obtain ⟨hother, hmeaning⟩ := h slot.shape hitems.1
      rw [slotsUnrepeated, slotsMeaning?, slotsMeaning?, hother, hmeaning]
      exact ⟨hitems.2, rfl⟩
  | cons item front ih =>
    rw [List.cons_append] at hitems
    rw [List.cons_append, List.cons_append]
    cases slots with
    | nil => exact ⟨rfl, rfl⟩
    | cons slot slots =>
      rw [slotsUnrepeated, Bool.and_eq_true] at hitems
      obtain ⟨hother, hmeaning⟩ := ih hitems.2
      rw [slotsUnrepeated, slotsMeaning?, slotsMeaning?, hitems.1, hmeaning]
      exact ⟨hother, rfl⟩

theorem sameMeaning_item (front back : List Json) :
    SameMeaning (.array (front ++ value :: back)) (.array (front ++ other :: back)) := by
  intro shape hvalue
  cases shape with
  | text => exact ⟨rfl, fun _ => rfl⟩
  | flag => exact ⟨rfl, fun _ => rfl⟩
  | list item =>
    obtain ⟨hother, hmeaning⟩ := itemsMeaning?_of_sameMeaning h front back hvalue
    exact ⟨hother, fun _ => hmeaning⟩
  | record record =>
    obtain ⟨hother, hmeaning⟩ := slotsMeaning?_of_sameMeaning h front back hvalue
    exact ⟨hother, fun _ => hmeaning⟩

theorem sameMeaning_member (front back : List (String × Json)) (key : String) :
    SameMeaning (.object (front ++ (key, value) :: back))
      (.object (front ++ (key, other) :: back)) := by
  intro shape hvalue
  cases shape with
  | text => exact ⟨rfl, fun _ => rfl⟩
  | flag => exact ⟨rfl, fun _ => rfl⟩
  | list item => exact ⟨rfl, fun _ => rfl⟩
  | record record =>
    obtain ⟨hkeys, hvalues⟩ := isUnrepeated_object_iff.mp hvalue
    have hsame : ∀ slot, record.slot? key = some slot →
        isUnrepeated slot.shape other = true ∧
          ∀ nullable, meaning? nullable slot.shape other = meaning? nullable slot.shape value :=
      fun slot hslot => h slot.shape (hvalues (key, value) (by simp) slot hslot)
    constructor
    · rw [isUnrepeated_object_iff]
      refine ⟨by simpa [knownKeys] using hkeys, fun member hmember slot hslot => ?_⟩
      rcases List.mem_append.mp hmember with hfront | hrest
      · exact hvalues member (by simp [hfront]) slot hslot
      · rcases List.mem_cons.mp hrest with rfl | hback
        · exact (hsame slot hslot).1
        · exact hvalues member (by simp [hback]) slot hslot
    · intro nullable
      have hmeanings : memberMeanings record (front ++ (key, other) :: back) =
          memberMeanings record (front ++ (key, value) :: back) := by
        rw [memberMeanings_append, memberMeanings_append, memberMeanings, memberMeanings]
        cases hslot : record.slot? key with
        | none => rfl
        | some slot =>
          dsimp only
          rw [(hsame slot hslot).2]
      rw [meaning?, meaning?, hmeanings]

end Inside

theorem sameMeaning_of_reordered {value other : Json} (h : Reordered value other) :
    SameMeaning value other := by
  induction h with
  | members hperm => exact sameMeaning_of_perm hperm
  | item _ ih => exact sameMeaning_item ih _ _
  | member _ ih => exact sameMeaning_member ih _ _ _
  | trans _ _ ihfirst ihsecond =>
    intro shape hvalue
    obtain ⟨hmiddle, hfirst⟩ := ihfirst shape hvalue
    obtain ⟨hother, hsecond⟩ := ihsecond shape hmiddle
    exact ⟨hother, fun nullable => (hsecond nullable).trans (hfirst nullable)⟩

/-! ## Envelopes -/

/-- A result without the data of a response around it. -/
def bare (schema : Json) : Json :=
  .object [("__schema", schema)]

/-- A response with data, and with a schema beside them. -/
def envelope (data outer : Json) : Json :=
  .object [("data", data), ("__schema", outer)]

def readSchema (schema : Json) : Except Fault Datum :=
  read .value none true (.record .schema) (Transcript.ofJson schema)

def readData (data : Json) : Except Fault Datum :=
  read .value none true (.record .data) (Transcript.ofJson data)

theorem readValue_bare (schema : Json) :
    readValue (bare schema) =
      (readSchema schema).map fun datum => .cons .absent (.cons datum .nil) := by
  have hmembers : readValue (bare schema) = (do
      let found ← (do return [("__schema", ← readSchema schema)])
      settleAll found Record.response.slots) := rfl
  rw [hmembers]
  cases readSchema schema <;> rfl

theorem readData_bare (schema : Json) :
    readData (bare schema) = (readSchema schema).map fun datum => .cons datum .nil := by
  have hmembers : readData (bare schema) = (do
      let found ← (do return [("__schema", ← readSchema schema)])
      settleAll found Record.data.slots) := rfl
  rw [hmembers]
  cases readSchema schema <;> rfl

theorem readValue_response (data : Json) :
    readValue (.object [("data", data)]) =
      (readData data).map fun datum => .cons datum (.cons .absent .nil) := by
  have hmembers : readValue (.object [("data", data)]) = (do
      let found ← (do return [("data", ← readData data)])
      settleAll found Record.response.slots) := rfl
  rw [hmembers]
  cases readData data <;> rfl

/-- The outer schema is read first, since its key is the smaller one. -/
theorem readValue_envelope (data outer : Json) :
    readValue (envelope data outer) = (do
      let schema ← readSchema outer
      let datum ← readData data
      return .cons datum (.cons schema .nil)) := by
  have hsort : Transcript.ofJson (envelope data outer) =
      .object (.cons (some "__schema") (Transcript.ofJson outer)
        (.cons (some "data") (Transcript.ofJson data) .closed)) := by
    have hless : "__schema" < "data" := by decide
    rw [envelope, Transcript.ofJson, Transcript.ofJsonMembers, Transcript.ofJsonMembers,
      Transcript.ofJsonMembers, KeyOrder.sort, List.foldl_cons, List.foldl_cons, List.foldl_nil,
      KeyOrder.insert, KeyOrder.insert, if_pos hless]
    rfl
  have hmembers : readValue (envelope data outer) = (do
      let found ← (do
        let schema ← readSchema outer
        let datum ← readData data
        return [("data", datum), ("__schema", schema)])
      settleAll found Record.response.slots) := by
    rw [readValue, hsort]
    rfl
  rw [hmembers]
  cases readSchema outer with
  | error fault => rfl
  | ok schema => cases readData data <;> rfl

/-! ## Which schema counts -/

/-- A value that is there does not mean that nothing is there. -/
theorem meaning?_ne_absent
    {nullable : Bool} {shape : Shape} {value : Json} (h : value ≠ .null) :
    meaning? nullable shape value ≠ some .absent := by
  cases value with
  | null => exact absurd rfl h
  | boolean b => simp [meaning?]
  | number n => simp [meaning?]
  | string s => simp [meaning?]
  | array items =>
    cases shape with
    | text => simp [meaning?]
    | flag => simp [meaning?]
    | list item => cases items <;> simp [meaning?, itemsMeaning?, chain?_ne_absent]
    | record record =>
      rw [meaning?]
      cases record.slots with
      | nil => cases items <;> simp [slotsMeaning?, restMeaning?]
      | cons slot slots =>
        cases items with
        | cons item items => exact chain?_ne_absent _ _
        | nil =>
          rw [slotsMeaning?, restMeaning?]
          cases slot.presence with
          | required => simp
          | optional => simp
          | defaulted value => exact chain?_ne_absent _ _
  | object members =>
    cases shape with
    | text => simp [meaning?]
    | flag => simp [meaning?]
    | list item => simp [meaning?]
    | record record =>
      rw [meaning?]
      cases record.slots with
      | nil => simp [recordMeaning?]
      | cons slot slots => exact chain?_ne_absent _ _

theorem meaning?_of_readData
    {data : Json} {datum : Datum} (h : readData data = .ok datum) :
    meaning? true (.record .data) data = some datum := by
  rw [← toOption_read_ofJson, ← readData, h]
  rfl

/-- The meaning of data is that of the schema in them. -/
theorem meaning?_data (members : List (String × Json)) :
    meaning? true (.record .data) (.object members) =
      chain?
        (slotMeaning? (.optional "__schema" (.record .schema))
          ((members.reverse.lookup "__schema").map (meaning? true (.record .schema))))
        (some .nil) := by
  have hslot : Record.data.slot? "__schema" = some (.optional "__schema" (.record .schema)) := rfl
  have hlookup := lookup_memberMeanings hslot members
  rw [meaning?, Record.slots, recordMeaning?, recordMeaning?]
  exact congrArg (fun found => chain? (slotMeaning? _ found) (some .nil)) hlookup

/-- Data that hold no schema: they are null, or their schema is null or absent. -/
inductive WithoutSchema : Json → Prop where
  | null : WithoutSchema .null
  | object (members : List (String × Json))
    (h : ∀ schema, Json.member? "__schema" (.object members) = some schema → schema = .null) :
    WithoutSchema (.object members)

theorem exists_readData_of_withoutSchema
    {data : Json} (h : WithoutSchema data) :
    ∃ datum, readData data = .ok datum ∧ SchemaEntry.ofData? datum = none := by
  cases h with
  | null => exact ⟨.absent, rfl, rfl⟩
  | object members hschema =>
    have hmeaning : (readData (.object members)).toOption = some (.cons .absent .nil) := by
      rw [readData, toOption_read_ofJson, meaning?_data]
      cases hfound : members.reverse.lookup "__schema" with
      | none => rfl
      | some schema =>
        obtain rfl : schema = .null := hschema schema hfound
        rfl
    exact ⟨_, eq_ok_of_toOption_eq_some hmeaning, rfl⟩

theorem exists_ofData?_eq_some
    {data schema : Json} {datum : Datum} (hschema : Json.member? "__schema" data = some schema)
    (hne : schema ≠ .null) (hread : readData data = .ok datum) :
    ∃ entry, SchemaEntry.ofData? datum = some entry := by
  cases data with
  | object members =>
    have hmeaning := meaning?_of_readData hread
    have hfound : members.reverse.lookup "__schema" = some schema := hschema
    rw [meaning?_data, hfound, Option.map_some, slotMeaning?] at hmeaning
    cases hinner : meaning? true (.record .schema) schema with
    | none =>
      rw [hinner] at hmeaning
      cases hmeaning
    | some inner =>
      rw [hinner] at hmeaning
      cases hmeaning
      have hthere : inner ≠ .absent := fun heq => meaning?_ne_absent hne (heq ▸ hinner)
      rw [SchemaEntry.ofData?, Datum.entryOf?_of_ne_absent _ hthere]
      exact ⟨_, rfl⟩
  | null => cases hschema
  | boolean b => cases hschema
  | number n => cases hschema
  | string s => cases hschema
  | array items => cases hschema

theorem loadValue_response_bare (schema : Json) :
    loadValue (.object [("data", bare schema)]) = loadValue (bare schema) := by
  rw [loadValue_eq, loadValue_eq, readValue_response, readData_bare, readValue_bare]
  cases readSchema schema with
  | error fault => rfl
  | ok datum =>
    change schemaOfResponse (.cons (.cons datum .nil) (.cons .absent .nil)) =
      schemaOfResponse (.cons .absent (.cons datum .nil))
    rw [schemaOfResponse, schemaOfResponse]
    cases datum <;> rfl

theorem loadValue_envelope_of_schema
    {data schema : Json} (outer : Json) (hschema : Json.member? "__schema" data = some schema)
    (hne : schema ≠ .null)
    (hshaped : ∀ fault, loadValue (bare outer) ≠ .error (.unreadable fault)) :
    loadValue (envelope data outer) = loadValue (.object [("data", data)]) := by
  rw [loadValue_eq, readValue_bare] at hshaped
  rw [loadValue_eq, loadValue_eq, readValue_envelope, readValue_response]
  cases houter : readSchema outer with
  | error fault =>
    rw [houter] at hshaped
    exact absurd rfl (hshaped fault)
  | ok outerDatum =>
    cases hdata : readData data with
    | error fault => rfl
    | ok datum =>
      obtain ⟨entry, hentry⟩ := exists_ofData?_eq_some hschema hne hdata
      change schemaOfResponse (.cons datum (.cons outerDatum .nil)) =
        schemaOfResponse (.cons datum (.cons .absent .nil))
      rw [schemaOfResponse, schemaOfResponse, SchemaEntry.ofResponse?, SchemaEntry.ofResponse?,
        hentry, Option.some_or, Option.some_or]

theorem loadValue_envelope_of_withoutSchema
    {data : Json} (outer : Json) (h : WithoutSchema data) :
    loadValue (envelope data outer) = loadValue (bare outer) := by
  obtain ⟨datum, hdata, hnone⟩ := exists_readData_of_withoutSchema h
  rw [loadValue_eq, loadValue_eq, readValue_envelope, readValue_bare, hdata]
  cases readSchema outer with
  | error fault => rfl
  | ok outerDatum =>
    change schemaOfResponse (.cons datum (.cons outerDatum .nil)) =
      schemaOfResponse (.cons .absent (.cons outerDatum .nil))
    rw [schemaOfResponse, schemaOfResponse, SchemaEntry.ofResponse?, SchemaEntry.ofResponse?,
      hnone]
    rfl

theorem loadText_agree_loadValue
    {text : String} {value : Json} (hparse : Json.parse? (some Json.nestingLimit) text = some value)
    (hunrepeated : isUnrepeated (.record .response) value = true) :
    Agree (loadText text) (loadValue value) := by
  rw [loadText_eq, loadValue_eq]
  apply agree_of_toOption_eq
  rw [toOption_readText hparse hunrepeated, toOption_readValue]

theorem loadText_agree_of_reordered
    {text other : String} {value reordered : Json}
    (hparse : Json.parse? (some Json.nestingLimit) text = some value)
    (hother : Json.parse? (some Json.nestingLimit) other = some reordered)
    (hunrepeated : isUnrepeated (.record .response) value = true)
    (horder : Reordered value reordered) : Agree (loadText text) (loadText other) := by
  obtain ⟨hsame, hmeaning⟩ := sameMeaning_of_reordered horder _ hunrepeated
  rw [loadText_eq, loadText_eq]
  apply agree_of_toOption_eq
  rw [toOption_readText hparse hunrepeated, toOption_readText hother hsame, hmeaning]

/-- All presentations of one introspection result agree.  A text agrees with its
value and with every text of a reordered value, as long as no record repeats one
of its keys; a response agrees with the bare result; and a schema beside the
data counts only where the data hold none. -/
theorem presentations_agree :
    (∀ text value, Json.parse? (some Json.nestingLimit) text = some value →
      isUnrepeated (.record .response) value = true → Agree (loadText text) (loadValue value)) ∧
    (∀ text other value reordered, Json.parse? (some Json.nestingLimit) text = some value →
      Json.parse? (some Json.nestingLimit) other = some reordered →
      isUnrepeated (.record .response) value = true → Reordered value reordered →
      Agree (loadText text) (loadText other)) ∧
    (∀ schema, loadValue (.object [("data", bare schema)]) = loadValue (bare schema)) ∧
    (∀ data schema outer, Json.member? "__schema" data = some schema → schema ≠ .null →
      (∀ fault, loadValue (bare outer) ≠ .error (.unreadable fault)) →
      loadValue (envelope data outer) = loadValue (.object [("data", data)])) ∧
    (∀ data outer, WithoutSchema data → loadValue (envelope data outer) = loadValue (bare outer)) :=
  ⟨fun _ _ => loadText_agree_loadValue,
    fun _ _ _ _ => loadText_agree_of_reordered,
    loadValue_response_bare,
    fun _ _ outer => loadValue_envelope_of_schema outer,
    fun _ outer => loadValue_envelope_of_withoutSchema outer⟩

/-- A result whose root is an array and whose type repeats a key that no record asks for. -/
def listedText : String :=
  "\x7b\"note\":0,\"__schema\":\x7b\"types\":[\x7b\"name\":\"D\",\"note\":1,\"kind\":\"ENUM\"," ++
    "\"note\":[]\x7d],\"queryType\":[\"D\"]\x7d\x7d"

/-- The same result with the members of two objects the other way round. -/
def turnedText : String :=
  "\x7b\"__schema\":\x7b\"queryType\":[\"D\"],\"types\":[\x7b\"name\":\"D\",\"note\":1," ++
    "\"kind\":\"ENUM\",\"note\":[]\x7d]\x7d,\"note\":0\x7d"

def listedTypes : Json :=
  .array [.object [("name", .string "D"), ("note", .number (.natural 1)), ("kind", .string "ENUM"),
    ("note", .array [])]]

def listedSchema : Json :=
  .object [("types", listedTypes), ("queryType", .array [.string "D"])]

def turnedSchema : Json :=
  .object [("queryType", .array [.string "D"]), ("types", listedTypes)]

/-- A member of a result that no record asks for. -/
def noteMember : String × Json :=
  ("note", .number (.natural 0))

/-- The value of the listed text. -/
def listedResult : Json :=
  .object [noteMember, ("__schema", listedSchema)]

/-- The value of the turned text. -/
def turnedResult : Json :=
  .object [("__schema", turnedSchema), noteMember]

theorem parse?_listedText :
    Json.parse? (some Json.nestingLimit) listedText = some listedResult := by
  cbv

theorem parse?_turnedText :
    Json.parse? (some Json.nestingLimit) turnedText = some turnedResult := by
  cbv

theorem reordered_listedResult : Reordered listedResult turnedResult :=
  .trans
    (@Reordered.member [noteMember] [] "__schema" _ _ (.members (List.Perm.swap _ _ _)))
    (.members (List.Perm.swap _ _ _))

theorem isUnrepeated_listedResult : isUnrepeated (.record .response) listedResult = true := by
  decide

theorem presentations_agree_listed :
    (Json.parse? (some Json.nestingLimit) listedText = some listedResult ∧
      Json.parse? (some Json.nestingLimit) turnedText = some turnedResult ∧
      isUnrepeated (.record .response) listedResult = true ∧
      Reordered listedResult turnedResult ∧
      Agree (loadText listedText) (loadValue listedResult) ∧
      Agree (loadText listedText) (loadText turnedText)) ∧
    loadValue (.object [("data", bare listedSchema)]) = loadValue (bare listedSchema) ∧
    loadValue (envelope (bare listedSchema) (.object [])) =
      loadValue (.object [("data", bare listedSchema)]) ∧
    loadValue (envelope (bare .null) listedSchema) = loadValue (bare listedSchema) := by
  obtain ⟨htexts, horders, hbare, hinner, houter⟩ := presentations_agree
  have hlisted := parse?_listedText
  have hturned := parse?_turnedText
  have hunrepeated := isUnrepeated_listedResult
  have hempty : loadValue (bare (.object [])) = .ok ⟨.empty, none, none, none⟩ := rfl
  refine ⟨⟨hlisted, hturned, hunrepeated, reordered_listedResult,
    htexts _ _ hlisted hunrepeated,
    horders _ _ _ _ hlisted hturned hunrepeated reordered_listedResult⟩, hbare listedSchema,
    hinner _ listedSchema _ rfl (by simp [listedSchema]) ?_, houter _ _ (.object _ ?_)⟩
  · intro fault hfault
    rw [hempty] at hfault
    cases hfault
  · rintro schema ⟨rfl⟩
    rfl

end Introspection

end SchemaBinding
