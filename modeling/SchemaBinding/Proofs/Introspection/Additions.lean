import Mathlib.Logic.Relation
import SchemaBinding.Proofs.Introspection.Trimmed

/-!
# Additions that loading ignores

A newer server says more of a schema than is asked for.  Members that no record
asks for and entries that make no definition may stand anywhere and in any
number, and loading comes to the same result without them: the same schema, or
the same failure.  One addition leaves the trimmed reading of a value as it is,
so any number of them do.
-/

namespace SchemaBinding.Introspection

open Json (Transcript)

variable {shape : Shape} {value other : Json}

/-- An entry of the right shape that makes no definition: it has no name, or none of the six
kinds. -/
def IsPassedOver (entry : Json) : Prop :=
  ∃ datum, read .value none false (.record .type) (Transcript.ofJson entry) = .ok datum ∧
    ((TypeEntry.ofDatum datum).name = none ∨
      ∀ kind : TypeKind, (TypeEntry.ofDatum datum).kind ≠ kind.tag)

/-- The values with one addition to a value that is read by a shape. -/
inductive Addition : Shape → Json → Json → Prop where
  /-- A member comes to an object, under a key that its record does not ask for. -/
  | member {record : Record} {key : String} (front back : List (String × Json)) (extra : Json)
    (hkey : record.slot? key = none) :
    Addition (.record record) (.object (front ++ back)) (.object (front ++ (key, extra) :: back))
  /-- An entry comes to a list of types. -/
  | entry {entry : Json} (front back : List Json) (hentry : IsPassedOver entry) :
    Addition (.list (.record .type)) (.array (front ++ back)) (.array (front ++ entry :: back))

/-- The values with a change in one place, which is read by the shape of the change. -/
inductive Within (change : Shape → Json → Json → Prop) : Shape → Json → Json → Prop where
  | here {shape : Shape} {value other : Json} (h : change shape value other) :
    Within change shape value other
  | item {item : Shape} {value other : Json} (front back : List Json)
    (h : Within change item value other) :
    Within change (.list item) (.array (front ++ value :: back)) (.array (front ++ other :: back))
  /-- A change in an array that stands for a record. -/
  | slot {record : Record} {slot : Slot} {value other : Json} (front back : List Json)
    (hslot : record.slots[front.length]? = some slot)
    (h : Within change slot.shape value other) :
    Within change (.record record) (.array (front ++ value :: back))
      (.array (front ++ other :: back))
  | member {record : Record} {key : String} {slot : Slot} {value other : Json}
    (front back : List (String × Json)) (hslot : record.slot? key = some slot)
    (h : Within change slot.shape value other) :
    Within change (.record record) (.object (front ++ (key, value) :: back))
      (.object (front ++ (key, other) :: back))

theorem trimmedRead_addition (h : Addition shape value other) (nullable : Bool) :
    trimmedRead nullable shape other = trimmedRead nullable shape value := by
  cases h with
  | member front back extra hkey => exact trimmedRead_object_skip hkey extra nullable front back
  | entry front back hentry =>
    obtain ⟨datum, hread, hunused⟩ := hentry
    rw [trimmedRead_array_list, trimmedRead_array_list]
    exact readItems_skip hread (isConvertible_eq_false_iff.mpr hunused) front back

/-- An addition anywhere inside a value leaves its trimmed reading as it is. -/
theorem trimmedRead_within (h : Within Addition shape value other) (nullable : Bool) :
    trimmedRead nullable shape other = trimmedRead nullable shape value := by
  induction h generalizing nullable with
  | here h => exact trimmedRead_addition h nullable
  | item front back _ ih =>
    rw [trimmedRead_array_list, trimmedRead_array_list]
    exact readItems_congr (ih false) front back
  | slot front back hslot _ ih =>
    rw [trimmedRead_array_record, trimmedRead_array_record]
    exact readSlots_congr (ih _) _ 0 hslot back
  | member front back hslot _ ih => exact trimmedRead_object_congr hslot (ih _) nullable front back

theorem loadValue_within (h : Within Addition (.record .response) value other) :
    loadValue other = loadValue value := by
  rw [loadValue_eq_trimmedRead, loadValue_eq_trimmedRead, trimmedRead_within h]

/-- Any number of additions anywhere in an introspection result change nothing in what
loading comes to, whether that is a schema or a failure with its words. -/
theorem loadValue_additions
    (h : Relation.ReflTransGen (Within Addition (.record .response)) value other) :
    loadValue other = loadValue value := by
  induction h with
  | refl => rfl
  | tail _ hstep ih => exact (loadValue_within hstep).trans ih

/-! ## A result of a newer server -/

/-- An entry of a kind that is not known, under a name that is taken and with a field of no type. -/
def mysteryEntry : Json :=
  .object [("kind", .string "MYSTERY"), ("name", .string "Query"),
    ("fields", .array [.object [("name", .string "id"), ("type", .object [("kind", .string "LIST")])]])]

def namelessEntry : Json :=
  .object [("name", .null), ("kind", .string "OBJECT")]

/-- One type, with entries in front of it and with members in front of those of its field. -/
def servedTypes (members : List (String × Json)) (entries : List Json) : Json :=
  .array (entries ++ [.object [("kind", .string "OBJECT"), ("name", .string "Query"),
    ("fields", .array [.object (members ++ [("name", .string "id"),
      ("type", .object [("kind", .string "SCALAR"), ("name", .string "ID")])])])]])

def servedResult (members : List (String × Json)) (entries : List Json) : Json :=
  .object [("__schema", .object [("queryType", .object [("name", .string "Query")]),
    ("types", servedTypes members entries)])]

theorem isPassedOver_mysteryEntry : IsPassedOver mysteryEntry := by
  have hread := toOption_read_ofJson false (.record .type) mysteryEntry
  exact ⟨_, eq_ok_of_toOption_eq_some hread, Or.inr fun kind => by cases kind <;> decide⟩

theorem isPassedOver_namelessEntry : IsPassedOver namelessEntry := by
  have hread := toOption_read_ofJson false (.record .type) namelessEntry
  exact ⟨_, eq_ok_of_toOption_eq_some hread, Or.inl rfl⟩

/-- The place of the types in a served result. -/
theorem within_servedResult {members others : List (String × Json)} {entries more : List Json}
    (h : Within Addition (.list (.record .type)) (servedTypes members entries)
      (servedTypes others more)) :
    Within Addition (.record .response) (servedResult members entries)
      (servedResult others more) := by
  have hschema : Record.response.slot? "__schema" = some (.optional "__schema" (.record .schema)) :=
    rfl
  have htypes : Record.schema.slot? "types" =
      some (.defaulted "types" (.list (.record .type)) .nil) := rfl
  exact .member [] [] hschema (.member [("queryType", .object [("name", .string "Query")])] [] htypes h)

theorem loadValue_additions_served :
    Relation.ReflTransGen (Within Addition (.record .response)) (servedResult [] [])
        (servedResult [("cost", .number (.natural 5))] [mysteryEntry, namelessEntry]) ∧
      loadValue (servedResult [("cost", .number (.natural 5))] [mysteryEntry, namelessEntry]) =
        loadValue (servedResult [] []) := by
  have hfields : Record.type.slot? "fields" =
      some (.optional "fields" (.list (.record .field))) := rfl
  have hcost : Within Addition (.record .response) (servedResult [] [])
      (servedResult [("cost", .number (.natural 5))] []) :=
    within_servedResult (.item [] [] (.member [("kind", .string "OBJECT"), ("name", .string "Query")]
      [] hfields (.item [] [] (.here (.member [] _ (.number (.natural 5)) rfl)))))
  have hnameless : Within Addition (.record .response)
      (servedResult [("cost", .number (.natural 5))] [])
      (servedResult [("cost", .number (.natural 5))] [namelessEntry]) :=
    within_servedResult (.here (.entry [] _ isPassedOver_namelessEntry))
  have hmystery : Within Addition (.record .response)
      (servedResult [("cost", .number (.natural 5))] [namelessEntry])
      (servedResult [("cost", .number (.natural 5))] [mysteryEntry, namelessEntry]) :=
    within_servedResult (.here (.entry [] _ isPassedOver_mysteryEntry))
  have hall := ((Relation.ReflTransGen.single hcost).tail hnameless).tail hmystery
  exact ⟨hall, loadValue_additions hall⟩

end SchemaBinding.Introspection
