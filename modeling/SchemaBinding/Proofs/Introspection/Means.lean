import Mathlib.Data.List.Forall2
import SchemaBinding.Introspection.Entry
import SchemaBinding.Proofs.Introspection.Meaning

/-!
# Meanings that are there

A value that is not null means the same datum whether null may stand in its
place or not.  An object with the slots of its record in order is read slot by
slot, and an array of values item by item.
-/

namespace SchemaBinding.Introspection

/-! ## What is there -/

theorem Datum.listOf?_of_ne_absent
    {α : Type} (entry : Datum → α) {d : Datum} (h : d ≠ .absent) :
    d.listOf? entry = some (d.listOf entry) := by
  cases d with
  | absent => exact absurd rfl h
  | text value => rfl
  | flag value => rfl
  | nil => rfl
  | cons head tail => rfl

theorem Datum.entryOf?_of_ne_absent
    {α : Type} (entry : Datum → α) {d : Datum} (h : d ≠ .absent) :
    d.entryOf? entry = some (entry d) := by
  cases d with
  | absent => exact absurd rfl h
  | text value => rfl
  | flag value => rfl
  | nil => rfl
  | cons head tail => rfl

/-! ## Reading objects -/

/-- A value means a datum, and one that is there, whether null may stand or not. -/
structure Means (shape : Shape) (value : Json) (d : Datum) : Prop where
  present : d ≠ .absent
  meaning : ∀ nullable, meaning? nullable shape value = some d

/-- A member that no slot asks for does not count. -/
theorem meaning?_object_skip
    (nullable : Bool) {record : Record} {key : String} (hkey : record.slot? key = none)
    (members : List (String × Json)) (value : Json) :
    meaning? nullable (.record record) (.object (members ++ [(key, value)])) =
      meaning? nullable (.record record) (.object members) := by
  have hlast : memberMeanings record [(key, value)] = [] := by
    rw [memberMeanings, hkey]
    rfl
  rw [meaning?, meaning?, memberMeanings_append, hlast, List.append_nil]

/-- The induction is on the slots that are left, while the whole record is searched for them. -/
theorem recordMeaning?_of_keys
    {record : Record} {members rest : List (String × Json)} {slots : List Slot}
    (hdistinct : (members.map Prod.fst).Nodup) (hslots : slots ⊆ record.slots)
    (hmembers : rest ⊆ members) (hkeys : rest.map Prod.fst = slots.map Slot.key) :
    recordMeaning? (fun key => (memberMeanings record members).reverse.lookup key) slots =
      slotsMeaning? slots (rest.map Prod.snd) := by
  induction slots generalizing rest with
  | nil =>
    obtain rfl : rest = [] := List.map_eq_nil_iff.mp hkeys
    rfl
  | cons slot slots ih =>
    cases rest with
    | nil => cases hkeys
    | cons member rest =>
      obtain ⟨key, value⟩ := member
      obtain ⟨rfl, htail⟩ := List.cons.inj hkeys
      have hslot : record.slot? slot.key = some slot :=
        slot?_key_of_mem record slot (hslots (by simp))
      have hfound : members.reverse.lookup slot.key = some value := by
        rw [lookup_reverse_of_nodup hdistinct, lookup_eq_some_iff_mem hdistinct]
        exact hmembers (by simp)
      have hothers :=
        ih (List.subset_of_cons_subset hslots) (List.subset_of_cons_subset hmembers) htail
      rw [recordMeaning?, lookup_memberMeanings hslot, hfound, hothers]
      rfl

/-- An object with the slots of its record in order means what the array of its values does. -/
theorem meaning?_object_in_order
    (nullable : Bool) {record : Record} {members : List (String × Json)}
    (hkeys : members.map Prod.fst = record.slots.map Slot.key) :
    meaning? nullable (.record record) (.object members) =
      slotsMeaning? record.slots (members.map Prod.snd) := by
  have hdistinct : (members.map Prod.fst).Nodup := by
    rw [hkeys]
    cases record <;> decide
  rw [meaning?]
  exact recordMeaning?_of_keys hdistinct (List.Subset.refl _) (List.Subset.refl _) hkeys

theorem slotsMeaning?_cons
    {slot : Slot} {slots : List Slot} {item : Json} {items : List Json} {d rest : Datum}
    (hitem : meaning? slot.isNullable slot.shape item = some d)
    (hitems : slotsMeaning? slots items = some rest) :
    slotsMeaning? (slot :: slots) (item :: items) = some (.cons d rest) := by
  rw [slotsMeaning?, hitem, hitems]
  rfl

theorem means_object
    {record : Record} {members : List (String × Json)} {d : Datum}
    (hkeys : members.map Prod.fst = record.slots.map Slot.key) (hd : d ≠ .absent)
    (hslots : slotsMeaning? record.slots (members.map Prod.snd) = some d) :
    Means (.record record) (.object members) d :=
  ⟨hd, fun nullable => (meaning?_object_in_order nullable hkeys).trans hslots⟩

/-! ## Reading lists -/

/-- If each value is read as an entry of its item, an array is read as the entries of a list. -/
theorem exists_means_array
    {ε α : Type} {record : Record} {ofDatum : Datum → ε} {R : ε → α → Prop} {report : α → Json}
    {xs : List α}
    (h : ∀ x ∈ xs, ∃ d, Means (.record record) (report x) d ∧ R (ofDatum d) x) :
    ∃ d, Means (.list (.record record)) (.array (xs.map report)) d ∧
      List.Forall₂ R (d.listOf ofDatum) xs := by
  induction xs with
  | nil => exact ⟨.nil, ⟨by simp, fun _ => rfl⟩, .nil⟩
  | cons x xs ih =>
    obtain ⟨head, hhead, hx⟩ := h x (by simp)
    obtain ⟨tail, htail, hxs⟩ := ih fun y hy => h y (List.mem_cons_of_mem x hy)
    refine ⟨.cons head tail, ⟨by simp, fun nullable => ?_⟩, .cons hx hxs⟩
    have hitems : itemsMeaning? (.record record) (xs.map report) = some tail :=
      htail.meaning nullable
    rw [List.map_cons, meaning?, itemsMeaning?, hhead.meaning, hitems]
    rfl

end SchemaBinding.Introspection
