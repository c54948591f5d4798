import SchemaBinding.Introspection.Reading
import SchemaBinding.Proofs.Json.Canonical

/-!
# What values mean by shape

A shape gives a value a meaning, or none, without saying in which order its
parts are read: the slots of a record are looked up one by one, and of several
members of one key the last counts.  The meaning is the same for the canonical
form of a value and for every value with reordered members, unless an object
that stands for a record repeats a key of that record.
-/

namespace SchemaBinding.Introspection

/-! ## Meanings -/

/-- The chain that begins with one meaning and goes on with another. -/
def chain? (head tail : Option Datum) : Option Datum :=
  head.bind fun datum => tail.map (.cons datum ·)

theorem chain?_ne_absent (head tail : Option Datum) : chain? head tail ≠ some .absent := by
  cases head <;> cases tail <;> simp [chain?]

/-- What is left of a record whose array ends in front of these slots. -/
def restMeaning? : List Slot → Option Datum
  | [] => some .nil
  | slot :: slots =>
    match slot.presence with
    | .defaulted value => chain? (some value) (restMeaning? slots)
    | _ => none

/-- The meaning of a slot, given that of the member of its key, if there is one. -/
def slotMeaning? (slot : Slot) (found : Option (Option Datum)) : Option Datum :=
  match found with
  | some meaning => meaning
  | none => (settle slot none).toOption

/-- The meaning of an object by the slots of its record. -/
def recordMeaning? (found : String → Option (Option Datum)) : List Slot → Option Datum
  | [] => some .nil
  | slot :: slots => chain? (slotMeaning? slot (found slot.key)) (recordMeaning? found slots)

mutual

/-- The meaning of a value by a shape; where null may stand it means that nothing is there. -/
def meaning? (nullable : Bool) (shape : Shape) : Json → Option Datum
  | .null => if nullable then some .absent else none
  | .boolean value => if shape = .flag then some (.flag value) else none
  | .number _ => none
  | .string value => if shape = .text then some (.text value) else none
  | .array items =>
    match shape with
    | .list item => itemsMeaning? item items
    | .record record => slotsMeaning? record.slots items
    | _ => none
  | .object members =>
    match shape with
    | .record record =>
      recordMeaning? (fun key => (memberMeanings record members).reverse.lookup key) record.slots
    | _ => none

def itemsMeaning? (shape : Shape) : List Json → Option Datum
  | [] => some .nil
  | item :: items => chain? (meaning? false shape item) (itemsMeaning? shape items)

/-- The meaning of items that stand for the slots of a record. -/
def slotsMeaning? (slots : List Slot) : List Json → Option Datum
  | [] => restMeaning? slots
  | item :: items =>
    match slots with
    | [] => none
    | slot :: slots =>
      chain? (meaning? slot.isNullable slot.shape item) (slotsMeaning? slots items)

/-- The meanings of the members that a record asks for. -/
def memberMeanings (record : Record) : List (String × Json) → List (String × Option Datum)
  | [] => []
  | (key, value) :: members =>
    match record.slot? key with
    | none => memberMeanings record members
    | some slot =>
      (key, meaning? slot.isNullable slot.shape value) :: memberMeanings record members

end

/-! ## Repeated keys -/

/-- The keys of the members that a record asks for. -/
def knownKeys (record : Record) (members : List (String × Json)) : List String :=
  (members.map Prod.fst).filter fun key => (record.slot? key).isSome

mutual

/-- No object that stands for a record repeats a key of that record. -/
def isUnrepeated (shape : Shape) : Json → Bool
  | .array items =>
    match shape with
    | .list item => itemsUnrepeated item items
    | .record record => slotsUnrepeated record.slots items
    | _ => true
  | .object members =>
    match shape with
    | .record record => (knownKeys record members).Nodup && membersUnrepeated record members
    | _ => true
  | .null => true
  | .boolean _ => true
  | .number _ => true
  | .string _ => true

def itemsUnrepeated (shape : Shape) : List Json → Bool
  | [] => true
  | item :: items => isUnrepeated shape item && itemsUnrepeated shape items

def slotsUnrepeated (slots : List Slot) : List Json → Bool
  | [] => true
  | item :: items =>
    match slots with
    | [] => true
    | slot :: slots => isUnrepeated slot.shape item && slotsUnrepeated slots items

def membersUnrepeated (record : Record) : List (String × Json) → Bool
  | [] => true
  | (key, value) :: members =>
    (match record.slot? key with
      | none => true
      | some slot => isUnrepeated slot.shape value) && membersUnrepeated record members

end

/-! ## Members by key -/

theorem slot?_eq_some
    {record : Record} {key : String} {slot : Slot} (h : record.slot? key = some slot) :
    slot ∈ record.slots ∧ slot.key = key := by
  refine ⟨List.mem_of_find?_eq_some h, ?_⟩
  simpa using List.find?_some h

theorem memberMeanings_eq_filterMap (record : Record) (members : List (String × Json)) :
    memberMeanings record members = members.filterMap fun member =>
      (record.slot? member.1).map fun slot =>
        (member.1, meaning? slot.isNullable slot.shape member.2) := by
  induction members with
  | nil => rfl
  | cons member members ih =>
    obtain ⟨key, value⟩ := member
    rw [memberMeanings, List.filterMap_cons]
    cases record.slot? key <;> simp [ih]

theorem map_fst_memberMeanings (record : Record) (members : List (String × Json)) :
    (memberMeanings record members).map Prod.fst = knownKeys record members := by
  rw [memberMeanings_eq_filterMap, List.map_filterMap, knownKeys, ← List.filterMap_eq_filter,
    List.filterMap_map]
  congr 1
  funext member
  cases hslot : record.slot? member.1 <;> simp [Option.guard, hslot]

theorem memberMeanings_append (record : Record) (front back : List (String × Json)) :
    memberMeanings record (front ++ back) =
      memberMeanings record front ++ memberMeanings record back := by
  simp only [memberMeanings_eq_filterMap, List.filterMap_append]

theorem memberMeanings_perm
    (record : Record) {members others : List (String × Json)} (h : members.Perm others) :
    (memberMeanings record members).Perm (memberMeanings record others) := by
  rw [memberMeanings_eq_filterMap, memberMeanings_eq_filterMap]
  exact h.filterMap _

/-- The meaning under a known key is that of the last member of the key. -/
theorem lookup_memberMeanings
    {record : Record} {key : String} {slot : Slot} (hslot : record.slot? key = some slot)
    (members : List (String × Json)) :
    (memberMeanings record members).reverse.lookup key =
      (members.reverse.lookup key).map (meaning? slot.isNullable slot.shape) := by
  induction members with
  | nil => rfl
  | cons member members ih =>
    obtain ⟨other, value⟩ := member
    rw [memberMeanings, List.reverse_cons, List.lookup_append, Option.map_or, ← ih,
      lookup_cons_eq, List.lookup_nil]
    by_cases hkey : key = other
    · subst hkey
      rw [hslot, List.reverse_cons, List.lookup_append, lookup_cons_eq, if_pos rfl, if_pos rfl]
      rfl
    · rw [if_neg hkey, Option.map_none, Option.or_none]
      cases record.slot? other with
      | none => rfl
      | some slot =>
        rw [List.reverse_cons, List.lookup_append, lookup_cons_eq, if_neg hkey, List.lookup_nil,
          Option.or_none]

theorem recordMeaning?_congr
    {found others : String → Option (Option Datum)} {slots : List Slot}
    (h : ∀ slot ∈ slots, found slot.key = others slot.key) :
    recordMeaning? found slots = recordMeaning? others slots := by
  induction slots with
  | nil => rfl
  | cons slot slots ih =>
    rw [recordMeaning?, recordMeaning?, h slot (by simp),
      ih fun other hother => h other (List.mem_cons_of_mem slot hother)]

theorem recordMeaning?_eq_none
    {found : String → Option (Option Datum)} {slots : List Slot} {slot : Slot}
    (hmem : slot ∈ slots) (hfound : found slot.key = some none) :
    recordMeaning? found slots = none := by
  induction slots with
  | nil => cases hmem
  | cons head slots ih =>
    rw [recordMeaning?]
    rcases List.mem_cons.mp hmem with rfl | htail
    · rw [hfound, slotMeaning?]
      rfl
    · rw [ih htail]
      cases slotMeaning? head (found head.key) <;> rfl

/-- The slots of a record have different keys. -/
theorem slot?_key_of_mem (record : Record) :
    ∀ slot ∈ record.slots, record.slot? slot.key = some slot := by
  cases record <;> decide

/-! ## Canonical forms -/

theorem meaning?_object_eq_of_lookup
    (nullable : Bool) {record : Record} {members others : List (String × Json)}
    (h : ∀ slot ∈ record.slots,
      (others.reverse.lookup slot.key).map (meaning? slot.isNullable slot.shape) =
        (members.reverse.lookup slot.key).map (meaning? slot.isNullable slot.shape)) :
    meaning? nullable (.record record) (.object others) =
      meaning? nullable (.record record) (.object members) := by
  rw [meaning?, meaning?]
  apply recordMeaning?_congr
  intro slot hmem
  have hslot : record.slot? slot.key = some slot := slot?_key_of_mem record slot hmem
  rw [lookup_memberMeanings hslot, lookup_memberMeanings hslot, h slot hmem]

theorem itemsMeaning?_map_congr
    {f : Json → Json} {item : Shape} {items : List Json}
    (h : ∀ value ∈ items, meaning? false item (f value) = meaning? false item value) :
    itemsMeaning? item (items.map f) = itemsMeaning? item items := by
  induction items with
  | nil => rfl
  | cons head items ih =>
    rw [List.map_cons, itemsMeaning?, itemsMeaning?, h head (by simp),
      ih fun other hother => h other (List.mem_cons_of_mem head hother)]

theorem slotsMeaning?_map_congr
    {f : Json → Json} {slots : List Slot} {items : List Json}
    (h : ∀ value ∈ items, ∀ nullable shape,
      meaning? nullable shape (f value) = meaning? nullable shape value) :
    slotsMeaning? slots (items.map f) = slotsMeaning? slots items := by
  induction items generalizing slots with
  | nil => rfl
  | cons head items ih =>
    cases slots with
    | nil => rfl
    | cons slot slots =>
      rw [List.map_cons, slotsMeaning?, slotsMeaning?, h head (by simp),
        ih fun other hother => h other (List.mem_cons_of_mem head hother)]

/-- Sorting the members of objects does not change the meaning. -/
theorem meaning?_canonical (nullable : Bool) (shape : Shape) (value : Json) :
    meaning? nullable shape value.canonical = meaning? nullable shape value := by
  induction value using Json.nestedInduction generalizing nullable shape with
  | null => rfl
  | boolean b => rfl
  | number n => rfl
  | string s => rfl
  | array items ih =>
    rw [Json.canonical, Json.canonicalItems_eq]
    cases shape with
    | text => rfl
    | flag => rfl
    | list item =>
      rw [meaning?, meaning?,
        itemsMeaning?_map_congr fun value hvalue => ih value hvalue false item]
    | record record =>
      rw [meaning?, meaning?, slotsMeaning?_map_congr ih]
  | object members ih =>
    rw [Json.canonical, Json.canonicalMembers_eq, KeyOrder.sort_map]
    cases shape with
    | text => rfl
    | flag => rfl
    | list item => rfl
    | record record =>
      apply meaning?_object_eq_of_lookup
      intro slot hmem
      have hkeys : ((KeyOrder.sort members).map Prod.fst).Nodup :=
        (KeyOrder.ascending_sort members).nodup_keys
      rw [← List.map_reverse, lookup_map, lookup_reverse_of_nodup hkeys, KeyOrder.lookup_sort]
      cases hfound : members.reverse.lookup slot.key with
      | none => rfl
      | some value =>
        have hmember : (slot.key, value) ∈ members :=
          List.mem_reverse.mp (mem_of_lookup_eq_some hfound)
        exact congrArg some (ih _ hmember slot.isNullable slot.shape)

theorem itemsUnrepeated_iff {shape : Shape} {items : List Json} :
    itemsUnrepeated shape items = true ↔ ∀ item ∈ items, isUnrepeated shape item = true := by
  induction items with
  | nil => simp [itemsUnrepeated]
  | cons item items ih => rw [itemsUnrepeated, Bool.and_eq_true, ih, List.forall_mem_cons]

theorem membersUnrepeated_iff {record : Record} {members : List (String × Json)} :
    membersUnrepeated record members = true ↔ ∀ member ∈ members,
      ∀ slot, record.slot? member.1 = some slot → isUnrepeated slot.shape member.2 = true := by
  induction members with
  | nil => simp [membersUnrepeated]
  | cons member members ih =>
    obtain ⟨key, value⟩ := member
    rw [membersUnrepeated, Bool.and_eq_true, ih, List.forall_mem_cons]
    apply and_congr_left'
    cases record.slot? key <;> simp

theorem isUnrepeated_object_iff {record : Record} {members : List (String × Json)} :
    isUnrepeated (.record record) (.object members) = true ↔
      (knownKeys record members).Nodup ∧ ∀ member ∈ members,
        ∀ slot, record.slot? member.1 = some slot → isUnrepeated slot.shape member.2 = true := by
  rw [isUnrepeated, Bool.and_eq_true, decide_eq_true_iff, membersUnrepeated_iff]

theorem slotsUnrepeated_of_forall
    {slots : List Slot} {items : List Json}
    (h : ∀ item ∈ items, ∀ shape, isUnrepeated shape item = true) :
    slotsUnrepeated slots items = true := by
  induction items generalizing slots with
  | nil => rfl
  | cons item items ih =>
    cases slots with
    | nil => rfl
    | cons slot slots =>
      rw [slotsUnrepeated, h item (by simp), Bool.true_and]
      exact ih fun other hother => h other (List.mem_cons_of_mem item hother)

/-- Sorted members repeat no key. -/
theorem isUnrepeated_canonical (shape : Shape) (value : Json) :
    isUnrepeated shape value.canonical = true := by
  induction value using Json.nestedInduction generalizing shape with
  | null => rfl
  | boolean b => rfl
  | number n => rfl
  | string s => rfl
  | array items ih =>
    rw [Json.canonical, Json.canonicalItems_eq]
    cases shape with
    | text => rfl
    | flag => rfl
    | list item =>
      rw [isUnrepeated, itemsUnrepeated_iff]
      exact List.forall_mem_map.mpr fun value hvalue => ih value hvalue item
    | record record =>
      rw [isUnrepeated]
      exact slotsUnrepeated_of_forall (List.forall_mem_map.mpr ih)
  | object members ih =>
    rw [Json.canonical, Json.canonicalMembers_eq]
    cases shape with
    | text => rfl
    | flag => rfl
    | list item => rfl
    | record record =>
      rw [isUnrepeated_object_iff]
      refine ⟨List.Pairwise.filter _ (KeyOrder.ascending_sort _).nodup_keys, ?_⟩
      intro member hmember slot _
      obtain ⟨original, horiginal, rfl⟩ := List.mem_map.mp (KeyOrder.mem_of_mem_sort hmember)
      exact ih original horiginal slot.shape

end SchemaBinding.Introspection
