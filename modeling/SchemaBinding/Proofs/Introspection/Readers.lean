import SchemaBinding.Proofs.Introspection.Meaning
import SchemaBinding.Proofs.Results

/-!
# Readers read the meaning

A reader walks through a transcript once, in its order, and stops at the first
fault.  Where it comes to an end it has read the meaning of the value, and it
stops only where the value has no meaning.  For a text this needs that no
record repeats one of its keys, since a reader of a text refuses the second
member of a key; a value that is read again has no such members left.
-/

namespace SchemaBinding.Introspection

open Json (Transcript Items Members)

/-! ## What is read, without the fault -/

theorem toOption_chain {ε : Type} (head tail : Except ε Datum) :
    (do return Datum.cons (← head) (← tail) : Except ε Datum).toOption =
      chain? head.toOption tail.toOption := by
  cases head <;> cases tail <;> rfl

theorem toOption_restOfSlots (record : Record) (place : Nat) (slots : List Slot) :
    (restOfSlots record place slots).toOption = restMeaning? slots := by
  induction slots generalizing place with
  | nil => rfl
  | cons slot slots ih =>
    rw [restOfSlots, restMeaning?]
    cases slot.presence with
    | required => rfl
    | optional => rfl
    | defaulted value =>
      dsimp only
      rw [← ih (place + 1)]
      exact toOption_chain (.ok value) (restOfSlots record (place + 1) slots)

theorem toOption_settle (slot : Slot) (found : Option Datum) :
    (settle slot found).toOption = slotMeaning? slot (found.map some) := by
  cases found with
  | none => rfl
  | some datum => rfl

theorem toOption_settleAll (found : List (String × Datum)) (slots : List Slot) :
    (settleAll found slots).toOption =
      recordMeaning? (fun key => (found.lookup key).map some) slots := by
  induction slots with
  | nil => rfl
  | cons slot slots ih =>
    rw [settleAll, recordMeaning?, toOption_chain, toOption_settle, ih]

/-! ## Gathering members -/

/-- Collects the meanings of members in front of `found`, unless one is missing
or a key comes again. -/
def gather (found : List (String × Datum)) :
    List (String × Option Datum) → Option (List (String × Datum))
  | [] => some found
  | (key, meaning) :: meanings =>
    if (found.lookup key).isSome then none
    else meaning.bind fun datum => gather ((key, datum) :: found) meanings

/-- No key of these meanings has been found before. -/
def Fresh (found : List (String × Datum)) (meanings : List (String × Option Datum)) : Prop :=
  ∀ meaning ∈ meanings, found.lookup meaning.1 = none

theorem Fresh.cons
    {found : List (String × Datum)} {key : String} {datum : Datum} {meaning : Option Datum}
    {meanings : List (String × Option Datum)} (h : Fresh found ((key, meaning) :: meanings))
    (hnew : key ∉ meanings.map Prod.fst) : Fresh ((key, datum) :: found) meanings := by
  intro other hother
  have hne : other.1 ≠ key := fun heq => hnew (heq ▸ List.mem_map_of_mem hother)
  rw [lookup_cons_eq, if_neg hne]
  exact h other (List.mem_cons_of_mem _ hother)

theorem lookup_of_gather_eq_some
    {meanings : List (String × Option Datum)} (hkeys : (meanings.map Prod.fst).Nodup)
    {found gathered : List (String × Datum)} (hfresh : Fresh found meanings)
    (h : gather found meanings = some gathered) (key : String) :
    (gathered.lookup key).map some =
      (meanings.lookup key).or ((found.lookup key).map some) := by
  induction meanings generalizing found with
  | nil =>
    cases h
    rfl
  | cons entry meanings ih =>
    obtain ⟨other, meaning⟩ := entry
    rw [List.map_cons, List.nodup_cons] at hkeys
    rw [gather, hfresh (other, meaning) (by simp)] at h
    cases meaning with
    | none => cases h
    | some datum =>
      rw [ih hkeys.2 (hfresh.cons hkeys.1) h, lookup_cons_eq, lookup_cons_eq]
      by_cases hkey : key = other
      · have hnone : meanings.lookup key = none := by
          rw [List.lookup_eq_none_iff]
          intro entry hentry
          have hne : key ≠ entry.1 := fun heq =>
            hkeys.1 (List.mem_map.mpr ⟨entry, hentry, heq.symm.trans hkey⟩)
          simpa using hne
        rw [if_pos hkey, if_pos hkey, hnone]
        rfl
      · rw [if_neg hkey, if_neg hkey]

theorem exists_of_gather_eq_none
    {meanings : List (String × Option Datum)} (hkeys : (meanings.map Prod.fst).Nodup)
    {found : List (String × Datum)} (hfresh : Fresh found meanings)
    (h : gather found meanings = none) : ∃ key, (key, none) ∈ meanings := by
  induction meanings generalizing found with
  | nil => cases h
  | cons entry meanings ih =>
    obtain ⟨key, meaning⟩ := entry
    rw [List.map_cons, List.nodup_cons] at hkeys
    rw [gather, hfresh (key, meaning) (by simp)] at h
    cases meaning with
    | none => exact ⟨key, by simp⟩
    | some datum =>
      obtain ⟨other, hother⟩ := ih hkeys.2 (hfresh.cons hkeys.1) h
      exact ⟨other, List.mem_cons_of_mem _ hother⟩

/-- Members with different keys are gathered to the meaning of their object. -/
theorem gather_bind_settleAll
    {record : Record} {members : List (String × Json)}
    (hkeys : (knownKeys record members).Nodup) :
    ((gather [] (memberMeanings record members)).bind fun found =>
        (settleAll found record.slots).toOption) =
      recordMeaning? (fun key => (memberMeanings record members).reverse.lookup key)
        record.slots := by
  rw [← map_fst_memberMeanings] at hkeys
  have hfresh : Fresh [] (memberMeanings record members) := fun _ _ => rfl
  cases hgather : gather [] (memberMeanings record members) with
  | some gathered =>
    rw [Option.bind_some, toOption_settleAll]
    apply recordMeaning?_congr
    intro slot _
    rw [lookup_of_gather_eq_some hkeys hfresh hgather, lookup_reverse_of_nodup hkeys,
      List.lookup_nil, Option.map_none, Option.or_none]
  | none =>
    obtain ⟨key, hkey⟩ := exists_of_gather_eq_none hkeys hfresh hgather
    have hknown : key ∈ knownKeys record members := by
      rw [← map_fst_memberMeanings]
      exact List.mem_map.mpr ⟨_, hkey, rfl⟩
    obtain ⟨slot, hslot⟩ := Option.isSome_iff_exists.mp (List.mem_filter.mp hknown).2
    obtain ⟨hmem, rfl⟩ := slot?_eq_some hslot
    rw [Option.bind_none]
    refine (recordMeaning?_eq_none hmem ?_).symm
    rw [lookup_reverse_of_nodup hkeys]
    exact (lookup_eq_some_iff_mem hkeys).mpr hkey

/-! ## Reading plain transcripts -/

variable (source : Source)

theorem toOption_readItems
    {levels : Option Nat} {shape : Shape} {items : List Json}
    (h : ∀ item ∈ items,
      (read source levels false shape item.plain).toOption = meaning? false shape item) :
    (readItems source levels shape (.ofList (items.map Json.plain))).toOption =
      itemsMeaning? shape items := by
  induction items with
  | nil => rfl
  | cons item items ih =>
    rw [List.map_cons, Items.ofList, readItems, itemsMeaning?, toOption_chain, h item (by simp),
      ih fun other hother => h other (List.mem_cons_of_mem item hother)]

theorem toOption_readSlots
    {levels : Option Nat} (record : Record) {slots : List Slot} (place : Nat) {items : List Json}
    (hunrepeated : slotsUnrepeated slots items = true)
    (h : ∀ item ∈ items, ∀ nullable shape, isUnrepeated shape item = true →
      (read source levels nullable shape item.plain).toOption = meaning? nullable shape item) :
    (readSlots source levels record slots place (.ofList (items.map Json.plain))).toOption =
      slotsMeaning? slots items := by
  induction items generalizing slots place with
  | nil =>
    rw [List.map_nil, Items.ofList, readSlots, slotsMeaning?]
    exact toOption_restOfSlots record place slots
  | cons item items ih =>
    rw [List.map_cons, Items.ofList]
    cases slots with
    | nil =>
      rw [readSlots, slotsMeaning?]
      rfl
    | cons slot slots =>
      rw [slotsUnrepeated, Bool.and_eq_true] at hunrepeated
      rw [readSlots, slotsMeaning?, toOption_chain, h item (by simp) _ _ hunrepeated.1,
        ih (place + 1) hunrepeated.2 fun other hother =>
          h other (List.mem_cons_of_mem item hother)]

theorem toOption_readMembers
    {levels : Option Nat} {record : Record} (found : List (String × Datum))
    {members : List (String × Json)}
    (h : ∀ member ∈ members, ∀ slot, record.slot? member.1 = some slot →
      (read source levels slot.isNullable slot.shape member.2.plain).toOption =
        meaning? slot.isNullable slot.shape member.2) :
    (readMembers source levels record found
        (.ofList (members.map fun member => (member.1, member.2.plain)))).toOption =
      gather found (memberMeanings record members) := by
  induction members generalizing found with
  | nil => rfl
  | cons member members ih =>
    obtain ⟨key, value⟩ := member
    have hrest := fun found => ih found fun other hother =>
      h other (List.mem_cons_of_mem (key, value) hother)
    rw [List.map_cons, Members.ofList, readMembers, memberMeanings]
    cases hslot : record.slot? key with
    | none =>
      have hpass : pass value.plain = .ok () := by rw [pass, Json.skipFault?_plain]
      dsimp only
      rw [hpass]
      exact hrest found
    | some slot =>
      dsimp only
      rw [gather]
      split
      · rfl
      · rw [toOption_bind, h (key, value) (by simp) slot hslot]
        congr 1
        funext datum
        exact hrest ((key, datum) :: found)

/-- A reader reads the meaning of a plain transcript. -/
theorem toOption_read_plain
    {levels : Option Nat} {value : Json} (hfits : value.Fits levels) (nullable : Bool)
    {shape : Shape} (hunrepeated : isUnrepeated shape value = true) :
    (read source levels nullable shape value.plain).toOption = meaning? nullable shape value := by
  induction value using Json.nestedInduction generalizing levels nullable shape with
  | null =>
    rw [Json.plain, read, meaning?]
    cases nullable <;> rfl
  | boolean b =>
    rw [Json.plain, read, meaning?]
    split <;> rfl
  | number n => rfl
  | string s =>
    rw [Json.plain, read, meaning?]
    split <;> rfl
  | array items ih =>
    obtain ⟨inner, hinner, hitems⟩ := hfits.items
    have henter : enter levels = .ok inner := by rw [enter, hinner]
    rw [Json.plain, Json.plainItems_eq]
    cases shape with
    | text => rfl
    | flag => rfl
    | list item =>
      rw [read, henter, meaning?]
      refine toOption_readItems source fun value hvalue => ?_
      exact ih value hvalue (hitems value hvalue) false
        (itemsUnrepeated_iff.mp hunrepeated value hvalue)
    | record record =>
      rw [read, henter, meaning?]
      refine toOption_readSlots source record 0 hunrepeated fun value hvalue => ?_
      exact fun nullable shape h => ih value hvalue (hitems value hvalue) nullable h
  | object members ih =>
    obtain ⟨inner, hinner, hmembers⟩ := hfits.members
    have henter : enter levels = .ok inner := by rw [enter, hinner]
    rw [Json.plain, Json.plainMembers_eq]
    cases shape with
    | text => rfl
    | flag => rfl
    | list item => rfl
    | record record =>
      obtain ⟨hkeys, hvalues⟩ := isUnrepeated_object_iff.mp hunrepeated
      have hread : (readMembers source inner record []
          (.ofList (members.map fun member => (member.1, member.2.plain)))).toOption =
            gather [] (memberMeanings record members) := by
        apply toOption_readMembers
        intro member hmember slot hslot
        exact ih member hmember (hmembers member hmember) slot.isNullable
          (hvalues member hmember slot hslot)
      rw [read, henter, meaning?, ← gather_bind_settleAll hkeys, ← hread]
      exact toOption_bind (readMembers source inner record [] _) fun found =>
        settleAll found record.slots

/-- A value that is read again is read by its meaning. -/
theorem toOption_read_ofJson (nullable : Bool) (shape : Shape) (value : Json) :
    (read .value none nullable shape (Transcript.ofJson value)).toOption =
      meaning? nullable shape value := by
  rw [Json.ofJson_eq_plain_canonical,
    toOption_read_plain .value (Json.fits_none _) nullable (isUnrepeated_canonical shape value),
    meaning?_canonical]

theorem toOption_readValue (value : Json) :
    (readValue value).toOption = meaning? false (.record .response) value :=
  toOption_read_ofJson false (.record .response) value

/-- A text that is a document is read by the meaning of its value. -/
theorem toOption_readText
    {text : String} {value : Json} (hparse : Json.parse? (some Json.nestingLimit) text = some value)
    (hunrepeated : isUnrepeated (.record .response) value = true) :
    (readText text).toOption = meaning? false (.record .response) value := by
  unfold Json.parse? at hparse
  dsimp only at hparse
  split at hparse
  next hcomplete =>
    have hplain := Json.eq_plain_of_value? hparse
    have hfits := Json.Fits.of_value? hparse
    rw [readText, toOption_bind, hplain, Source.levels,
      toOption_read_plain .text hfits false hunrepeated, hcomplete]
    cases meaning? false (.record .response) value <;> rfl
  next => cases hparse

end SchemaBinding.Introspection
