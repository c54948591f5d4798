import SchemaBinding.Proofs.Introspection.Loaded
import SchemaBinding.Proofs.Introspection.Readers

/-!
# What counts of a reading

Entries that make no definition are read like all others, and loading leaves
them out.  A datum is trimmed when they are dropped from it, and loading tells
no datum from its trimmed one.  The trimmed reading of a value is made of the
trimmed readings of its parts, so parts with the same trimmed reading can take
each other's place.
-/

namespace SchemaBinding.Introspection

open Json (Transcript Items Members)

/-! ## Trimmed data -/

/-- Whether an item of a list counts; an entry for a type does if it makes a definition. -/
def counts : Shape → Datum → Bool
  | .record .type, d => (TypeEntry.ofDatum d).isConvertible
  | _, _ => true

/-- A chain with its items trimmed, and only those kept that count. -/
def trimItems (keep : Datum → Bool) (trim : Datum → Datum) : Datum → Datum
  | .cons head tail =>
    if keep head then .cons (trim head) (trimItems keep trim tail) else trimItems keep trim tail
  | d => d

/-- A chain with each of its parts trimmed in its own way. -/
def trimEach : List (Datum → Datum) → Datum → Datum
  | trim :: trims, .cons head tail => .cons (trim head) (trimEach trims tail)
  | _, d => d

def trimTypes : Datum → Datum :=
  trimItems (counts (.record .type)) id

def trimSchema : Datum → Datum :=
  trimEach [id, id, id, trimTypes]

def trimData : Datum → Datum :=
  trimEach [trimSchema]

def trimResponse : Datum → Datum :=
  trimEach [trimData, trimSchema]

def trimRecord : Record → Datum → Datum
  | .schema => trimSchema
  | .data => trimData
  | .response => trimResponse
  | _ => id

/-- A datum without the entries that make no definition. -/
def trim : Shape → Datum → Datum
  | .list item => trimItems (counts item) (trim item)
  | .record record => trimRecord record
  | _ => id

/-- No list of types is met inside a value of this shape. -/
def isPlain : Shape → Bool
  | .list item => isPlain item && item != .record .type
  | .record record => !([.response, .data, .schema].contains record)
  | _ => true

theorem counts_eq_true {shape : Shape} (h : shape ≠ .record .type) (d : Datum) :
    counts shape d = true := by
  rw [counts]
  exact h

theorem trimItems_eq_self {keep : Datum → Bool} {trim : Datum → Datum}
    (hkeep : ∀ d, keep d = true) (htrim : ∀ d, trim d = d) (d : Datum) :
    trimItems keep trim d = d := by
  induction d with
  | cons head tail _ ih => rw [trimItems, if_pos (hkeep head), htrim, ih]
  | _ => rfl

theorem trimEach_eq_self {trims : List (Datum → Datum)} (h : ∀ trim ∈ trims, ∀ d, trim d = d)
    (d : Datum) : trimEach trims d = d := by
  induction trims generalizing d with
  | nil => rfl
  | cons trim trims ih =>
    cases d with
    | cons head tail =>
      rw [trimEach, h trim List.mem_cons_self,
        ih fun other hother => h other (List.mem_cons_of_mem _ hother)]
    | _ => rfl

theorem trim_eq_self {shape : Shape} (h : isPlain shape = true) (d : Datum) :
    trim shape d = d := by
  induction shape generalizing d with
  | text => rfl
  | flag => rfl
  | list item ih =>
    rw [isPlain, Bool.and_eq_true] at h
    exact trimItems_eq_self (counts_eq_true (bne_iff_ne.mp h.2)) (ih h.1) d
  | record record => cases record <;> first | rfl | cases h

/-- A record is trimmed slot by slot. -/
theorem trim_record (record : Record) (d : Datum) :
    trim (.record record) d = trimEach (record.slots.map fun slot => trim slot.shape) d := by
  have hslots (hplain : ∀ slot ∈ record.slots, isPlain slot.shape = true) :
      trimEach (record.slots.map fun slot => trim slot.shape) d = d := by
    refine trimEach_eq_self (fun trim htrim e => ?_) d
    obtain ⟨slot, hslot, rfl⟩ := List.mem_map.mp htrim
    exact trim_eq_self (hplain slot hslot) e
  cases record with
  | response => rfl
  | data => rfl
  | schema => rfl
  | _ => exact (hslots (by decide)).symm

theorem counts_congr {shape : Shape} {d e : Datum} (h : trim shape d = trim shape e) :
    counts shape d = counts shape e := by
  by_cases htype : shape = .record .type
  · subst htype
    exact congrArg _ h
  · rw [counts_eq_true htype, counts_eq_true htype]

/-! ## Trimmed readings -/

/-- What a value is read as, without the entries that make no definition. -/
def trimmedRead (nullable : Bool) (shape : Shape) (value : Json) : Except Fault Datum :=
  (read .value none nullable shape (Transcript.ofJson value)).map (trim shape)

/-- The chain of two readings, the first of which is done first. -/
def chainRead (head tail : Except Fault Datum) : Except Fault Datum := do
  return .cons (← head) (← tail)

section Congruence

variable {head other tail rest : Except Fault Datum}

theorem map_trimItems_congr {item : Shape} (hhead : head.map (trim item) = other.map (trim item))
    (htail : tail.map (trim (.list item)) = rest.map (trim (.list item))) :
    (chainRead head tail).map (trim (.list item)) =
      (chainRead other rest).map (trim (.list item)) := by
  cases head with
  | error fault =>
    cases other with
    | error _ => exact hhead
    | ok _ => cases hhead
  | ok d =>
    cases other with
    | error _ => cases hhead
    | ok e =>
      have htrim : trim item d = trim item e := Except.ok.inj hhead
      cases tail with
      | error fault =>
        cases rest with
        | error _ => exact htail
        | ok _ => cases htail
      | ok ds =>
        cases rest with
        | error _ => cases htail
        | ok es =>
          have htrims : trim (.list item) ds = trim (.list item) es := Except.ok.inj htail
          show Except.ok (trimItems (counts item) (trim item) (.cons d ds)) =
            .ok (trimItems (counts item) (trim item) (.cons e es))
          rw [trimItems, trimItems, counts_congr htrim, htrim]
          rw [trim] at htrims
          rw [htrims]

theorem map_trimEach_chainRead (trim : Datum → Datum) (trims : List (Datum → Datum)) :
    (chainRead head tail).map (trimEach (trim :: trims)) =
      chainRead (head.map trim) (tail.map (trimEach trims)) := by
  cases head <;> cases tail <;> rfl

end Congruence

/-! ## Lists -/

section Items

variable {item : Shape} {value other : Json}

theorem trimmedRead_array_list (nullable : Bool) (item : Shape) (items : List Json) :
    trimmedRead nullable (.list item) (.array items) =
      (readItems .value none item (.ofList (items.map Transcript.ofJson))).map
        (trim (.list item)) := by
  rw [trimmedRead, Transcript.ofJson, Json.ofJsonList_eq]
  rfl

/-- An item can take the place of another one that is read alike. -/
theorem readItems_congr (h : trimmedRead false item other = trimmedRead false item value)
    (front back : List Json) :
    (readItems .value none item
        (.ofList ((front ++ other :: back).map Transcript.ofJson))).map (trim (.list item)) =
      (readItems .value none item
        (.ofList ((front ++ value :: back).map Transcript.ofJson))).map (trim (.list item)) := by
  induction front with
  | nil => exact map_trimItems_congr h rfl
  | cons first front ih => exact map_trimItems_congr rfl ih

/-- An item that is read and does not count makes no difference. -/
theorem readItems_skip {entry : Json} {d : Datum}
    (hread : read .value none false item (Transcript.ofJson entry) = .ok d)
    (hcounts : counts item d = false) (front back : List Json) :
    (readItems .value none item
        (.ofList ((front ++ entry :: back).map Transcript.ofJson))).map (trim (.list item)) =
      (readItems .value none item
        (.ofList ((front ++ back).map Transcript.ofJson))).map (trim (.list item)) := by
  induction front with
  | nil =>
    show (chainRead (read .value none false item (Transcript.ofJson entry))
      (readItems .value none item (.ofList (back.map Transcript.ofJson)))).map _ = _
    rw [hread, List.nil_append]
    cases readItems .value none item (.ofList (back.map Transcript.ofJson)) with
    | error fault => rfl
    | ok ds =>
      show Except.ok (trimItems (counts item) (trim item) (.cons d ds)) = _
      rw [trimItems, hcounts, if_neg Bool.false_ne_true]
      rfl
  | cons first front ih => exact map_trimItems_congr rfl ih

end Items

/-! ## Arrays that stand for records -/

section Slots

variable {value other : Json}

theorem trimmedRead_array_record (nullable : Bool) (record : Record) (items : List Json) :
    trimmedRead nullable (.record record) (.array items) =
      (readSlots .value none record record.slots 0
        (.ofList (items.map Transcript.ofJson))).map
          (trimEach (record.slots.map fun slot => trim slot.shape)) := by
  rw [trimmedRead, Transcript.ofJson, Json.ofJsonList_eq, funext (trim_record record)]
  rfl

theorem readSlots_congr {slot : Slot}
    (h : trimmedRead slot.isNullable slot.shape other =
      trimmedRead slot.isNullable slot.shape value)
    (record : Record) {slots : List Slot} (place : Nat) {front : List Json}
    (hslot : slots[front.length]? = some slot) (back : List Json) :
    (readSlots .value none record slots place
        (.ofList ((front ++ other :: back).map Transcript.ofJson))).map
          (trimEach (slots.map fun slot => trim slot.shape)) =
      (readSlots .value none record slots place
        (.ofList ((front ++ value :: back).map Transcript.ofJson))).map
          (trimEach (slots.map fun slot => trim slot.shape)) := by
  induction front generalizing slots place with
  | nil =>
    cases slots with
    | nil => cases hslot
    | cons first slots =>
      obtain rfl : first = slot := Option.some.inj hslot
      refine (map_trimEach_chainRead _ _).trans (Eq.trans ?_ (map_trimEach_chainRead _ _).symm)
      exact congrArg (chainRead · _) h
  | cons first front ih =>
    cases slots with
    | nil => cases hslot
    | cons other slots =>
      refine (map_trimEach_chainRead _ _).trans (Eq.trans ?_ (map_trimEach_chainRead _ _).symm)
      exact congrArg (chainRead _) (ih (place + 1) hslot)

end Slots

/-! ## Objects -/

section Members

variable {record : Record}

/-- What the member of a key is read as, if the record asks for it. -/
def readingAt? (record : Record) (key : String) (value : Json) : Option (Except Fault Datum) :=
  (record.slot? key).map fun slot =>
    read .value none slot.isNullable slot.shape (Transcript.ofJson value)

/-- How the datum of a key is trimmed. -/
def trimAt (record : Record) (key : String) : Datum → Datum :=
  match record.slot? key with
  | some slot => trim slot.shape
  | none => id

def trimmedReadingAt? (record : Record) (key : String) (value : Json) :
    Option (Except Fault Datum) :=
  (readingAt? record key value).map fun reading => reading.map (trimAt record key)

/-- Collects readings in front of `found`, as far as there are some. -/
def collect (found : List (String × Datum)) :
    List (String × Option (Except Fault Datum)) → Except Fault (List (String × Datum))
  | [] => .ok found
  | (_, none) :: rest => collect found rest
  | (key, some reading) :: rest =>
    if (found.lookup key).isSome then .error (.shape (.duplicateField key))
    else do
      let datum ← reading
      collect ((key, datum) :: found) rest

theorem skipFault?_ofJson (value : Json) : (Transcript.ofJson value).skipFault? = none := by
  rw [Json.ofJson_eq_plain_canonical, Json.skipFault?_plain]

theorem readMembers_eq_collect (found : List (String × Datum)) (members : List (String × Json)) :
    readMembers .value none record found
        (.ofList (members.map fun member => (member.1, Transcript.ofJson member.2))) =
      collect found
        (members.map fun member => (member.1, readingAt? record member.1 member.2)) := by
  induction members generalizing found with
  | nil => rfl
  | cons member members ih =>
    obtain ⟨key, value⟩ := member
    rw [List.map_cons, List.map_cons, Members.ofList, readMembers, readingAt?]
    cases record.slot? key with
    | none =>
      have hpass : pass (Transcript.ofJson value) = .ok () := by rw [pass, skipFault?_ofJson]
      dsimp only
      rw [hpass]
      exact ih found
    | some slot =>
      dsimp only [Option.map_some]
      rw [collect]
      split
      · rfl
      · congr 1
        funext datum
        exact ih ((key, datum) :: found)

/-- Where there is no reading, nothing is collected. -/
theorem collect_filter (keep : String → Bool)
    {entries : List (String × Option (Except Fault Datum))}
    (h : ∀ entry ∈ entries, keep entry.1 = false → entry.2 = none)
    (found : List (String × Datum)) :
    collect found (entries.filter fun entry => keep entry.1) = collect found entries := by
  induction entries generalizing found with
  | nil => rfl
  | cons entry entries ih =>
    have hrest := ih fun other hother => h other (List.mem_cons_of_mem _ hother)
    obtain ⟨key, reading?⟩ := entry
    by_cases hkeep : keep key = true
    · rw [List.filter_cons, if_pos hkeep]
      cases reading? with
      | none => exact hrest found
      | some reading =>
        rw [collect, collect]
        split
        · rfl
        · congr 1
          funext datum
          exact hrest ((key, datum) :: found)
    · have hnone : reading? = none :=
        h (key, reading?) List.mem_cons_self (Bool.not_eq_true _ ▸ hkeep)
      rw [List.filter_cons, if_neg hkeep, hnone, collect]
      exact hrest found

/-- What has been found, each datum trimmed by its key. -/
def trimFound (record : Record) (found : List (String × Datum)) : List (String × Datum) :=
  found.map fun entry => (entry.1, trimAt record entry.1 entry.2)

theorem map_trimFound_collect (record : Record) (found : List (String × Datum))
    (members : List (String × Json)) :
    (collect found (members.map fun member =>
        (member.1, readingAt? record member.1 member.2))).map (trimFound record) =
      collect (trimFound record found) (members.map fun member =>
        (member.1, trimmedReadingAt? record member.1 member.2)) := by
  induction members generalizing found with
  | nil => rfl
  | cons member members ih =>
    obtain ⟨key, value⟩ := member
    rw [List.map_cons, List.map_cons, trimmedReadingAt?]
    cases readingAt? record key value with
    | none => exact ih found
    | some reading =>
      have hlookup : ((trimFound record found).lookup key).isSome = (found.lookup key).isSome := by
        rw [trimFound, lookup_mapKeyed, Option.isSome_map]
      rw [Option.map_some, collect, collect, hlookup]
      split
      · rfl
      · cases reading with
        | error fault => rfl
        | ok datum => exact ih ((key, datum) :: found)

theorem settle_none_trim :
    ∀ slot ∈ record.slots, (settle slot none).map (trim slot.shape) = settle slot none := by
  cases record <;> simp only [Record.slots, List.forall_mem_cons] <;> and_intros <;>
    first | rfl | simp

/-- Slots are settled by trimmed data where they are by the data. -/
theorem map_trimEach_settleAll (found : List (String × Datum)) {slots : List Slot}
    (hslots : slots ⊆ record.slots) :
    (settleAll found slots).map (trimEach (slots.map fun slot => trim slot.shape)) =
      settleAll (trimFound record found) slots := by
  induction slots with
  | nil => rfl
  | cons slot slots ih =>
    have hmem : slot ∈ record.slots := hslots List.mem_cons_self
    have hslot : (settle slot (found.lookup slot.key)).map (trim slot.shape) =
        settle slot ((trimFound record found).lookup slot.key) := by
      rw [trimFound, lookup_mapKeyed, trimAt, slot?_key_of_mem record slot hmem]
      cases found.lookup slot.key with
      | none => exact settle_none_trim slot hmem
      | some d => rfl
    refine (map_trimEach_chainRead _ _).trans ?_
    rw [hslot, ih fun other hother => hslots (List.mem_cons_of_mem _ hother)]
    rfl

/-- The trimmed reading of an object is made of those of its members. -/
theorem trimmedRead_object (nullable : Bool) (record : Record) (members : List (String × Json)) :
    trimmedRead nullable (.record record) (.object members) = (do
      let found ← collect [] (KeyOrder.sort (members.map fun member =>
        (member.1, trimmedReadingAt? record member.1 member.2)))
      settleAll found record.slots) := by
  have hread : read .value none nullable (.record record) (Transcript.ofJson (.object members)) =
      (collect [] ((KeyOrder.sort members).map fun member =>
        (member.1, readingAt? record member.1 member.2)) >>= fun found =>
          settleAll found record.slots) := by
    rw [Transcript.ofJson, Json.ofJsonMembers_eq, KeyOrder.sort_map, ← readMembers_eq_collect]
    rfl
  have htrimmed : _ = collect [] ((KeyOrder.sort members).map fun member =>
      (member.1, trimmedReadingAt? record member.1 member.2)) :=
    map_trimFound_collect record [] (KeyOrder.sort members)
  rw [trimmedRead, hread, KeyOrder.sort_mapKeyed, ← htrimmed, funext (trim_record record)]
  cases collect [] ((KeyOrder.sort members).map fun member =>
    (member.1, readingAt? record member.1 member.2)) with
  | error fault => rfl
  | ok found => exact map_trimEach_settleAll found (List.Subset.refl _)

/-- A member can take the place of another one of its key that is read alike. -/
theorem trimmedRead_object_congr {key : String} {slot : Slot} {value other : Json}
    (hslot : record.slot? key = some slot)
    (h : trimmedRead slot.isNullable slot.shape other =
      trimmedRead slot.isNullable slot.shape value)
    (nullable : Bool) (front back : List (String × Json)) :
    trimmedRead nullable (.record record) (.object (front ++ (key, other) :: back)) =
      trimmedRead nullable (.record record) (.object (front ++ (key, value) :: back)) := by
  have hreading : trimmedReadingAt? record key other = trimmedReadingAt? record key value := by
    rw [trimmedReadingAt?, trimmedReadingAt?, readingAt?, readingAt?, trimAt, hslot]
    exact congrArg some h
  rw [trimmedRead_object, trimmedRead_object, List.map_append, List.map_append, List.map_cons,
    List.map_cons, hreading]

/-- A member that no slot asks for makes no difference, whatever its value. -/
theorem trimmedRead_object_skip {key : String} (hkey : record.slot? key = none) (extra : Json)
    (nullable : Bool) (front back : List (String × Json)) :
    trimmedRead nullable (.record record) (.object (front ++ (key, extra) :: back)) =
      trimmedRead nullable (.record record) (.object (front ++ back)) := by
  have hknown (members : List (String × Json)) :
      collect [] (KeyOrder.sort (members.map fun member =>
          (member.1, trimmedReadingAt? record member.1 member.2))) =
        collect [] (KeyOrder.sort ((members.map fun member =>
          (member.1, trimmedReadingAt? record member.1 member.2)).filter fun entry =>
            (record.slot? entry.1).isSome)) := by
    rw [KeyOrder.sort_filterKeyed fun key => (record.slot? key).isSome]
    refine (collect_filter (fun key => (record.slot? key).isSome) ?_ []).symm
    intro entry hentry hunknown
    obtain ⟨member, -, rfl⟩ := List.mem_map.mp (KeyOrder.mem_of_mem_sort hentry)
    have hnone : record.slot? member.1 = none := Option.isNone_iff_eq_none.mp (by simpa using hunknown)
    rw [trimmedReadingAt?, readingAt?, hnone]
    rfl
  rw [trimmedRead_object, trimmedRead_object, hknown, hknown (front ++ back), List.map_append,
    List.map_append, List.map_cons, List.filter_append, List.filter_append, List.filter_cons, hkey]
  rfl

end Members

/-! ## Loading -/

theorem listOf_trimTypes (d : Datum) :
    (trimTypes d).listOf TypeEntry.ofDatum =
      (d.listOf TypeEntry.ofDatum).filter TypeEntry.isConvertible := by
  induction d with
  | cons head tail _ ih =>
    rw [trimTypes, trimItems, ← trimTypes, Datum.listOf, List.filter_cons, ← ih]
    show (if (TypeEntry.ofDatum head).isConvertible then _ else _ : Datum).listOf _ = _
    split <;> rfl
  | _ => rfl

theorem ofDatum_trimSchema (d : Datum) :
    SchemaEntry.ofDatum (trimSchema d) = (SchemaEntry.ofDatum d).trimmed := by
  -- Only a chain of four parts says anything, and trimming keeps the length of a chain.
  rcases d with _ | _ | _ | _ | ⟨_, _ | _ | _ | _ | ⟨_, _ | _ | _ | _ | ⟨_, _ | _ | _ | _ |
    ⟨types, _ | _ | _ | _ | _⟩⟩⟩⟩
  case cons.cons.cons.cons.nil => exact congrArg (SchemaEntry.mk _ _ _) (listOf_trimTypes types)
  all_goals rfl

theorem entryOf?_trimSchema (d : Datum) :
    (trimSchema d).entryOf? SchemaEntry.ofDatum =
      (d.entryOf? SchemaEntry.ofDatum).map SchemaEntry.trimmed := by
  cases d with
  | absent => rfl
  | _ => exact congrArg some (ofDatum_trimSchema _)

theorem ofData?_trimData (d : Datum) :
    SchemaEntry.ofData? (trimData d) = (SchemaEntry.ofData? d).map SchemaEntry.trimmed := by
  rcases d with _ | _ | _ | _ | ⟨schema, _ | _ | _ | _ | _⟩
  case cons.nil => exact entryOf?_trimSchema schema
  all_goals rfl

theorem ofResponse?_trimResponse (d : Datum) :
    SchemaEntry.ofResponse? (trimResponse d) =
      (SchemaEntry.ofResponse? d).map SchemaEntry.trimmed := by
  rcases d with _ | _ | _ | _ | ⟨data, _ | _ | _ | _ | ⟨schema, _ | _ | _ | _ | _⟩⟩
  case cons.cons.nil =>
    show (SchemaEntry.ofData? (trimData data)).or
      ((trimSchema schema).entryOf? SchemaEntry.ofDatum) = Option.map _ (Option.or _ _)
    rw [ofData?_trimData, entryOf?_trimSchema, Option.map_or]
  all_goals rfl

/-- Loading tells no datum from its trimmed one. -/
theorem schemaOfResponse_trimResponse (d : Datum) :
    schemaOfResponse (trimResponse d) = schemaOfResponse d := by
  rw [schemaOfResponse, schemaOfResponse, ofResponse?_trimResponse]
  cases SchemaEntry.ofResponse? d with
  | none => rfl
  | some entry => exact entry.schema_trimmed

theorem loadValue_eq_trimmedRead (value : Json) :
    loadValue value = loadRead (trimmedRead false (.record .response) value) := by
  rw [loadValue_eq, readValue, trimmedRead, Source.levels]
  cases read .value none false (.record .response) (Transcript.ofJson value) with
  | error fault => rfl
  | ok d => exact (schemaOfResponse_trimResponse d).symm

end SchemaBinding.Introspection
