import SchemaBinding.Json.Transcript
import SchemaBinding.Proofs.Json.SortedEntries

/-!
# Values in canonical form

A value keeps the members of its objects as they stand in a text, and it is
read again with the members sorted by key and the last of each key.  Both ways
of reading go through the plain transcript of a value, which changes nothing:
a text without defects has the plain transcript of its value, and a value that
is read again has the plain transcript of its canonical form.
-/

namespace SchemaBinding

namespace Json

/-! ## Induction over values -/

/-- What holds of a value as soon as it holds of its items or members holds of all values. -/
@[elab_as_elim]
theorem nestedInduction
    {motive : Json → Prop} (value : Json) (null : motive .null)
    (boolean : ∀ b, motive (.boolean b)) (number : ∀ n, motive (.number n))
    (string : ∀ s, motive (.string s))
    (array : ∀ items, (∀ item ∈ items, motive item) → motive (.array items))
    (object : ∀ members, (∀ member ∈ members, motive member.2) → motive (.object members)) :
    motive value := by
  refine @Json.rec motive (fun items => ∀ item ∈ items, motive item)
    (fun members => ∀ member ∈ members, motive member.2) (fun member => motive member.2)
    null boolean number string array object ?_ ?_ ?_ ?_ ?_ value
  · simp
  · intro head tail hhead htail
    simpa using ⟨hhead, htail⟩
  · simp
  · intro head tail hhead htail
    rw [List.forall_mem_cons]
    exact ⟨hhead, htail⟩
  · exact fun _ _ hvalue => hvalue

/-! ## Plain transcripts -/

mutual

/-- The transcript of a value, its members in their own order. -/
def plain : Json → Transcript
  | .null => .null
  | .boolean b => .boolean b
  | .number n => .number n
  | .string s => .string s
  | .array items => .array (.ofList (plainItems items))
  | .object members => .object (.ofList (plainMembers members))

def plainItems : List Json → List Transcript
  | [] => []
  | item :: items => item.plain :: plainItems items

def plainMembers : List (String × Json) → List (String × Transcript)
  | [] => []
  | (key, value) :: members => (key, value.plain) :: plainMembers members

end

mutual

/-- The value with the members of its objects sorted by key, the last of each key. -/
def canonical : Json → Json
  | .null => .null
  | .boolean b => .boolean b
  | .number n => .number n
  | .string s => .string s
  | .array items => .array (canonicalItems items)
  | .object members => .object (KeyOrder.sort (canonicalMembers members))

def canonicalItems : List Json → List Json
  | [] => []
  | item :: items => item.canonical :: canonicalItems items

def canonicalMembers : List (String × Json) → List (String × Json)
  | [] => []
  | (key, value) :: members => (key, value.canonical) :: canonicalMembers members

end

theorem plainItems_eq (items : List Json) : plainItems items = items.map plain := by
  induction items with
  | nil => rfl
  | cons item items ih => rw [plainItems, ih, List.map_cons]

theorem plainMembers_eq (members : List (String × Json)) :
    plainMembers members = members.map fun member => (member.1, member.2.plain) := by
  induction members with
  | nil => rfl
  | cons member members ih => rw [plainMembers, ih, List.map_cons]

theorem canonicalItems_eq (items : List Json) : canonicalItems items = items.map canonical := by
  induction items with
  | nil => rfl
  | cons item items ih => rw [canonicalItems, ih, List.map_cons]

theorem canonicalMembers_eq (members : List (String × Json)) :
    canonicalMembers members = members.map fun member => (member.1, member.2.canonical) := by
  induction members with
  | nil => rfl
  | cons member members ih => rw [canonicalMembers, ih, List.map_cons]

theorem ofJsonList_eq (items : List Json) :
    Transcript.ofJsonList items = items.map Transcript.ofJson := by
  induction items with
  | nil => rfl
  | cons item items ih => rw [Transcript.ofJsonList, ih, List.map_cons]

theorem ofJsonMembers_eq (members : List (String × Json)) :
    Transcript.ofJsonMembers members =
      members.map fun member => (member.1, Transcript.ofJson member.2) := by
  induction members with
  | nil => rfl
  | cons member members ih => rw [Transcript.ofJsonMembers, ih, List.map_cons]

/-- A value that is read again has the transcript of its canonical form. -/
theorem ofJson_eq_plain_canonical (value : Json) :
    Transcript.ofJson value = value.canonical.plain := by
  induction value using nestedInduction with
  | null => rfl
  | boolean b => rfl
  | number n => rfl
  | string s => rfl
  | array items ih =>
    rw [Transcript.ofJson, canonical, plain, ofJsonList_eq, canonicalItems_eq, plainItems_eq,
      List.map_map]
    congr 2
    exact List.map_congr_left ih
  | object members ih =>
    rw [Transcript.ofJson, canonical, plain, ofJsonMembers_eq, canonicalMembers_eq,
      plainMembers_eq, ← KeyOrder.sort_map, List.map_map]
    congr 3
    exact List.map_congr_left fun member hmember => by simp [ih member hmember]

theorem skipFault?_plain (value : Json) : value.plain.skipFault? = none := by
  induction value using nestedInduction with
  | null => rfl
  | boolean b => rfl
  | number n => rfl
  | string s => rfl
  | array items ih =>
    rw [plain, Transcript.skipFault?, plainItems_eq]
    induction items with
    | nil => rfl
    | cons item items ihitems =>
      rw [List.map_cons, Items.ofList, Transcript.skipItemsFault?, ih item (by simp),
        Option.none_or]
      exact ihitems fun other hother => ih other (List.mem_cons_of_mem item hother)
  | object members ih =>
    rw [plain, Transcript.skipFault?, plainMembers_eq]
    induction members with
    | nil => rfl
    | cons member members ihmembers =>
      rw [List.map_cons, Members.ofList, Transcript.skipMembersFault?, ih member (by simp),
        Option.none_or]
      exact ihmembers fun other hother => ih other (List.mem_cons_of_mem member hother)

/-! ## Values that nest so deep at most -/

/-- A value nests at most so many levels deep. -/
def Fits (levels : Option Nat) (value : Json) : Prop :=
  value.plain.value? levels = some value

mutual

/-- A transcript that has a value is the plain transcript of it. -/
theorem eq_plain_of_value?
    {levels : Option Nat} : ∀ {transcript : Transcript} {value : Json},
      transcript.value? levels = some value → transcript = value.plain
  | .null, _, h => by
    cases h
    rfl
  | .boolean _, _, h => by
    cases h
    rfl
  | .number _, _, h => by
    cases h
    rfl
  | .string _, _, h => by
    cases h
    rfl
  | .array items, _, h => by
    rw [Transcript.value?] at h
    obtain ⟨inner, -, h⟩ := Option.bind_eq_some_iff.mp h
    obtain ⟨values, hvalues, h⟩ := Option.bind_eq_some_iff.mp h
    cases h
    rw [plain, eq_plainItems_of_itemValues? hvalues]
  | .object members, _, h => by
    rw [Transcript.value?] at h
    obtain ⟨inner, -, h⟩ := Option.bind_eq_some_iff.mp h
    obtain ⟨values, hvalues, h⟩ := Option.bind_eq_some_iff.mp h
    cases h
    rw [plain, eq_plainMembers_of_memberValues? hvalues]
  | .flawed _ _, _, h => nomatch h

theorem eq_plainItems_of_itemValues?
    {levels : Option Nat} : ∀ {items : Items} {values : List Json},
      Transcript.itemValues? levels items = some values → items = .ofList (plainItems values)
  | .closed, _, h => by
    cases h
    rfl
  | .broken _, _, h => nomatch h
  | .cons head tail, _, h => by
    rw [Transcript.itemValues?] at h
    obtain ⟨value, hvalue, h⟩ := Option.bind_eq_some_iff.mp h
    obtain ⟨values, hvalues, h⟩ := Option.bind_eq_some_iff.mp h
    cases h
    rw [plainItems, Items.ofList, eq_plain_of_value? hvalue, eq_plainItems_of_itemValues? hvalues]

theorem eq_plainMembers_of_memberValues?
    {levels : Option Nat} : ∀ {members : Members} {values : List (String × Json)},
      Transcript.memberValues? levels members = some values →
        members = .ofList (plainMembers values)
  | .closed, _, h => by
    cases h
    rfl
  | .broken _ _, _, h => nomatch h
  | .cons none _ _, _, h => nomatch h
  | .cons (some key) value tail, _, h => by
    rw [Transcript.memberValues?] at h
    obtain ⟨found, hfound, h⟩ := Option.bind_eq_some_iff.mp h
    obtain ⟨values, hvalues, h⟩ := Option.bind_eq_some_iff.mp h
    cases h
    rw [plainMembers, Members.ofList, eq_plain_of_value? hfound,
      eq_plainMembers_of_memberValues? hvalues]

end

theorem Fits.of_value?
    {levels : Option Nat} {transcript : Transcript} {value : Json}
    (h : transcript.value? levels = some value) : value.Fits levels := by
  rw [Fits, ← eq_plain_of_value? h]
  exact h

theorem fits_of_itemValues?
    {levels : Option Nat} {items : List Json}
    (h : Transcript.itemValues? levels (.ofList (items.map plain)) = some items) :
    ∀ item ∈ items, item.Fits levels := by
  induction items with
  | nil => simp
  | cons item items ih =>
    rw [List.map_cons, Items.ofList, Transcript.itemValues?] at h
    obtain ⟨found, hfound, h⟩ := Option.bind_eq_some_iff.mp h
    obtain ⟨rest, hrest, h⟩ := Option.bind_eq_some_iff.mp h
    cases h
    rw [List.forall_mem_cons]
    exact ⟨hfound, ih hrest⟩

theorem fits_of_memberValues?
    {levels : Option Nat} {members : List (String × Json)}
    (h : Transcript.memberValues? levels
      (.ofList (members.map fun member => (member.1, member.2.plain))) = some members) :
    ∀ member ∈ members, member.2.Fits levels := by
  induction members with
  | nil => simp
  | cons member members ih =>
    obtain ⟨key, value⟩ := member
    rw [List.map_cons, Members.ofList, Transcript.memberValues?] at h
    obtain ⟨found, hfound, h⟩ := Option.bind_eq_some_iff.mp h
    obtain ⟨rest, hrest, h⟩ := Option.bind_eq_some_iff.mp h
    cases h
    rw [List.forall_mem_cons]
    exact ⟨hfound, ih hrest⟩

theorem Fits.items
    {levels : Option Nat} {items : List Json} (h : (Json.array items).Fits levels) :
    ∃ inner, Transcript.descend levels = some inner ∧ ∀ item ∈ items, item.Fits inner := by
  rw [Fits, plain, Transcript.value?, plainItems_eq] at h
  obtain ⟨inner, hinner, h⟩ := Option.bind_eq_some_iff.mp h
  obtain ⟨values, hvalues, h⟩ := Option.bind_eq_some_iff.mp h
  cases h
  exact ⟨inner, hinner, fits_of_itemValues? hvalues⟩

theorem Fits.members
    {levels : Option Nat} {members : List (String × Json)} (h : (Json.object members).Fits levels) :
    ∃ inner, Transcript.descend levels = some inner ∧
      ∀ member ∈ members, member.2.Fits inner := by
  rw [Fits, plain, Transcript.value?, plainMembers_eq] at h
  obtain ⟨inner, hinner, h⟩ := Option.bind_eq_some_iff.mp h
  obtain ⟨values, hvalues, h⟩ := Option.bind_eq_some_iff.mp h
  cases h
  exact ⟨inner, hinner, fits_of_memberValues? hvalues⟩

theorem itemValues?_of_fits
    {levels : Option Nat} {items : List Json}
    (h : ∀ item ∈ items, item.Fits levels) :
    Transcript.itemValues? levels (.ofList (items.map plain)) = some items := by
  induction items with
  | nil => rfl
  | cons item items ih =>
    have hhead : item.plain.value? levels = some item := h item (by simp)
    have htail := ih fun other hother => h other (List.mem_cons_of_mem item hother)
    rw [List.map_cons, Items.ofList, Transcript.itemValues?, hhead, htail]
    rfl

theorem memberValues?_of_fits
    {levels : Option Nat} {members : List (String × Json)}
    (h : ∀ member ∈ members, member.2.Fits levels) :
    Transcript.memberValues? levels
      (.ofList (members.map fun member => (member.1, member.2.plain))) = some members := by
  induction members with
  | nil => rfl
  | cons member members ih =>
    have hhead : member.2.plain.value? levels = some member.2 := h member (by simp)
    have htail := ih fun other hother => h other (List.mem_cons_of_mem member hother)
    rw [List.map_cons, Members.ofList, Transcript.memberValues?, hhead, htail]
    rfl

/-- Without a limit every value fits. -/
theorem fits_none (value : Json) : value.Fits none := by
  induction value using nestedInduction with
  | null => rfl
  | boolean b => rfl
  | number n => rfl
  | string s => rfl
  | array items ih =>
    rw [Fits, plain, Transcript.value?, plainItems_eq, Transcript.descend]
    simp only [Option.bind_eq_bind, Option.bind_some, itemValues?_of_fits ih]
    rfl
  | object members ih =>
    rw [Fits, plain, Transcript.value?, plainMembers_eq, Transcript.descend]
    simp only [Option.bind_eq_bind, Option.bind_some, memberValues?_of_fits ih]
    rfl

end Json

end SchemaBinding
