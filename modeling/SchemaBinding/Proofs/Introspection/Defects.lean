import Mathlib.Data.List.Infix
import SchemaBinding.Proofs.Introspection.Loaded

/-!
# The first defect

Loading looks at the references of an introspection result one after another
and ends at the first one that has a defect.  Roots are looked at when all
references are sound.  So the error of a result is told by two lists, that of
its references and that of its roots, and by nothing else that the result says.
-/

namespace SchemaBinding.Introspection

/-- The first of the items that have a property. -/
def IsFirst {α : Type} (P : α → Prop) (items : List α) (item : α) : Prop :=
  P item ∧ ∃ before after, items = before ++ item :: after ∧ ∀ other ∈ before, ¬P other

theorem IsFirst.mem
    {α : Type} {P : α → Prop} {items : List α} {item : α} (h : IsFirst P items item) :
    item ∈ items := by
  obtain ⟨-, before, after, rfl, -⟩ := h
  simp

theorem exists_isFirst
    {α : Type} {P : α → Prop} {items : List α} (h : ∃ item ∈ items, P item) :
    ∃ item, IsFirst P items item := by
  induction items with
  | nil => simp at h
  | cons a as ih =>
    by_cases ha : P a
    · exact ⟨a, ha, [], as, rfl, by simp⟩
    · have hrest : ∃ item ∈ as, P item := by simpa [ha] using h
      obtain ⟨item, hitem, before, after, rfl, hbefore⟩ := ih hrest
      exact ⟨item, hitem, a :: before, after, rfl, List.forall_mem_cons.mpr ⟨ha, hbefore⟩⟩

theorem findSome?_eq_some_iff_isFirst
    {α β : Type} {f : α → Option β} {items : List α} {b : β} :
    items.findSome? f = some b ↔ ∃ item, IsFirst (fun a => f a ≠ none) items item ∧
      f item = some b := by
  rw [List.findSome?_eq_some_iff]
  constructor
  · rintro ⟨before, item, after, rfl, hitem, hbefore⟩
    refine ⟨item, ⟨by simp [hitem], before, after, rfl, ?_⟩, hitem⟩
    intro other hother
    exact not_not_intro (hbefore other hother)
  · rintro ⟨item, ⟨-, before, after, rfl, hbefore⟩, hitem⟩
    exact ⟨before, item, after, rfl, hitem, fun other hother => not_not.mp (hbefore other hother)⟩

/-! ## References -/

namespace RefEntry

/-- The kinds of the wrappers of a reference, from the outside. -/
def wrappers : RefEntry → List String
  | plain _ _ => []
  | wrapping kind _ inner => if isWrapper kind then kind :: inner.wrappers else []

/-- What is left of a reference inside its wrappers: the type that it names, or a
wrapper that has nothing inside. -/
def tip : RefEntry → RefEntry
  | plain kind name => plain kind name
  | wrapping kind name inner => if isWrapper kind then inner.tip else wrapping kind name inner

/-- What is wrong with a reference.  The end of the chain is looked at first. -/
def defect? (entry : RefEntry) : Option RefDefect :=
  if isWrapper entry.tip.kind then some (.withoutInner entry.tip.kind)
  else if entry.tip.name? = none then some (.withoutName entry.tip.kind)
  else if ["NON_NULL", "NON_NULL"] <:+: entry.wrappers then some .doubleNonNull
  else none

theorem failureOf?_leafRef (kind : String) (name : Option String) :
    failureOf? (leafRef kind name) = if name = none then some (.withoutName kind) else none := by
  cases name <;> rfl

theorem failureOf?_wrap (kind : String) (inner : TypeRef) :
    failureOf? (wrap kind inner) =
      if kind = "NON_NULL" ∧ inner.isNonNull then some .doubleNonNull else none := by
  unfold wrap
  by_cases hkind : kind = "NON_NULL"
  · by_cases hinner : inner.isNonNull = true <;> simp [hkind, hinner, failureOf?]
  · simp [hkind, failureOf?]

theorem isNonNull_of_leafRef
    {kind : String} {name : Option String} {type : TypeRef} (h : leafRef kind name = .ok type) :
    type.isNonNull = false := by
  cases name with
  | none => cases h
  | some name =>
    cases h
    rfl

theorem isNonNull_of_wrap
    {kind : String} {inner type : TypeRef} (h : wrap kind inner = .ok type) :
    type.isNonNull ↔ kind = "NON_NULL" := by
  unfold wrap at h
  split at h
  next hkind =>
    split at h
    · cases h
    · cases h
      simp [hkind, TypeRef.isNonNull]
  next hkind =>
    cases h
    simp [hkind, TypeRef.isNonNull]

/-- The mark of the outermost wrapper is the one that the reference has. -/
theorem isNonNull_of_typeRef {entry : RefEntry} {type : TypeRef} (h : entry.typeRef = .ok type) :
    type.isNonNull ↔ entry.wrappers.head? = some "NON_NULL" := by
  cases entry with
  | plain kind name =>
    rw [RefEntry.typeRef] at h
    split at h
    · cases h
    · simp [wrappers, isNonNull_of_leafRef h]
  | wrapping kind name inner =>
    rw [RefEntry.typeRef] at h
    split at h
    next hkind =>
      obtain ⟨innerType, -, hwrap⟩ := bind_eq_ok h
      rw [wrappers, if_pos hkind, List.head?_cons, Option.some_inj]
      exact isNonNull_of_wrap hwrap
    next hkind => simp [wrappers, hkind, isNonNull_of_leafRef h]

/-- What is wrong inside a wrapper counts before what the wrapper itself does wrong. -/
theorem defect?_wrapping {kind : String} (hkind : isWrapper kind = true) (name : Option String)
    (inner : RefEntry) :
    (wrapping kind name inner).defect? = inner.defect?.or
      (if kind = "NON_NULL" ∧ inner.wrappers.head? = some "NON_NULL" then some .doubleNonNull
        else none) := by
  have htip : (wrapping kind name inner).tip = inner.tip := if_pos hkind
  have hwrappers : (wrapping kind name inner).wrappers = kind :: inner.wrappers := if_pos hkind
  have hhead : ["NON_NULL", "NON_NULL"] <+: kind :: inner.wrappers ↔
      kind = "NON_NULL" ∧ inner.wrappers.head? = some "NON_NULL" := by
    cases inner.wrappers <;> simp [List.cons_prefix_cons, eq_comm]
  unfold defect?
  simp only [htip, hwrappers, List.infix_cons_iff, hhead]
  by_cases hinner : isWrapper inner.tip.kind = true
  · simp [hinner]
  · by_cases hname : inner.tip.name? = none
    · simp [hinner, hname]
    · by_cases hdouble : ["NON_NULL", "NON_NULL"] <:+: inner.wrappers
      · simp [hinner, hname, hdouble]
      · simp [hinner, hname, hdouble]

/-- Checking a reference from the inside out finds the defect that counts. -/
theorem failureOf?_typeRef (entry : RefEntry) : failureOf? entry.typeRef = entry.defect? := by
  induction entry with
  | plain kind name =>
    by_cases hkind : isWrapper kind = true
    · simp [RefEntry.typeRef, defect?, tip, RefEntry.kind, hkind, failureOf?]
    · rw [RefEntry.typeRef, if_neg hkind, failureOf?_leafRef]
      simp [defect?, tip, wrappers, RefEntry.kind, name?, hkind]
  | wrapping kind name inner ih =>
    by_cases hkind : isWrapper kind = true
    · -- whether a wrapper doubles a mark shows in the wrapper right inside it
      have hwrap : ∀ type, inner.typeRef = .ok type → failureOf? (wrap kind type) =
          if kind = "NON_NULL" ∧ inner.wrappers.head? = some "NON_NULL" then some .doubleNonNull
          else none := by
        intro type htype
        simp only [failureOf?_wrap, isNonNull_of_typeRef htype]
      rw [RefEntry.typeRef, if_pos hkind, failureOf?_bind hwrap, ih, defect?_wrapping hkind]
    · rw [RefEntry.typeRef, if_neg hkind, failureOf?_leafRef]
      simp [defect?, tip, wrappers, RefEntry.kind, name?, hkind]

end RefEntry

/-! ## The walk over the references -/

/-- A reference and the location that its defect is reported at. -/
structure PlacedRef where
  location : String
  type : RefEntry
deriving DecidableEq, Repr

def PlacedRef.error? (ref : PlacedRef) : Option LoadError :=
  ref.type.defect?.map fun defect => .invalidTypeRef ref.location defect.message

def InputEntry.reference (owner : String) (entry : InputEntry) : PlacedRef :=
  ⟨place owner entry.name, entry.type⟩

/-- The references of a field: that of its type and those of its arguments. -/
def FieldEntry.references (owner : String) (entry : FieldEntry) : List PlacedRef :=
  ⟨place owner entry.name, entry.type⟩ ::
    entry.arguments.map (InputEntry.reference (place owner entry.name))

/-- The references of an entry that are looked at, which has to have a name. -/
def TypeEntry.references (entry : TypeEntry) : List PlacedRef :=
  match entry.name with
  | none => []
  | some owner =>
    if entry.kind = "OBJECT" ∨ entry.kind = "INTERFACE" then
      (entry.fields.getD []).flatMap (FieldEntry.references owner)
    else if entry.kind = "INPUT_OBJECT" then
      (entry.inputFields.getD []).map (InputEntry.reference owner)
    else []

/-- The references of a result in the order in which they are looked at. -/
def SchemaEntry.references (entry : SchemaEntry) : List PlacedRef :=
  entry.types.flatMap TypeEntry.references

theorem findSome?_flatMap {α β γ : Type} (f : β → Option γ) (g : α → List β) (as : List α) :
    (as.flatMap g).findSome? f = as.findSome? fun a => (g a).findSome? f := by
  induction as with
  | nil => rfl
  | cons a as ih =>
    rw [List.flatMap_cons, List.findSome?_append, List.findSome?_cons, ih]
    cases (g a).findSome? f <;> rfl

theorem failureOf?_refAt (location : String) (entry : RefEntry) :
    failureOf? (refAt location entry) = (PlacedRef.mk location entry).error? := by
  rw [PlacedRef.error?, ← entry.failureOf?_typeRef, refAt]
  cases entry.typeRef <;> rfl

theorem failureOf?_argument (owner : String) (entry : InputEntry) :
    failureOf? (entry.argument owner) = (entry.reference owner).error? := by
  rw [InputEntry.argument, failureOf?_bind_return, failureOf?_refAt]
  rfl

theorem failureOf?_inputField (owner : String) (entry : InputEntry) :
    failureOf? (entry.field owner) = (entry.reference owner).error? := by
  rw [InputEntry.field, failureOf?_bind_return, failureOf?_refAt]
  rfl

/-- Entries with one reference each fail at the first bad one. -/
theorem failureOf?_mapM_of_reference
    {α β : Type} {f : α → Except LoadError β} {reference : α → PlacedRef}
    (h : ∀ entry, failureOf? (f entry) = (reference entry).error?) (entries : List α) :
    failureOf? (entries.mapM f) = (entries.map reference).findSome? PlacedRef.error? := by
  rw [failureOf?_mapM, List.findSome?_map]
  congr 1
  funext entry
  exact h entry

theorem failureOf?_field (owner : String) (entry : FieldEntry) :
    failureOf? (entry.field owner) = (entry.references owner).findSome? PlacedRef.error? := by
  have harguments := failureOf?_mapM_of_reference
    (failureOf?_argument (place owner entry.name)) entry.arguments
  rw [FieldEntry.field, FieldEntry.references, List.findSome?_cons, ← failureOf?_refAt]
  rw [failureOf?_bind fun type _ => (failureOf?_bind_return _ _).trans harguments]
  cases failureOf? (refAt (place owner entry.name) entry.type) <;> rfl

theorem failureOf?_fields (owner : String) (entries : List FieldEntry) :
    failureOf? (entries.mapM (FieldEntry.field owner)) =
      (entries.flatMap (FieldEntry.references owner)).findSome? PlacedRef.error? := by
  rw [failureOf?_mapM, findSome?_flatMap]
  congr 1
  funext field
  exact failureOf?_field owner field

/-- Only three kinds have references that are looked at. -/
theorem failureOf?_body? {owner : String} {entry : TypeEntry} (hname : entry.name = some owner) :
    failureOf? (entry.body? owner) = entry.references.findSome? PlacedRef.error? := by
  rw [TypeEntry.references, hname]
  unfold TypeEntry.body?
  by_cases hobject : entry.kind = "OBJECT"
  · simp only [hobject, if_true, true_or]
    rw [failureOf?_bind_return, failureOf?_fields]
  by_cases hinterface : entry.kind = "INTERFACE"
  · simp only [hinterface, if_true, or_true]
    rw [if_neg (by decide), failureOf?_bind_return, failureOf?_fields]
  by_cases hinput : entry.kind = "INPUT_OBJECT"
  · simp only [hinput, if_true]
    rw [if_neg (by decide), if_neg (by decide), failureOf?_bind_return,
      failureOf?_mapM_of_reference (failureOf?_inputField owner), if_neg (by decide)]
  simp only [hobject, hinterface, hinput, if_false, or_self]
  split
  · rfl
  split
  · rfl
  split <;> rfl

theorem failureOf?_definition? (entry : TypeEntry) :
    failureOf? entry.definition? = entry.references.findSome? PlacedRef.error? := by
  cases hname : entry.name with
  | none => simp [TypeEntry.definition?, TypeEntry.references, hname, failureOf?]
  | some name =>
    rw [← failureOf?_body? hname, TypeEntry.definition?, hname]
    exact failureOf?_bind_return _ _

theorem failureOf?_definitions (entries : List TypeEntry) :
    failureOf? (definitions entries) =
      (entries.flatMap TypeEntry.references).findSome? PlacedRef.error? := by
  induction entries with
  | nil => rfl
  | cons entry entries ih =>
    rw [definitions, failureOf?_bind fun _ _ => (failureOf?_bind_return _ _).trans ih,
      failureOf?_definition?, List.flatMap_cons, List.findSome?_append]

/-! ## Roots -/

namespace SchemaEntry

def rootName? (entry : SchemaEntry) : Operation → Option String
  | .query => entry.query
  | .mutation => entry.mutation
  | .subscription => entry.subscription

/-- The roots that a result gives, in the order in which they are looked at. -/
def roots (entry : SchemaEntry) : List (Operation × String) :=
  Operation.all.filterMap fun operation =>
    (entry.rootName? operation).map fun name => (operation, name)

/-- The names of the types that a result makes. -/
def typeNames (entry : SchemaEntry) : List String :=
  (entry.types.filter TypeEntry.isConvertible).map TypeEntry.key

/-- The error of a root that is no type of the result. -/
def rootError? (entry : SchemaEntry) (root : Operation × String) : Option LoadError :=
  if root.2 ∈ entry.typeNames then none else some (.unknownRoot root.1.keyword root.2)

/-- A root is looked up among the names of the entries that made definitions. -/
theorem isNone_find?_definitions_iff
    {entry : SchemaEntry} {ds : List TypeDefinition} (h : definitions entry.types = .ok ds)
    {name : String} : ((Catalog.ofList ds).find? name).isNone ↔ name ∉ entry.typeNames := by
  rw [Catalog.isNone_find?_iff, (settled_of_definitions h).order, List.mem_eraseDups, typeNames]

theorem map_find?_eq_findSome? {α β : Type} (p : α → Bool) (f : α → β) (as : List α) :
    (as.find? p).map f = as.findSome? fun a => if p a then some (f a) else none := by
  induction as with
  | nil => rfl
  | cons a as ih =>
    rw [List.find?_cons, List.findSome?_cons, ← ih]
    cases p a <;> rfl

theorem failureOf?_schema (entry : SchemaEntry) :
    failureOf? entry.schema = (entry.references.findSome? PlacedRef.error?).or
      (entry.roots.findSome? entry.rootError?) := by
  have hroots : ∀ ds, definitions entry.types = .ok ds →
      unknownRoot? ⟨.ofList ds, entry.query, entry.mutation, entry.subscription⟩ =
        entry.roots.findSome? entry.rootError? := by
    intro ds hds
    rw [unknownRoot?, map_find?_eq_findSome?]
    change entry.roots.findSome? _ = _
    congr 1
    funext root
    by_cases hroot : root.2 ∈ entry.typeNames
    · rw [rootError?, if_pos hroot, if_neg]
      exact fun hnone => (isNone_find?_definitions_iff hds).mp hnone hroot
    · rw [rootError?, if_neg hroot, if_pos]
      exact (isNone_find?_definitions_iff hds).mpr hroot
  rw [SchemaEntry.schema, SchemaEntry.references, ← failureOf?_definitions]
  apply failureOf?_bind
  intro ds hds
  rw [← hroots ds hds]
  dsimp only
  split
  next error herror =>
    rw [herror]
    rfl
  next hnone =>
    rw [hnone]
    rfl

end SchemaEntry

/-! ## What is not looked at -/

/-- An entry without what a type of its kind does not hold, and without the references
that are read but not checked. -/
def TypeEntry.walked (entry : TypeEntry) : TypeEntry where
  kind := entry.kind
  name := entry.name
  description := none
  fields := if entry.kind = "OBJECT" ∨ entry.kind = "INTERFACE" then entry.fields else none
  inputFields := if entry.kind = "INPUT_OBJECT" then entry.inputFields else none
  interfaces := none
  enumValues := none
  possibleTypes := none

/-- The entries that make definitions, and of each what is looked at. -/
def SchemaEntry.walked (entry : SchemaEntry) : SchemaEntry :=
  { entry with types := entry.trimmed.types.map TypeEntry.walked }

theorem TypeEntry.references_walked (entry : TypeEntry) :
    entry.walked.references = entry.references := by
  unfold references
  change (match entry.name with | none => [] | some owner => _) = _
  cases entry.name with
  | none => rfl
  | some owner =>
    by_cases hfields : entry.kind = "OBJECT" ∨ entry.kind = "INTERFACE"
    · simp [walked, hfields]
    · by_cases hinput : entry.kind = "INPUT_OBJECT"
      · simp [walked, hinput]
      · simp [walked, hfields, hinput]

theorem SchemaEntry.references_walked (entry : SchemaEntry) :
    entry.walked.references = entry.trimmed.references := by
  rw [references, references, walked, List.flatMap_map]
  congr 1
  funext type
  exact type.references_walked

theorem SchemaEntry.typeNames_walked (entry : SchemaEntry) :
    entry.walked.typeNames = entry.trimmed.typeNames := by
  have hconvertible : TypeEntry.isConvertible ∘ TypeEntry.walked = TypeEntry.isConvertible := rfl
  have hkey : TypeEntry.key ∘ TypeEntry.walked = TypeEntry.key := rfl
  rw [typeNames, typeNames, walked, List.filter_map, hconvertible, List.map_map, hkey]

/-- The parts of a result that are not looked at have no say in how loading it fails. -/
theorem SchemaEntry.failureOf?_walked (entry : SchemaEntry) :
    failureOf? entry.walked.schema = failureOf? entry.schema := by
  have hroots : entry.walked.roots.findSome? entry.walked.rootError? =
      entry.trimmed.roots.findSome? entry.trimmed.rootError? := by
    congr 1
    funext root
    rw [rootError?, rootError?, entry.typeNames_walked]
  rw [← entry.schema_trimmed, failureOf?_schema, failureOf?_schema, entry.references_walked,
    hroots]

/-! ## The error of a result -/

/-- A reference with a defect. -/
def PlacedRef.IsBad (ref : PlacedRef) : Prop :=
  ref.type.defect? ≠ none

instance (ref : PlacedRef) : Decidable ref.IsBad :=
  inferInstanceAs (Decidable (ref.type.defect? ≠ none))

theorem PlacedRef.isBad_iff {ref : PlacedRef} : ref.IsBad ↔ ref.error? ≠ none := by
  rw [IsBad, error?, Ne, Ne, Option.map_eq_none_iff]

/-- What loading fails with: the first reference with a defect, or else the first root
that is no type of the result. -/
inductive SchemaEntry.FailsWith (entry : SchemaEntry) : LoadError → Prop where
  | reference {ref : PlacedRef} {defect : RefDefect}
      (first : IsFirst PlacedRef.IsBad entry.references ref)
      (bad : ref.type.defect? = some defect) :
      entry.FailsWith (.invalidTypeRef ref.location defect.message)
  | root {operation : Operation} {name : String}
      (sound : ∀ ref ∈ entry.references, ¬ref.IsBad)
      (first : IsFirst (fun root => root.2 ∉ entry.typeNames) entry.roots (operation, name)) :
      entry.FailsWith (.unknownRoot operation.keyword name)

theorem SchemaEntry.findSome?_references_eq_none_iff {entry : SchemaEntry} :
    entry.references.findSome? PlacedRef.error? = none ↔ ∀ ref ∈ entry.references, ¬ref.IsBad := by
  simp only [List.findSome?_eq_none_iff, PlacedRef.isBad_iff, not_not]

theorem SchemaEntry.rootError?_eq_none_iff {entry : SchemaEntry} {root : Operation × String} :
    entry.rootError? root = none ↔ root.2 ∈ entry.typeNames := by
  rw [rootError?, ite_eq_left_iff]
  simp

theorem SchemaEntry.failsWith_iff {entry : SchemaEntry} {error : LoadError} :
    entry.FailsWith error ↔ failureOf? entry.schema = some error := by
  have hbad : (fun ref : PlacedRef => ref.error? ≠ none) = PlacedRef.IsBad := by
    funext ref
    exact propext PlacedRef.isBad_iff.symm
  have hunknown : (fun root => entry.rootError? root ≠ none) =
      fun root : Operation × String => root.2 ∉ entry.typeNames := by
    funext root
    exact propext (not_congr rootError?_eq_none_iff)
  rw [failureOf?_schema, Option.or_eq_some_iff, findSome?_references_eq_none_iff,
    findSome?_eq_some_iff_isFirst, findSome?_eq_some_iff_isFirst, hbad, hunknown]
  constructor
  · rintro (⟨first, bad⟩ | ⟨sound, first⟩)
    · exact Or.inl ⟨_, first, by rw [PlacedRef.error?, bad]; rfl⟩
    · exact Or.inr ⟨sound, _, first, if_neg first.1⟩
  · rintro (⟨ref, first, herror⟩ | ⟨sound, ⟨operation, name⟩, first, herror⟩)
    · obtain ⟨defect, hdefect, rfl⟩ := Option.map_eq_some_iff.mp herror
      exact .reference first hdefect
    · rw [rootError?, if_neg first.1] at herror
      cases herror
      exact .root sound first

/-- A result that has been read is loaded, or it fails with its first bad reference, or
with its first unknown root where no reference is bad; nothing else makes it fail. -/
theorem load_fails_at_first_defect
    {input : Input} {entry : SchemaEntry} (h : input.entries? = some entry) :
    (∀ error, input.load = .error error ↔ entry.FailsWith error) ∧
      ((∃ location reason, input.load = .error (.invalidTypeRef location reason)) ↔
        ∃ ref ∈ entry.references, ref.IsBad) ∧
      ((∃ operation name, input.load = .error (.unknownRoot operation name)) ↔
        (∀ ref ∈ entry.references, ¬ref.IsBad) ∧
          ∃ root ∈ entry.roots, root.2 ∉ entry.typeNames) ∧
      ((∃ schema, input.load = .ok schema) ↔
        (∀ ref ∈ entry.references, ¬ref.IsBad) ∧ ∀ root ∈ entry.roots, root.2 ∈ entry.typeNames) ∧
      ∀ error, input.load = .error error ↔ entry.walked.schema = .error error := by
  have hload := Input.load_of_entries? h
  have hfails : ∀ error, input.load = .error error ↔ entry.FailsWith error := by
    intro error
    rw [hload, SchemaEntry.failsWith_iff, failureOf?_eq_some_iff]
  refine ⟨hfails, ?_, ?_, ?_, ?_⟩
  · constructor
    · rintro ⟨location, reason, herror⟩
      cases (hfails _).mp herror with
      | reference first bad => exact ⟨_, first.mem, first.1⟩
    · intro hbad
      obtain ⟨ref, first⟩ := exists_isFirst hbad
      obtain ⟨defect, hdefect⟩ := Option.ne_none_iff_exists'.mp first.1
      exact ⟨_, _, (hfails _).mpr (.reference first hdefect)⟩
  · constructor
    · rintro ⟨operation, name, herror⟩
      cases (hfails _).mp herror with
      | root sound first => exact ⟨sound, _, first.mem, first.1⟩
    · rintro ⟨sound, hunknown⟩
      obtain ⟨⟨operation, name⟩, first⟩ := exists_isFirst hunknown
      exact ⟨_, _, (hfails _).mpr (.root sound first)⟩
  · rw [← failureOf?_eq_none_iff, hload, SchemaEntry.failureOf?_schema, Option.or_eq_none_iff,
      SchemaEntry.findSome?_references_eq_none_iff, List.findSome?_eq_none_iff]
    simp only [SchemaEntry.rootError?_eq_none_iff]
  · intro error
    rw [hload, ← failureOf?_eq_some_iff, ← failureOf?_eq_some_iff, SchemaEntry.failureOf?_walked]

/-- A reference of a result with what it wraps. -/
def flawedWrapper (kind : String) (inner : Json) : Json :=
  .object [("kind", .string kind), ("ofType", inner)]

/-- A result with a bad reference that is not looked at, three that are, and an unknown root. -/
def flawedResult : Json :=
  .object [("data", .object [("__schema", .object
    [("mutationType", .object [("name", .string "M")]),
     ("types", .array
       [.object [("kind", .string "INPUT_OBJECT"),
          ("inputFields", .array
            [.object [("name", .string "lost"), ("type", flawedWrapper "LIST" .null)]])],
        .object [("kind", .string "OBJECT"), ("name", .string "Q"),
          ("fields", .array
            [.object [("name", .string "find"), ("args", .array
                [.object [("name", .string "by"), ("type", flawedWrapper "NON_NULL"
                    (flawedWrapper "NON_NULL" (flawedWrapper "LIST" .null)))],
                 .object [("name", .string "limit"),
                   ("type", .object [("kind", .string "SCALAR")])]]),
                ("type", .object [("kind", .string "OBJECT"), ("name", .string "Q")])],
             .object [("name", .string "all"), ("type", flawedWrapper "NON_NULL"
                (flawedWrapper "NON_NULL"
                  (.object [("kind", .string "OBJECT"), ("name", .string "Q")])))]])]])])])]

/-- The argument whose type ends in a list of nothing. -/
def flawedArgument : InputEntry where
  name := "by"
  description := none
  type := .wrapping "NON_NULL" none (.wrapping "NON_NULL" none (.plain "LIST" none))
  default := none

def flawedEntry : SchemaEntry where
  query := none
  mutation := some "M"
  subscription := none
  types :=
    [{ kind := "INPUT_OBJECT", name := none, description := none, fields := none
       inputFields := some [⟨"lost", none, .plain "LIST" none, none⟩]
       interfaces := none, enumValues := none, possibleTypes := none },
     { kind := "OBJECT", name := some "Q", description := none
       fields := some
         [{ name := "find", description := none
            arguments := [flawedArgument, ⟨"limit", none, .plain "SCALAR" none, none⟩]
            type := .plain "OBJECT" (some "Q"), isDeprecated := false, reason := none },
          { name := "all", description := none, arguments := []
            type := .wrapping "NON_NULL" none (.wrapping "NON_NULL" none
              (.plain "OBJECT" (some "Q")))
            isDeprecated := false, reason := none }]
       inputFields := none, interfaces := none, enumValues := none, possibleTypes := none }]

theorem load_fails_at_first_defect_flawed :
    (Input.value flawedResult).entries? = some flawedEntry ∧
      (Input.value flawedResult).load =
        .error (.invalidTypeRef "Q.find.by" "LIST without ofType") := by
  have hentries : (Input.value flawedResult).entries? = some flawedEntry := rfl
  have hfirst : IsFirst PlacedRef.IsBad flawedEntry.references
      (flawedArgument.reference "Q.find") :=
    ⟨by decide, [⟨"Q.find", .plain "OBJECT" (some "Q")⟩], _, rfl, by decide⟩
  exact ⟨hentries, ((load_fails_at_first_defect hentries).1 _).mpr (.reference hfirst rfl)⟩

end SchemaBinding.Introspection
