import Mathlib.Data.List.Nodup
import SchemaBinding.Proofs.Binding.Script
import SchemaBinding.Proofs.Schema.Consistent
import SchemaBinding.Proofs.Schema.Members

/-!
# Identifiers of a binding

The types of a binding are declared in one place and named in others: by
fields, behind `extends`, in unions and by the methods of an instance.  Such a
place stands for a name of the schema, and what it writes is the identifier of
that name, unless it writes a primitive out.  Where the names of a schema are
resolved, every such identifier is declared once, except that the types without
a declaration, the roots and those of introspection, are named all the same and
declared nowhere.
-/

namespace SchemaBinding

namespace TypeBody

def fields : TypeBody → List Field
  | object fields _ => fields.items
  | interface fields => fields.items
  | inputObject fields => fields.items
  | _ => []

def interfaces : TypeBody → List String
  | object _ interfaces => interfaces
  | _ => []

def members : TypeBody → List String
  | union members => members
  | _ => []

end TypeBody

/-- Every name in a schema is the name of a type of the kind that belongs there, and the
names that the identifier scalar is declared under are left to it. -/
structure Schema.Resolved (schema : Schema) : Prop where
  leaves : ∀ d ∈ schema.types.items, ∀ f ∈ d.body.fields, (schema.type? f.type.leaf).isSome
  interfaces : ∀ d ∈ schema.types.items, ∀ name ∈ d.body.interfaces,
    (schema.type? name).map TypeDefinition.kind = some .interface
  members : ∀ d ∈ schema.types.items, ∀ name ∈ d.body.members,
    (schema.type? name).map TypeDefinition.kind = some .object
  identifier : ∀ d ∈ schema.type? Binding.identifierScalar, d.kind = .scalar
  apart : ∀ position : Binding.Position,
    schema.type? (Binding.identifierScalar ++ position.suffix) = none

instance (schema : Schema) : Decidable schema.Resolved :=
  decidable_of_iff
    ((∀ d ∈ schema.types.items, ∀ f ∈ d.body.fields, (schema.type? f.type.leaf).isSome) ∧
      (∀ d ∈ schema.types.items, ∀ name ∈ d.body.interfaces,
        (schema.type? name).map TypeDefinition.kind = some .interface) ∧
      (∀ d ∈ schema.types.items, ∀ name ∈ d.body.members,
        (schema.type? name).map TypeDefinition.kind = some .object) ∧
      (∀ d ∈ schema.type? Binding.identifierScalar, d.kind = .scalar) ∧
      ∀ position ∈ [Binding.Position.input, .output],
        schema.type? (Binding.identifierScalar ++ position.suffix) = none)
    ⟨fun ⟨hleaves, hinterfaces, hmembers, hidentifier, hapart⟩ =>
        ⟨hleaves, hinterfaces, hmembers, hidentifier, fun position =>
          hapart position (by cases position <;> decide)⟩,
      fun h => ⟨h.leaves, h.interfaces, h.members, h.identifier, fun position _ =>
        h.apart position⟩⟩

namespace Binding

variable {options : Options} {schema : Schema} {x : String}

/-! ## Places -/

/-- A place of the binding that stands for a name of the schema. -/
inductive Place where
  /-- The leaf of the type of a field or of a method. -/
  | leaf (name : String) (position : Position)
  /-- An interface behind `extends`, or a member of a union. -/
  | reference (name : String)
deriving DecidableEq, Repr

namespace Place

/-- The name of the schema that a place stands for. -/
def origin : Place → String
  | leaf name _ => name
  | reference name => name

def text (inlineScalars : Bool) : Place → String
  | leaf name position => leafText inlineScalars position name
  | reference name => name

/-- Whether a place writes a primitive out. -/
def isInlined (inlineScalars : Bool) : Place → Bool
  | leaf name _ => inlineScalars && (primitiveType? name).isSome
  | reference _ => false

end Place

def leafPlaces (position : Position) (fields : List Field) : List Place :=
  fields.map fun f => .leaf f.type.leaf position

/-- The places of a declaration. -/
def bodyPlaces : TypeBody → List Place
  | .object fields interfaces => interfaces.map .reference ++ leafPlaces .output fields.items
  | .interface fields => leafPlaces .output fields.items
  | .inputObject fields => leafPlaces .input fields.items
  | .union members => members.map .reference
  | .enumeration _ => []
  | .scalar => []

/-- The places of a binding, in its declarations and in the methods of its instances. -/
def places (options : Options) (schema : Schema) : List Place :=
  (declaredTypes schema options.order).flatMap (fun d => bodyPlaces d.body) ++
    Operation.all.flatMap fun operation => leafPlaces .output (rootFields schema operation)

/-! ## Identifiers -/

def scriptDeclarations (options : Options) (schema : Schema) : List Script.Declaration :=
  (declaredTypes schema options.order).flatMap (Script.ofDefinition options)

def scriptMethods (options : Options) (schema : Schema) : List Script.Method :=
  Operation.all.flatMap (Script.methods options.inlineScalars schema)

/-- The identifiers that the declarations of a binding declare, one for each alias or
interface. -/
def declaredIdentifiers (options : Options) (schema : Schema) : List String :=
  (scriptDeclarations options schema).map Script.Declaration.name

/-- The identifiers of types that a binding uses. -/
def usedIdentifiers (options : Options) (schema : Schema) : List String :=
  (scriptDeclarations options schema).flatMap Script.Declaration.names ++
    (scriptMethods options schema).flatMap fun m => m.result.names

/-- The identifiers that a type of some name is declared under, where it is declared. -/
def identifiersOf (name : String) : List String :=
  if name = identifierScalar then [Position.input, .output].map fun position =>
    name ++ position.suffix
  else [name]

/-- The types that have no declaration: roots, and the types of introspection. -/
def IsHidden (schema : Schema) (name : String) : Prop :=
  schema.isRoot name = true ∨ ['_', '_'] <+: name.toList

instance (schema : Schema) (name : String) : Decidable (IsHidden schema name) :=
  inferInstanceAs (Decidable (_ ∨ _))

/-- The identifier scalar is declared, and a name is one of those that it is declared under. -/
def IsIdentifierAlias (schema : Schema) (name : String) : Prop :=
  (schema.type? identifierScalar).map TypeDefinition.kind = some .scalar ∧
    schema.isRoot identifierScalar = false ∧ name ∈ identifiersOf identifierScalar

instance (schema : Schema) (name : String) : Decidable (IsIdentifierAlias schema name) :=
  inferInstanceAs (Decidable (_ ∧ _))

/-! ## What is used is what the places write -/

theorem texts_leafPlaces (inlineScalars : Bool) (position : Position) (fields : List Field) :
    (leafPlaces position fields).map (Place.text inlineScalars) =
      fields.map fun f => leafText inlineScalars position f.type.leaf := by
  rw [leafPlaces, List.map_map]
  rfl

theorem texts_references (inlineScalars : Bool) (names : List String) :
    (names.map Place.reference).map (Place.text inlineScalars) = names := by
  rw [List.map_map]
  exact List.map_id names

/-- A field names the text of its leaf, once or, where a list stands beside its item, again
and again. -/
theorem mem_names_fields_iff {inlineScalars : Bool} {position : Position} {fields : List Field} :
    x ∈ fields.flatMap (fun f => (typeTree inlineScalars position f.type).names) ↔
      x ∈ (leafPlaces position fields).map (Place.text inlineScalars) := by
  rw [texts_leafPlaces, List.mem_flatMap, List.mem_map]
  constructor
  · rintro ⟨f, hf, hx⟩
    exact ⟨f, hf, (mem_names_typeTree_iff.mp hx).symm⟩
  · rintro ⟨f, hf, hx⟩
    exact ⟨f, hf, mem_names_typeTree_iff.mpr hx.symm⟩

theorem mem_names_members_iff {position : Position} {fields : Catalog Field} :
    (x ∈ (Script.members options.inlineScalars position fields).flatMap fun m => m.type.names) ↔
      x ∈ (leafPlaces position fields.items).map (Place.text options.inlineScalars) := by
  rw [Script.members, List.flatMap_map]
  exact mem_names_fields_iff

theorem mem_names_ofBody_iff {name : String} {body : TypeBody} :
    x ∈ (Script.ofBody options name body).flatMap Script.Declaration.names ↔
      x ∈ (bodyPlaces body).map (Place.text options.inlineScalars) := by
  cases body with
  | object fields interfaces =>
    rw [Script.ofBody, List.flatMap_singleton, Script.Declaration.names, bodyPlaces,
      List.map_append, texts_references, List.mem_append, List.mem_append, mem_names_members_iff]
  | interface fields =>
    rw [Script.ofBody, List.flatMap_singleton, Script.Declaration.names, List.nil_append]
    exact mem_names_members_iff
  | inputObject fields =>
    rw [Script.ofBody, List.flatMap_singleton, Script.Declaration.names]
    exact mem_names_members_iff
  | union types =>
    have hnames : (types.map Script.Alternative.name).filterMap Script.Alternative.name? = types := by
      simp [List.filterMap_map, Function.comp_def, Script.Alternative.name?]
    rw [Script.ofBody, List.flatMap_singleton, Script.Declaration.names, hnames, bodyPlaces,
      texts_references]
  | enumeration values =>
    simp [Script.ofBody, bodyPlaces, Script.Declaration.names, Script.Alternative.name?]
  | scalar =>
    by_cases hname : name = identifierScalar
    · simp [Script.ofBody, hname, bodyPlaces, Script.Declaration.names]
    · simp [Script.ofBody, hname, bodyPlaces, Script.Declaration.names]

/-- The identifiers in the trees of a binding are those that the places write. -/
theorem mem_usedIdentifiers_iff :
    x ∈ usedIdentifiers options schema ↔
      x ∈ (places options schema).map (Place.text options.inlineScalars) := by
  have hbodies : x ∈ (scriptDeclarations options schema).flatMap Script.Declaration.names ↔
      ∃ d ∈ declaredTypes schema options.order,
        x ∈ (bodyPlaces d.body).map (Place.text options.inlineScalars) := by
    rw [scriptDeclarations, List.flatMap_assoc, List.mem_flatMap]
    simp only [Script.ofDefinition, mem_names_ofBody_iff]
  have hmethods : (x ∈ (scriptMethods options schema).flatMap fun m => m.result.names) ↔
      ∃ operation ∈ Operation.all,
        x ∈ (leafPlaces .output (rootFields schema operation)).map
          (Place.text options.inlineScalars) := by
    rw [scriptMethods, List.flatMap_assoc, List.mem_flatMap]
    simp only [Script.methods, List.flatMap_map, ← mem_names_fields_iff]
    rfl
  rw [usedIdentifiers, List.mem_append, hbodies, hmethods, places, List.map_append,
    List.map_flatMap, List.map_flatMap, List.mem_append, List.mem_flatMap, List.mem_flatMap]

/-! ## Declared identifiers -/

/-- Every type but the identifier scalar is declared under its own name. -/
theorem names_ofDefinition_of_ne
    {d : TypeDefinition} (h : d.kind = .scalar → d.name ≠ identifierScalar) :
    (Script.ofDefinition options d).map Script.Declaration.name = [d.name] := by
  obtain ⟨name, description, body⟩ := d
  rw [Script.ofDefinition]
  cases body with
  | object | interface | inputObject | union | enumeration => rfl
  | scalar =>
    have hname : name ≠ identifierScalar := h rfl
    rw [Script.ofBody, if_neg hname]
    rfl

theorem names_ofDefinition
    {d : TypeDefinition} (h : d.name = identifierScalar → d.kind = .scalar) :
    (Script.ofDefinition options d).map Script.Declaration.name = identifiersOf d.name := by
  rw [identifiersOf]
  split
  next hname =>
    have hkind : d.body.kind = .scalar := h hname
    have hbody : d.body = .scalar := by
      cases hd : d.body <;> rw [hd] at hkind <;> cases hkind
    rw [Script.ofDefinition, hbody, Script.ofBody, if_pos hname]
    rfl
  next hname => exact names_ofDefinition_of_ne fun _ => hname

/-- The identifiers of a name tell the name, unless it is one of theirs. -/
theorem eq_of_mem_identifiersOf
    {a b : String} (ha : x ∈ identifiersOf a) (hb : x ∈ identifiersOf b)
    (hanot : ∀ position : Position, a ≠ identifierScalar ++ position.suffix)
    (hbnot : ∀ position : Position, b ≠ identifierScalar ++ position.suffix) : a = b := by
  have hsuffix : ∀ {name : String}, name = identifierScalar → x ∈ identifiersOf name →
      ∃ position : Position, x = identifierScalar ++ position.suffix := by
    intro name hname hx
    rw [identifiersOf, if_pos hname, hname] at hx
    obtain ⟨position, -, rfl⟩ := List.mem_map.mp hx
    exact ⟨position, rfl⟩
  have hself : ∀ {name : String}, name ≠ identifierScalar → x ∈ identifiersOf name → x = name := by
    intro name hname hx
    rwa [identifiersOf, if_neg hname, List.mem_singleton] at hx
  by_cases haid : a = identifierScalar
  · by_cases hbid : b = identifierScalar
    · rw [haid, hbid]
    · obtain ⟨position, hx⟩ := hsuffix haid ha
      exact absurd ((hself hbid hb).symm.trans hx) (hbnot position)
  · have hxa := hself haid ha
    by_cases hbid : b = identifierScalar
    · obtain ⟨position, hx⟩ := hsuffix hbid hb
      exact absurd (hxa.symm.trans hx) (hanot position)
    · exact hxa.symm.trans (hself hbid hb)

theorem nodup_identifiersOf (name : String) : (identifiersOf name).Nodup := by
  rw [identifiersOf]
  split
  next hname =>
    rw [hname]
    decide
  next => simp

theorem isDeclared_eq_true_iff {d : TypeDefinition} :
    isDeclared schema d = true ↔ ¬ IsHidden schema d.name := by
  have hintrospection : d.isIntrospection = true ↔ ['_', '_'] <+: d.name.toList := by
    rw [TypeDefinition.isIntrospection, beq_iff_eq, List.prefix_iff_eq_take]
    exact eq_comm
  rw [isDeclared, IsHidden, not_or, ← hintrospection]
  simp [and_comm]

theorem mem_declaredTypes_iff {order : DeclarationOrder} {d : TypeDefinition} :
    d ∈ declaredTypes schema order ↔ d ∈ schema.types.items ∧ ¬ IsHidden schema d.name := by
  rw [declaredTypes, List.mem_mergeSort, List.mem_filter, isDeclared_eq_true_iff]

/-- The order of the declarations does not matter for what their places are. -/
theorem mem_places_iff {place : Place} :
    place ∈ places options schema ↔
      (∃ d ∈ schema.types.items, ¬ IsHidden schema d.name ∧ place ∈ bodyPlaces d.body) ∨
        ∃ operation ∈ Operation.all, place ∈ leafPlaces .output (rootFields schema operation) := by
  rw [places, List.mem_append, List.mem_flatMap, List.mem_flatMap]
  simp only [mem_declaredTypes_iff, and_assoc]

theorem pairwise_name_ne_declaredTypes (schema : Schema) (order : DeclarationOrder) :
    (declaredTypes schema order).Pairwise fun c d => c.name ≠ d.name := by
  have hitems : schema.types.items.Pairwise fun c d => c.name ≠ d.name :=
    List.pairwise_map.mp schema.types.distinct
  have hsame := List.mergeSort_perm (schema.types.items.filter (isDeclared schema)) order.precedes
  exact hsame.symm.pairwise (hitems.filter _) fun h => h.symm

/-- The declared types around one of them have other names. -/
theorem exists_split_declaredTypes
    {order : DeclarationOrder} {d : TypeDefinition} (h : d ∈ declaredTypes schema order) :
    ∃ before after, declaredTypes schema order = before ++ d :: after ∧
      (∀ c ∈ before, c.name ≠ d.name) ∧ ∀ c ∈ after, c.name ≠ d.name := by
  have hdistinct := pairwise_name_ne_declaredTypes schema order
  obtain ⟨before, after, hsplit⟩ := List.append_of_mem h
  rw [hsplit, List.pairwise_append, List.pairwise_cons] at hdistinct
  obtain ⟨-, ⟨hafter, -⟩, hbefore⟩ := hdistinct
  exact ⟨before, after, hsplit, fun c hc => hbefore c hc d (by simp),
    fun c hc => (hafter c hc).symm⟩

theorem type?_eq_some_of_name
    {d : TypeDefinition} {name : String} (hd : d ∈ schema.types.items) (hname : d.name = name) :
    schema.type? name = some d := by
  rw [← hname]
  exact Catalog.find?_name_of_mem hd

theorem not_mem_names_ofDefinition
    {d : TypeDefinition} (hd : d ∈ declaredTypes schema options.order) (hne : d.name ≠ x)
    (halias : ¬ IsIdentifierAlias schema x) :
    x ∉ (Script.ofDefinition options d).map Script.Declaration.name := by
  intro hx
  by_cases hid : d.kind = .scalar ∧ d.name = identifierScalar
  · obtain ⟨hkind, hname⟩ := hid
    obtain ⟨hmem, hshown⟩ := mem_declaredTypes_iff.mp hd
    rw [names_ofDefinition fun _ => hkind, hname] at hx
    refine halias ⟨?_, ?_, hx⟩
    · rw [type?_eq_some_of_name hmem hname, Option.map_some, hkind]
    · rw [← hname, ← Bool.not_eq_true]
      exact fun hroot => hshown (Or.inl hroot)
  · rw [names_ofDefinition_of_ne fun hkind hname => hid ⟨hkind, hname⟩, List.mem_singleton] at hx
    exact hne hx.symm

/-- The name of a declared type is declared once, unless it is also an alias of the
identifier scalar.  Nothing else is asked of the schema. -/
theorem count_declaredIdentifiers
    {d : TypeDefinition} (hd : d ∈ declaredTypes schema options.order)
    (hscalar : d.kind = .scalar → d.name ≠ identifierScalar)
    (halias : ¬ IsIdentifierAlias schema d.name) :
    (declaredIdentifiers options schema).count d.name = 1 := by
  obtain ⟨before, after, hsplit, hbefore, hafter⟩ := exists_split_declaredTypes hd
  have hothers : ∀ others : List TypeDefinition,
      (∀ c ∈ others, c ∈ declaredTypes schema options.order) → (∀ c ∈ others, c.name ≠ d.name) →
      (others.flatMap fun c =>
        (Script.ofDefinition options c).map Script.Declaration.name).count d.name = 0 := by
    intro others hdeclared hne
    rw [List.count_eq_zero, List.mem_flatMap]
    rintro ⟨c, hc, hname⟩
    exact not_mem_names_ofDefinition (hdeclared c hc) (hne c hc) halias hname
  have hmem : ∀ c ∈ before ++ d :: after, c ∈ declaredTypes schema options.order := by
    intro c hc
    rwa [hsplit]
  rw [declaredIdentifiers, scriptDeclarations, hsplit, List.map_flatMap, List.flatMap_append,
    List.flatMap_cons, List.count_append, List.count_append,
    hothers before (fun c hc => hmem c (by simp [hc])) hbefore,
    hothers after (fun c hc => hmem c (by simp [hc])) hafter,
    names_ofDefinition_of_ne hscalar, List.count_singleton_self]

end Binding

/-! ## Resolved schemas -/

namespace Schema.Resolved

open Binding

variable {schema : Schema}

theorem kind_of_name (h : schema.Resolved) {d : TypeDefinition} (hd : d ∈ schema.types.items)
    (hname : d.name = identifierScalar) : d.kind = .scalar :=
  h.identifier d (type?_eq_some_of_name hd hname)

theorem name_ne (h : schema.Resolved) {d : TypeDefinition} (hd : d ∈ schema.types.items)
    (position : Position) : d.name ≠ identifierScalar ++ position.suffix := by
  intro hname
  have hfound := type?_eq_some_of_name hd hname
  rw [h.apart position] at hfound
  cases hfound

end Schema.Resolved

namespace Binding

variable {options : Options} {schema : Schema}

theorem declaredIdentifiers_eq (h : schema.Resolved) (options : Options) :
    declaredIdentifiers options schema =
      (declaredTypes schema options.order).flatMap fun d => identifiersOf d.name := by
  rw [declaredIdentifiers, scriptDeclarations, List.map_flatMap]
  refine List.flatMap_congr fun d hd => names_ofDefinition ?_
  exact h.kind_of_name (mem_declaredTypes_iff.mp hd).1

theorem nodup_declaredIdentifiers (h : schema.Resolved) (options : Options) :
    (declaredIdentifiers options schema).Nodup := by
  rw [declaredIdentifiers_eq h, List.nodup_flatMap]
  refine ⟨fun d _ => nodup_identifiersOf d.name, ?_⟩
  refine (pairwise_name_ne_declaredTypes schema options.order).imp_of_mem ?_
  intro c d hc hd hne y hyc hyd
  refine hne (eq_of_mem_identifiersOf hyc hyd ?_ ?_)
  · exact h.name_ne (mem_declaredTypes_iff.mp hc).1
  · exact h.name_ne (mem_declaredTypes_iff.mp hd).1

/-- An identifier of a type is declared if and only if the type is. -/
theorem mem_declaredIdentifiers_iff
    (h : schema.Resolved) {d : TypeDefinition} (hd : d ∈ schema.types.items)
    (hx : x ∈ identifiersOf d.name) :
    x ∈ declaredIdentifiers options schema ↔ ¬ IsHidden schema d.name := by
  rw [declaredIdentifiers_eq h, List.mem_flatMap]
  constructor
  · rintro ⟨e, he, hxe⟩
    obtain ⟨hmem, hshown⟩ := mem_declaredTypes_iff.mp he
    rwa [eq_of_mem_identifiersOf hx hxe (h.name_ne hd) (h.name_ne hmem)]
  · intro hshown
    exact ⟨d, mem_declaredTypes_iff.mpr ⟨hd, hshown⟩, hx⟩

/-! ## The types that places stand for -/

theorem mem_bodyPlaces
    {body : TypeBody} {place : Place} (h : place ∈ bodyPlaces body) :
    (∃ f ∈ body.fields, ∃ position, place = .leaf f.type.leaf position) ∨
      ∃ name, (name ∈ body.interfaces ∨ name ∈ body.members) ∧ place = .reference name := by
  have hleaf : ∀ {position : Position} {fields : List Field}, place ∈ leafPlaces position fields →
      ∃ f ∈ fields, ∃ position, place = .leaf f.type.leaf position := by
    intro position fields hplace
    obtain ⟨f, hf, rfl⟩ := List.mem_map.mp hplace
    exact ⟨f, hf, position, rfl⟩
  cases body with
  | object fields interfaces =>
    rcases List.mem_append.mp h with hinterface | hfield
    · obtain ⟨name, hname, rfl⟩ := List.mem_map.mp hinterface
      exact Or.inr ⟨name, Or.inl hname, rfl⟩
    · exact Or.inl (hleaf hfield)
  | interface fields => exact Or.inl (hleaf h)
  | inputObject fields => exact Or.inl (hleaf h)
  | union members =>
    obtain ⟨name, hname, rfl⟩ := List.mem_map.mp h
    exact Or.inr ⟨name, Or.inr hname, rfl⟩
  | enumeration values => cases h
  | scalar => cases h

theorem exists_mem_fields_of_mem_rootFields
    {operation : Operation} {f : Field} (h : f ∈ rootFields schema operation) :
    ∃ d ∈ schema.types.items, f ∈ d.body.fields := by
  rw [rootFields, Schema.root?] at h
  cases hname : schema.rootName? operation with
  | none => simp [hname] at h
  | some name =>
    cases hd : schema.type? name with
    | none => simp [hname, hd] at h
    | some d =>
      refine ⟨d, (Catalog.mem_of_find?_eq_some hd).1, ?_⟩
      simp only [hname, hd, Option.bind_some, TypeDefinition.outputFields?] at h
      cases hbody : d.body <;> simp_all [TypeBody.outputFields?, TypeBody.fields]

theorem text_leaf_mem_identifiersOf
    {inlineScalars : Bool} {name : String} {position : Position}
    (h : (Place.leaf name position).isInlined inlineScalars = false) :
    leafText inlineScalars position name ∈ identifiersOf name := by
  rw [leafText, identifiersOf]
  split
  · cases position <;> simp
  · cases inlineScalars with
    | false => simp
    | true =>
      have hnone : primitiveType? name = none := by simpa [Place.isInlined] using h
      simp [hnone]

theorem exists_type_of_leaf
    (h : schema.Resolved) {d : TypeDefinition} (hd : d ∈ schema.types.items) {f : Field}
    (hf : f ∈ d.body.fields) {position : Position}
    (hinlined : (Place.leaf f.type.leaf position).isInlined options.inlineScalars = false) :
    ∃ e ∈ schema.types.items, e.name = f.type.leaf ∧
      (Place.leaf f.type.leaf position).text options.inlineScalars ∈ identifiersOf e.name := by
  obtain ⟨e, he⟩ := Option.isSome_iff_exists.mp (h.leaves d hd f hf)
  obtain ⟨hmem, hname⟩ := Catalog.mem_of_find?_eq_some he
  have hname : e.name = f.type.leaf := hname
  refine ⟨e, hmem, hname, ?_⟩
  rw [hname]
  exact text_leaf_mem_identifiersOf hinlined

theorem exists_type_of_kind
    (h : schema.Resolved) {name : String} {kind : TypeKind} (hscalar : kind ≠ .scalar)
    (hkind : (schema.type? name).map TypeDefinition.kind = some kind) :
    ∃ e ∈ schema.types.items, e.name = name ∧ name ∈ identifiersOf e.name := by
  obtain ⟨e, he, rfl⟩ := Option.map_eq_some_iff.mp hkind
  obtain ⟨hmem, hname⟩ := Catalog.mem_of_find?_eq_some he
  have hname : e.name = name := hname
  refine ⟨e, hmem, hname, ?_⟩
  have hother : e.name ≠ identifierScalar := fun hid => hscalar (h.kind_of_name hmem hid)
  rw [identifiersOf, if_neg hother, List.mem_singleton]
  exact hname.symm

/-- A place stands for a type of the schema, and writes one of its identifiers. -/
theorem exists_type_of_mem_places
    (h : schema.Resolved) {place : Place} (hplace : place ∈ places options schema)
    (hinlined : place.isInlined options.inlineScalars = false) :
    ∃ d ∈ schema.types.items, d.name = place.origin ∧
      place.text options.inlineScalars ∈ identifiersOf d.name := by
  rcases mem_places_iff.mp hplace with ⟨d, hd, -, hbody⟩ | ⟨operation, -, hmethod⟩
  · rcases mem_bodyPlaces hbody with ⟨f, hf, position, rfl⟩ | ⟨name, hinterface | hmember, rfl⟩
    · exact exists_type_of_leaf h hd hf hinlined
    · exact exists_type_of_kind h (by decide) (h.interfaces d hd name hinterface)
    · exact exists_type_of_kind h (by decide) (h.members d hd name hmember)
  · obtain ⟨f, hf, rfl⟩ := List.mem_map.mp hmethod
    obtain ⟨d, hd, hfield⟩ := exists_mem_fields_of_mem_rootFields hf
    exact exists_type_of_leaf h hd hfield hinlined

/-- The declarations, comments aside, are the texts of the trees that the declared
identifiers are taken from. -/
theorem declarations_withDocs_false (options : Options) (schema : Schema) :
    declarations (options.withDocs false) schema =
      (declaredTypes schema options.order).map fun d =>
        "\n".intercalate ((Script.ofDefinition options d).map Script.Declaration.text) :=
  List.map_congr_left fun d _ => Script.declaration_eq_text d

/-- An identifier at a place that writes no primitive out is declared once, or not at all
where the name that it stands for is hidden, and nothing is declared twice.  The
declarations, comments aside, and the blocks of methods are the texts of the trees that the
identifiers are taken from. -/
theorem identifiers_declared_once
    (options : Options) (schema : Schema) (h : schema.Resolved) :
    (∀ place ∈ places options schema, place.isInlined options.inlineScalars = false →
      (declaredIdentifiers options schema).count (place.text options.inlineScalars) =
        if IsHidden schema place.origin then 0 else 1) ∧
    (declaredIdentifiers options schema).Nodup ∧
    (∀ x, x ∈ usedIdentifiers options schema ↔
      x ∈ (places options schema).map (Place.text options.inlineScalars)) ∧
    declarations (options.withDocs false) schema =
      (declaredTypes schema options.order).map (fun d =>
        "\n".intercalate ((Script.ofDefinition options d).map Script.Declaration.text)) ∧
    ∀ operation, methodBlock options.inlineScalars schema operation =
      Script.methodBlock (Script.methods options.inlineScalars schema operation) := by
  refine ⟨?_, nodup_declaredIdentifiers h options, fun x => mem_usedIdentifiers_iff,
    declarations_withDocs_false options schema, ?_⟩
  · intro place hplace hinlined
    obtain ⟨d, hd, hname, htext⟩ := exists_type_of_mem_places h hplace hinlined
    have hdeclared : place.text options.inlineScalars ∈ declaredIdentifiers options schema ↔
        ¬ IsHidden schema d.name := mem_declaredIdentifiers_iff h hd htext
    rw [← hname]
    split
    next hhidden =>
      rw [List.count_eq_zero, hdeclared]
      exact fun hshown => hshown hhidden
    next hshown =>
      exact List.count_eq_one_of_mem (nodup_declaredIdentifiers h options) (hdeclared.mpr hshown)
  · exact fun operation => (Script.methodBlock_methods options.inlineScalars schema operation).symm

/-- A schema with a root and a type of introspection that other types name. -/
def registry : Schema where
  query := some "Query"
  types := .ofList
    [{ name := "Query"
       body := .object (.ofList
        [{ name := "find", type := .nonNull (.list (.named "Node")) },
         { name := "about", type := .named "__Type" }]) [] },
     { name := "Node"
       body := .interface (.ofList [{ name := "id", type := .nonNull (.named "ID") }]) },
     { name := "Entry"
       body := .object (.ofList
        [{ name := "id", type := .nonNull (.named "ID") },
         { name := "home", type := .named "Query" },
         { name := "size", type := .named "Int" }]) ["Node"] },
     { name := "Key"
       body := .inputObject (.ofList [{ name := "ids", type := .list (.named "ID") }]) },
     { name := "Any", body := .union ["Query", "Entry"] },
     { name := "ID", body := .scalar },
     { name := "Int", body := .scalar },
     { name := "__Type", body := .object .empty [] }]

theorem identifiers_declared_once_registry :
    registry.Resolved ∧
      (declaredIdentifiers {} registry).count "ID_Input" = 1 ∧
      (declaredIdentifiers {} registry).count "Node" = 1 ∧
      (declaredIdentifiers {} registry).count "Query" = 0 ∧
      (declaredIdentifiers {} registry).count "__Type" = 0 ∧
      (declaredIdentifiers {} registry).Nodup := by
  have hresolved : registry.Resolved := by decide +kernel
  obtain ⟨hcount, hnodup, -⟩ := identifiers_declared_once {} registry hresolved
  refine ⟨hresolved, ?_, ?_, ?_, ?_, hnodup⟩
  · exact hcount (.leaf "ID" .input) (mem_places_iff.mpr (by decide +kernel)) rfl
  · exact hcount (.reference "Node") (mem_places_iff.mpr (by decide +kernel)) rfl
  · exact hcount (.leaf "Query" .output) (mem_places_iff.mpr (by decide +kernel)) (by decide)
  · exact hcount (.leaf "__Type" .output) (mem_places_iff.mpr (by decide +kernel)) (by decide)

end Binding

end SchemaBinding
