import SchemaBinding.Binding.Document
import SchemaBinding.Proofs.Binding.Identifiers
import SchemaBinding.Proofs.Binding.ScalarUse
import SchemaBinding.Proofs.Binding.ScriptReader
import SchemaBinding.Proofs.Sdl.RoundTrip

/-!
# The two halves of a binding

A binding says the same thing twice: as declarations and methods, and as the
schema document that it carries.  Each half has a reader of its own, and what
one reader finds in the script is determined by what the other one finds in the
document.  A type of the document that is no root has one declaration, and a
root has one block of methods for each operation that it is bound to.  The
identifier of such a type is declared nowhere else, except where it is one of
the two that the identifier scalar is declared under.
-/

namespace SchemaBinding.Binding

open Sdl (SpelledSchema)
open Sdl.Reader (isName)

variable {options : Options} {schema : Schema} {name : String}

/-! ## From the document to the script -/

/-- The field of a declaration for a field of the document. -/
def memberFor (inlineScalars : Bool) (position : Position) (name : String) (type : TypeRef) :
    Script.Member where
  name := name
  isOptional := !type.isNonNull
  type := typeTree inlineScalars position type

/-- The method for a field of the document. -/
def methodFor (inlineScalars : Bool) (f : Sdl.Tree.Field) : Script.Method where
  name := f.name
  result := outputType inlineScalars f.type
  isNullable := !f.type.isNonNull

/-- A union without members is the type without values. -/
def orNever : List Script.Alternative → List Script.Alternative
  | [] => [.name "never"]
  | alternatives => alternatives

/-- The declaration for a type of the document. -/
def declarationFor (options : Options) (name : String) : Sdl.Tree.Body → Script.Declaration
  | .object interfaces fields =>
    .interface name interfaces
      (fields.map fun f => memberFor options.inlineScalars .output f.name f.type)
  | .interface interfaces fields =>
    .interface name interfaces
      (fields.map fun f => memberFor options.inlineScalars .output f.name f.type)
  | .inputObject fields =>
    .record name (fields.map fun f => memberFor options.inlineScalars .input f.name f.type)
  | .union members => .choice name (orNever (members.map .name))
  | .enumeration values => .choice name (orNever (values.map fun v => .literal v.name))
  | .scalar => .synonym name (options.scalars.typeOf name)

/-- A text is a declaration, comments aside.  A synonym stands for what is configured, which
may be anything, so there the text itself is told. -/
def Declares (text : String) : Script.Declaration → Prop
  | .synonym name type => ∃ comment, (comment = "" ∨ IsComment comment) ∧
      text = comment ++ (Script.Declaration.synonym name type).text
  | declaration => Script.read text = some declaration

/-- The fields of a type that a root can be. -/
def rootFields? : Sdl.Tree.Body → Option (List Sdl.Tree.Field)
  | .object _ fields => some fields
  | .interface _ fields => some fields
  | _ => none

/-! ## Names -/

theorem isIdentifier_of_isName (h : isName name = true) : isIdentifier name = true := by
  have hstart : ∀ c, Sdl.Reader.isNameStart c = true → isIdentifierStart c = true := by
    intro c hc
    rw [Sdl.Reader.isNameStart, Bool.or_eq_true] at hc
    rcases hc with hc | hc <;> simp_all [isIdentifierStart]
  have hchar : ∀ c, Sdl.Reader.isNameChar c = true → isIdentifierChar c = true := by
    intro c hc
    rw [Sdl.Reader.isNameChar, Char.isAlphanum, Bool.or_eq_true, Bool.or_eq_true] at hc
    rcases hc with (hc | hc) | hc <;> simp_all [isIdentifierChar, isIdentifierStart]
  rw [isName] at h
  rw [isIdentifier]
  cases hchars : name.toList with
  | nil => simp [hchars] at h
  | cons c cs =>
    rw [hchars, Bool.and_eq_true, List.all_eq_true] at h
    rw [Bool.and_eq_true, List.all_eq_true]
    exact ⟨hstart c h.1, fun d hd => hchar d (h.2 d hd)⟩

theorem isIdentifier_of_mem_names
    {inlineScalars : Bool} {position : Position} {type : TypeRef} (h : isName type.leaf = true) :
    ∀ x ∈ (typeTree inlineScalars position type).names, isIdentifier x = true := by
  intro x hx
  rw [mem_names_typeTree_iff.mp hx]
  exact isIdentifier_leafText inlineScalars position (isIdentifier_of_isName h)

theorem spelled_member
    {f : Field} (h : Sdl.SpelledField f) (inlineScalars : Bool) (position : Position) :
    (Script.member inlineScalars position f).Spelled where
  name := isIdentifier_of_isName h.name
  type := isIdentifier_of_mem_names h.leaf
  flat := isFlat_typeTree inlineScalars position f.type

theorem spelled_members
    {fields : Catalog Field} (h : ∀ f ∈ fields.items, Sdl.SpelledField f) (inlineScalars : Bool)
    (position : Position) : ∀ m ∈ Script.members inlineScalars position fields, m.Spelled := by
  intro m hm
  obtain ⟨f, hf, rfl⟩ := List.mem_map.mp hm
  exact spelled_member (h f hf) inlineScalars position

theorem spelled_method {f : Field} (h : Sdl.SpelledField f) (inlineScalars : Bool) :
    (Script.method inlineScalars f).Spelled := by
  have hresult : ∀ x ∈ (typeTree inlineScalars .output f.type).names, isIdentifier x = true :=
    isIdentifier_of_mem_names h.leaf
  exact ⟨isIdentifier_of_isName h.name, hresult, isPlain_outputType inlineScalars f.type⟩

/-! ## Declarations -/

theorem declarationFor_object (fields : Catalog Field) (interfaces : List String) :
    declarationFor options name (Sdl.bodyTree (.object fields interfaces)) =
      .interface name interfaces (Script.members options.inlineScalars .output fields) := by
  rw [Sdl.bodyTree, declarationFor, List.map_map]
  rfl

theorem declarationFor_interface (fields : Catalog Field) :
    declarationFor options name (Sdl.bodyTree (.interface fields)) =
      .interface name [] (Script.members options.inlineScalars .output fields) := by
  rw [Sdl.bodyTree, declarationFor, List.map_map]
  rfl

theorem declarationFor_inputObject (fields : Catalog Field) :
    declarationFor options name (Sdl.bodyTree (.inputObject fields)) =
      .record name (Script.members options.inlineScalars .input fields) := by
  rw [Sdl.bodyTree, declarationFor, List.map_map]
  rfl

theorem declarationFor_enumeration (values : List EnumValue) :
    declarationFor options name (Sdl.bodyTree (.enumeration values)) =
      .choice name (orNever (values.map fun v => .literal v.name)) := by
  rw [Sdl.bodyTree, declarationFor, List.map_map]
  rfl

theorem text_choice_orNever (choices : List Script.Alternative) :
    (Script.Declaration.choice name (orNever choices)).text =
      (Script.Declaration.choice name choices).text := by
  cases choices with
  | nil => rfl
  | cons a choices => rfl

/-- Without documentation, a type is declared by the text of the tree that the document
gives rise to. -/
theorem declaration_eq_text_declarationFor
    {d : TypeDefinition} (h : d.kind = .scalar → d.name ≠ identifierScalar) :
    declaration (options.withDocs false) d =
      (declarationFor options d.name (Sdl.bodyTree d.body)).text := by
  rw [Script.declaration_eq_text, Script.ofDefinition]
  obtain ⟨name, description, body⟩ := d
  cases body with
  | object fields interfaces =>
    rw [declarationFor_object, Script.ofBody, List.map_singleton, String.intercalate_singleton]
  | interface fields =>
    rw [declarationFor_interface, Script.ofBody, List.map_singleton, String.intercalate_singleton]
  | inputObject fields =>
    rw [declarationFor_inputObject, Script.ofBody, List.map_singleton,
      String.intercalate_singleton]
  | union members =>
    rw [Sdl.bodyTree, declarationFor, text_choice_orNever, Script.ofBody, List.map_singleton,
      String.intercalate_singleton]
  | enumeration values =>
    rw [declarationFor_enumeration, text_choice_orNever, Script.ofBody, List.map_singleton,
      String.intercalate_singleton]
  | scalar =>
    have hname : name ≠ identifierScalar := h rfl
    rw [Script.ofBody, if_neg hname, List.map_singleton, String.intercalate_singleton]
    rfl

theorem spelled_orNever
    {choices : List Script.Alternative} (hname : isIdentifier name = true)
    (h : ∀ a ∈ choices, isIdentifier a.label = true) :
    (Script.Declaration.choice name (orNever choices)).Spelled := by
  refine ⟨hname, ?_⟩
  cases choices with
  | nil => exact ⟨by simp [orNever], by simp [orNever, Script.Alternative.label]; decide⟩
  | cons a choices => exact ⟨by simp [orNever], h⟩

theorem spelled_declarationFor
    {d : TypeDefinition} (h : Sdl.SpelledDefinition d) (hkind : d.kind ≠ .scalar) :
    (declarationFor options d.name (Sdl.bodyTree d.body)).Spelled := by
  obtain ⟨name, description, body⟩ := d
  have hname : isIdentifier name = true := isIdentifier_of_isName h.name
  have hbody : Sdl.SpelledBody body := h.body
  cases body with
  | object fields interfaces =>
    rw [declarationFor_object]
    exact ⟨hname, fun base hbase => isIdentifier_of_isName (hbody.2 base hbase),
      spelled_members hbody.1 _ _⟩
  | interface fields =>
    rw [declarationFor_interface]
    exact ⟨hname, by simp, spelled_members hbody _ _⟩
  | inputObject fields =>
    rw [declarationFor_inputObject]
    exact ⟨hname, spelled_members hbody _ _⟩
  | union members =>
    refine spelled_orNever hname ?_
    intro a ha
    obtain ⟨member, hmember, rfl⟩ := List.mem_map.mp ha
    exact isIdentifier_of_isName (hbody member hmember)
  | enumeration values =>
    rw [declarationFor_enumeration]
    refine spelled_orNever hname ?_
    intro a ha
    obtain ⟨v, hv, rfl⟩ := List.mem_map.mp ha
    exact isIdentifier_of_isName (Sdl.isName_of_isValueName (hbody v hv))
  | scalar => exact absurd rfl hkind

theorem declarationComment_eq_empty_or_isComment (docs : Bool) (description : Option String) :
    declarationComment docs description = "" ∨ IsComment (declarationComment docs description) := by
  cases description with
  | none => exact Or.inl rfl
  | some text =>
    cases docs with
    | true => exact Or.inr (isComment_declarationComment text)
    | false => exact Or.inl rfl

theorem declares_declaration
    {d : TypeDefinition} (h : Sdl.SpelledDefinition d)
    (hscalar : d.kind = .scalar → d.name ≠ identifierScalar) :
    Declares (declaration options d) (declarationFor options d.name (Sdl.bodyTree d.body)) := by
  have hread : d.kind ≠ .scalar → Script.read (declaration options d) =
      some (declarationFor options d.name (Sdl.bodyTree d.body)) := fun hkind =>
    Script.read_declaration (spelled_declarationFor h hkind)
      (declaration_eq_text_declarationFor hscalar)
  obtain ⟨name, description, body⟩ := d
  cases body with
  | object fields interfaces => exact hread nofun
  | interface fields => exact hread nofun
  | inputObject fields => exact hread nofun
  | union members => exact hread nofun
  | enumeration values => exact hread nofun
  | scalar =>
    refine ⟨declarationComment options.docs description,
      declarationComment_eq_empty_or_isComment options.docs description, ?_⟩
    exact declaration_scalar (hscalar rfl) description

theorem filter_name_declaredTypes
    {order : DeclarationOrder} {d : TypeDefinition} (h : d ∈ declaredTypes schema order) :
    (declaredTypes schema order).filter (·.name = d.name) = [d] := by
  obtain ⟨before, after, hsplit, hbefore, hafter⟩ := exists_split_declaredTypes h
  rw [hsplit, List.filter_append, List.filter_cons_of_pos (by simp),
    List.filter_eq_nil_iff.mpr (by simpa using hbefore),
    List.filter_eq_nil_iff.mpr (by simpa using hafter), List.nil_append]

theorem filter_operations (options : Options) (schema : Schema) (operation : Operation) :
    (parts options schema).operations.filter (·.1 = operation) =
      [(operation, methodBlock options.inlineScalars schema operation)] := by
  cases operation <;> rfl

/-! ## Methods -/

theorem spelledField_of_mem_fields
    {body : TypeBody} (h : Sdl.SpelledBody body) {f : Field} (hf : f ∈ body.fields) :
    Sdl.SpelledField f := by
  cases body with
  | object fields interfaces => exact h.1 f hf
  | interface fields => exact h f hf
  | inputObject fields => exact h f hf
  | union members => cases hf
  | enumeration values => cases hf
  | scalar => cases hf

theorem readMethods_methodBlock
    (hspelled : SpelledSchema schema) (inlineScalars : Bool) (operation : Operation) :
    Script.readMethods (methodBlock inlineScalars schema operation) =
      some (Script.methods inlineScalars schema operation) := by
  have hmethods : ∀ m ∈ Script.methods inlineScalars schema operation, m.Spelled := by
    intro m hm
    obtain ⟨f, hf, rfl⟩ := List.mem_map.mp hm
    obtain ⟨d, hd, hfield⟩ := exists_mem_fields_of_mem_rootFields hf
    exact spelled_method (spelledField_of_mem_fields (hspelled.types d hd).body hfield) _
  rw [← Script.methodBlock_methods]
  exact Script.readMethods_methodBlock hmethods

/-- The methods of an operation are those of the fields that the document shows of its root. -/
theorem methods_eq_map_methodFor
    {operation : Operation} {d : TypeDefinition} {fields : List Sdl.Tree.Field}
    (inlineScalars : Bool) (hroot : schema.root? operation = some d)
    (hfields : rootFields? (Sdl.bodyTree d.body) = some fields) :
    Script.methods inlineScalars schema operation = fields.map (methodFor inlineScalars) := by
  have hshown : ∀ {items : List Field}, rootFields schema operation = items →
      rootFields? (Sdl.bodyTree d.body) = some (items.map Sdl.fieldTree) →
      Script.methods inlineScalars schema operation = fields.map (methodFor inlineScalars) := by
    intro items hitems hsame
    rw [hsame] at hfields
    obtain rfl := Option.some.inj hfields
    rw [Script.methods, hitems, List.map_map]
    rfl
  rw [rootFields, hroot, Option.bind_some, TypeDefinition.outputFields?] at hshown
  cases hbody : d.body with
  | object fields interfaces =>
    rw [hbody] at hshown
    exact hshown rfl rfl
  | interface fields =>
    rw [hbody] at hshown
    exact hshown rfl rfl
  | inputObject | union | enumeration | scalar =>
    rw [hbody] at hfields
    cases hfields

/-! ## Output types -/

/-- The same reference to another type. -/
def mapLeaf (f : String → String) : TypeRef → TypeRef
  | .named name => .named (f name)
  | .nonNull inner => .nonNull (mapLeaf f inner)
  | .list inner => .list (mapLeaf f inner)

/-- A reference of the document without its marks, and with brackets behind what they stood
around. -/
def rewriteMarks (reference : List Char) : List Char :=
  reference.flatMap fun c =>
    if c = '!' ∨ c = '[' then [] else if c = ']' then ['[', ']'] else [c]

theorem rewriteMarks_of_isIdentifier (h : isIdentifier name = true) :
    rewriteMarks name.toList = name.toList := by
  obtain ⟨c, cs, hchars, hstart, hall⟩ := Script.exists_toList_of_isIdentifier h
  have hsame : ∀ d ∈ name.toList,
      (if d = '!' ∨ d = '[' then [] else if d = ']' then ['[', ']'] else [d]) = [d] := by
    intro d hd
    have hchar : isIdentifierChar d = true := by
      rw [hchars] at hd
      rcases List.mem_cons.mp hd with rfl | hd
      · rw [isIdentifierChar, hstart, Bool.true_or]
      · exact hall d hd
    have hne : d ≠ '!' ∧ d ≠ '[' ∧ d ≠ ']' := by
      refine ⟨?_, ?_, ?_⟩ <;> rintro rfl <;> exact absurd hchar (by decide)
    simp [hne]
  rw [rewriteMarks, List.flatMap_congr hsame]
  simp

theorem text_outputType_eq_rewriteMarks
    (inlineScalars : Bool) {type : TypeRef} (h : isName type.leaf = true) :
    (outputType inlineScalars type).text.toList =
      rewriteMarks (mapLeaf (leafText inlineScalars .output) type).notate.toList := by
  induction type with
  | named name =>
    have hleaf := isIdentifier_leafText inlineScalars .output (isIdentifier_of_isName h)
    exact (rewriteMarks_of_isIdentifier hleaf).symm
  | nonNull inner ih =>
    rw [outputType, ih h, mapLeaf, TypeRef.notate, String.toList_append, rewriteMarks,
      rewriteMarks, List.flatMap_append]
    simp
  | list inner ih =>
    rw [outputType, TypeExpr.text, String.toList_append, ih h, mapLeaf, TypeRef.notate,
      String.toList_append, String.toList_append, rewriteMarks, rewriteMarks, List.flatMap_append,
      List.flatMap_append]
    simp

/-! ## Both halves -/

theorem mem_declaredTypes_of_visible
    {order : DeclarationOrder} {d : TypeDefinition} (h : d ∈ Sdl.visibleTypes schema)
    (hroot : schema.isRoot d.name = false) : d ∈ declaredTypes schema order := by
  obtain ⟨hmem, hshown⟩ := List.mem_filter.mp h
  rw [Bool.and_eq_true] at hshown
  rw [declaredTypes, List.mem_mergeSort, List.mem_filter, isDeclared, hroot, hshown.1]
  exact ⟨hmem, rfl⟩

/-- The scalar that has two aliases is one of those that the document leaves out. -/
theorem name_ne_of_visible
    {d : TypeDefinition} (h : d ∈ Sdl.visibleTypes schema) (hkind : d.kind = .scalar) :
    d.name ≠ identifierScalar := by
  intro hname
  obtain ⟨-, hshown⟩ := List.mem_filter.mp h
  have hbuiltin : Sdl.isBuiltinScalar d = true := by
    rw [Sdl.isBuiltinScalar, hname]
    exact decide_eq_true ⟨hkind, by decide⟩
  rw [hbuiltin, Bool.not_true, Bool.and_false] at hshown
  cases hshown

theorem exists_of_mem_outline
    {description : Option Sdl.Reader.Token} {directives : List Sdl.Tree.Directive}
    {body : Sdl.Tree.Body} (h : .type description name directives body ∈ Sdl.outline schema) :
    ∃ d ∈ Sdl.visibleTypes schema, name = d.name ∧ body = Sdl.bodyTree d.body := by
  rcases List.mem_append.mp h with hblock | htype
  · rw [Option.mem_toList, Sdl.schemaTree?] at hblock
    split at hblock
    · cases hblock
    · cases Option.some.inj hblock
  · obtain ⟨d, hd, htree⟩ := List.mem_map.mp htype
    rw [Sdl.definitionTree] at htree
    obtain ⟨-, hname, -, hbody⟩ := Sdl.Tree.Definition.type.inj htree
    exact ⟨d, hd, hname.symm, hbody.symm⟩

/-- A schema with a type that is called like an alias of the identifier scalar. -/
def clash : Schema where
  query := some "Query"
  types := .ofList
    [{ name := "Query", body := .object (.ofList [{ name := "a", type := .named "ID_Input" }]) [] },
     { name := "ID_Input", body := .object (.ofList [{ name := "x", type := .named "ID" }]) [] },
     { name := "ID", body := .scalar }]

/-- The document shows the type once, and the script declares its name twice. -/
theorem clash_declared_twice :
    SpelledSchema clash ∧ clash.WellShaped ∧
      (∃ definitions, Sdl.Reader.read (parts {} clash).typeDefs = some definitions ∧
        Sdl.Tree.Definition.type none "ID_Input" []
          (.object [] [{ name := "x", type := .named "ID" }]) ∈ definitions) ∧
      clash.isRoot "ID_Input" = false ∧
      (parts {} clash).declarations =
        ["export interface ID_Input \x7b\n  x?: ID_Output\n\x7d",
          "export type ID_Input = string | number\nexport type ID_Output = string"] ∧
      (declaredIdentifiers {} clash).count "ID_Input" = 2 := by
  have hspelled : SpelledSchema clash := by decide +kernel
  have hshape : clash.WellShaped := by decide +kernel
  have hdeclared : declaredTypes clash .kind = clash.types.items.filter (isDeclared clash) :=
    List.mergeSort_of_pairwise (by decide +kernel)
  refine ⟨hspelled, hshape, ⟨_, Sdl.read_document clash hspelled hshape, by decide +kernel⟩,
    by decide, ?_, ?_⟩
  · rw [parts, declarations, hdeclared]
    decide +kernel
  · rw [declaredIdentifiers, scriptDeclarations, hdeclared]
    decide +kernel

/-- What a reader of the script finds is what the document gives rise to.  Each type that
the document shows and that is no root has one declaration; it keeps its fields with their
order, the fields that may be left out, the interfaces, the members and the values.  Its
name is declared once among all declarations, unless it is an alias of the identifier
scalar.  Each root has one block of methods for every operation that it is bound to. -/
theorem halves_agree
    (options : Options) (schema : Schema) (hspelled : SpelledSchema schema)
    (hshape : schema.WellShaped) :
    (∃ definitions, Sdl.Reader.read (parts options schema).typeDefs = some definitions ∧
      ∀ description name directives body,
        Sdl.Tree.Definition.type description name directives body ∈ definitions →
          (schema.isRoot name = false →
            (¬ IsIdentifierAlias schema name →
              (declaredIdentifiers options schema).count name = 1) ∧
            ∃ d, (declaredTypes schema options.order).filter (·.name = name) = [d] ∧
              Declares (declaration options d) (declarationFor options name body)) ∧
          ∀ operation, schema.rootName? operation = some name →
            ∀ fields, rootFields? body = some fields →
              ∃ block,
                (parts options schema).operations.filter (·.1 = operation) =
                  [(operation, block)] ∧
                Script.readMethods block =
                  some (fields.map (methodFor options.inlineScalars))) ∧
    (parts options schema).declarations =
      (declaredTypes schema options.order).map (declaration options) ∧
    (parts (options.withDocs false) schema).declarations =
      (declaredTypes schema options.order).map (fun d =>
        "\n".intercalate ((Script.ofDefinition options d).map Script.Declaration.text)) ∧
    ∀ type : TypeRef, isName type.leaf = true →
      (outputType options.inlineScalars type).text.toList =
        rewriteMarks (mapLeaf (leafText options.inlineScalars .output) type).notate.toList := by
  refine ⟨⟨Sdl.outline schema, Sdl.read_document schema hspelled hshape, ?_⟩, rfl,
    declarations_withDocs_false options schema,
    fun type => text_outputType_eq_rewriteMarks options.inlineScalars⟩
  intro description name directives body hdefinition
  obtain ⟨d, hvisible, rfl, rfl⟩ := exists_of_mem_outline hdefinition
  have hmem := Sdl.mem_of_mem_visibleTypes hvisible
  have hscalar : d.kind = .scalar → d.name ≠ identifierScalar := name_ne_of_visible hvisible
  constructor
  · intro hroot
    have hdeclared : d ∈ declaredTypes schema options.order :=
      mem_declaredTypes_of_visible hvisible hroot
    exact ⟨count_declaredIdentifiers hdeclared hscalar, d, filter_name_declaredTypes hdeclared,
      declares_declaration (hspelled.types d hmem) hscalar⟩
  · intro operation hoperation fields hfields
    have hroot : schema.root? operation = some d := by
      rw [Schema.root?, hoperation, Option.bind_some]
      exact Catalog.find?_name_of_mem hmem
    refine ⟨methodBlock options.inlineScalars schema operation,
      filter_operations options schema operation, ?_⟩
    rw [readMethods_methodBlock hspelled,
      methods_eq_map_methodFor options.inlineScalars hroot hfields]

theorem halves_agree_registry :
    SpelledSchema registry ∧ registry.WellShaped ∧
      (declaredIdentifiers {} registry).count "Entry" = 1 ∧
      (∃ d, (declaredTypes registry .kind).filter (·.name = "Entry") = [d] ∧
        Script.read (declaration {} d) =
          some (.interface "Entry" ["Node"]
            [⟨"id", false, .name "ID_Output"⟩, ⟨"home", true, .name "Query"⟩,
              ⟨"size", true, .name "number"⟩])) ∧
      ∃ block, (parts {} registry).operations.filter (·.1 = .query) = [(.query, block)] ∧
        Script.readMethods block =
          some [⟨"find", .array (.name "Node"), false⟩, ⟨"about", .name "__Type", true⟩] := by
  have hspelled : SpelledSchema registry := by decide +kernel
  have hshape : registry.WellShaped := by decide +kernel
  obtain ⟨⟨definitions, hread, hall⟩, -⟩ := halves_agree {} registry hspelled hshape
  have hdocument : Sdl.Reader.read (parts {} registry).typeDefs = some (Sdl.outline registry) :=
    Sdl.read_document registry hspelled hshape
  obtain rfl := Option.some.inj (hread.symm.trans hdocument)
  obtain ⟨hcount, hentry⟩ := (hall none "Entry" [] (.object ["Node"]
    [{ name := "id", type := .nonNull (.named "ID") },
     { name := "home", type := .named "Query" },
     { name := "size", type := .named "Int" }]) (by decide +kernel)).1 (by decide)
  refine ⟨hspelled, hshape, hcount (by decide +kernel), hentry, ?_⟩
  exact (hall none "Query" [] (.object []
    [{ name := "find", type := .nonNull (.list (.named "Node")) },
     { name := "about", type := .named "__Type" }]) (by decide +kernel)).2 .query rfl _ rfl

end SchemaBinding.Binding
