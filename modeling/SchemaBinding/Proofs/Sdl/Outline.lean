import SchemaBinding.Proofs.Schema.Shape
import SchemaBinding.Proofs.Sdl.Rules

/-!
# The outline of a schema

The outline is what a reader of the document should find: one tree for each
definition that is shown, with its parts in schema order, and in front of them
the schema block where some root has a name of its own.  Defaults are kept as
their tokens, descriptions and reasons as the strings that the document holds.
-/

namespace SchemaBinding.Sdl

open Reader

/-! ## Trees of the parts of a schema -/

def descriptionTree (indent : String) (description : Option String) : Option Token :=
  description.map fun text => .blockString (blockText indent.toList text.toList)

/-- The directive of a deprecation, which leaves out the default reason. -/
def deprecationTree : Option String → List Tree.Directive
  | none => []
  | some reason =>
    if reason = defaultReason then [{ name := "deprecated" }]
    else [{ name := "deprecated", arguments := [("reason", [.string (reasonText reason)])] }]

def argumentTree (a : Argument) : Tree.InputValue where
  description := descriptionTree (indent ++ indent) a.description
  name := a.name
  type := a.type
  default := a.default.map literalTokens

def fieldTree (f : Field) : Tree.Field where
  description := descriptionTree indent f.description
  name := f.name
  arguments := f.arguments.map argumentTree
  type := f.type
  directives := deprecationTree f.deprecation

def inputFieldTree (f : Field) : Tree.InputValue where
  description := descriptionTree indent f.description
  name := f.name
  type := f.type
  default := f.default.map literalTokens
  directives := deprecationTree f.deprecation

def valueTree (v : EnumValue) : Tree.EnumValue where
  description := descriptionTree indent v.description
  name := v.name
  directives := deprecationTree v.deprecation

def bodyTree : TypeBody → Tree.Body
  | .object fields interfaces => .object interfaces (fields.items.map fieldTree)
  | .interface fields => .interface [] (fields.items.map fieldTree)
  | .inputObject fields => .inputObject (fields.items.map inputFieldTree)
  | .union members => .union members
  | .enumeration values => .enumeration (values.map valueTree)
  | .scalar => .scalar

def definitionTree (d : TypeDefinition) : Tree.Definition :=
  .type (descriptionTree "" d.description) d.name [] (bodyTree d.body)

/-- The tree of the schema block, which lists the bound roots if one of them
has a name of its own. -/
def schemaTree? (schema : Schema) : Option Tree.Definition :=
  if schema.boundRoots.all fun root => root.2 == root.1.defaultRoot then none
  else some (.schema none [] schema.boundRoots)

/-- What a reader should find in the document of a schema. -/
def outline (schema : Schema) : List Tree.Definition :=
  (schemaTree? schema).toList ++ (visibleTypes schema).map definitionTree

/-! ## Descriptions, constants and references -/

theorem takeDescription_append
    (indent : String) (description : Option String) (name : String) (rest : List Token) :
    takeDescription (descriptionTokens indent description ++ .name name :: rest) =
      (descriptionTree indent description, .name name :: rest) := by
  cases description <;> rfl

/-- Every token says whether a constant goes on, so what follows does not matter. -/
theorem takeDue_append
    {dues : List Due} {tokens taken rest : List Token} (x : List Token)
    (h : takeDue dues tokens = some (taken, rest)) :
    takeDue dues (tokens ++ x) = some (taken, rest ++ x) := by
  fun_induction takeDue dues tokens generalizing taken with
  | case1 tokens =>
    obtain ⟨rfl, rfl⟩ := Prod.mk.inj (Option.some.inj h)
    rw [takeDue]
  | case2 => cases h
  | case3 due dues token tokens ih =>
    obtain ⟨more, hmore, htaken⟩ := Option.bind_eq_some_iff.mp h
    obtain ⟨⟨taken', rest'⟩, hrest, heq⟩ := Option.map_eq_some_iff.mp htaken
    obtain ⟨rfl, rfl⟩ := Prod.mk.inj heq
    simp [takeDue, hmore, ih more hrest]

theorem takeConstant_literalTokens
    {literal : String} (h : IsConstant literal) (rest : List Token) :
    takeConstant (literalTokens literal ++ rest) = some (literalTokens literal, rest) := by
  obtain ⟨tokens, hscan, -, htake⟩ := h
  have htokens : literalTokens literal = tokens := by simp [literalTokens, hscan]
  rw [htokens]
  exact takeDue_append rest htake

theorem takeDefault_defaultTokens
    {default : Option String} (h : ∀ literal ∈ default, IsConstant literal) {rest : List Token}
    (hrest : rest.head? ≠ some (.mark '=')) :
    takeDefault (defaultTokens default ++ rest) = some (default.map literalTokens, rest) := by
  cases default with
  | none => simp [takeDefault, defaultTokens, hrest]
  | some literal =>
    simp [takeDefault, defaultTokens, takeConstant_literalTokens (h literal rfl)]

theorem takeNonNull_of_head?_ne
    (type : TypeRef) {rest : List Token} (hrest : rest.head? ≠ some (.mark '!')) :
    takeNonNull type rest = (type, rest) := by
  rw [takeNonNull, if_neg hrest]

/-- A reference that may be null is read up to the mark that may follow it. -/
theorem takeType_refTokens_append
    {type : TypeRef} (h : type.WellWrapped) :
    (type.isNonNull = false → ∀ rest,
      takeType (refTokens type ++ rest) = some (takeNonNull type rest)) ∧
    ∀ rest, rest.head? ≠ some (.mark '!') →
      takeType (refTokens type ++ rest) = some (type, rest) := by
  induction type with
  | named name =>
    constructor
    · intro _ rest
      rfl
    · intro rest hrest
      rw [← takeNonNull_of_head?_ne (.named name) hrest]
      rfl
  | nonNull inner ih =>
    obtain ⟨hnullable, hinner⟩ := h
    constructor
    · intro hnull
      cases hnull
    · intro rest _
      rw [refTokens, List.append_assoc, (ih hinner).1 hnullable]
      rfl
  | list inner ih =>
    have hlist : ∀ rest, takeType (refTokens (.list inner) ++ rest) =
        some (takeNonNull (.list inner) rest) := by
      intro rest
      have hinner := (ih h).2 (.mark ']' :: rest) (by simp)
      simp [refTokens, takeType, hinner, takeMark]
    constructor
    · intro _
      exact hlist
    · intro rest hrest
      rw [hlist, takeNonNull_of_head?_ne _ hrest]

theorem takeType_refTokens
    {type : TypeRef} (h : type.WellWrapped) {rest : List Token}
    (hrest : rest.head? ≠ some (.mark '!')) :
    takeType (refTokens type ++ rest) = some (type, rest) :=
  (takeType_refTokens_append h).2 rest hrest

theorem takeArgument_reason (reason : List Char) (rest : List Token) :
    takeArgument (.name "reason" :: .mark ':' :: .string reason :: rest) =
      some (("reason", [.string reason]), rest) := by
  simp [takeArgument, takeName, takeMark, takeConstant, takeDue, Due.after, afterValue]

theorem takeDirectives_deprecationTokens
    (deprecation : Option String) {rest : List Token} (hrest : Boundary rest) :
    takeDirectives (deprecationTokens deprecation ++ rest) =
      some (deprecationTree deprecation, rest) := by
  have hnone : takeEach '@' takeDirective rest = some ([], rest) :=
    takeEach_of_head?_ne takeDirective (hrest.head?_ne rfl)
  cases deprecation with
  | none => exact hnone
  | some reason =>
    rw [takeDirectives, deprecationTokens, deprecationTree]
    split
    · have hopen : rest.head? ≠ some (.mark '(') := hrest.head?_ne rfl
      have htake : takeDirective (.name "deprecated" :: rest) =
          some ({ name := "deprecated" }, rest) := by
        simp [takeDirective, takeName, takeGroup, hopen]
      exact takeEach_cons htake (by simp) hnone
    · have hargument := takeUntil_last (takeArgument_reason (reasonText reason) (.mark ')' :: rest))
      have htake : takeDirective
          (.name "deprecated" :: .mark '(' :: .name "reason" :: .mark ':' ::
            .string (reasonText reason) :: .mark ')' :: rest) =
          some ({ name := "deprecated",
                  arguments := [("reason", [.string (reasonText reason)])] }, rest) := by
        simp [takeDirective, takeName, takeGroup, hargument]
      exact takeEach_cons htake (by simp; omega) hnone

/-! ## Items of groups -/

theorem opens_descriptionTokens
    (indent : String) (description : Option String) (name : String) (rest : List Token) :
    ∃ token ∈ (descriptionTokens indent description ++ .name name :: rest).head?,
      token.opensItem = true := by
  cases description with
  | none => exact ⟨_, rfl, rfl⟩
  | some text => exact ⟨_, rfl, rfl⟩

theorem head?_defaultTokens_append_ne
    (default : Option String) {c : Char} (hc : c ≠ '=') {rest : List Token}
    (hrest : rest.head? ≠ some (.mark c)) :
    (defaultTokens default ++ rest).head? ≠ some (.mark c) := by
  cases default with
  | none => exact hrest
  | some literal => simpa [defaultTokens] using hc.symm

theorem head?_deprecationTokens_append_ne
    (deprecation : Option String) {c : Char} (hc : c ≠ '@') {rest : List Token}
    (hrest : rest.head? ≠ some (.mark c)) :
    (deprecationTokens deprecation ++ rest).head? ≠ some (.mark c) := by
  cases deprecation with
  | none => exact hrest
  | some reason =>
    rw [deprecationTokens]
    split <;> simpa using hc.symm

/-- Arguments and fields of input objects are read alike. -/
theorem takeInputValue_append
    (indent : String) (description : Option String) (name : String) {type : TypeRef}
    (htype : type.WellWrapped) {default : Option String}
    (hdefault : ∀ literal ∈ default, IsConstant literal) (deprecation : Option String)
    {rest : List Token} (hrest : Boundary rest) :
    takeInputValue (descriptionTokens indent description ++ .name name :: .mark ':' ::
        (refTokens type ++ (defaultTokens default ++ (deprecationTokens deprecation ++ rest)))) =
      some ({ description := descriptionTree indent description, name, type,
              default := default.map literalTokens,
              directives := deprecationTree deprecation }, rest) := by
  have hdirectives := takeDirectives_deprecationTokens deprecation hrest
  have hdefaults := takeDefault_defaultTokens hdefault
    (head?_deprecationTokens_append_ne deprecation (by decide) (hrest.head?_ne rfl))
  have hreference := takeType_refTokens htype
    (head?_defaultTokens_append_ne default (by decide)
      (head?_deprecationTokens_append_ne deprecation (by decide) (hrest.head?_ne rfl)))
  rw [takeInputValue, takeDescription_append]
  simp [takeName, takeMark, hreference, hdefaults, hdirectives]

theorem item_argument {a : Argument} (h : SpelledArgument a) (hwrapped : a.type.WellWrapped) :
    Item takeInputValue (argumentTokens a) (argumentTree a) := by
  constructor
  · exact opens_descriptionTokens _ a.description a.name _
  · intro rest hrest
    have htake := takeInputValue_append (indent ++ indent) a.description a.name hwrapped h.default
      none hrest
    simpa [argumentTokens, argumentTree, deprecationTokens, deprecationTree] using htake

theorem item_inputField {f : Field} (h : SpelledField f) (hshape : f.InputShaped) :
    Item takeInputValue (fieldTokens f) (inputFieldTree f) := by
  constructor
  · simp only [fieldTokens, List.append_assoc]
    exact opens_descriptionTokens _ f.description f.name _
  · intro rest hrest
    have htake := takeInputValue_append indent f.description f.name hshape.wrapped h.default
      f.deprecation hrest
    simpa [fieldTokens, hshape.arguments_eq_nil, groupTokens, inputFieldTree] using htake

theorem item_field {f : Field} (h : SpelledField f) (hshape : f.OutputShaped) :
    Item takeField (fieldTokens f) (fieldTree f) := by
  constructor
  · simp only [fieldTokens, List.append_assoc]
    exact opens_descriptionTokens _ f.description f.name _
  · intro rest hrest
    have hdirectives := takeDirectives_deprecationTokens f.deprecation hrest
    have htype := takeType_refTokens hshape.wrapped
      (head?_deprecationTokens_append_ne f.deprecation (by decide) (hrest.head?_ne rfl))
    have hitem : ∀ a ∈ f.arguments, Item takeInputValue (argumentTokens a) (argumentTree a) :=
      fun a ha => item_argument (h.arguments a ha) (hshape.arguments_wrapped a ha)
    have harguments : takeGroup '(' ')' takeInputValue
        (groupTokens '(' ')' argumentTokens f.arguments ++ .mark ':' ::
          (refTokens f.type ++ (deprecationTokens f.deprecation ++ rest))) =
        some (f.arguments.map argumentTree, .mark ':' ::
          (refTokens f.type ++ (deprecationTokens f.deprecation ++ rest))) :=
      takeGroup_groupTokens rfl hitem (by simp)
    simp only [fieldTokens, hshape.default_eq_none, defaultTokens, List.append_assoc,
      List.cons_append, List.nil_append]
    rw [takeField, takeDescription_append]
    simp [takeName, takeMark, harguments, htype, hdirectives, fieldTree]

theorem item_value {v : EnumValue} (h : isValueName v.name = true) :
    Item takeEnumValue (valueTokens v) (valueTree v) := by
  constructor
  · simp only [valueTokens, List.append_assoc]
    exact opens_descriptionTokens _ v.description v.name _
  · intro rest hrest
    have hdirectives := takeDirectives_deprecationTokens v.deprecation hrest
    have hreserved : v.name ∉ reservedNames := by
      rw [isValueName, Bool.and_eq_true] at h
      exact of_decide_eq_true h.2
    simp only [valueTokens, List.append_assoc, List.cons_append, List.nil_append]
    rw [takeEnumValue, takeDescription_append]
    simp [takeName, hreserved, hdirectives, valueTree]

theorem operation?_keyword (operation : Operation) :
    operation? operation.keyword = some operation := by
  cases operation <;> rfl

theorem item_root (root : Operation × String) : Item takeRoot (rootTokens root) root := by
  constructor
  · exact ⟨.name root.1.keyword, rfl, rfl⟩
  · intro rest _
    simp [takeRoot, rootTokens, takeName, takeMark, operation?_keyword]

/-! ## Definitions -/

theorem takeGroup_braces
    {α β : Type} {rule : Rule β} {tokens : α → List Token} {tree : α → β} {xs : List α}
    (h : ∀ x ∈ xs, Item rule (tokens x) (tree x)) {rest : List Token} (hrest : Boundary rest) :
    takeGroup '\x7b' '\x7d' rule (groupTokens '\x7b' '\x7d' tokens xs ++ rest) =
      some (xs.map tree, rest) :=
  takeGroup_groupTokens rfl h (hrest.head?_ne rfl)

theorem takeDirectives_of_boundary {rest : List Token} (hrest : Boundary rest) :
    takeDirectives rest = some ([], rest) :=
  takeDirectives_deprecationTokens none hrest

theorem head?_groupTokens_append_ne
    {α : Type} {opening close : Char} {tokens : α → List Token} (xs : List α) {rest : List Token}
    {token : Token} (htoken : token ≠ .mark opening) (hrest : rest.head? ≠ some token) :
    (groupTokens opening close tokens xs ++ rest).head? ≠ some token := by
  cases xs with
  | nil => exact hrest
  | cons x xs => simpa [groupTokens] using htoken.symm

theorem takeImplements_implementsTokens
    (interfaces : List String) {rest : List Token} (hand : rest.head? ≠ some (.mark '&'))
    (hkeyword : rest.head? ≠ some (.name "implements")) :
    takeImplements (implementsTokens interfaces ++ rest) = some (interfaces, rest) := by
  cases interfaces with
  | nil => simp [takeImplements, implementsTokens, hkeyword]
  | cons first others =>
    simpa [takeImplements, implementsTokens] using
      takeNames_namesTokens (List.cons_ne_nil first others) hand

theorem takeMembers_membersTokens
    (members : List String) {rest : List Token} (hrest : Boundary rest) :
    takeMembers (membersTokens members ++ rest) = some (members, rest) := by
  cases members with
  | nil =>
    have hequals : rest.head? ≠ some (.mark '=') := hrest.head?_ne rfl
    simp [takeMembers, membersTokens, hequals]
  | cons first others =>
    simpa [takeMembers, membersTokens] using
      takeNames_namesTokens (List.cons_ne_nil first others) (hrest.head?_ne rfl)

/-- The clause of an object or an interface ends before its fields, or before the next
definition where it has none. -/
theorem takeImplements_append
    (interfaces : List String) (fields : Catalog Field) {rest : List Token} (hrest : Fresh rest) :
    takeImplements (implementsTokens interfaces ++ (fieldBlockTokens fields ++ rest)) =
      some (interfaces, fieldBlockTokens fields ++ rest) :=
  takeImplements_implementsTokens interfaces
    (head?_groupTokens_append_ne fields.items (by simp) (hrest.boundary.head?_ne rfl))
    (head?_groupTokens_append_ne fields.items (by simp) hrest.head?_ne_implements)

theorem takeDirectives_groupTokens
    {α : Type} (tokens : α → List Token) (xs : List α) {rest : List Token}
    (hrest : Boundary rest) :
    takeDirectives (groupTokens '\x7b' '\x7d' tokens xs ++ rest) =
      some ([], groupTokens '\x7b' '\x7d' tokens xs ++ rest) :=
  takeEach_of_head?_ne takeDirective
    (head?_groupTokens_append_ne xs (by simp) (hrest.head?_ne rfl))

theorem takeDirectives_membersTokens
    (members : List String) {rest : List Token} (hrest : Boundary rest) :
    takeDirectives (membersTokens members ++ rest) = some ([], membersTokens members ++ rest) := by
  cases members with
  | nil => exact takeDirectives_of_boundary hrest
  | cons first others => exact takeEach_of_head?_ne takeDirective (by simp [membersTokens])

theorem takeBody_bodyTokens
    {body : TypeBody} (hspelled : SpelledBody body) (hshape : body.WellShaped)
    {rest : List Token} (hrest : Fresh rest) :
    takeBody (keyword body.kind) (bodyTokens body ++ rest) = some (([], bodyTree body), rest) := by
  have hboundary := hrest.boundary
  cases body with
  | object fields interfaces =>
    have hitem : ∀ f ∈ fields.items, Item takeField (fieldTokens f) (fieldTree f) :=
      fun f hf => item_field (hspelled.1 f hf) (hshape f hf)
    have hclause := takeImplements_append interfaces fields hrest
    have hdirectives := takeDirectives_groupTokens fieldTokens fields.items hboundary
    have hfields := takeGroup_braces hitem hboundary
    rw [fieldBlockTokens] at hclause
    simp [takeBody, keyword, TypeBody.kind, bodyTokens, bodyTree, fieldBlockTokens, hclause,
      hdirectives, hfields]
  | interface fields =>
    have hitem : ∀ f ∈ fields.items, Item takeField (fieldTokens f) (fieldTree f) :=
      fun f hf => item_field (hspelled f hf) (hshape f hf)
    have hclause := takeImplements_append [] fields hrest
    have hdirectives := takeDirectives_groupTokens fieldTokens fields.items hboundary
    have hfields := takeGroup_braces hitem hboundary
    rw [implementsTokens, List.nil_append, fieldBlockTokens] at hclause
    simp [takeBody, keyword, TypeBody.kind, bodyTokens, bodyTree, fieldBlockTokens, hclause,
      hdirectives, hfields]
  | inputObject fields =>
    have hitem : ∀ f ∈ fields.items, Item takeInputValue (fieldTokens f) (inputFieldTree f) :=
      fun f hf => item_inputField (hspelled f hf) (hshape f hf)
    have hdirectives := takeDirectives_groupTokens fieldTokens fields.items hboundary
    have hfields := takeGroup_braces hitem hboundary
    simp [takeBody, keyword, TypeBody.kind, bodyTokens, bodyTree, fieldBlockTokens, hdirectives,
      hfields]
  | union members =>
    have hmembers := takeMembers_membersTokens members hboundary
    have hdirectives := takeDirectives_membersTokens members hboundary
    simp [takeBody, keyword, TypeBody.kind, bodyTokens, bodyTree, hdirectives, hmembers]
  | enumeration values =>
    have hitem : ∀ v ∈ values, Item takeEnumValue (valueTokens v) (valueTree v) :=
      fun v hv => item_value (hspelled v hv)
    have hdirectives := takeDirectives_groupTokens valueTokens values hboundary
    have hvalues := takeGroup_braces hitem hboundary
    simp [takeBody, keyword, TypeBody.kind, bodyTokens, bodyTree, hdirectives, hvalues]
  | scalar =>
    have hdirectives := takeDirectives_of_boundary hboundary
    simp [takeBody, keyword, TypeBody.kind, bodyTokens, bodyTree, hdirectives]

theorem keyword_ne_schema (kind : TypeKind) : keyword kind ≠ "schema" := by
  cases kind <;> decide

theorem keyword_ne_directive (kind : TypeKind) : keyword kind ≠ "directive" := by
  cases kind <;> decide

theorem keyword_ne_implements (kind : TypeKind) : keyword kind ≠ "implements" := by
  cases kind <;> decide

theorem takeDefinition_definitionTokens
    {d : TypeDefinition} (hspelled : SpelledDefinition d) (hshape : d.body.WellShaped)
    {rest : List Token} (hrest : Fresh rest) :
    takeDefinition (definitionTokens d ++ rest) = some (definitionTree d, rest) := by
  have hbody := takeBody_bodyTokens hspelled.body hshape hrest
  simp only [definitionTokens, headTokens, List.append_assoc, List.cons_append, List.nil_append]
  rw [takeDefinition, takeDescription_append]
  simp [takeName, keyword_ne_schema, keyword_ne_directive, hbody, definitionTree]

theorem fresh_definitionTokens_append (d : TypeDefinition) (rest : List Token) :
    Fresh (definitionTokens d ++ rest) := by
  cases hdescription : d.description with
  | none =>
    simp only [definitionTokens, hdescription, headTokens]
    rintro _ ⟨rfl⟩
    simpa [Token.opensDefinition] using keyword_ne_implements d.body.kind
  | some text =>
    simp only [definitionTokens, hdescription]
    rintro _ ⟨rfl⟩
    rfl

end SchemaBinding.Sdl
