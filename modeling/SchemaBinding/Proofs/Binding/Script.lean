import SchemaBinding.Proofs.Binding.Comments
import SchemaBinding.Proofs.Binding.TypeTrees

/-!
# Scripts

A binding is a script: a row of declarations and the methods of its instances.
The trees below keep what a script says apart from how it is laid out.  Every
declaration and every block of methods that a schema gives rise to is the text
of such trees, whatever the names in the schema are.
-/

namespace SchemaBinding.Binding

namespace Script

/-! ## Trees -/

/-- A field of an interface or of a record. -/
structure Member where
  name : String
  isOptional : Bool
  type : TypeExpr
deriving DecidableEq, Repr, Inhabited

/-- An alternative of an alias: a type, or a string as a type of its own. -/
inductive Alternative where
  | name (text : String)
  | literal (text : String)
deriving DecidableEq, Repr, Inhabited

inductive Declaration where
  | interface (name : String) (bases : List String) (members : List Member)
  /-- An alias of a type of records. -/
  | record (name : String) (members : List Member)
  /-- An alias of a union, which may have no alternatives. -/
  | choice (name : String) (alternatives : List Alternative)
  /-- An alias of a type that is taken over as it stands. -/
  | synonym (name type : String)
deriving DecidableEq, Repr, Inhabited

/-- A method, which promises its result. -/
structure Method where
  name : String
  result : TypeExpr
  isNullable : Bool
deriving DecidableEq, Repr, Inhabited

/-- The identifier that a declaration declares. -/
def Declaration.name : Declaration → String
  | interface name _ _ => name
  | record name _ => name
  | choice name _ => name
  | synonym name _ => name

def Alternative.name? : Alternative → Option String
  | name text => some text
  | literal _ => none

/-- The names of types in a declaration: in its fields, behind `extends`, and among its
alternatives.  What a synonym stands for is not looked into. -/
def Declaration.names : Declaration → List String
  | interface _ bases members => bases ++ members.flatMap fun m => m.type.names
  | record _ members => members.flatMap fun m => m.type.names
  | choice _ alternatives => alternatives.filterMap Alternative.name?
  | synonym _ _ => []

/-! ## Texts -/

def Member.text (m : Member) : String :=
  "  " ++ m.name ++ (if m.isOptional then "?" else "") ++ ": " ++ m.type.text

def Alternative.text : Alternative → String
  | name text => text
  | literal text => "'" ++ text ++ "'"

def Alternative.isLiteral : Alternative → Bool
  | name _ => false
  | literal _ => true

/-- Strings stand on lines of their own. -/
def separator (alternatives : List Alternative) : String :=
  if alternatives.any Alternative.isLiteral then " |\n  " else " | "

def memberBlock (members : List Member) : String :=
  if members = [] then "\x7b\x7d"
  else "\x7b\n" ++ "\n".intercalate (members.map Member.text) ++ "\n\x7d"

def Declaration.text : Declaration → String
  | interface name bases members =>
    "export interface " ++ name ++ extendsClause bases ++ " " ++ memberBlock members
  | record name members => "export type " ++ name ++ " = " ++ memberBlock members
  | choice name alternatives =>
    "export type " ++ name ++ " = " ++
      Binding.alternatives (separator alternatives) (alternatives.map Alternative.text)
  | synonym name type => "export type " ++ name ++ " = " ++ type

def Method.text (m : Method) : String :=
  "    " ++ m.name ++ ": (args, info, context) => Promise<" ++ m.result.text ++
    (if m.isNullable then " | null" else "") ++ ">"

def methodBlock (methods : List Method) : String :=
  if methods = [] then "\x7b\x7d"
  else "\x7b\n" ++ "\n".intercalate (methods.map Method.text) ++ "\n  \x7d"

/-! ## The script of a schema -/

def member (inlineScalars : Bool) (position : Position) (f : Field) : Member where
  name := f.name
  isOptional := f.isOptional
  type := typeTree inlineScalars position f.type

def members (inlineScalars : Bool) (position : Position) (fields : Catalog Field) : List Member :=
  fields.items.map (member inlineScalars position)

/-- The declarations of a type, which is one but for the identifier scalar. -/
def ofBody (options : Options) (name : String) : TypeBody → List Declaration
  | .object fields interfaces =>
    [.interface name interfaces (members options.inlineScalars .output fields)]
  | .interface fields => [.interface name [] (members options.inlineScalars .output fields)]
  | .inputObject fields => [.record name (members options.inlineScalars .input fields)]
  | .union types => [.choice name (types.map .name)]
  | .enumeration values => [.choice name (values.map fun v => .literal v.name)]
  | .scalar =>
    if name = identifierScalar then
      [Position.input, .output].map fun position =>
        .synonym (name ++ position.suffix) (options.scalars.typeAt name position)
    else [.synonym name (options.scalars.typeOf name)]

def ofDefinition (options : Options) (d : TypeDefinition) : List Declaration :=
  ofBody options d.name d.body

def method (inlineScalars : Bool) (f : Field) : Method where
  name := f.name
  result := typeTree inlineScalars .output f.type
  isNullable := f.isOptional

def methods (inlineScalars : Bool) (schema : Schema) (operation : Operation) : List Method :=
  (rootFields schema operation).map (method inlineScalars)

/-! ## What a schema writes is the text of its script -/

variable {options : Options} {position : Position}

theorem text_member (f : Field) :
    (member options.inlineScalars position f).text =
      fieldLine (options.withDocs false) position f := by
  rw [Member.text, fieldLine, member, text_typeTree]
  simp only [fieldComment, Options.withDocs, Bool.false_eq_true, if_false, String.empty_append]

theorem memberBlock_members (fields : Catalog Field) :
    memberBlock (members options.inlineScalars position fields) =
      fieldBlock (options.withDocs false) position fields := by
  have htexts : (members options.inlineScalars position fields).map Member.text =
      fields.items.map (fieldLine (options.withDocs false) position) := by
    rw [members, List.map_map]
    exact List.map_congr_left fun f _ => text_member f
  have hnone : members options.inlineScalars position fields = [] ↔ fields.items = [] :=
    List.map_eq_nil_iff
  rw [memberBlock, fieldBlock, htexts]
  simp only [hnone]

theorem text_interface (name : String) (bases : List String) (members : List Member) :
    (Declaration.interface name bases members).text =
      "export interface " ++ name ++ extendsClause bases ++ " " ++ memberBlock members :=
  rfl

theorem text_record (name : String) (members : List Member) :
    (Declaration.record name members).text = "export type " ++ name ++ " = " ++ memberBlock members :=
  rfl

theorem text_choice (name : String) (choices : List Alternative) :
    (Declaration.choice name choices).text =
      "export type " ++ name ++ " = " ++
        alternatives (separator choices) (choices.map Alternative.text) :=
  rfl

theorem text_synonym (name type : String) :
    (Declaration.synonym name type).text = "export type " ++ name ++ " = " ++ type :=
  rfl

theorem text_choice_names (name : String) (types : List String) :
    (Declaration.choice name (types.map .name)).text =
      "export type " ++ name ++ " = " ++ alternatives " | " types := by
  have hseparator : separator (types.map .name) = " | " := by
    simp [separator, Alternative.isLiteral]
  have htexts : (types.map Alternative.name).map Alternative.text = types := by
    simp [Function.comp_def, Alternative.text]
  rw [text_choice, hseparator, htexts]

theorem text_choice_literals (name : String) (values : List EnumValue) :
    (Declaration.choice name (values.map fun v => .literal v.name)).text =
      "export type " ++ name ++ " = " ++
        alternatives " |\n  " (values.map fun v => "'" ++ v.name ++ "'") := by
  have htexts : (values.map fun v => Alternative.literal v.name).map Alternative.text =
      values.map fun v => "'" ++ v.name ++ "'" := by
    simp [Function.comp_def, Alternative.text]
  rw [text_choice, htexts]
  cases values with
  | nil => rfl
  | cons v values => rfl

theorem text_ofBody (name : String) (body : TypeBody) :
    "\n".intercalate ((ofBody options name body).map Declaration.text) =
      declarationBody (options.withDocs false) name body := by
  cases body with
  | object fields interfaces =>
    rw [ofBody, List.map_singleton, String.intercalate_singleton, text_interface,
      memberBlock_members]
    rfl
  | interface fields =>
    rw [ofBody, List.map_singleton, String.intercalate_singleton, text_interface,
      memberBlock_members, extendsClause, if_pos rfl, String.append_empty]
    rfl
  | inputObject fields =>
    rw [ofBody, List.map_singleton, String.intercalate_singleton, text_record, memberBlock_members]
    rfl
  | union types =>
    rw [ofBody, List.map_singleton, String.intercalate_singleton, text_choice_names]
    rfl
  | enumeration values =>
    rw [ofBody, List.map_singleton, String.intercalate_singleton, text_choice_literals]
    rfl
  | scalar =>
    change _ = scalarAlias options.scalars name
    have hbreak : "\nexport type " = "\n" ++ "export type " := rfl
    rw [scalarAlias, ofBody]
    split
    · simp [text_synonym, String.append_assoc]
      rw [hbreak, String.append_assoc]
    · rw [List.map_singleton, String.intercalate_singleton, text_synonym]

/-- Without documentation a declaration is the text of its trees. -/
theorem declaration_eq_text (d : TypeDefinition) :
    declaration (options.withDocs false) d =
      "\n".intercalate ((ofDefinition options d).map Declaration.text) := by
  have hcomment : declarationComment (options.withDocs false).docs d.description = "" := by
    cases d.description <;> rfl
  rw [declaration, hcomment, String.empty_append, ofDefinition, text_ofBody]

theorem text_method (inlineScalars : Bool) (f : Field) :
    (method inlineScalars f).text = "    " ++ Binding.method inlineScalars f := by
  rw [Method.text, Binding.method, method, text_typeTree]
  simp only [String.append_assoc]

theorem methodBlock_methods (inlineScalars : Bool) (schema : Schema) (operation : Operation) :
    methodBlock (methods inlineScalars schema operation) =
      Binding.methodBlock inlineScalars schema operation := by
  have htexts : (methods inlineScalars schema operation).map Method.text =
      (rootFields schema operation).map fun f => "    " ++ Binding.method inlineScalars f := by
    rw [methods, List.map_map]
    exact List.map_congr_left fun f _ => text_method inlineScalars f
  have hnone : methods inlineScalars schema operation = [] ↔ rootFields schema operation = [] :=
    List.map_eq_nil_iff
  rw [methodBlock, Binding.methodBlock, htexts]
  simp only [hnone]

end Script

end SchemaBinding.Binding
