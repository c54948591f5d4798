import SchemaBinding.Proofs.Sdl.BlockString
import SchemaBinding.Proofs.Sdl.QuotedString
import SchemaBinding.Proofs.Sdl.Spelling
import SchemaBinding.Sdl.Document

/-!
# The tokens of a schema document

Each function that prints a part of a schema has its counterpart here, which
gives the tokens of that part without any layout.  The main result says that
scanning the document of a well-spelled schema gives exactly these tokens.
-/

namespace SchemaBinding.Sdl

open Reader

/-! ## Tokens of the parts of a schema -/

def refTokens : TypeRef → List Token
  | .named name => [.name name]
  | .nonNull inner => refTokens inner ++ [.mark '!']
  | .list inner => [.mark '['] ++ refTokens inner ++ [.mark ']']

def literalTokens (literal : String) : List Token :=
  (scan literal.toList).getD []

def defaultTokens : Option String → List Token
  | none => []
  | some literal => [.mark '='] ++ literalTokens literal

/-- What stands between the quotation marks of a reason. -/
def reasonText (reason : String) : List Char :=
  reason.toList.flatMap Json.escapeChar

def deprecationTokens : Option String → List Token
  | none => []
  | some reason =>
    if reason = defaultReason then [.mark '@', .name "deprecated"]
    else
      [.mark '@', .name "deprecated", .mark '(', .name "reason", .mark ':'] ++
        [.string (reasonText reason)] ++ [.mark ')']

/-- The tokens of items between two punctuators, or none without items. -/
def groupTokens {α : Type} (opening close : Char) (tokens : α → List Token) :
    List α → List Token
  | [] => []
  | xs => [.mark opening] ++ xs.flatMap tokens ++ [.mark close]

def argumentTokens (a : Argument) : List Token :=
  descriptionTokens (indent ++ indent) a.description ++
    ([.name a.name] ++ [.mark ':'] ++ refTokens a.type ++ defaultTokens a.default)

def fieldTokens (f : Field) : List Token :=
  descriptionTokens indent f.description ++ [.name f.name] ++
    groupTokens '(' ')' argumentTokens f.arguments ++ [.mark ':'] ++ refTokens f.type ++
    defaultTokens f.default ++ deprecationTokens f.deprecation

def valueTokens (v : EnumValue) : List Token :=
  descriptionTokens indent v.description ++ [.name v.name] ++ deprecationTokens v.deprecation

def fieldBlockTokens (fields : Catalog Field) : List Token :=
  groupTokens '\x7b' '\x7d' fieldTokens fields.items

/-- The tokens of names with a punctuator between them. -/
def namesTokens (mark : Char) (names : List String) : List Token :=
  List.intercalate [.mark mark] (names.map fun name => [.name name])

def implementsTokens : List String → List Token
  | [] => []
  | names => [.name "implements"] ++ namesTokens '&' names

def membersTokens : List String → List Token
  | [] => []
  | names => [.mark '='] ++ namesTokens '|' names

def keyword : TypeKind → String
  | .object => "type"
  | .interface => "interface"
  | .inputObject => "input"
  | .union => "union"
  | .enumeration => "enum"
  | .scalar => "scalar"

def bodyTokens : TypeBody → List Token
  | .object fields interfaces => implementsTokens interfaces ++ fieldBlockTokens fields
  | .interface fields => fieldBlockTokens fields
  | .inputObject fields => fieldBlockTokens fields
  | .union members => membersTokens members
  | .enumeration values => groupTokens '\x7b' '\x7d' valueTokens values
  | .scalar => []

def headTokens (name : String) (body : TypeBody) : List Token :=
  [.name (keyword body.kind)] ++ [.name name] ++ bodyTokens body

def definitionTokens (d : TypeDefinition) : List Token :=
  descriptionTokens "" d.description ++ headTokens d.name d.body

def rootTokens (root : Operation × String) : List Token :=
  [.name root.1.keyword] ++ [.mark ':'] ++ [.name root.2]

def schemaTokens (schema : Schema) : List Token :=
  if schema.boundRoots.all fun root => root.2 == root.1.defaultRoot then []
  else [.name "schema"] ++ groupTokens '\x7b' '\x7d' rootTokens schema.boundRoots

def documentTokens (schema : Schema) : List Token :=
  schemaTokens schema ++ (visibleTypes schema).flatMap definitionTokens

/-! ## References, defaults and deprecations -/

theorem reads_notate {type : TypeRef} (h : isName type.leaf = true) :
    Reads type.notate (refTokens type) := by
  induction type with
  | named name => exact reads_name h
  | nonNull inner ih =>
    exact ((ih h).append_marks "!" (by decide)).reads
  | list inner ih => exact (ih h).between "[" "]" (by decide) (by decide)

theorem IsConstant.reads {literal : String} (h : IsConstant literal) :
    Reads literal (literalTokens literal) := by
  obtain ⟨tokens, hscan, hbare, -⟩ := h
  have htokens : literalTokens literal = tokens := by simp [literalTokens, hscan]
  rw [htokens]
  exact reads_of_scan hscan hbare

theorem clear_defaultValue (default : Option String) : Clear (defaultValue default).toList := by
  cases default with
  | none => exact clear_nil
  | some literal => exact clear_separator_append (by decide) literal

theorem reads_defaultValue
    {default : Option String} (h : ∀ literal ∈ default, IsConstant literal) :
    Reads (defaultValue default) (defaultTokens default) := by
  cases default with
  | none => exact closed_empty.reads
  | some literal =>
    exact (closed_marks " = " (by decide)).append_reads (h literal rfl).reads

theorem clear_deprecationMark (deprecation : Option String) :
    Clear (deprecationMark deprecation).toList := by
  cases deprecation with
  | none => exact clear_nil
  | some reason =>
    rw [deprecationMark]
    split
    · decide
    · rw [String.append_assoc]
      exact clear_append (by decide) (by decide) _

theorem reads_deprecationMark (deprecation : Option String) :
    Reads (deprecationMark deprecation) (deprecationTokens deprecation) := by
  cases deprecation with
  | none => exact closed_empty.reads
  | some reason =>
    have hmark : Reads " @deprecated" [.mark '@', .name "deprecated"] :=
      (closed_marks " @" (by decide)).append_reads (reads_name (s := "deprecated") (by decide))
    have hreason : Reads "(reason" [.mark '(', .name "reason"] :=
      (closed_marks "(" (by decide)).append_reads (reads_name (s := "reason") (by decide))
    rw [deprecationMark, deprecationTokens]
    split
    · exact hmark
    · have hopen : Closed " @deprecated(reason: "
          [.mark '@', .name "deprecated", .mark '(', .name "reason", .mark ':'] :=
        (hmark.append hreason (by decide)).append_marks ": " (by decide)
      have hquoted := hopen.append_reads (reads_quote reason)
      exact (hquoted.append_marks ")" (by decide)).reads

/-! ## Arguments, fields and values -/

theorem reads_argument {a : Argument} (h : SpelledArgument a) :
    Reads (argument a)
      ([.name a.name] ++ [.mark ':'] ++ refTokens a.type ++ defaultTokens a.default) := by
  have hname := (reads_name h.name).append_marks ": " (by decide)
  exact (hname.append_reads (reads_notate h.leaf)).append (reads_defaultValue h.default)
    (clear_defaultValue a.default)

theorem reads_argumentRow {a : Argument} (h : SpelledArgument a) :
    Reads (argumentRow a) (argumentTokens a) := by
  have hrow := closed_describe_indent (indent ++ indent) (by decide) a.description
  exact hrow.append_reads (reads_argument h)

theorem clear_arguments (args : List Argument) : Clear (arguments args).toList := by
  unfold arguments
  split_ifs
  · exact clear_nil
  · rw [String.append_assoc]
    exact clear_separator_append (by decide) _
  · simp only [String.append_assoc]
    exact clear_separator_append (by decide) _

theorem reads_arguments {args : List Argument} (h : ∀ a ∈ args, SpelledArgument a) :
    Reads (arguments args) (groupTokens '(' ')' argumentTokens args) := by
  cases args with
  | nil => exact closed_empty.reads
  | cons a args =>
    rw [arguments, if_neg (by simp)]
    split
    next hplain =>
      have hrow : ∀ b ∈ a :: args, Reads (argument b) (argumentTokens b) := by
        intro b hb
        have hnone : b.description = none := by simpa using List.all_eq_true.mp hplain b hb
        rw [argumentTokens, hnone]
        exact reads_argument (h b hb)
      have hrows := reads_rows (s := ", ") (by decide) rfl hrow
      exact hrows.between "(" ")" (by decide) (by decide)
    next =>
      have hrows := reads_rows (s := "\n") (by decide) rfl
        fun b hb => reads_argumentRow (h b hb)
      rw [String.append_assoc, String.append_assoc]
      exact hrows.between "(\n" "\n  )" (by decide) (by decide)

theorem reads_fieldRow {f : Field} (h : SpelledField f) :
    Reads (fieldRow f) (fieldTokens f) := by
  have hrow := closed_describe_indent indent (by decide) f.description
  have hname := (hrow.append_reads (reads_name h.name)).append (reads_arguments h.arguments)
    (clear_arguments f.arguments)
  have hcolon := hname.append_marks ": " (by decide)
  have htype := (hcolon.append_reads (reads_notate h.leaf)).append (reads_defaultValue h.default)
    (clear_defaultValue f.default)
  exact htype.append (reads_deprecationMark f.deprecation) (clear_deprecationMark f.deprecation)

theorem reads_valueRow {v : EnumValue} (h : isName v.name = true) :
    Reads (valueRow v) (valueTokens v) := by
  have hrow := closed_describe_indent indent (by decide) v.description
  exact (hrow.append_reads (reads_name h)).append (reads_deprecationMark v.deprecation)
    (clear_deprecationMark v.deprecation)

/-! ## Definitions -/

theorem clear_block (rows : List String) : Clear (block rows).toList := by
  unfold block
  split_ifs
  · exact clear_nil
  · rw [String.append_assoc]
    exact clear_separator_append (by decide) _

theorem reads_block
    {α : Type} {f : α → String} {tokens : α → List Token} {xs : List α}
    (h : ∀ x ∈ xs, Reads (f x) (tokens x)) :
    Reads (block (xs.map f)) (groupTokens '\x7b' '\x7d' tokens xs) := by
  cases xs with
  | nil => exact closed_empty.reads
  | cons x xs =>
    rw [block, if_neg (by simp)]
    have hrows := reads_rows (s := "\n") (by decide) rfl h
    exact hrows.between " \x7b\n" "\n\x7d" (by decide) (by decide)

theorem reads_fieldBlock {fields : Catalog Field} (h : ∀ f ∈ fields.items, SpelledField f) :
    Reads (fieldBlock fields) (fieldBlockTokens fields) :=
  reads_block fun f hf => reads_fieldRow (h f hf)

theorem reads_names
    {mark : Char} {s : String} (hs : isSeparator s = true) (hmark : markTokens s = [.mark mark])
    {names : List String} (h : ∀ name ∈ names, isName name = true) :
    Reads (s.intercalate names) (namesTokens mark names) := by
  have hnames := reads_intercalate hs fun name hname => reads_name (h name hname)
  rwa [hmark, List.map_id'] at hnames

theorem clear_implementsClause (interfaces : List String) :
    Clear (implementsClause interfaces).toList := by
  unfold implementsClause
  split_ifs
  · exact clear_nil
  · exact clear_append (by decide) (by decide) _

theorem reads_implementsClause
    {interfaces : List String} (h : ∀ name ∈ interfaces, isName name = true) :
    Reads (implementsClause interfaces) (implementsTokens interfaces) := by
  cases interfaces with
  | nil => exact closed_empty.reads
  | cons first others =>
    have hkeyword : Closed " implements " [.name "implements"] :=
      (closed_marks " " (by decide)).append (closed_keyword (s := "implements") (by decide))
    have hnames := reads_names (s := " & ") (by decide) rfl h
    rw [implementsClause, if_neg (by simp)]
    exact hkeyword.append_reads hnames

theorem clear_membersClause (members : List String) : Clear (membersClause members).toList := by
  unfold membersClause
  split_ifs
  · exact clear_nil
  · exact clear_separator_append (by decide) _

theorem reads_membersClause
    {members : List String} (h : ∀ name ∈ members, isName name = true) :
    Reads (membersClause members) (membersTokens members) := by
  cases members with
  | nil => exact closed_empty.reads
  | cons first others =>
    have hnames := reads_names (s := " | ") (by decide) rfl h
    rw [membersClause, if_neg (by simp)]
    exact (closed_marks " = " (by decide)).append_reads hnames

theorem isName_of_isValueName {name : String} (h : isValueName name = true) :
    isName name = true := by
  rw [isValueName, Bool.and_eq_true] at h
  exact h.1

theorem reads_keyword_name
    (kind : TypeKind) {name : String} (hname : isName name = true) :
    Reads (keyword kind ++ " " ++ name) [.name (keyword kind), .name name] := by
  have hkeyword : isName (keyword kind) = true := by
    cases kind <;> decide
  exact (closed_keyword hkeyword).append_reads (reads_name hname)

theorem reads_head
    {name : String} {body : TypeBody} (hname : isName name = true) (hbody : SpelledBody body) :
    Reads (head name body) (headTokens name body) := by
  cases body with
  | object fields interfaces =>
    have hclause := (reads_keyword_name .object hname).append (reads_implementsClause hbody.2)
      (clear_implementsClause interfaces)
    exact hclause.append (reads_fieldBlock hbody.1) (clear_block _)
  | interface fields =>
    exact (reads_keyword_name .interface hname).append (reads_fieldBlock hbody) (clear_block _)
  | inputObject fields =>
    exact (reads_keyword_name .inputObject hname).append (reads_fieldBlock hbody) (clear_block _)
  | union members =>
    exact (reads_keyword_name .union hname).append (reads_membersClause hbody)
      (clear_membersClause members)
  | enumeration values =>
    have hvalues := reads_block fun v hv => reads_valueRow (isName_of_isValueName (hbody v hv))
    exact (reads_keyword_name .enumeration hname).append hvalues (clear_block _)
  | scalar => exact reads_keyword_name .scalar hname

theorem reads_definition {d : TypeDefinition} (h : SpelledDefinition d) :
    Reads (definition d) (definitionTokens d) :=
  (closed_describe "" (by decide) d.description).append_reads (reads_head h.name h.body)

/-! ## Documents -/

theorem isName_keyword (operation : Operation) : isName operation.keyword = true := by
  cases operation <;> decide

theorem isName_of_mem_boundRoots
    {schema : Schema} (h : SpelledSchema schema) {root : Operation × String}
    (hroot : root ∈ schema.boundRoots) : isName root.2 = true := by
  obtain ⟨operation, -, hname⟩ := List.mem_filterMap.mp hroot
  obtain ⟨name, hbound, rfl⟩ := Option.map_eq_some_iff.mp hname
  exact h.roots operation name hbound

theorem reads_rootRow {root : Operation × String} (h : isName root.2 = true) :
    Reads (rootRow root) (rootTokens root) := by
  have hkeyword := (closed_marks indent (by decide)).append_reads
    (reads_name (isName_keyword root.1))
  have hcolon := hkeyword.append_marks ": " (by decide)
  exact hcolon.append_reads (reads_name h)

theorem reads_schemaBlock
    {schema : Schema} (h : SpelledSchema schema) {text : String}
    (htext : schemaBlock? schema = some text) : Reads text (schemaTokens schema) := by
  unfold schemaBlock? at htext
  split at htext
  · cases htext
  next hcustom =>
    obtain rfl := Option.some.inj htext
    rw [schemaTokens, if_neg hcustom]
    exact (reads_name (s := "schema") (by decide)).append
      (reads_block fun root hroot => reads_rootRow (isName_of_mem_boundRoots h hroot))
      (clear_block _)

theorem schemaTokens_eq_nil
    {schema : Schema} (h : schemaBlock? schema = none) : schemaTokens schema = [] := by
  unfold schemaBlock? at h
  split at h
  next hdefault => rw [schemaTokens, if_pos hdefault]
  next => cases h

theorem mem_of_mem_visibleTypes
    {schema : Schema} {d : TypeDefinition} (h : d ∈ visibleTypes schema) :
    d ∈ schema.types.items :=
  (List.mem_filter.mp h).1

theorem reads_blocks {schema : Schema} (h : SpelledSchema schema) :
    Reads ("\n\n".intercalate (blocks schema)) (documentTokens schema) := by
  have htypes : ∀ d ∈ visibleTypes schema, Reads (definition d) (definitionTokens d) :=
    fun d hd => reads_definition (h.types d (mem_of_mem_visibleTypes hd))
  rw [blocks, documentTokens]
  cases hblock : schemaBlock? schema with
  | none =>
    rw [schemaTokens_eq_nil hblock]
    exact reads_rows (by decide) rfl htypes
  | some text =>
    -- the block stands in the row like one more definition
    have hrow : ∀ d? ∈ none :: (visibleTypes schema).map some,
        Reads (d?.elim text definition) (d?.elim (schemaTokens schema) definitionTokens) := by
      intro d? hd?
      cases d? with
      | none => exact reads_schemaBlock h hblock
      | some d => exact htypes d (by simpa using hd?)
    have hrows := reads_rows (s := "\n\n") (by decide) rfl hrow
    simpa [List.flatMap_map, Function.comp_def] using hrows

/-- The document of a well-spelled schema reads as the tokens of its parts in order. -/
theorem reads_document {schema : Schema} (h : SpelledSchema schema) :
    Reads (document schema) (documentTokens schema) := by
  have hblocks := reads_blocks h
  rw [document]
  cases hcases : blocks schema with
  | nil =>
    rw [hcases] at hblocks
    exact hblocks
  | cons first others =>
    rw [hcases] at hblocks
    rw [← List.append_nil (documentTokens schema)]
    exact (hblocks.append_marks "\n" (by decide)).reads

end SchemaBinding.Sdl
