import SchemaBinding.Proofs.Binding.Script
import SchemaBinding.Proofs.Binding.ScriptTokens

/-!
# Reading scripts

A reader puts the declarations and the methods of a script together from its
tokens, and leaves comments aside.  What it finds in the text of a tree whose
names are identifiers is that tree.
-/

namespace SchemaBinding.Binding.Script

/-! ## Readers -/

def Token.type? : Token → Option TypeToken
  | .type token => some token
  | _ => none

/-- The type that a row of tokens stands for. -/
def readTypeTokens (tokens : List Token) : Option TypeExpr :=
  (tokens.mapM Token.type?).bind typeOfTokens?

/-- The rows up to the brace that ends the tokens; each row ends in a line end. -/
def takeRows (row : List Token) : List Token → Option (List (List Token))
  | [] => none
  | token :: rest =>
    if token = .lineEnd then (takeRows [] rest).map (row :: ·)
    else if token = .mark '\x7d' ∧ row = [] ∧ rest = [] then some []
    else takeRows (row ++ [token]) rest

/-- The rows of a block, which stands in braces. -/
def readRows : List Token → Option (List (List Token))
  | [.mark '\x7b', .mark '\x7d'] => some []
  | .mark '\x7b' :: .lineEnd :: rest => takeRows [] rest
  | _ => none

def readMember : List Token → Option Member
  | .word name :: .mark '?' :: .mark ':' :: rest =>
    (readTypeTokens rest).map fun type => ⟨name, true, type⟩
  | .word name :: .mark ':' :: rest => (readTypeTokens rest).map fun type => ⟨name, false, type⟩
  | _ => none

def readMembers (tokens : List Token) : Option (List Member) :=
  (readRows tokens).bind fun rows => rows.mapM readMember

/-- Names with commas between them. -/
def takeNames : List Token → Option (List String × List Token)
  | .word name :: .mark ',' :: rest =>
    (takeNames rest).map fun (names, rest) => (name :: names, rest)
  | .word name :: rest => some ([name], rest)
  | _ => none

/-- The names behind `extends`, if it is there. -/
def takeBases (tokens : List Token) : Option (List String × List Token) :=
  if tokens.head? = some (.word "extends") then takeNames tokens.tail else some ([], tokens)

/-- Alternatives with bars between them. -/
def readAlternatives : List Token → Option (List Alternative)
  | [.word text] => some [.name text]
  | [.literal text] => some [.literal text]
  | .word text :: .type .bar :: rest => (readAlternatives rest).map (.name text :: ·)
  | .literal text :: .type .bar :: rest => (readAlternatives rest).map (.literal text :: ·)
  | _ => none

/-- A record or a union, behind the equals sign of an alias. -/
def readAlias (name : String) (tokens : List Token) : Option Declaration :=
  if tokens.head? = some (.mark '\x7b') then (readMembers tokens).map (.record name)
  else (readAlternatives (tokens.filter (· != .lineEnd))).map (.choice name)

def readDeclaration : List Token → Option Declaration
  | .word keyword :: .word sort :: .word name :: rest =>
    if keyword ≠ "export" then none
    else if sort = "interface" then do
      let (bases, rest) ← takeBases rest
      let members ← readMembers rest
      some (.interface name bases members)
    else if sort = "type" ∧ rest.head? = some (.mark '=') then readAlias name rest.tail
    else none
  | _ => none

/-- What stands between the name of a method and its result. -/
def signature : List Token :=
  [.mark ':', .type .openParen, .word "args", .mark ',', .word "info", .mark ',', .word "context",
    .type .closeParen, .mark '=', .mark '>', .word "Promise", .mark '<']

/-- A method whose result is a union with `null` may give none. -/
def methodOf (name : String) : TypeExpr → Method
  | .union result (.name "null") => ⟨name, result, true⟩
  | result => ⟨name, result, false⟩

def readMethod : List Token → Option Method
  | .word name :: rest =>
    if signature.isPrefixOf rest ∧ rest.getLast? = some (.mark '>') then
      (readTypeTokens (rest.drop signature.length).dropLast).map (methodOf name)
    else none
  | _ => none

/-- The declaration that a text holds, comments aside. -/
def read (text : String) : Option Declaration := do
  let code ← stripComments text
  let tokens ← scan [] code.toList
  readDeclaration tokens

/-- The methods of the entry of an operation. -/
def readMethods (text : String) : Option (List Method) := do
  let tokens ← scan [] text.toList
  let rows ← readRows tokens
  rows.mapM readMethod

/-! ## The tokens of trees -/

def typeTokens (type : TypeExpr) : List Token :=
  type.tokens.map .type

def Member.tokens (m : Member) : List Token :=
  .word m.name :: ((if m.isOptional then [.mark '?'] else []) ++ .mark ':' :: typeTokens m.type)

def Alternative.token : Alternative → Token
  | name text => .word text
  | literal text => .literal text

/-- The rows of a block with the line end of each. -/
def blockTokens (rows : List (List Token)) : List Token :=
  if rows = [] then [.mark '\x7b', .mark '\x7d']
  else .mark '\x7b' :: .lineEnd :: (rows.flatMap (· ++ [.lineEnd]) ++ [.mark '\x7d'])

def basesTokens (bases : List String) : List Token :=
  if bases = [] then []
  else .word "extends" :: [Token.mark ','].intercalate (bases.map fun base => [.word base])

def Method.tokens (m : Method) : List Token :=
  .word m.name :: (signature ++ typeTokens m.result ++
    (if m.isNullable then [.type .bar, .word "null"] else []) ++ [.mark '>'])

variable {s name : String} {ts : List Token}

/-! ## The texts of trees -/

theorem reads_type {type : TypeExpr} (h : ∀ x ∈ type.names, isIdentifier x = true) :
    Reads type.text (typeTokens type) := by
  induction type with
  | name text => exact reads_name (h text (by simp [TypeExpr.names]))
  | array item ih =>
    have hbrackets : Closed "[]" [.type .openBracket, .type .closeBracket] :=
      closed_of_scan (by decide) rfl
    have hitem := (ih h).append_closed hbrackets (by decide)
    rw [typeTokens, TypeExpr.tokens, List.map_append]
    exact hitem.reads
  | union left right ihleft ihright =>
    have hbar : Closed " | " [.type .bar] := closed_of_scan (by decide) rfl
    have hleft := ihleft fun x hx => h x (by simp [TypeExpr.names, hx])
    have hright := ihright fun x hx => h x (by simp [TypeExpr.names, hx])
    rw [typeTokens, TypeExpr.tokens, List.map_append, List.map_append]
    exact (hleft.append_closed hbar (by decide)).append_reads hright

/-- A field with names that a reader takes as names. -/
structure Member.Spelled (m : Member) : Prop where
  name : isIdentifier m.name = true
  type : ∀ x ∈ m.type.names, isIdentifier x = true
  flat : m.type.isFlat = true

structure Method.Spelled (m : Method) : Prop where
  name : isIdentifier m.name = true
  result : ∀ x ∈ m.result.names, isIdentifier x = true
  plain : m.result.isPlain = true

theorem reads_member {m : Member} (h : m.Spelled) : Reads m.text m.tokens := by
  have hblanks : Closed "  " [] := closed_of_scan (by decide) rfl
  have hcolon : Closed ": " [.mark ':'] := closed_of_scan (by decide) rfl
  have hmark : Closed "?" [.mark '?'] := closed_of_scan (by decide) rfl
  have hname := hblanks.append_reads (reads_name h.name)
  rw [Member.text, Member.tokens]
  split
  · have hfront := (hname.append_closed hmark (by decide)).append hcolon
    simpa using hfront.append_reads (reads_type h.type)
  · rw [String.append_empty]
    have hfront := hname.append_closed hcolon (by decide)
    simpa using hfront.append_reads (reads_type h.type)

theorem reads_method {m : Method} (h : m.Spelled) : Reads m.text m.tokens := by
  have hblanks : Closed "    " [] := closed_of_scan (by decide) rfl
  have hsignature : Closed ": (args, info, context) => Promise<" signature :=
    closed_of_scan (by decide) rfl
  have hnull : Reads " | null" [.type .bar, .word "null"] := reads_of_scan rfl
  have hclose : Closed ">" [.mark '>'] := closed_of_scan (by decide) rfl
  have hname := hblanks.append_reads (reads_name h.name)
  have hfront := (hname.append_closed hsignature (by decide)).append_reads (reads_type h.result)
  rw [Method.text, Method.tokens]
  split
  · have hall := (hfront.append hnull (by decide)).append_closed hclose (by decide)
    simpa using hall.reads
  · rw [String.append_empty]
    simpa using (hfront.append_closed hclose (by decide)).reads

theorem intercalate_append_singleton
    {α : Type} (a : α) {xs : List (List α)} (h : xs ≠ []) :
    [a].intercalate xs ++ [a] = xs.flatMap (· ++ [a]) := by
  induction xs with
  | nil => exact absurd rfl h
  | cons x xs ih =>
    cases xs with
    | nil => simp
    | cons y ys =>
      rw [List.intercalate_cons_cons, List.append_assoc, ih (by simp)]
      simp

theorem reads_block
    {α : Type} {f : α → String} {g : α → List Token} {closing : String}
    (hclosing : Closed closing [.lineEnd, .mark '\x7d']) (hapart : startsApart closing = true)
    {xs : List α} (hsome : xs ≠ []) (h : ∀ x ∈ xs, Reads (f x) (g x)) :
    Closed ("\x7b\n" ++ "\n".intercalate (xs.map f) ++ closing) (blockTokens (xs.map g)) := by
  have hopen : Closed "\x7b\n" [.mark '\x7b', .lineEnd] :=
    closed_of_scan (by decide) rfl
  have hbreak : Closed "\n" [.lineEnd] := closed_of_scan (by decide) rfl
  have hrows := reads_intercalate hbreak (by decide) h
  have hsome : xs.map g ≠ [] := by simpa using hsome
  have hline := intercalate_append_singleton Token.lineEnd hsome
  have htokens : blockTokens (xs.map g) =
      [.mark '\x7b', .lineEnd] ++ [Token.lineEnd].intercalate (xs.map g) ++
        [.lineEnd, .mark '\x7d'] := by
    rw [blockTokens, if_neg hsome, ← hline]
    simp
  rw [htokens]
  exact (hopen.append_reads hrows).append_closed hclosing hapart

theorem closed_memberBlock {members : List Member} (h : ∀ m ∈ members, m.Spelled) :
    Closed (memberBlock members) (blockTokens (members.map Member.tokens)) := by
  rw [memberBlock]
  split
  next hnone =>
    rw [hnone]
    exact closed_of_scan (by decide) rfl
  next hsome =>
    have hclosing : Closed "\n\x7d" [.lineEnd, .mark '\x7d'] :=
      closed_of_scan (by decide) rfl
    exact reads_block hclosing (by decide) hsome fun m hm => reads_member (h m hm)

theorem closed_methodBlock {methods : List Method} (h : ∀ m ∈ methods, m.Spelled) :
    Closed (methodBlock methods) (blockTokens (methods.map Method.tokens)) := by
  rw [methodBlock]
  split
  next hnone =>
    rw [hnone]
    exact closed_of_scan (by decide) rfl
  next hsome =>
    have hclosing : Closed "\n  \x7d" [.lineEnd, .mark '\x7d'] :=
      closed_of_scan (by decide) rfl
    exact reads_block hclosing (by decide) hsome fun m hm => reads_method (h m hm)

/-! ## Reading rows and types back -/

theorem mapM_map_eq_some
    {α β : Type} {take : β → Option α} {write : α → β} {xs : List α}
    (h : ∀ x ∈ xs, take (write x) = some x) : (xs.map write).mapM take = some xs := by
  induction xs with
  | nil => rfl
  | cons x xs ih =>
    have hrest := ih fun y hy => h y (List.mem_cons_of_mem x hy)
    rw [List.map_cons, List.mapM_cons, h x (by simp), hrest]
    rfl

theorem readTypeTokens_typeTokens {type : TypeExpr} (h : type.isFlat = true) :
    readTypeTokens (typeTokens type) = some type := by
  have htokens : (typeTokens type).mapM Token.type? = some type.tokens :=
    mapM_map_eq_some fun token _ => rfl
  rw [readTypeTokens, htokens, Option.bind_some, typeOfTokens?_tokens h]

theorem takeRows_append {row : List Token} (h : .lineEnd ∉ row) (before rest : List Token) :
    takeRows before (row ++ .lineEnd :: rest) = (takeRows [] rest).map ((before ++ row) :: ·) := by
  induction row generalizing before with
  | nil => simp [takeRows]
  | cons token row ih =>
    have htoken : token ≠ .lineEnd := by
      rintro rfl
      exact h (by simp)
    have hrow : .lineEnd ∉ row := fun hmem => h (List.mem_cons_of_mem token hmem)
    rw [List.cons_append, takeRows, if_neg htoken, if_neg (by simp), ih hrow,
      List.append_assoc, List.singleton_append]

theorem takeRows_flatMap {rows : List (List Token)} (h : ∀ row ∈ rows, .lineEnd ∉ row) :
    takeRows [] (rows.flatMap (· ++ [.lineEnd]) ++ [.mark '\x7d']) = some rows := by
  induction rows with
  | nil => rfl
  | cons row rows ih =>
    have hrest := ih fun r hr => h r (List.mem_cons_of_mem row hr)
    rw [List.flatMap_cons, List.append_assoc, List.append_assoc, List.singleton_append,
      takeRows_append (h row (by simp)), hrest]
    rfl

theorem readRows_blockTokens {rows : List (List Token)} (h : ∀ row ∈ rows, .lineEnd ∉ row) :
    readRows (blockTokens rows) = some rows := by
  rw [blockTokens]
  split
  next hnone =>
    rw [hnone]
    rfl
  next => exact takeRows_flatMap h

theorem lineEnd_not_mem_typeTokens (type : TypeExpr) : .lineEnd ∉ typeTokens type := by
  intro hmem
  obtain ⟨token, -, htoken⟩ := List.mem_map.mp hmem
  cases htoken

theorem readMembers_blockTokens {members : List Member} (h : ∀ m ∈ members, m.Spelled) :
    readMembers (blockTokens (members.map Member.tokens)) = some members := by
  have hrows : ∀ row ∈ members.map Member.tokens, .lineEnd ∉ row := by
    intro row hrow
    obtain ⟨m, -, rfl⟩ := List.mem_map.mp hrow
    have htype := lineEnd_not_mem_typeTokens m.type
    rw [Member.tokens]
    split <;> simp [Token.word, htype]
  have hmember : ∀ m ∈ members, readMember m.tokens = some m := by
    intro m hm
    obtain ⟨name, isOptional, type⟩ := m
    have htype : readTypeTokens (typeTokens type) = some type :=
      readTypeTokens_typeTokens (h _ hm).flat
    cases isOptional with
    | true =>
      change (readTypeTokens (typeTokens type)).map _ = _
      rw [htype]
      rfl
    | false =>
      change (readTypeTokens (typeTokens type)).map _ = _
      rw [htype]
      rfl
  rw [readMembers, readRows_blockTokens hrows, Option.bind_some]
  exact mapM_map_eq_some hmember

theorem isFlat_of_isPlain {type : TypeExpr} (h : type.isPlain = true) : type.isFlat = true := by
  cases type with
  | name text => rfl
  | array item => exact h
  | union left right => cases h

/-- The result of a method is no union, so a bar in front of `null` belongs to the method. -/
theorem readTypeTokens_result {m : Method} (h : m.Spelled) :
    (readTypeTokens (typeTokens m.result ++
      if m.isNullable then [.type .bar, .word "null"] else [])).map (methodOf m.name) = some m := by
  obtain ⟨name, result, isNullable⟩ := m
  have hflat : result.isFlat = true := isFlat_of_isPlain h.plain
  cases isNullable with
  | true =>
    have hunion : (TypeExpr.union result (.name "null")).isFlat = true := by
      rw [TypeExpr.isFlat, hflat]
      rfl
    have htokens : typeTokens result ++ [.type .bar, .word "null"] =
        typeTokens (.union result (.name "null")) := by
      simp [typeTokens, TypeExpr.tokens]
    rw [if_pos rfl, htokens, readTypeTokens_typeTokens hunion]
    rfl
  | false =>
    rw [if_neg Bool.false_ne_true, List.append_nil, readTypeTokens_typeTokens hflat]
    cases result with
    | name text => rfl
    | array item => rfl
    | union left right => cases h.plain

theorem readMethod_tokens {m : Method} (h : m.Spelled) : readMethod m.tokens = some m := by
  have hresult := readTypeTokens_result h
  generalize hbody : typeTokens m.result ++
    (if m.isNullable then [.type .bar, .word "null"] else []) = body at hresult
  have htokens : m.tokens = .word m.name :: (signature ++ (body ++ [.mark '>'])) := by
    rw [Method.tokens, ← hbody]
    simp
  have hstart : signature.isPrefixOf (signature ++ (body ++ [.mark '>'])) = true :=
    List.isPrefixOf_iff_prefix.mpr (List.prefix_append _ _)
  have hlast : (signature ++ (body ++ [Token.mark '>'])).getLast? = some (.mark '>') := by simp
  rw [htokens, readMethod, if_pos ⟨hstart, hlast⟩, List.drop_left, List.dropLast_concat]
  exact hresult

theorem readMethods_methodBlock {methods : List Method} (h : ∀ m ∈ methods, m.Spelled) :
    readMethods (methodBlock methods) = some methods := by
  have hrows : ∀ row ∈ methods.map Method.tokens, .lineEnd ∉ row := by
    intro row hrow
    obtain ⟨m, -, rfl⟩ := List.mem_map.mp hrow
    have htype := lineEnd_not_mem_typeTokens m.result
    rw [Method.tokens]
    split <;> simp [Token.word, signature, htype]
  have hscan := (closed_methodBlock h).reads.scan_eq
  rw [readMethods, hscan]
  simp only [Option.bind_eq_bind, Option.bind_some, readRows_blockTokens hrows]
  exact mapM_map_eq_some fun m hm => readMethod_tokens (h m hm)

/-! ## Reading declarations back -/

def Alternative.label : Alternative → String
  | .name text => text
  | .literal text => text

/-- A declaration that a reader finds in its own text.  A synonym is none: what it stands
for may be anything. -/
def Declaration.Spelled : Declaration → Prop
  | .interface name bases members =>
    isIdentifier name = true ∧ (∀ base ∈ bases, isIdentifier base = true) ∧
      ∀ m ∈ members, m.Spelled
  | .record name members => isIdentifier name = true ∧ ∀ m ∈ members, m.Spelled
  | .choice name alternatives =>
    isIdentifier name = true ∧ alternatives ≠ [] ∧
      ∀ a ∈ alternatives, isIdentifier a.label = true
  | .synonym _ _ => False

theorem reads_alternative {a : Alternative} (h : isIdentifier a.label = true) :
    Reads a.text [a.token] := by
  cases a with
  | name text => exact reads_name h
  | literal text => exact (closed_literal h).reads

theorem filter_intercalate
    {α : Type} (p : α → Bool) (separator : List α) (xs : List (List α)) :
    (separator.intercalate xs).filter p =
      (separator.filter p).intercalate (xs.map (List.filter p)) := by
  induction xs with
  | nil => rfl
  | cons x xs ih =>
    cases xs with
    | nil => simp
    | cons y ys =>
      simp only [List.map_cons, List.intercalate_cons_cons, List.filter_append] at ih ⊢
      rw [ih]

/-- The tokens of alternatives, without the line ends between strings. -/
def alternativesTokens (alternatives : List Alternative) : List Token :=
  [Token.type .bar].intercalate (alternatives.map fun a => [a.token])

theorem exists_reads_alternatives
    {choices : List Alternative} (hsome : choices ≠ [])
    (h : ∀ a ∈ choices, isIdentifier a.label = true) :
    ∃ tokens, Reads (alternatives (separator choices) (choices.map Alternative.text)) tokens ∧
      tokens.head? ≠ some (.mark '\x7b') ∧
      tokens.filter (· != .lineEnd) = alternativesTokens choices := by
  have hseparator : ∃ tokens, Closed (separator choices) tokens ∧
      startsApart (separator choices) = true ∧
      tokens.filter (· != .lineEnd) = [.type .bar] := by
    rw [separator]
    split
    · exact ⟨[.type .bar, .lineEnd], closed_of_scan (by decide) rfl, by decide, rfl⟩
    · exact ⟨[.type .bar], closed_of_scan (by decide) rfl, by decide, rfl⟩
  obtain ⟨bar, hbar, hapart, hfilter⟩ := hseparator
  have hreads : Reads ((separator choices).intercalate (choices.map Alternative.text))
      (bar.intercalate (choices.map fun a => [a.token])) :=
    reads_intercalate hbar hapart fun a ha => reads_alternative (h a ha)
  refine ⟨bar.intercalate (choices.map fun a => [a.token]), ?_, ?_, ?_⟩
  · rwa [alternatives, if_neg (by simpa using hsome)]
  · cases choices with
    | nil => exact absurd rfl hsome
    | cons a others => cases others <;> cases a <;> simp [Alternative.token]
  · have htokens : (choices.map fun a => [a.token]).map (List.filter (· != .lineEnd)) =
        choices.map fun a => [a.token] := by
      rw [List.map_map]
      refine List.map_congr_left fun a _ => ?_
      cases a <;> rfl
    rw [filter_intercalate, hfilter, htokens, alternativesTokens]

theorem readAlternatives_alternativesTokens {choices : List Alternative} (hsome : choices ≠ []) :
    readAlternatives (alternativesTokens choices) = some choices := by
  induction choices with
  | nil => exact absurd rfl hsome
  | cons a others ih =>
    cases others with
    | nil => cases a <;> rfl
    | cons b others =>
      have hrest := ih (by simp)
      have htokens : alternativesTokens (a :: b :: others) =
          a.token :: .type .bar :: alternativesTokens (b :: others) := by
        simp [alternativesTokens]
      rw [htokens]
      cases a with
      | name text => rw [Alternative.token, readAlternatives, hrest]; rfl
      | literal text => rw [Alternative.token, readAlternatives, hrest]; rfl

theorem takeNames_append
    {names : List String} (hsome : names ≠ []) {rest : List Token}
    (hrest : rest.head? ≠ some (.mark ',')) :
    takeNames ([Token.mark ','].intercalate (names.map fun name => [.word name]) ++ rest) =
      some (names, rest) := by
  induction names with
  | nil => exact absurd rfl hsome
  | cons name others ih =>
    cases others with
    | nil =>
      have hother : ∀ others, rest = .mark ',' :: others → False := by
        rintro others rfl
        exact hrest rfl
      simp only [List.map_cons, List.map_nil, List.intercalate_singleton, List.singleton_append]
      rw [takeNames]
      exact hother
    | cons second others =>
      have hothers := ih (by simp)
      have htokens :
          [Token.mark ','].intercalate ((name :: second :: others).map fun name => [.word name]) =
            .word name :: .mark ',' ::
              [Token.mark ','].intercalate ((second :: others).map fun name => [.word name]) := by
        simp
      rw [htokens, List.cons_append, List.cons_append]
      change (takeNames _).map _ = _
      rw [hothers]
      rfl

theorem takeBases_append
    (bases : List String) (rows : List (List Token)) :
    takeBases (basesTokens bases ++ blockTokens rows) = some (bases, blockTokens rows) := by
  have hhead : (blockTokens rows).head? = some (.mark '\x7b') := by
    rw [blockTokens]
    split <;> rfl
  rw [takeBases, basesTokens]
  split
  next hnone =>
    rw [List.nil_append, hhead, if_neg (by decide), hnone]
  next hsome =>
    rw [List.cons_append, List.head?_cons, if_pos rfl, List.tail_cons]
    exact takeNames_append hsome (by rw [hhead]; decide)

theorem reads_extendsClause
    {bases : List String} (hs : Reads s ts) (h : ∀ base ∈ bases, isIdentifier base = true) :
    Reads (s ++ extendsClause bases) (ts ++ basesTokens bases) := by
  have hextends : Closed " extends " [.word "extends"] :=
    closed_of_scan (by decide) rfl
  have hcomma : Closed ", " [.mark ','] := closed_of_scan (by decide) rfl
  rw [extendsClause, basesTokens]
  split
  · simpa using hs
  · have hnames := reads_intercalate hcomma (by decide) fun base hbase => reads_name (h base hbase)
    have hall := (hs.append_closed hextends (by decide)).append_reads hnames
    rw [List.map_id'] at hall
    rw [← String.append_assoc]
    simpa using hall

/-- The text of an interface is read as the interface. -/
theorem exists_scan_interface
    {bases : List String} {members : List Member} (hname : isIdentifier name = true)
    (hbases : ∀ base ∈ bases, isIdentifier base = true) (hmembers : ∀ m ∈ members, m.Spelled) :
    ∃ tokens, scan [] (Declaration.interface name bases members).text.toList = some tokens ∧
      readDeclaration tokens = some (.interface name bases members) := by
  have hopen : Closed "export interface " [.word "export", .word "interface"] :=
    closed_of_scan (by decide) rfl
  have hblank : Closed " " [] := closed_of_scan (by decide) rfl
  have hfront := reads_extendsClause (hopen.append_reads (reads_name hname)) hbases
  have hall := (hfront.append_closed hblank (by decide)).append (closed_memberBlock hmembers)
  refine ⟨_, hall.reads.scan_eq, ?_⟩
  simp [readDeclaration, takeBases_append, readMembers_blockTokens hmembers]

theorem exists_scan_record
    {members : List Member} (hname : isIdentifier name = true)
    (hmembers : ∀ m ∈ members, m.Spelled) :
    ∃ tokens, scan [] (Declaration.record name members).text.toList = some tokens ∧
      readDeclaration tokens = some (.record name members) := by
  have hopen : Closed "export type " [.word "export", .word "type"] :=
    closed_of_scan (by decide) rfl
  have hequals : Closed " = " [.mark '='] := closed_of_scan (by decide) rfl
  have hfront := (hopen.append_reads (reads_name hname)).append_closed hequals (by decide)
  have hall := hfront.append (closed_memberBlock hmembers)
  refine ⟨_, hall.reads.scan_eq, ?_⟩
  have hhead : (blockTokens (members.map Member.tokens)).head? = some (.mark '\x7b') := by
    rw [blockTokens]
    split <;> rfl
  simp [readDeclaration, readAlias, hhead, readMembers_blockTokens hmembers]

theorem exists_scan_choice
    {choices : List Alternative} (hname : isIdentifier name = true) (hsome : choices ≠ [])
    (hchoices : ∀ a ∈ choices, isIdentifier a.label = true) :
    ∃ tokens, scan [] (Declaration.choice name choices).text.toList = some tokens ∧
      readDeclaration tokens = some (.choice name choices) := by
  have hopen : Closed "export type " [.word "export", .word "type"] :=
    closed_of_scan (by decide) rfl
  have hequals : Closed " = " [.mark '='] := closed_of_scan (by decide) rfl
  have hfront := (hopen.append_reads (reads_name hname)).append_closed hequals (by decide)
  obtain ⟨tokens, htokens, hhead, hfilter⟩ := exists_reads_alternatives hsome hchoices
  refine ⟨_, (hfront.append_reads htokens).scan_eq, ?_⟩
  have hread := readAlternatives_alternativesTokens hsome
  rw [← hfilter] at hread
  simp [readDeclaration, readAlias, hhead, hread]

theorem exists_scan_text {d : Declaration} (h : d.Spelled) :
    ∃ tokens, scan [] d.text.toList = some tokens ∧ readDeclaration tokens = some d := by
  cases d with
  | interface name bases members => exact exists_scan_interface h.1 h.2.1 h.2.2
  | record name members => exact exists_scan_record h.1 h.2
  | choice name choices => exact exists_scan_choice h.1 h.2.1 h.2.2
  | synonym name type => cases h

/-! ## Comments -/

/-- Whether documentation is written or not, a reader finds the tree whose text the declaration
is without it. -/
theorem read_declaration
    {options : Options} {d : TypeDefinition} {tree : Declaration} (hspelled : tree.Spelled)
    (htext : declaration (options.withDocs false) d = tree.text) :
    read (declaration options d) = some tree := by
  obtain ⟨tokens, hscan, hread⟩ := exists_scan_text hspelled
  rw [← htext] at hscan
  have hopen := not_openMark_infix_of_scan hscan
  have hstrip : ∀ docs, stripComments (declaration (options.withDocs docs) d) =
      some (declaration (options.withDocs false) d) := by
    intro docs
    cases docs with
    | true => exact stripComments_declaration hopen
    | false =>
      rw [stripComments, stripFrom_eq_self 0 hopen, List.replicate_zero, List.nil_append,
        Option.map_some, String.ofList_toList]
  have hcode : stripComments (declaration options d) =
      some (declaration (options.withDocs false) d) := hstrip options.docs
  rw [read, hcode]
  simp [hscan, hread]

end SchemaBinding.Binding.Script
