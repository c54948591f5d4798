/-!
# Types of the binding's language

A binding is read by a compiler that gives its types a meaning.  Of the types
of that language only names, arrays, unions and parentheses occur here.  Square
brackets behind a type bind tighter than the bar of a union, so of a union in
front of them they take the last member alone.
-/

namespace SchemaBinding.Binding

/-! ## Types and what they accept -/

/-- A value that a client passes around. -/
inductive Value where
  /-- A value that is no array. -/
  | atom (tag : String)
  | array (items : List Value)
deriving Repr, Inhabited

inductive TypeExpr where
  | name (text : String)
  | array (item : TypeExpr)
  | union (left right : TypeExpr)
deriving DecidableEq, Repr, Inhabited

namespace TypeExpr

/-- The values that a type accepts, given those that its names accept. -/
def accepts (names : String → Value → Prop) : TypeExpr → Value → Prop
  | name text, value => names text value
  | array item, value => ∃ items, value = .array items ∧ ∀ x ∈ items, item.accepts names x
  | union left right, value => left.accepts names value ∨ right.accepts names value

/-- Adds a member to a union that may have none so far. -/
def join : Option TypeExpr → TypeExpr → TypeExpr
  | none, type => type
  | some before, type => union before type

end TypeExpr

/-! ## Tokens -/

inductive TypeToken where
  | name (text : String)
  | openBracket
  | closeBracket
  | bar
  | openParen
  | closeParen
deriving DecidableEq, Repr, Inhabited

def isIdentifierStart (c : Char) : Bool :=
  c.isAlpha || c = '_' || c = '$' || 0x80 ≤ c.toNat

def isIdentifierChar (c : Char) : Bool :=
  isIdentifierStart c || c.isDigit

/-- Whether a string is one identifier. -/
def isIdentifier (text : String) : Bool :=
  match text.toList with
  | [] => false
  | c :: cs => isIdentifierStart c && cs.all isIdentifierChar

def typeMark? (c : Char) : Option TypeToken :=
  if c = '[' then some .openBracket
  else if c = ']' then some .closeBracket
  else if c = '|' then some .bar
  else if c = '(' then some .openParen
  else if c = ')' then some .closeParen
  else none

/-- The token of the identifier that has been read so far, if there is one. -/
def pendingToken : List Char → List TypeToken
  | [] => []
  | pending => [.name (String.ofList pending)]

/-- Whether a character goes on with the identifier that has been read so far. -/
def goesOn (pending : List Char) (c : Char) : Bool :=
  if pending = [] then isIdentifierStart c else isIdentifierChar c

/-- The tokens of a text behind the characters of an identifier. -/
def scanType (pending : List Char) : List Char → Option (List TypeToken)
  | [] => some (pendingToken pending)
  | c :: cs =>
    if goesOn pending c then scanType (pending ++ [c]) cs
    else if c = ' ' then (scanType [] cs).map (pendingToken pending ++ ·)
    else
      (typeMark? c).bind fun mark =>
        (scanType [] cs).map fun tokens => pendingToken pending ++ mark :: tokens

/-! ## Reading types -/

/-- The last member of a union as far as it has been read. -/
inductive Operand where
  | missing
  | complete (type : TypeExpr)
  /-- An opening bracket stands behind the type. -/
  | opened (item : TypeExpr)
deriving DecidableEq, Repr

/-- A union inside one pair of parentheses as far as it has been read. -/
structure Frame where
  /-- The members before the last one. -/
  before : Option TypeExpr
  last : Operand
deriving DecidableEq, Repr

def Frame.start : Frame :=
  ⟨none, .missing⟩

/-- Takes one token, given the unions around the parentheses that are open. -/
def stepType : Frame × List Frame → TypeToken → Option (Frame × List Frame)
  | (⟨before, .missing⟩, outer), .name text => some (⟨before, .complete (.name text)⟩, outer)
  | (⟨before, .missing⟩, outer), .openParen => some (.start, ⟨before, .missing⟩ :: outer)
  | (⟨before, .complete type⟩, outer), .openBracket => some (⟨before, .opened type⟩, outer)
  | (⟨before, .opened item⟩, outer), .closeBracket =>
    some (⟨before, .complete (.array item)⟩, outer)
  | (⟨before, .complete type⟩, outer), .bar => some (⟨some (.join before type), .missing⟩, outer)
  | (⟨before, .complete type⟩, frame :: outer), .closeParen =>
    some (⟨frame.before, .complete (.join before type)⟩, outer)
  | _, _ => none

/-- The type that has been read, if nothing is left open. -/
def typeOfState? : Frame × List Frame → Option TypeExpr
  | (⟨before, .complete type⟩, []) => some (.join before type)
  | _ => none

def readType (text : String) : Option TypeExpr := do
  let tokens ← scanType [] text.toList
  let state ← tokens.foldlM stepType (.start, [])
  typeOfState? state

/-- Brackets take the last member of a union, unless parentheses hold it together. -/
example : readType "a | b[]" = some (.union (.name "a") (.array (.name "b"))) := by
  decide +kernel

example : readType "(a | b)[]" = some (.array (.union (.name "a") (.name "b"))) := by
  decide +kernel

/-! ## Texts in front of other texts -/

/-- No identifier goes on into these characters. -/
def EndsName (cs : List Char) : Prop :=
  ∀ c ∈ cs.head?, isIdentifierChar c = false

/-- In front of any text that ends its last token, a text stands for these tokens. -/
def TypeTokens (text : String) (tokens : List TypeToken) : Prop :=
  ∀ rest, EndsName rest →
    scanType [] (text.toList ++ rest) = (scanType [] rest).map (tokens ++ ·)

theorem isIdentifierStart_eq_false
    {c : Char} (h : isIdentifierChar c = false) : isIdentifierStart c = false := by
  rw [isIdentifierChar, Bool.or_eq_false_iff] at h
  exact h.1

theorem goesOn_eq_false
    {c : Char} (h : isIdentifierChar c = false) (pending : List Char) :
    goesOn pending c = false := by
  unfold goesOn
  split
  · exact isIdentifierStart_eq_false h
  · exact h

theorem scanType_pending
    (pending : List Char) {rest : List Char} (h : EndsName rest) :
    scanType pending rest = (scanType [] rest).map (pendingToken pending ++ ·) := by
  cases rest with
  | nil => simp [scanType, pendingToken]
  | cons c rest =>
    have hchar : isIdentifierChar c = false := h c rfl
    rw [scanType, scanType, goesOn_eq_false hchar, goesOn_eq_false hchar]
    by_cases hblank : c = ' '
    · simp [hblank, pendingToken]
    · cases typeMark? c with
      | none => simp [hblank]
      | some mark => simp [hblank, pendingToken, Function.comp_def]

theorem scanType_append_of_all
    {pending : List Char} (hpending : pending ≠ []) {cs : List Char}
    (h : ∀ c ∈ cs, isIdentifierChar c = true) (rest : List Char) :
    scanType pending (cs ++ rest) = scanType (pending ++ cs) rest := by
  induction cs generalizing pending with
  | nil => simp
  | cons c cs ih =>
    have hgoes : goesOn pending c = true := by
      rw [goesOn, if_neg hpending]
      exact h c (by simp)
    rw [List.cons_append, scanType, if_pos hgoes,
      ih (by simp) fun d hd => h d (List.mem_cons_of_mem c hd)]
    simp

theorem typeTokens_name {name : String} (h : isIdentifier name = true) :
    TypeTokens name [.name name] := by
  intro rest hrest
  cases hchars : name.toList with
  | nil => simp [isIdentifier, hchars] at h
  | cons c cs =>
    simp only [isIdentifier, hchars, Bool.and_eq_true] at h
    have hname : pendingToken (c :: cs) = [.name name] := by
      rw [pendingToken, ← hchars, String.ofList_toList]
      simp
    rw [List.cons_append, scanType, if_pos (by simp [goesOn, h.1]), List.nil_append,
      scanType_append_of_all (by simp) (List.all_eq_true.mp h.2), List.singleton_append,
      scanType_pending _ hrest, hname]

end SchemaBinding.Binding
