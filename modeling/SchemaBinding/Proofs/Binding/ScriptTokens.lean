import SchemaBinding.Proofs.Binding.Comments
import SchemaBinding.Proofs.Binding.TypeReader

/-!
# Tokens of scripts

A compiler that reads a binding takes its code apart into tokens.  Line ends are
tokens, since they are all that separates the fields of an interface.  The
tokens of a text are those of its pieces, as long as no piece ends in a name
that goes on in the next one.
-/

namespace SchemaBinding.Binding.Script

/-! ## Tokens -/

inductive Token where
  | type (token : TypeToken)
  | literal (text : String)
  | mark (c : Char)
  | lineEnd
deriving DecidableEq, Repr, Inhabited

@[match_pattern]
abbrev Token.word (text : String) : Token :=
  .type (.name text)

/-- The punctuators that are no part of a type. -/
def isMark (c : Char) : Bool :=
  c ∈ ['\x7b', '\x7d', ':', '?', '=', ',', '<', '>']

/-- The tokens of a character that is no part of a name. -/
def single? (c : Char) : Option (List Token) :=
  if c = ' ' then some []
  else if c = '\n' then some [.lineEnd]
  else if isMark c then some [.mark c]
  else (typeMark? c).map fun token => [.type token]

def pendingTokens (pending : List Char) : List Token :=
  (pendingToken pending).map .type

mutual

/-- The tokens of a text behind the characters of a name. -/
def scan (pending : List Char) : List Char → Option (List Token)
  | [] => some (pendingTokens pending)
  | c :: cs =>
    if goesOn pending c then scan (pending ++ [c]) cs
    else if c = '\x27' then (scanLiteral [] cs).map (pendingTokens pending ++ ·)
    else
      (single? c).bind fun tokens =>
        (scan [] cs).map fun others => pendingTokens pending ++ tokens ++ others

/-- The tokens of a text inside a string.  Strings that are more than a name do not occur. -/
def scanLiteral (text : List Char) : List Char → Option (List Token)
  | [] => none
  | c :: cs =>
    if c = '\x27' then (scan [] cs).map (.literal (String.ofList text) :: ·)
    else if isIdentifierChar c then scanLiteral (text ++ [c]) cs
    else none

end

/-! ## Scanning texts piece by piece -/

variable {s t name : String} {ts us : List Token}

theorem scan_pending (pending : List Char) {rest : List Char} (h : EndsName rest) :
    scan pending rest = (scan [] rest).map (pendingTokens pending ++ ·) := by
  cases rest with
  | nil => simp [scan, pendingTokens, pendingToken]
  | cons c rest =>
    have hchar : isIdentifierChar c = false := h c rfl
    rw [scan, scan, goesOn_eq_false hchar, goesOn_eq_false hchar]
    by_cases hquote : c = '\x27'
    · simp [hquote, pendingTokens, pendingToken]
    · cases single? c with
      | none => simp [hquote]
      | some tokens => simp [hquote, pendingTokens, pendingToken, Function.comp_def]

theorem isIdentifierChar_of_goesOn {pending : List Char} {c : Char}
    (h : goesOn pending c = true) : isIdentifierChar c = true := by
  rw [goesOn] at h
  split at h
  · rw [isIdentifierChar, h, Bool.true_or]
  · exact h

/-! ### One character -/

section OneCharacter

variable {pending text cs : List Char} {c : Char} {tokens : List Token}

/-- Outside a string a character goes on with a name, opens a string or has tokens of its own. -/
theorem scan_cons_eq_some (h : scan pending (c :: cs) = some tokens) :
    (goesOn pending c = true ∧ scan (pending ++ [c]) cs = some tokens) ∨
      (goesOn pending c = false ∧ c = '\x27' ∧
        ∃ inner, scanLiteral [] cs = some inner ∧ tokens = pendingTokens pending ++ inner) ∨
      (goesOn pending c = false ∧ c ≠ '\x27' ∧
        ∃ single inner, single? c = some single ∧ scan [] cs = some inner ∧
          tokens = pendingTokens pending ++ single ++ inner) := by
  rw [scan] at h
  by_cases hgoes : goesOn pending c = true
  · rw [if_pos hgoes] at h
    exact Or.inl ⟨hgoes, h⟩
  rw [if_neg hgoes] at h
  rw [Bool.not_eq_true] at hgoes
  by_cases hquote : c = '\x27'
  · rw [if_pos hquote] at h
    obtain ⟨inner, hinner, rfl⟩ := Option.map_eq_some_iff.mp h
    exact Or.inr (Or.inl ⟨hgoes, hquote, inner, hinner, rfl⟩)
  · rw [if_neg hquote] at h
    obtain ⟨single, hsingle, h⟩ := Option.bind_eq_some_iff.mp h
    obtain ⟨inner, hinner, rfl⟩ := Option.map_eq_some_iff.mp h
    exact Or.inr (Or.inr ⟨hgoes, hquote, single, inner, hsingle, hinner, rfl⟩)

/-- Inside a string a character closes the string or goes on with its name. -/
theorem scanLiteral_cons_eq_some (h : scanLiteral text (c :: cs) = some tokens) :
    (c = '\x27' ∧
        ∃ inner, scan [] cs = some inner ∧ tokens = .literal (String.ofList text) :: inner) ∨
      (c ≠ '\x27' ∧ isIdentifierChar c = true ∧ scanLiteral (text ++ [c]) cs = some tokens) := by
  rw [scanLiteral] at h
  by_cases hquote : c = '\x27'
  · rw [if_pos hquote] at h
    obtain ⟨inner, hinner, rfl⟩ := Option.map_eq_some_iff.mp h
    exact Or.inl ⟨hquote, inner, hinner, rfl⟩
  rw [if_neg hquote] at h
  by_cases hchar : isIdentifierChar c = true
  · rw [if_pos hchar] at h
    exact Or.inr ⟨hquote, hchar, h⟩
  · rw [if_neg hchar] at h
    cases h

end OneCharacter

/-! ### Texts behind texts -/

theorem scan_append_of_pending
    {pending rest : List Char} (hpending : ∀ c ∈ pending, isIdentifierChar c = true)
    (hend : ∀ c ∈ pending.getLast?, isIdentifierChar c = true → EndsName rest) :
    scan pending rest = (scan [] rest).map (pendingTokens pending ++ ·) := by
  by_cases hnone : pending = []
  · simp [hnone, pendingTokens, pendingToken]
  · refine scan_pending pending (hend _ ?_ (hpending _ (List.getLast_mem hnone)))
    rw [List.getLast?_eq_some_getLast hnone]
    rfl

theorem mem_getLast?_append_cons
    (front : List Char) {cs : List Char} {c d : Char} (h : d ∈ cs.getLast?) :
    d ∈ (front ++ c :: cs).getLast? := by
  have h : cs.getLast? = some d := h
  simp [List.getLast?_append, List.getLast?_cons, h]

/-- What a text stands for does not depend on the text behind it, except that a name at its
end must not go on there. -/
theorem scan_append
    {cs rest : List Char} :
    (∀ {pending : List Char} {tokens : List Token}, (∀ c ∈ pending, isIdentifierChar c = true) →
      (∀ c ∈ (pending ++ cs).getLast?, isIdentifierChar c = true → EndsName rest) →
      scan pending cs = some tokens →
      scan pending (cs ++ rest) = (scan [] rest).map (tokens ++ ·)) ∧
    (∀ {text : List Char} {tokens : List Token},
      (∀ c ∈ cs.getLast?, isIdentifierChar c = true → EndsName rest) →
      scanLiteral text cs = some tokens →
      scanLiteral text (cs ++ rest) = (scan [] rest).map (tokens ++ ·)) := by
  induction cs with
  | nil =>
    constructor
    · intro pending tokens hpending hend hscan
      rw [List.append_nil] at hend
      obtain rfl := Option.some.inj hscan
      exact scan_append_of_pending hpending hend
    · intro text tokens _ hscan
      cases hscan
  | cons c cs ih =>
    obtain ⟨ihscan, ihliteral⟩ := ih
    constructor
    · intro pending tokens hpending hend hscan
      have hbehind : ∀ d ∈ cs.getLast?, isIdentifierChar d = true → EndsName rest :=
        fun d hd => hend d (mem_getLast?_append_cons pending hd)
      rw [List.cons_append, scan]
      rcases scan_cons_eq_some hscan with ⟨hgoes, hinner⟩ | ⟨hgoes, rfl, inner, hinner, rfl⟩ |
        ⟨hgoes, hquote, single, inner, hsingle, hinner, rfl⟩
      · rw [if_pos hgoes]
        refine ihscan (List.forall_mem_append.mpr ⟨hpending, ?_⟩)
          (by rwa [List.append_assoc, List.singleton_append]) hinner
        exact List.forall_mem_singleton.mpr (isIdentifierChar_of_goesOn hgoes)
      · rw [hgoes, ihliteral hbehind hinner]
        simp [Function.comp_def]
      · rw [hgoes, hsingle, ihscan (by simp) (by simpa using hbehind) hinner]
        simp [hquote, Function.comp_def]
    · intro text tokens hend hscan
      have hbehind : ∀ d ∈ cs.getLast?, isIdentifierChar d = true → EndsName rest :=
        fun d hd => hend d (mem_getLast?_append_cons [] hd)
      rw [List.cons_append, scanLiteral]
      rcases scanLiteral_cons_eq_some hscan with ⟨rfl, inner, hinner, rfl⟩ | ⟨hquote, hchar, hinner⟩
      · rw [if_pos rfl, ihscan (by simp) (by simpa using hbehind) hinner]
        simp [Function.comp_def]
      · rw [if_neg hquote, if_pos hchar, ihliteral hbehind hinner]

/-- In front of any text, `s` stands for these tokens. -/
def Closed (s : String) (tokens : List Token) : Prop :=
  ∀ rest, scan [] (s.toList ++ rest) = (scan [] rest).map (tokens ++ ·)

/-- In front of any text that ends its last token, `s` stands for these tokens. -/
def Reads (s : String) (tokens : List Token) : Prop :=
  ∀ rest, EndsName rest → scan [] (s.toList ++ rest) = (scan [] rest).map (tokens ++ ·)

/-- Whether a text starts with a character that ends a name. -/
def startsApart (s : String) : Bool :=
  s.toList.head?.any (!isIdentifierChar ·)

theorem reads_of_scan (h : scan [] s.toList = some ts) : Reads s ts := by
  intro rest hrest
  exact scan_append.1 (by simp) (fun _ _ _ => hrest) h

theorem closed_of_scan
    (hlast : s.toList.getLast?.all (!isIdentifierChar ·) = true)
    (h : scan [] s.toList = some ts) : Closed s ts := by
  intro rest
  refine scan_append.1 (by simp) ?_ h
  intro c hc hchar
  have hc : s.toList.getLast? = some c := hc
  simp [hc, hchar] at hlast

theorem Reads.scan_eq (h : Reads s ts) : scan [] s.toList = some ts := by
  have hscan := h [] (by simp [EndsName])
  simpa [scan, pendingTokens, pendingToken] using hscan

theorem Closed.reads (h : Closed s ts) : Reads s ts :=
  fun rest _ => h rest

theorem Closed.append (hs : Closed s ts) (ht : Closed t us) :
    Closed (s ++ t) (ts ++ us) := by
  intro rest
  rw [String.toList_append, List.append_assoc, hs, ht, Option.map_map]
  simp [Function.comp_def]

theorem Closed.append_reads (hs : Closed s ts) (ht : Reads t us) :
    Reads (s ++ t) (ts ++ us) := by
  intro rest hrest
  rw [String.toList_append, List.append_assoc, hs, ht rest hrest, Option.map_map]
  simp [Function.comp_def]

theorem endsName_append_of_startsApart (h : startsApart t = true) (rest : List Char) :
    EndsName (t.toList ++ rest) := by
  rw [startsApart] at h
  cases hchars : t.toList with
  | nil => simp [hchars] at h
  | cons c cs =>
    rintro _ ⟨rfl⟩
    simpa [hchars] using h

theorem Reads.append (hs : Reads s ts) (ht : Reads t us) (hapart : startsApart t = true) :
    Reads (s ++ t) (ts ++ us) := by
  intro rest hrest
  rw [String.toList_append, List.append_assoc,
    hs _ (endsName_append_of_startsApart hapart rest), ht rest hrest, Option.map_map]
  simp [Function.comp_def]

theorem Reads.append_closed
    (hs : Reads s ts) (ht : Closed t us) (hapart : startsApart t = true) :
    Closed (s ++ t) (ts ++ us) := by
  intro rest
  rw [String.toList_append, List.append_assoc,
    hs _ (endsName_append_of_startsApart hapart rest), ht, Option.map_map]
  simp [Function.comp_def]

theorem scan_of_all
    {pending cs : List Char} (hpending : pending ≠ [])
    (h : ∀ c ∈ cs, isIdentifierChar c = true) :
    scan pending cs = some (pendingTokens (pending ++ cs)) := by
  induction cs generalizing pending with
  | nil => rw [scan, List.append_nil]
  | cons c cs ih =>
    have hgoes : goesOn pending c = true := by
      rw [goesOn, if_neg hpending]
      exact h c (by simp)
    rw [scan, if_pos hgoes, ih (by simp) fun d hd => h d (List.mem_cons_of_mem c hd)]
    simp

theorem pendingTokens_toList (h : name.toList ≠ []) :
    pendingTokens name.toList = [.word name] := by
  cases hchars : name.toList with
  | nil => exact absurd hchars h
  | cons c cs =>
    rw [pendingTokens, pendingToken, ← hchars, String.ofList_toList]
    · rfl
    · simp

theorem exists_toList_of_isIdentifier (h : isIdentifier name = true) :
    ∃ c cs, name.toList = c :: cs ∧ isIdentifierStart c = true ∧
      ∀ d ∈ cs, isIdentifierChar d = true := by
  rw [isIdentifier] at h
  cases hchars : name.toList with
  | nil => simp [hchars] at h
  | cons c cs =>
    rw [hchars, Bool.and_eq_true] at h
    exact ⟨c, cs, rfl, h.1, List.all_eq_true.mp h.2⟩

theorem reads_name (h : isIdentifier name = true) : Reads name [.word name] := by
  obtain ⟨c, cs, hchars, hstart, hall⟩ := exists_toList_of_isIdentifier h
  have hgoes : goesOn [] c = true := hstart
  have hname : name.toList ≠ [] := by simp [hchars]
  apply reads_of_scan
  rw [← pendingTokens_toList hname, hchars, scan, if_pos hgoes, List.nil_append,
    scan_of_all (by simp) hall, List.singleton_append]

theorem scanLiteral_append
    {text cs : List Char} (h : ∀ c ∈ cs, isIdentifierChar c = true) (rest : List Char) :
    scanLiteral text (cs ++ '\x27' :: rest) =
      (scan [] rest).map (.literal (String.ofList (text ++ cs)) :: ·) := by
  induction cs generalizing text with
  | nil => simp [scanLiteral]
  | cons c cs ih =>
    have hchar : isIdentifierChar c = true := h c (by simp)
    have hquote : c ≠ '\x27' := by
      rintro rfl
      cases hchar
    rw [List.cons_append, scanLiteral, if_neg hquote, if_pos hchar,
      ih fun d hd => h d (List.mem_cons_of_mem c hd)]
    simp

theorem closed_literal (h : isIdentifier name = true) :
    Closed ("'" ++ name ++ "'") [.literal name] := by
  obtain ⟨c, cs, hchars, hstart, hall⟩ := exists_toList_of_isIdentifier h
  have hname : ∀ d ∈ name.toList, isIdentifierChar d = true := by
    intro d hd
    rw [hchars] at hd
    rcases List.mem_cons.mp hd with rfl | hd
    · rw [isIdentifierChar, hstart, Bool.true_or]
    · exact hall d hd
  intro rest
  have hopen : ("'" ++ name ++ "'").toList ++ rest =
      '\x27' :: (name.toList ++ '\x27' :: rest) := by
    simp
  have hquote : goesOn [] '\x27' = false := by decide
  have hliteral : scanLiteral [] (name.toList ++ '\x27' :: rest) = _ :=
    scanLiteral_append hname rest
  rw [hopen, scan, hquote, hliteral]
  simp [pendingTokens, pendingToken, Function.comp_def]

theorem reads_intercalate
    {α : Type} {f : α → String} {g : α → List Token} (hs : Closed s ts)
    (hapart : startsApart s = true) {xs : List α} (h : ∀ x ∈ xs, Reads (f x) (g x)) :
    Reads (s.intercalate (xs.map f)) (ts.intercalate (xs.map g)) := by
  induction xs with
  | nil => exact reads_of_scan rfl
  | cons x xs ih =>
    cases xs with
    | nil => simpa using h x (by simp)
    | cons y ys =>
      have hrest := ih fun z hz => h z (List.mem_cons_of_mem x hz)
      have hfirst := (h x (by simp)).append_closed hs hapart
      simpa only [List.map_cons, String.intercalate_cons_cons, List.intercalate_cons_cons] using
        hfirst.append_reads hrest

/-! ## Slashes -/

theorem slash_ne_of_isIdentifierChar {c : Char} (h : isIdentifierChar c = true) : '/' ≠ c := by
  rintro rfl
  exact absurd h (by decide)

theorem slash_ne_of_single? {c : Char} {single : List Token} (h : single? c = some single) :
    '/' ≠ c := by
  rintro rfl
  have hnone : single? '/' = none := by decide
  rw [hnone] at h
  cases h

/-- No token has a slash. -/
theorem slash_not_mem
    {cs : List Char} :
    (∀ {pending : List Char} {tokens : List Token}, scan pending cs = some tokens → '/' ∉ cs) ∧
    ∀ {text : List Char} {tokens : List Token}, scanLiteral text cs = some tokens → '/' ∉ cs := by
  induction cs with
  | nil => simp
  | cons c cs ih =>
    obtain ⟨ihscan, ihliteral⟩ := ih
    constructor
    · intro pending tokens hscan
      rcases scan_cons_eq_some hscan with ⟨hgoes, hinner⟩ | ⟨-, rfl, inner, hinner, -⟩ |
        ⟨-, -, single, inner, hsingle, hinner, -⟩
      · have hne := slash_ne_of_isIdentifierChar (isIdentifierChar_of_goesOn hgoes)
        exact List.not_mem_cons_of_ne_of_not_mem hne (ihscan hinner)
      · exact List.not_mem_cons_of_ne_of_not_mem (by decide) (ihliteral hinner)
      · exact List.not_mem_cons_of_ne_of_not_mem (slash_ne_of_single? hsingle) (ihscan hinner)
    · intro text tokens hscan
      rcases scanLiteral_cons_eq_some hscan with ⟨rfl, inner, hinner, -⟩ | ⟨-, hchar, hinner⟩
      · exact List.not_mem_cons_of_ne_of_not_mem (by decide) (ihscan hinner)
      · exact List.not_mem_cons_of_ne_of_not_mem (slash_ne_of_isIdentifierChar hchar)
          (ihliteral hinner)

theorem not_openMark_infix_of_scan {code : String} {tokens : List Token}
    (h : scan [] code.toList = some tokens) : ¬ openMark <:+: code.toList := by
  intro hinside
  exact slash_not_mem.1 h (hinside.subset (by simp [openMark]))

end SchemaBinding.Binding.Script
