import SchemaBinding.Binding.Document

/-!
# The schema document as a template literal

A binding holds its schema document as the body of a template literal.  An
engine that reads the literal goes from left to right: a backslash takes the
character behind it, a bare end mark closes the literal, and a bare dollar sign
before an opening brace starts a substitution.  Escaping leaves no bare mark of
either sort, so the literal closes at its last character and holds the document
up to its line ends, which every engine reads as line feeds.
-/

namespace SchemaBinding.Binding

/-! ## Reading template literals -/

/-- Whether a backslash gives a character another meaning than itself. -/
def hasOwnEscape (c : Char) : Bool :=
  c.isDigit || c ∈ ['b', 'f', 'n', 'r', 't', 'v', 'u', 'x', '\n', '\r', '\u2028', '\u2029']

def withFirst (c : Char) (taken : List Char × List Char) : List Char × List Char :=
  (c :: taken.1, taken.2)

/-- The value of a template literal behind its opening mark, and the characters
behind its closing mark.  A literal with a substitution has no value of its
own, nor has one with an escape that stands for something else than the escaped
character. -/
def takeTemplate : List Char → Option (List Char × List Char)
  | [] => none
  | '\x60' :: cs => some ([], cs)
  | '$' :: '\x7b' :: _ => none
  | '\\' :: c :: cs =>
    if hasOwnEscape c then none else (takeTemplate cs).map (withFirst c)
  | '\r' :: '\n' :: cs => (takeTemplate cs).map (withFirst '\n')
  | '\r' :: cs => (takeTemplate cs).map (withFirst '\n')
  | c :: cs => (takeTemplate cs).map (withFirst c)

/-- A text whose line ends are all line feeds. -/
def unifyLineEnds : List Char → List Char
  | '\r' :: '\n' :: cs => '\n' :: unifyLineEnds cs
  | '\r' :: cs => '\n' :: unifyLineEnds cs
  | c :: cs => c :: unifyLineEnds cs
  | [] => []

theorem takeTemplate_escape
    {c : Char} (h : hasOwnEscape c = false) (cs : List Char) :
    takeTemplate ('\\' :: c :: cs) = (takeTemplate cs).map (withFirst c) := by
  have hread : takeTemplate ('\\' :: c :: cs) =
      if hasOwnEscape c then none else (takeTemplate cs).map (withFirst c) := rfl
  rw [hread, h]
  rfl

theorem takeTemplate_plain
    {c : Char} {cs : List Char} (hclose : c ≠ '\x60') (hslash : c ≠ '\\') (hreturn : c ≠ '\r')
    (hdollar : c = '$' → cs.head? ≠ some '\x7b') :
    takeTemplate (c :: cs) = (takeTemplate cs).map (withFirst c) := by
  rw [takeTemplate]
  · exact hclose
  · rintro tail hc rfl
    exact hdollar hc rfl
  · exact fun _ _ hc _ => hslash hc
  · exact fun _ hc _ => hreturn hc
  · exact hreturn

theorem takeTemplate_lineFeed (cs : List Char) :
    takeTemplate ('\n' :: cs) = (takeTemplate cs).map (withFirst '\n') :=
  takeTemplate_plain (by decide) (by decide) (by decide) (fun h => by cases h)

/-- A carriage return is read as a line feed, or together with the one behind it. -/
theorem takeTemplate_return {cs : List Char} (h : cs.head? ≠ some '\n') :
    takeTemplate ('\r' :: cs) = (takeTemplate cs).map (withFirst '\n') := by
  rw [takeTemplate]
  rintro tail rfl
  exact h rfl

theorem takeTemplate_return_lineFeed (cs : List Char) :
    takeTemplate ('\r' :: '\n' :: cs) = takeTemplate ('\n' :: cs) :=
  (takeTemplate_lineFeed cs).symm

theorem unifyLineEnds_cons_of_ne
    {c : Char} (hreturn : c ≠ '\r') (cs : List Char) :
    unifyLineEnds (c :: cs) = c :: unifyLineEnds cs := by
  rw [unifyLineEnds]
  · exact fun _ hc _ => hreturn hc
  · exact hreturn

theorem unifyLineEnds_return {cs : List Char} (h : cs.head? ≠ some '\n') :
    unifyLineEnds ('\r' :: cs) = '\n' :: unifyLineEnds cs := by
  rw [unifyLineEnds]
  rintro tail rfl
  exact h rfl

theorem unifyLineEnds_return_lineFeed (cs : List Char) :
    unifyLineEnds ('\r' :: '\n' :: cs) = unifyLineEnds ('\n' :: cs) :=
  (unifyLineEnds_cons_of_ne (by decide) cs).symm

theorem unifyLineEnds_of_not_mem {cs : List Char} (h : '\r' ∉ cs) : unifyLineEnds cs = cs := by
  induction cs with
  | nil => rfl
  | cons c cs ih =>
    obtain ⟨hne, hrest⟩ := not_or.mp (mt List.mem_cons.mpr h)
    rw [unifyLineEnds_cons_of_ne (Ne.symm hne), ih hrest]

/-! ## Escaped texts -/

theorem escapeTemplate_backslash (text : List Char) :
    escapeTemplate ('\\' :: text) = '\\' :: '\\' :: escapeTemplate text :=
  rfl

theorem escapeTemplate_mark (text : List Char) :
    escapeTemplate ('\x60' :: text) = '\\' :: '\x60' :: escapeTemplate text :=
  rfl

theorem escapeTemplate_brace (text : List Char) :
    escapeTemplate ('$' :: '\x7b' :: text) = '\\' :: '$' :: '\x7b' :: escapeTemplate text :=
  rfl

theorem escapeTemplate_cons
    {c : Char} {text : List Char} (hslash : c ≠ '\\') (hclose : c ≠ '\x60')
    (hdollar : ∀ tail, c = '$' → text = '\x7b' :: tail → False) :
    escapeTemplate (c :: text) = c :: escapeTemplate text := by
  rw [escapeTemplate]
  · exact hslash
  · exact hclose
  · exact hdollar

/-- A text is taken apart from the left into marks that are escaped and other characters. -/
@[elab_as_elim]
theorem templateInduction
    {motive : List Char → Prop}
    (backslash : ∀ text, motive text → motive ('\\' :: text))
    (mark : ∀ text, motive text → motive ('\x60' :: text))
    (brace : ∀ text, motive text → motive ('$' :: '\x7b' :: text))
    (char : ∀ c text, c ≠ '\\' → c ≠ '\x60' → (∀ tail, c = '$' → text = '\x7b' :: tail → False) →
      motive text → motive (c :: text))
    (nil : motive []) (text : List Char) : motive text := by
  induction text using escapeTemplate.induct with
  | case1 text ih => exact backslash text ih
  | case2 text ih => exact mark text ih
  | case3 text ih => exact brace text ih
  | case4 c text hslash hclose hdollar ih => exact char c text hslash hclose hdollar ih
  | case5 => exact nil

/-- A character that escaping adds nothing to is the first one of the escaped text as well. -/
theorem head?_escapeTemplate_iff
    {c : Char} (hslash : c ≠ '\\') (hclose : c ≠ '\x60') (hdollar : c ≠ '$') (text : List Char) :
    (escapeTemplate text).head? = some c ↔ text.head? = some c := by
  induction text using templateInduction with
  | backslash rest _ => simp [escapeTemplate_backslash, hslash.symm]
  | mark rest _ => simp [escapeTemplate_mark, hslash.symm, hclose.symm]
  | brace rest _ => simp [escapeTemplate_brace, hslash.symm, hdollar.symm]
  | char d rest hd hd' hd'' _ => simp [escapeTemplate_cons hd hd' hd'']
  | nil => rfl

/-- The mark behind an escaped text does not change how the text starts. -/
theorem head?_escapeTemplate_append_iff
    {c : Char} (hslash : c ≠ '\\') (hclose : c ≠ '\x60') (hdollar : c ≠ '$')
    (text rest : List Char) :
    (escapeTemplate text ++ '\x60' :: rest).head? = some c ↔ text.head? = some c := by
  rw [← head?_escapeTemplate_iff hslash hclose hdollar text]
  cases escapeTemplate text with
  | nil => simp [hclose.symm]
  | cons d ds => rfl

/-- Reading undoes escaping, and ends at the mark behind the escaped text. -/
theorem takeTemplate_escapeTemplate_append (text rest : List Char) :
    takeTemplate (escapeTemplate text ++ '\x60' :: rest) = some (unifyLineEnds text, rest) := by
  induction text using templateInduction with
  | backslash text ih =>
    rw [escapeTemplate_backslash, List.cons_append, List.cons_append,
      takeTemplate_escape (by decide), ih, unifyLineEnds_cons_of_ne (by decide)]
    rfl
  | mark text ih =>
    rw [escapeTemplate_mark, List.cons_append, List.cons_append,
      takeTemplate_escape (by decide), ih, unifyLineEnds_cons_of_ne (by decide)]
    rfl
  | brace text ih =>
    have hbrace : takeTemplate ('\x7b' :: (escapeTemplate text ++ '\x60' :: rest)) =
        (takeTemplate (escapeTemplate text ++ '\x60' :: rest)).map (withFirst '\x7b') :=
      takeTemplate_plain (by decide) (by decide) (by decide) (fun h => by cases h)
    simp only [escapeTemplate_brace, List.cons_append]
    rw [takeTemplate_escape (by decide), hbrace, ih, unifyLineEnds_cons_of_ne (by decide),
      unifyLineEnds_cons_of_ne (by decide)]
    rfl
  | char c text hslash hclose hdollar ih =>
    rw [escapeTemplate_cons hslash hclose hdollar, List.cons_append]
    by_cases hreturn : c = '\r'
    · subst hreturn
      by_cases hfeed : text.head? = some '\n'
      · obtain ⟨tail, rfl⟩ := List.head?_eq_some_iff.mp hfeed
        rw [escapeTemplate_cons (by decide) (by decide) (fun _ h => by cases h)] at ih ⊢
        rw [List.cons_append, takeTemplate_return_lineFeed, unifyLineEnds_return_lineFeed]
        exact ih
      · have hfeed' : (escapeTemplate text ++ '\x60' :: rest).head? ≠ some '\n' := by
          rwa [ne_eq, head?_escapeTemplate_append_iff (by decide) (by decide) (by decide)]
        rw [takeTemplate_return hfeed', unifyLineEnds_return hfeed, ih]
        rfl
    · have hbrace : c = '$' → (escapeTemplate text ++ '\x60' :: rest).head? ≠ some '\x7b' := by
        intro hc hhead
        rw [head?_escapeTemplate_append_iff (by decide) (by decide) (by decide)] at hhead
        obtain ⟨tail, rfl⟩ := List.head?_eq_some_iff.mp hhead
        exact hdollar tail hc rfl
      rw [takeTemplate_plain hclose hslash hreturn hbrace, ih, unifyLineEnds_cons_of_ne hreturn]
      rfl
  | nil => rfl

theorem takeTemplate_templateBody_append (text : String) (rest : List Char) :
    takeTemplate ((templateBody text).toList ++ '\x60' :: rest) =
      some (unifyLineEnds text.toList, rest) := by
  rw [templateBody, String.toList_ofList]
  exact takeTemplate_escapeTemplate_append text.toList rest

/-- Texts without carriage returns can be told apart by their escaped forms. -/
theorem eq_of_templateBody_eq
    {s t : String} (hs : '\r' ∉ s.toList) (ht : '\r' ∉ t.toList)
    (h : templateBody s = templateBody t) : s = t := by
  have hread := takeTemplate_templateBody_append s []
  rw [h, takeTemplate_templateBody_append t [], unifyLineEnds_of_not_mem hs,
    unifyLineEnds_of_not_mem ht] at hread
  exact (String.toList_inj.mp (Prod.mk.inj (Option.some.inj hread)).1).symm

/-! ## Escaping as replacements -/

def replaceChar (target : Char) (replacement text : List Char) : List Char :=
  text.flatMap fun c => if c = target then replacement else [c]

/-- A text with other characters in the places of a pair of its characters, from the left. -/
def replacePair (first second : Char) (replacement : List Char) : List Char → List Char
  | [] => []
  | [c] => [c]
  | c :: d :: rest =>
    if c = first ∧ d = second then replacement ++ replacePair first second replacement rest
    else c :: replacePair first second replacement (d :: rest)

theorem replacePair_cons_of_ne
    {first second c : Char} {replacement : List Char} (hc : c ≠ first) (text : List Char) :
    replacePair first second replacement (c :: text) =
      c :: replacePair first second replacement text := by
  cases text with
  | nil => rfl
  | cons d text => simp [replacePair, hc]

theorem replacePair_cons_of_head?_ne
    {first second : Char} {replacement text : List Char} (h : text.head? ≠ some second) (c : Char) :
    replacePair first second replacement (c :: text) =
      c :: replacePair first second replacement text := by
  cases text with
  | nil => rfl
  | cons d text =>
    have hd : d ≠ second := fun hd => h (by rw [hd, List.head?_cons])
    simp [replacePair, hd]

theorem replaceChar_cons_self (target : Char) (replacement text : List Char) :
    replaceChar target replacement (target :: text) =
      replacement ++ replaceChar target replacement text := by
  simp [replaceChar]

theorem replaceChar_cons_of_ne
    {target c : Char} (hc : c ≠ target) (replacement text : List Char) :
    replaceChar target replacement (c :: text) = c :: replaceChar target replacement text := by
  simp [replaceChar, hc]

theorem head?_replaceChar_ne
    {target c : Char} {replacement : List Char} (hne : replacement ≠ [])
    (hreplacement : replacement.head? ≠ some c) {text : List Char} (htext : text.head? ≠ some c) :
    (replaceChar target replacement text).head? ≠ some c := by
  cases text with
  | nil => simp [replaceChar]
  | cons d text =>
    by_cases hd : d = target
    · obtain ⟨e, es, rfl⟩ := List.exists_cons_of_ne_nil hne
      rw [hd, replaceChar_cons_self, List.cons_append, List.head?_cons]
      simpa using hreplacement
    · rwa [replaceChar_cons_of_ne hd]

/-- A backslash is doubled before the others are written, so one pass does what
three replacements in a row do. -/
theorem escapeTemplate_eq_replacements (text : List Char) :
    escapeTemplate text =
      replacePair '$' '\x7b' ['\\', '$', '\x7b']
        (replaceChar '\x60' ['\\', '\x60'] (replaceChar '\\' ['\\', '\\'] text)) := by
  induction text using templateInduction with
  | backslash text ih =>
    rw [escapeTemplate_backslash, replaceChar_cons_self, List.cons_append, List.cons_append,
      List.nil_append, replaceChar_cons_of_ne (by decide), replaceChar_cons_of_ne (by decide),
      replacePair_cons_of_ne (by decide), replacePair_cons_of_ne (by decide), ih]
  | mark text ih =>
    rw [escapeTemplate_mark, replaceChar_cons_of_ne (by decide), replaceChar_cons_self,
      List.cons_append, List.cons_append, List.nil_append, replacePair_cons_of_ne (by decide),
      replacePair_cons_of_ne (by decide), ih]
  | brace text ih =>
    rw [escapeTemplate_brace, replaceChar_cons_of_ne (by decide),
      replaceChar_cons_of_ne (by decide), replaceChar_cons_of_ne (by decide),
      replaceChar_cons_of_ne (by decide), replacePair, if_pos ⟨rfl, rfl⟩, ih]
    rfl
  | char c text hslash hclose hdollar ih =>
    rw [escapeTemplate_cons hslash hclose hdollar, replaceChar_cons_of_ne hslash,
      replaceChar_cons_of_ne hclose, ih]
    by_cases hc : c = '$'
    · have hbrace : text.head? ≠ some '\x7b' := by
        intro hhead
        obtain ⟨tail, rfl⟩ := List.head?_eq_some_iff.mp hhead
        exact hdollar tail hc rfl
      rw [replacePair_cons_of_head?_ne]
      exact head?_replaceChar_ne (by simp) (by simp)
        (head?_replaceChar_ne (by simp) (by simp) hbrace)
    · rw [replacePair_cons_of_ne hc]
  | nil => rfl

/-! ## The literal of a binding -/

theorem assemble_eq (bindingModule : String) (paths : Paths) (parts : Parts) :
    ∃ front, assemble bindingModule paths parts =
      front ++ "const typeDefs = `" ++ templateBody parts.typeDefs ++ "`\n" := by
  refine ⟨"\n\n".intercalate [header paths, importLine bindingModule,
    instanceInterface parts.operations, constructorInterface, bindingClass,
    typesSection parts.declarations] ++ "\n\n" ++ banner "Type Defs" ++ "\n\n", ?_⟩
  simp only [assemble, sections, typeDefsSection, String.intercalate_cons_cons,
    String.intercalate_singleton, String.append_assoc]
  rfl

/-- A binding ends in a template literal whose value is the document of its
schema with its line ends unified.  The literal closes at its last mark only,
whatever the schema says, and the same holds of every text that is escaped. -/
theorem typeDefs_literal (options : Options) (paths : Paths) (schema : Schema) :
    (∃ front body, document options paths schema =
        front ++ "const typeDefs = `" ++ body ++ "`\n" ∧
      ∀ rest, takeTemplate (body.toList ++ '\x60' :: rest) =
        some (unifyLineEnds (Sdl.document schema).toList, rest)) ∧
    (∀ text rest, takeTemplate ((templateBody text).toList ++ '\x60' :: rest) =
      some (unifyLineEnds text.toList, rest)) ∧
    ∀ s t, '\r' ∉ s.toList → '\r' ∉ t.toList → templateBody s = templateBody t → s = t := by
  refine ⟨?_, takeTemplate_templateBody_append, fun s t hs ht h => eq_of_templateBody_eq hs ht h⟩
  obtain ⟨front, hfront⟩ := assemble_eq options.bindingModule paths (parts options schema)
  refine ⟨front, templateBody (Sdl.document schema), hfront, fun rest => ?_⟩
  exact takeTemplate_templateBody_append (Sdl.document schema) rest

/-- A schema with a description that would close the literal and run code. -/
def hostileSchema : Schema where
  types := .ofList
    [{ name := "Query", description := some "\\`$$\x7bexit()\x7d\r\\", body := .object .empty [] }]

theorem typeDefs_literal_hostile :
    takeTemplate ((templateBody (Sdl.document hostileSchema)).toList ++ "`\n".toList) =
      some ("\"\"\"\n\\`$$\x7bexit()\x7d\n\\\n\"\"\"\ntype Query\n".toList, ['\n']) ∧
    '\r' ∉ ("\\" ++ "`").toList ∧ '\r' ∉ "\\`".toList ∧
    templateBody ("\\" ++ "`") = templateBody "\\`" ∧ "\\" ++ "`" = "\\`" := by
  obtain ⟨-, hread, hinjective⟩ := typeDefs_literal {} { schema := "", binding := "" } hostileSchema
  refine ⟨?_, by decide, by decide, rfl, hinjective _ _ (by decide) (by decide) rfl⟩
  have hvalue : unifyLineEnds (Sdl.document hostileSchema).toList =
      "\"\"\"\n\\`$$\x7bexit()\x7d\n\\\n\"\"\"\ntype Query\n".toList := by decide +kernel
  rw [← hvalue]
  exact hread (Sdl.document hostileSchema) ['\n']

end SchemaBinding.Binding
