import SchemaBinding.Binding.Document
import SchemaBinding.Proofs.Text.Lines

/-!
# Comments hold no code

Descriptions and deprecations reach a binding as comments only.  Whoever takes
the comments out of a declaration, each with the blanks before it on its line
and the line end behind it, is left with the declaration that is written
without documentation.  This rests on one fact: no text that a schema brings
along holds the end mark of a comment once it is escaped, cut into lines and
decorated.
-/

namespace SchemaBinding.Binding

/-! ## Taking comments out -/

/-- The two characters that start a comment. -/
def openMark : List Char :=
  ['/', '*']

/-- The two characters that end a comment. -/
def closeMark : List Char :=
  ['*', '/']

mutual

/-- A text without its comments, behind blanks that a comment may still take away.
There is no such text if a comment does not end. -/
def stripFrom (blanks : Nat) : List Char → Option (List Char)
  | [] => some (List.replicate blanks ' ')
  | ' ' :: cs => stripFrom (blanks + 1) cs
  | '/' :: '*' :: cs => stripInside cs
  | c :: cs => (stripFrom 0 cs).map fun rest => List.replicate blanks ' ' ++ c :: rest

/-- What is left behind the first end mark of a comment and the line end after it. -/
def stripInside : List Char → Option (List Char)
  | '*' :: '/' :: '\n' :: cs => stripFrom 0 cs
  | '*' :: '/' :: cs => stripFrom 0 cs
  | _ :: cs => stripInside cs
  | [] => none

end

/-- A text without its comments, the blanks before them and the line ends behind them. -/
def stripComments (text : String) : Option String :=
  (stripFrom 0 text.toList).map String.ofList

example : stripComments "a\n  /* b /* c\n */\n  d /* e */ f" = some "a\n  d f" := by decide +kernel

/-! ## Texts without a mark -/

variable {first second c : Char} {cs ds rest code : List Char}

/-- A pair of characters in two texts one behind the other lies in one of them,
unless it stands where they meet. -/
theorem not_pair_infix_append
    (hcs : ¬ [first, second] <:+: cs) (hds : ¬ [first, second] <:+: ds)
    (hmeet : cs.getLast? = some first → ds.head? ≠ some second) :
    ¬ [first, second] <:+: cs ++ ds := by
  induction cs with
  | nil => exact hds
  | cons c cs ih =>
    intro hpair
    rcases List.infix_cons_iff.mp hpair with hprefix | hinside
    · obtain ⟨rfl, htail⟩ := List.cons_prefix_cons.mp hprefix
      cases cs with
      | nil =>
        obtain ⟨tail, rfl⟩ := htail
        exact hmeet rfl rfl
      | cons d cs =>
        obtain ⟨rfl, -⟩ := List.cons_prefix_cons.mp htail
        exact hcs ⟨[], cs, rfl⟩
    · have hrest : ¬ [first, second] <:+: cs := fun hinside => hcs (List.infix_cons hinside)
      refine ih hrest (fun hlast => hmeet ?_) hinside
      rw [List.getLast?_cons, hlast, Option.getD_some]

/-- Outside of comments a character stands for itself, unless it opens one. -/
theorem stripFrom_cons
    (blanks : Nat) (hblank : c ≠ ' ') (hopen : c = '/' → cs.head? ≠ some '*') :
    stripFrom blanks (c :: cs) =
      (stripFrom 0 cs).map fun rest => List.replicate blanks ' ' ++ c :: rest := by
  rw [stripFrom]
  · exact hblank
  · rintro tail hc rfl
    exact hopen hc rfl

theorem head?_append_lineEnd_ne
    (hopen : ¬ openMark <:+: c :: cs) (hc : c = '/') : (cs ++ '\n' :: rest).head? ≠ some '*' := by
  subst hc
  intro hhead
  apply hopen
  cases cs with
  | nil => cases hhead
  | cons d cs =>
    obtain rfl : d = '*' := Option.some.inj hhead
    exact ⟨[], cs, rfl⟩

/-- A line without comments stays, and no comment of the next one takes part of it away. -/
theorem stripFrom_append_lineEnd (blanks : Nat) (hopen : ¬ openMark <:+: cs) :
    stripFrom blanks (cs ++ '\n' :: rest) =
      (stripFrom 0 rest).map fun code => List.replicate blanks ' ' ++ cs ++ '\n' :: code := by
  induction cs generalizing blanks with
  | nil =>
    rw [List.nil_append, stripFrom_cons blanks (by decide) (fun h => absurd h (by decide)),
      List.append_nil]
  | cons c cs ih =>
    have hcs : ¬ openMark <:+: cs := fun hinside => hopen (List.infix_cons hinside)
    by_cases hblank : c = ' '
    · rw [hblank, List.cons_append, stripFrom, ih (blanks + 1) hcs, List.replicate_succ']
      simp
    · rw [List.cons_append, stripFrom_cons blanks hblank (head?_append_lineEnd_ne hopen),
        ih 0 hcs, Option.map_map]
      simp [Function.comp_def]

theorem stripFrom_eq_self (blanks : Nat) (hopen : ¬ openMark <:+: cs) :
    stripFrom blanks cs = some (List.replicate blanks ' ' ++ cs) := by
  induction cs generalizing blanks with
  | nil => rw [stripFrom, List.append_nil]
  | cons c cs ih =>
    have hcs : ¬ openMark <:+: cs := fun hinside => hopen (List.infix_cons hinside)
    by_cases hblank : c = ' '
    · rw [hblank, stripFrom, ih (blanks + 1) hcs, List.replicate_succ', List.append_assoc]
      rfl
    · have hhead : c = '/' → cs.head? ≠ some '*' := by
        rintro rfl hstar
        obtain ⟨tail, rfl⟩ := List.head?_eq_some_iff.mp hstar
        exact hopen ⟨[], tail, rfl⟩
      rw [stripFrom_cons blanks hblank hhead, ih 0 hcs]
      rfl

/-- A comment goes on to its first end mark, and a text without one lies inside. -/
theorem stripInside_append (hclose : ¬ closeMark <:+: cs) :
    stripInside (cs ++ '*' :: '/' :: '\n' :: rest) = stripFrom 0 rest := by
  induction cs with
  | nil => rw [List.nil_append, stripInside]
  | cons c cs ih =>
    have hcs : ¬ closeMark <:+: cs := fun hinside => hclose (List.infix_cons hinside)
    have hhead : c = '*' → (cs ++ '*' :: '/' :: '\n' :: rest).head? ≠ some '/' := by
      rintro rfl hslash
      cases cs with
      | nil => cases hslash
      | cons d cs =>
        obtain rfl : d = '/' := Option.some.inj hslash
        exact hclose ⟨[], cs, rfl⟩
    rw [List.cons_append, stripInside, ih hcs]
    · rintro tail hc htail
      exact hhead hc (by rw [htail, List.head?_cons])
    · rintro tail hc htail
      exact hhead hc (by rw [htail, List.head?_cons])

/-! ## Texts of comments -/

theorem head?_escapeComment (text : List Char) : (escapeComment text).head? = text.head? := by
  fun_cases escapeComment text with
  | case1 => rfl
  | case2 => rfl
  | case3 => rfl

/-- An escaped text holds no end mark of a comment. -/
theorem not_closeMark_infix_escapeComment (text : List Char) :
    ¬ closeMark <:+: escapeComment text := by
  fun_induction escapeComment text with
  | case1 rest ih =>
    have hbehind : ¬ closeMark <:+: '/' :: escapeComment rest := by
      intro hinside
      rcases List.infix_cons_iff.mp hinside with hprefix | hrest
      · exact absurd (List.cons_prefix_cons.mp hprefix).1 (by decide)
      · exact ih hrest
    have hstar : ¬ closeMark <:+: ['*', '\\'] := by decide
    exact not_pair_infix_append hstar hbehind (fun hlast => absurd hlast (by decide))
  | case2 c rest hplain ih =>
    intro hinside
    rcases List.infix_cons_iff.mp hinside with hprefix | hrest
    · obtain ⟨rfl, htail⟩ := List.cons_prefix_cons.mp hprefix
      have hhead : rest.head? = some '/' := by
        rw [← head?_escapeComment rest]
        obtain ⟨tail, htail⟩ := htail
        rw [← htail]
        rfl
      obtain ⟨tail, rfl⟩ := List.head?_eq_some_iff.mp hhead
      exact hplain tail rfl rfl
    · exact ih hrest
  | case3 => decide

theorem not_closeMark_infix_of_mem_commentLines
    {text line : String} (h : line ∈ commentLines text) : ¬ closeMark <:+: line.toList := by
  obtain ⟨characters, hcharacters, rfl⟩ := List.mem_map.mp h
  rw [String.toList_ofList]
  intro hinside
  exact not_closeMark_infix_escapeComment text.toList
    (hinside.trans (Text.infix_of_mem_lines hcharacters))

theorem not_closeMark_infix_of_mem_fieldRemarks
    {description deprecation : Option String} {remark : String}
    (h : remark ∈ fieldRemarks description deprecation) : ¬ closeMark <:+: remark.toList := by
  rcases List.mem_append.mp h with hdescription | hdeprecation
  · cases description with
    | none => cases hdescription
    | some text => exact not_closeMark_infix_of_mem_commentLines hdescription
  · cases deprecation with
    | none => cases hdeprecation
    | some reason =>
      obtain rfl := List.mem_singleton.mp hdeprecation
      have htag : ¬ closeMark <:+: "@deprecated ".toList := by
        intro hinside
        have hstar : '*' ∈ "@deprecated ".toList := hinside.mem (by decide)
        revert hstar
        decide
      have hreason := not_closeMark_infix_escapeComment reason.toList
      rw [String.toList_append, String.toList_ofList (l := escapeComment _)]
      exact not_pair_infix_append htag hreason (fun hlast => absurd hlast (by decide))


/-! ## Comments -/

/-- Decorated rows hold no end mark where their texts hold none. -/
theorem not_closeMark_infix_flatMap
    {α : Type} {row : α → List Char} {xs : List α}
    (hrow : ∀ x ∈ xs, ¬ closeMark <:+: row x ++ ['\n']) :
    ¬ closeMark <:+: xs.flatMap fun x => row x ++ ['\n'] := by
  induction xs with
  | nil =>
    intro hinside
    cases List.eq_nil_of_infix_nil hinside
  | cons x xs ih =>
    have hxs := ih fun y hy => hrow y (List.mem_cons_of_mem x hy)
    have hlast : (row x ++ ['\n']).getLast? ≠ some '*' := by simp
    rw [List.flatMap_cons]
    exact not_pair_infix_append (hrow x (by simp)) hxs (fun h => absurd h hlast)

/-- A comment on lines of its own, which ends at the first end mark in it. -/
def IsComment (text : String) : Prop :=
  ∃ blanks body, text.toList = List.replicate blanks ' ' ++ openMark ++ body ++ closeMark ++ ['\n'] ∧
    ¬ closeMark <:+: body

theorem stripFrom_append_of_isComment {text : String} (h : IsComment text) (rest : List Char) :
    stripFrom 0 (text.toList ++ rest) = stripFrom 0 rest := by
  obtain ⟨blanks, body, htext, hclose⟩ := h
  have hblanks : ∀ n, stripFrom n
      (List.replicate blanks ' ' ++ '/' :: '*' :: (body ++ '*' :: '/' :: '\n' :: rest)) =
        stripFrom 0 rest := by
    clear htext
    induction blanks with
    | zero =>
      intro n
      rw [List.replicate_zero, List.nil_append, stripFrom, stripInside_append hclose]
    | succ blanks ih =>
      intro n
      rw [List.replicate_succ, List.cons_append, stripFrom, ih]
  rw [htext, ← hblanks 0]
  simp [openMark, closeMark]

/-- The characters of a row above a declaration, its line end excepted. -/
def starRowText (line : String) : List Char :=
  if [' ', '*', ' '].isSuffixOf ([' ', '*', ' '] ++ line.toList) then
    ([' ', '*', ' '] ++ line.toList).dropLast
  else [' ', '*', ' '] ++ line.toList

theorem toList_starRow (line : String) : (starRow line).toList = starRowText line ++ ['\n'] := by
  rw [starRow, String.toList_append, String.toList_ofList (l := ite _ _ _)]
  rfl

theorem not_closeMark_infix_starRowText
    {line : String} (h : ¬ closeMark <:+: line.toList) :
    ¬ closeMark <:+: starRowText line ++ ['\n'] := by
  have hstar : ¬ closeMark <:+: [' ', '*', ' '] := by decide
  have hrow : ¬ closeMark <:+: [' ', '*', ' '] ++ line.toList :=
    not_pair_infix_append hstar h (fun hlast => absurd hlast (by decide))
  have htext : ¬ closeMark <:+: starRowText line := by
    rw [starRowText]
    split
    · intro hinside
      exact hrow (hinside.trans (List.dropLast_prefix _).isInfix)
    · exact hrow
  have hend : ¬ closeMark <:+: ['\n'] := by decide
  exact not_pair_infix_append htext hend (fun _ => by decide)

theorem isComment_declarationComment (text : String) :
    IsComment (declarationComment true (some text)) := by
  have hrows : ¬ closeMark <:+: (commentLines text).flatMap fun line => starRowText line ++ ['\n'] :=
    not_closeMark_infix_flatMap fun line hline =>
      not_closeMark_infix_starRowText (not_closeMark_infix_of_mem_commentLines hline)
  refine ⟨0, ['\n'] ++ (commentLines text).flatMap (fun line => starRowText line ++ ['\n']) ++ [' '],
    ?_, ?_⟩
  · simp [declarationComment, String.toList_join, List.flatMap_map, toList_starRow, openMark,
      closeMark]
  · have hstart : ¬ closeMark <:+: ['\n'] := by decide
    have hend : ¬ closeMark <:+: [' '] := by decide
    have hbody := not_pair_infix_append hstart hrows (fun hlast => absurd hlast (by decide))
    exact not_pair_infix_append hbody hend (fun _ => by decide)

theorem not_closeMark_infix_remarkRow
    {remark : String} (h : ¬ closeMark <:+: remark.toList) :
    ¬ closeMark <:+: "   * ".toList ++ remark.toList ++ ['\n'] := by
  have hstar : ¬ closeMark <:+: [' ', ' ', ' ', '*', ' '] := by decide
  have hend : ¬ closeMark <:+: ['\n'] := by decide
  have hrow := not_pair_infix_append hstar h (fun hlast => absurd hlast (by decide))
  exact not_pair_infix_append hrow hend (fun _ => by decide)

/-- A field with remarks has one comment above it, whether it has one remark or many. -/
theorem isComment_fieldComment
    {description deprecation : Option String} (h : fieldRemarks description deprecation ≠ []) :
    IsComment (fieldComment true description deprecation) := by
  have hclose : ∀ remark ∈ fieldRemarks description deprecation, ¬ closeMark <:+: remark.toList :=
    fun remark hremark => not_closeMark_infix_of_mem_fieldRemarks hremark
  rw [fieldComment, if_pos rfl]
  generalize fieldRemarks description deprecation = remarks at h hclose
  match remarks with
  | [] => exact absurd rfl h
  | [remark] =>
    refine ⟨2, ['*', ' '] ++ remark.toList ++ [' '], by simp [openMark, closeMark], ?_⟩
    have hstart : ¬ closeMark <:+: ['*', ' '] := by decide
    have hend : ¬ closeMark <:+: [' '] := by decide
    have hbody := not_pair_infix_append hstart (hclose remark (by simp))
      (fun hlast => absurd hlast (by decide))
    exact not_pair_infix_append hbody hend (fun _ => by decide)
  | first :: second :: others =>
    have hrows : ¬ closeMark <:+: (first :: second :: others).flatMap
        fun remark => "   * ".toList ++ remark.toList ++ ['\n'] :=
      not_closeMark_infix_flatMap fun remark hremark =>
        not_closeMark_infix_remarkRow (hclose remark hremark)
    refine ⟨2, ['*', '\n'] ++ (first :: second :: others).flatMap
      (fun remark => "   * ".toList ++ remark.toList ++ ['\n']) ++ [' ', ' ', ' '], ?_, ?_⟩
    · simp [String.toList_join, List.flatMap_map, openMark, closeMark]
    · have hstart : ¬ closeMark <:+: ['*', '\n'] := by decide
      have hend : ¬ closeMark <:+: [' ', ' ', ' '] := by decide
      have hbody := not_pair_infix_append hstart hrows (fun hlast => absurd hlast (by decide))
      exact not_pair_infix_append hbody hend (fun _ => by decide)

/-! ## Declarations with and without documentation -/

/-- The same options with documentation switched on or off. -/
def Options.withDocs (options : Options) (docs : Bool) : Options :=
  { options with docs }

variable {options : Options} {position : Position}

theorem fieldLine_withDocs (f : Field) :
    fieldLine (options.withDocs true) position f =
      fieldComment true f.description f.deprecation ++
        fieldLine (options.withDocs false) position f := by
  simp [fieldLine, Options.withDocs, fieldComment, String.append_assoc]

theorem stripFrom_fieldLine_append
    {f : Field} (hopen : ¬ openMark <:+: (fieldLine (options.withDocs false) position f).toList)
    (rest : List Char) :
    stripFrom 0 ((fieldLine (options.withDocs true) position f).toList ++ '\n' :: rest) =
      (stripFrom 0 rest).map fun code =>
        (fieldLine (options.withDocs false) position f).toList ++ '\n' :: code := by
  rw [fieldLine_withDocs, String.toList_append, List.append_assoc]
  generalize (fieldLine (options.withDocs false) position f).toList = line at hopen ⊢
  have hline : stripFrom 0 (line ++ '\n' :: rest) =
      (stripFrom 0 rest).map fun code => line ++ '\n' :: code :=
    stripFrom_append_lineEnd 0 hopen
  by_cases hremarks : fieldRemarks f.description f.deprecation = []
  · have hnone : fieldComment true f.description f.deprecation = "" := by
      rw [fieldComment, if_pos rfl, hremarks]
    rw [hnone]
    exact hline
  · rw [stripFrom_append_of_isComment (isComment_fieldComment hremarks)]
    exact hline

/-- The lines of fields, each with its line end. -/
def fieldLines (options : Options) (position : Position) (fs : List Field) : List Char :=
  fs.flatMap fun f => (fieldLine options position f).toList ++ ['\n']

/-- The comments go field by field, since each line ends before the next comment starts. -/
theorem stripFrom_fieldLines_append
    {fs : List Field}
    (hopen : ∀ f ∈ fs, ¬ openMark <:+: (fieldLine (options.withDocs false) position f).toList)
    (rest : List Char) :
    stripFrom 0 (fieldLines (options.withDocs true) position fs ++ rest) =
      (stripFrom 0 rest).map fun code =>
        fieldLines (options.withDocs false) position fs ++ code := by
  induction fs with
  | nil => simp [fieldLines]
  | cons f fs ih =>
    have hrest := ih fun g hg => hopen g (List.mem_cons_of_mem f hg)
    have hfirst := stripFrom_fieldLine_append (hopen f (by simp))
      (fieldLines (options.withDocs true) position fs ++ rest)
    simp only [fieldLines, List.flatMap_cons, List.append_assoc, List.cons_append,
      List.nil_append] at hrest hfirst ⊢
    rw [hfirst, hrest, Option.map_map]
    rfl

theorem intercalate_lines {rows : List String} (h : rows ≠ []) :
    ("\n".intercalate rows).toList ++ ['\n'] = rows.flatMap fun row => row.toList ++ ['\n'] := by
  induction rows with
  | nil => exact absurd rfl h
  | cons row rows ih =>
    cases rows with
    | nil => simp
    | cons second others =>
      have hrest := ih (by simp)
      rw [String.intercalate_cons_cons, String.toList_append, List.append_assoc, hrest]
      simp

theorem toList_fieldBlock {fields : Catalog Field} (h : fields.items ≠ []) :
    (fieldBlock options position fields).toList =
      '\x7b' :: '\n' :: (fieldLines options position fields.items ++ ['\x7d']) := by
  have hsome : fields.items.map (fieldLine options position) ≠ [] := by simpa using h
  have hrows := intercalate_lines hsome
  rw [List.flatMap_map] at hrows
  rw [fieldLines, ← hrows, fieldBlock, if_neg h]
  simp

theorem infix_fieldLines
    {fs : List Field} {f : Field} (h : f ∈ fs) :
    (fieldLine options position f).toList <:+: fieldLines options position fs := by
  obtain ⟨before, after, rfl⟩ := List.append_of_mem h
  refine ⟨fieldLines options position before, '\n' :: fieldLines options position after, ?_⟩
  simp [fieldLines]

theorem stripFrom_append_fieldBlock
    {front : List Char} {fields : Catalog Field}
    (hopen : ¬ openMark <:+: front ++ (fieldBlock (options.withDocs false) position fields).toList) :
    stripFrom 0 (front ++ (fieldBlock (options.withDocs true) position fields).toList) =
      some (front ++ (fieldBlock (options.withDocs false) position fields).toList) := by
  by_cases hnone : fields.items = []
  · have hsame : fieldBlock (options.withDocs true) position fields =
        fieldBlock (options.withDocs false) position fields := by
      rw [fieldBlock, fieldBlock, if_pos hnone, if_pos hnone]
    rw [hsame]
    exact stripFrom_eq_self 0 hopen
  · rw [toList_fieldBlock hnone] at hopen ⊢
    rw [toList_fieldBlock hnone]
    have hfront : ¬ openMark <:+: front ++ ['\x7b'] := by
      intro hinside
      refine hopen (hinside.trans ?_)
      exact ⟨[], '\n' :: (fieldLines (options.withDocs false) position fields.items ++ ['\x7d']),
        by simp⟩
    have hlines : ∀ f ∈ fields.items,
        ¬ openMark <:+: (fieldLine (options.withDocs false) position f).toList := by
      intro f hf hinside
      refine hopen (hinside.trans ((infix_fieldLines hf).trans ?_))
      exact ⟨front ++ ['\x7b', '\n'], ['\x7d'], by simp⟩
    have hbrace : ¬ openMark <:+: ['\x7d'] := by decide
    have hbody := stripFrom_fieldLines_append hlines ['\x7d']
    rw [stripFrom_eq_self 0 hbrace] at hbody
    rw [List.append_cons front, stripFrom_append_lineEnd 0 hfront, hbody]
    simp

/-- Documentation shows in the field block of a declaration alone. -/
theorem declarationBody_eq (name : String) (body : TypeBody) :
    (∃ text, ∀ docs, declarationBody (options.withDocs docs) name body = text) ∨
      ∃ front position fields, ∀ docs, declarationBody (options.withDocs docs) name body =
        front ++ fieldBlock (options.withDocs docs) position fields := by
  cases body with
  | object fields interfaces => exact Or.inr ⟨_, .output, fields, fun _ => rfl⟩
  | interface fields => exact Or.inr ⟨_, .output, fields, fun _ => rfl⟩
  | inputObject fields => exact Or.inr ⟨_, .input, fields, fun _ => rfl⟩
  | union members => exact Or.inl ⟨_, fun _ => rfl⟩
  | enumeration values => exact Or.inl ⟨_, fun _ => rfl⟩
  | scalar => exact Or.inl ⟨scalarAlias options.scalars name, fun _ => rfl⟩

theorem stripFrom_declarationBody
    {name : String} {body : TypeBody}
    (hopen : ¬ openMark <:+: (declarationBody (options.withDocs false) name body).toList) :
    stripFrom 0 (declarationBody (options.withDocs true) name body).toList =
      some (declarationBody (options.withDocs false) name body).toList := by
  obtain ⟨text, htext⟩ | ⟨front, position, fields, htext⟩ :
      (∃ text, ∀ docs, declarationBody (options.withDocs docs) name body = text) ∨
        ∃ front position fields, ∀ docs, declarationBody (options.withDocs docs) name body =
          front ++ fieldBlock (options.withDocs docs) position fields :=
    declarationBody_eq name body
  · rw [htext] at hopen ⊢
    rw [htext]
    exact stripFrom_eq_self 0 hopen
  · rw [htext, String.toList_append] at hopen ⊢
    rw [htext, String.toList_append]
    exact stripFrom_append_fieldBlock hopen

theorem stripComments_declaration
    {d : TypeDefinition}
    (hopen : ¬ openMark <:+: (declaration (options.withDocs false) d).toList) :
    stripComments (declaration (options.withDocs true) d) =
      some (declaration (options.withDocs false) d) := by
  have hplain : declaration (options.withDocs false) d =
      declarationBody (options.withDocs false) d.name d.body := by
    rw [declaration]
    cases d.description <;> simp [declarationComment, Options.withDocs]
  rw [hplain] at hopen ⊢
  have hbody := stripFrom_declarationBody hopen
  rw [stripComments, declaration, String.toList_append]
  cases hdescription : d.description with
  | none =>
    simp only [declarationComment, String.toList_empty, List.nil_append]
    rw [hbody, Option.map_some, String.ofList_toList]
  | some text =>
    have hcomment : IsComment (declarationComment (options.withDocs true).docs (some text)) :=
      isComment_declarationComment text
    rw [stripFrom_append_of_isComment hcomment, hbody, Option.map_some, String.ofList_toList]

theorem fieldComment_eq_empty_or_isComment (description deprecation : Option String) :
    fieldComment true description deprecation = "" ∨
      IsComment (fieldComment true description deprecation) := by
  by_cases hremarks : fieldRemarks description deprecation = []
  · left
    rw [fieldComment, if_pos rfl, hremarks]
  · right
    exact isComment_fieldComment hremarks

/-- Documentation changes nothing but the section of the declarations, and nothing
there but comments: the same types are declared in the same order, and each
declaration without its comments is the one that is written without
documentation.  Every comment ends at its own end mark, whatever the
descriptions and deprecations in it say. -/
theorem documentation_is_comments (options : Options) (paths : Paths) (schema : Schema) :
    (∀ docs, document (options.withDocs docs) paths schema =
      "\n\n".intercalate
        [header paths, importLine options.bindingModule,
          instanceInterface (parts options schema).operations, constructorInterface, bindingClass,
          typesSection ((declaredTypes schema options.order).map
            (declaration (options.withDocs docs))),
          typeDefsSection (parts options schema).typeDefs] ++ "\n") ∧
    (∀ d ∈ declaredTypes schema options.order,
      ¬ openMark <:+: (declaration (options.withDocs false) d).toList →
        stripComments (declaration (options.withDocs true) d) =
          some (declaration (options.withDocs false) d)) ∧
    (∀ text, IsComment (declarationComment true (some text))) ∧
    ∀ description deprecation, fieldComment true description deprecation = "" ∨
      IsComment (fieldComment true description deprecation) := by
  refine ⟨fun docs => rfl, ?_, isComment_declarationComment, fieldComment_eq_empty_or_isComment⟩
  intro d _ hopen
  exact stripComments_declaration hopen

/-- A type whose descriptions and deprecations try to end their comments. -/
def talkativeType : TypeDefinition where
  name := "Talk"
  description := some "*/ export const a = 1 /*\n\n/ * \r\n*"
  body := .object (.ofList
    [{ name := "plain", type := .named "Int" },
     { name := "short", type := .named "Int", description := some "/" },
     { name := "long", type := .list (.named "ID"), description := some "*\n/",
       deprecation := some "**/\n*/ evil: never //" }]) ["Loud"]

def talkativeSchema : Schema where
  types := .ofList [talkativeType]

theorem documentation_is_comments_talkative :
    talkativeType ∈ declaredTypes talkativeSchema .kind ∧
      ¬ openMark <:+: (declaration (Options.withDocs {} false) talkativeType).toList ∧
      stripComments (declaration (Options.withDocs {} true) talkativeType) =
        some ("export interface Talk extends Loud \x7b\n  plain?: number\n  short?: number\n" ++
          "  long?: ID_Output[]\n\x7d") := by
  have hdeclared : talkativeType ∈ declaredTypes talkativeSchema .kind := by decide +kernel
  have hopen : ¬ openMark <:+: (declaration (Options.withDocs {} false) talkativeType).toList := by
    decide +kernel
  obtain ⟨-, hstrip, -⟩ := documentation_is_comments {} ⟨"", ""⟩ talkativeSchema
  refine ⟨hdeclared, hopen, ?_⟩
  rw [hstrip talkativeType hdeclared hopen]
  rfl

end SchemaBinding.Binding
