import SchemaBinding.Proofs.Sdl.Outline

/-!
# Reading a schema document back

A reader finds in the document of a schema the outline of that schema: every
definition that is shown, in schema order and with all its parts.  Nothing in
a description or in the reason of a deprecation can change what is read.
-/

namespace SchemaBinding.Sdl

open Reader

/-! ## Rows of definitions -/

theorem definitions_cons
    {tokens rest : List Token} {definition : Tree.Definition}
    (h : takeDefinition tokens = some (definition, rest)) (hlength : rest.length < tokens.length) :
    definitions tokens = (definitions rest).map (definition :: ·) := by
  have hne : tokens ≠ [] := by
    rintro rfl
    cases hlength
  rw [definitions, if_neg hne, h]
  simp [hlength]

theorem fresh_flatMap_definitionTokens (ds : List TypeDefinition) :
    Fresh (ds.flatMap definitionTokens) := by
  cases ds with
  | nil => exact fresh_nil
  | cons d ds => exact fresh_definitionTokens_append d _

theorem length_definitionTokens_pos (d : TypeDefinition) : 0 < (definitionTokens d).length := by
  simp only [definitionTokens, headTokens, List.length_append, List.length_singleton]
  omega

theorem definitions_flatMap
    {ds : List TypeDefinition} (hspelled : ∀ d ∈ ds, SpelledDefinition d)
    (hshape : ∀ d ∈ ds, d.body.WellShaped) :
    definitions (ds.flatMap definitionTokens) = some (ds.map definitionTree) := by
  induction ds with
  | nil => simp [definitions]
  | cons d ds ih =>
    have htake := takeDefinition_definitionTokens (hspelled d (by simp)) (hshape d (by simp))
      (fresh_flatMap_definitionTokens ds)
    have hothers := ih (fun e he => hspelled e (List.mem_cons_of_mem d he))
      fun e he => hshape e (List.mem_cons_of_mem d he)
    have hlength : (ds.flatMap definitionTokens).length <
        (definitionTokens d ++ ds.flatMap definitionTokens).length := by
      have hpos := length_definitionTokens_pos d
      rw [List.length_append]
      omega
    rw [List.flatMap_cons, definitions_cons htake hlength, hothers]
    rfl

/-! ## The schema block -/

theorem takeDefinition_schemaBlock
    {roots : List (Operation × String)} (hne : roots ≠ []) (rest : List Token) :
    takeDefinition (.name "schema" :: groupTokens '\x7b' '\x7d' rootTokens roots ++ rest) =
      some (.schema none [] roots, rest) := by
  cases roots with
  | nil => exact absurd rfl hne
  | cons root roots =>
    have hroots : takeUntil '\x7d' takeRoot
        ((root :: roots).flatMap rootTokens ++ .mark '\x7d' :: rest) =
        some ((root :: roots).map id, rest) :=
      takeUntil_flatMap rfl hne (fun root _ => item_root root) rest
    rw [List.map_id] at hroots
    have hdirectives : takeDirectives (.mark '\x7b' ::
          ((root :: roots).flatMap rootTokens ++ .mark '\x7d' :: rest)) =
        some ([], .mark '\x7b' ::
          ((root :: roots).flatMap rootTokens ++ .mark '\x7d' :: rest)) :=
      takeEach_of_head?_ne takeDirective (by simp)
    simp only [groupTokens, List.cons_append, List.append_assoc, List.nil_append]
    simp [takeDefinition, takeDescription, takeName, takeSchema, takeMark, hdirectives, hroots,
      -List.flatMap_cons]

/-- A block that is shown lists a root, since one of them has a name of its own. -/
theorem definitions_documentTokens
    {schema : Schema} (hspelled : SpelledSchema schema) (hshape : schema.WellShaped) :
    definitions (documentTokens schema) = some (outline schema) := by
  have htypes : definitions ((visibleTypes schema).flatMap definitionTokens) =
      some ((visibleTypes schema).map definitionTree) :=
    definitions_flatMap (fun d hd => hspelled.types d (mem_of_mem_visibleTypes hd))
      fun d hd => hshape d (mem_of_mem_visibleTypes hd)
  rw [documentTokens, outline, schemaTokens, schemaTree?]
  split
  next => exact htypes
  next hcustom =>
    have hne : schema.boundRoots ≠ [] := by
      intro hnil
      exact hcustom (by rw [hnil]; rfl)
    have hblock := takeDefinition_schemaBlock hne ((visibleTypes schema).flatMap definitionTokens)
    have hlength : ((visibleTypes schema).flatMap definitionTokens).length <
        (.name "schema" :: groupTokens '\x7b' '\x7d' rootTokens schema.boundRoots ++
          (visibleTypes schema).flatMap definitionTokens).length := by
      simp only [List.cons_append, List.length_cons, List.length_append]
      omega
    rw [List.cons_append, List.nil_append, definitions_cons hblock hlength, htypes]
    rfl

/-! ## Documents -/

theorem read_eq_definitions
    {text : String} {tokens : List Token} (h : Reads text tokens) :
    Reader.read text = definitions tokens := by
  have hbare : tokens.filter (!·.isComment) = tokens := by
    refine List.filter_eq_self.mpr fun token htoken => ?_
    simp [h.bare token htoken]
  rw [Reader.read, h.scan_eq, Option.bind_eq_bind, Option.bind_some, hbare]

/-- A reader of the document of a schema finds the outline of that schema, and
it has to leave no character of the document aside for that. -/
theorem read_document
    (schema : Schema) (hspelled : SpelledSchema schema) (hshape : schema.WellShaped) :
    Reader.read (document schema) = some (outline schema) := by
  rw [read_eq_definitions (reads_document hspelled)]
  exact definitions_documentTokens hspelled hshape

/-- A schema with a definition of each kind, texts that need escapes, and a root
with a name of its own. -/
def gallery : Schema where
  query := some "Root"
  subscription := some "Subscription"
  types := .ofList
    [{ name := "Root"
       description := some "Ends with \\"
       body := .object (.ofList
        [{ name := "find"
           type := .nonNull (.list (.named "Node"))
           description := some "two\n  lines \"\"\" and a fence"
           arguments :=
            [{ name := "by"
               type := .named "Key"
               description := some ""
               default := some "\x7bid: [1, -2.5e3], tag: \"#\"\x7d" },
             { name := "limit", type := .nonNull (.named "Int"), default := some "10" }]
           deprecation := some "say \"no\" \x07" },
         { name := "size"
           type := .named "Int"
           arguments := [{ name := "of", type := .list (.nonNull (.named "ID")) }]
           deprecation := some defaultReason }]) ["Node", "Named"] },
     { name := "Node"
       body := .interface (.ofList [{ name := "id", type := .nonNull (.named "ID") }]) },
     { name := "Named", body := .interface .empty },
     { name := "Key"
       body := .inputObject (.ofList
        [{ name := "id", type := .list (.named "Int"), default := some "[ ]" }]) },
     { name := "Any", body := .union ["Root", "Subscription"] },
     { name := "Colour"
       body := .enumeration
        [{ name := "RED", description := some " indented\nlines\n" }, { name := "implements" }] },
     { name := "Subscription", body := .object .empty [] },
     { name := "Time", body := .scalar },
     { name := "Int", body := .scalar },
     { name := "__Schema", body := .object .empty [] }]

theorem read_document_gallery :
    SpelledSchema gallery ∧ gallery.WellShaped ∧
      Reader.read (document gallery) = some (outline gallery) := by
  have hspelled : SpelledSchema gallery := by decide +kernel
  have hshape : gallery.WellShaped := by decide +kernel
  exact ⟨hspelled, hshape, read_document gallery hspelled hshape⟩

end SchemaBinding.Sdl
