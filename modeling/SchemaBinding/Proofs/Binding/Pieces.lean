import SchemaBinding.Binding.Document
import SchemaBinding.Proofs.Binding.ScalarUse
import SchemaBinding.Proofs.Json.SortedEntries

/-!
# Pieces of a binding

A binding is cut into pieces: texts that the table of scalars has no part in,
and aliases whose type is what the table has for their name.  So the table
decides the types of aliases and nothing else, and it is looked up for the
names of declared scalars only.
-/

namespace SchemaBinding

namespace Binding

variable {options : Options} {paths : Paths} {schema : Schema} {table other : ScalarTable}

/-- The same options with another table of scalars. -/
def Options.withScalars (options : Options) (scalars : ScalarTable) : Options :=
  { options with scalars }

/-! ## The sections around the declarations -/

/-- What stands before the declarations. -/
def opening (options : Options) (paths : Paths) (schema : Schema) : String :=
  "\n\n".intercalate [header paths, importLine options.bindingModule,
    instanceInterface (parts options schema).operations, constructorInterface, bindingClass] ++ "\n\n"

/-- What stands behind the declarations. -/
def closing (schema : Schema) : String :=
  "\n\n" ++ typeDefsSection (Sdl.document schema) ++ "\n"

theorem document_eq (options : Options) (paths : Paths) (schema : Schema) :
    document options paths schema =
      opening options paths schema ++ typesSection (declarations options schema) ++
        closing schema := by
  simp only [document, assemble, sections, opening, closing, String.intercalate_cons_cons,
    String.intercalate_singleton, String.append_assoc]
  rfl

theorem typesSection_eq (blocks : List String) :
    typesSection blocks = banner "Types" ++ String.join (blocks.map ("\n\n" ++ ·)) := by
  suffices h : ∀ first : String, "\n\n".intercalate (first :: blocks) =
      first ++ String.join (blocks.map ("\n\n" ++ ·)) from h _
  induction blocks with
  | nil => exact fun first => String.append_empty.symm
  | cons block blocks ih =>
    intro first
    rw [String.intercalate_cons_cons, ih, List.map_cons, String.join_cons, String.append_assoc,
      String.append_assoc]

/-! ## Pieces -/

/-- A part of a binding: a text as it stands, or the alias of a scalar, whose type is looked
up in a table. -/
inductive Piece where
  | plain (text : String)
  | aliasOf (name : String)
deriving DecidableEq, Repr

def Piece.fill (table : ScalarTable) : Piece → String
  | .plain text => text
  | .aliasOf name =>
    "export type " ++ name ++ " = " ++
      (table.configured? name).getD ((knownType? name).getD fallbackType)

/-- The text of pieces under a table. -/
def fillAll (table : ScalarTable) (pieces : List Piece) : String :=
  String.join (pieces.map (Piece.fill table))

theorem fillAll_cons (table : ScalarTable) (piece : Piece) (pieces : List Piece) :
    fillAll table (piece :: pieces) = piece.fill table ++ fillAll table pieces := by
  rw [fillAll, List.map_cons, String.join_cons, fillAll]

theorem fillAll_append (table : ScalarTable) (front back : List Piece) :
    fillAll table (front ++ back) = fillAll table front ++ fillAll table back := by
  rw [fillAll, List.map_append, String.join_append, fillAll, fillAll]

theorem fillAll_singleton (table : ScalarTable) (piece : Piece) :
    fillAll table [piece] = piece.fill table := by
  rw [fillAll_cons]
  exact String.append_empty

def declarationPieces (options : Options) (d : TypeDefinition) : List Piece :=
  if d.body = .scalar ∧ d.name ≠ identifierScalar then
    [.plain (declarationComment options.docs d.description), .aliasOf d.name]
  else [.plain (declaration (options.withScalars {}) d)]

/-- The declarations, each behind its blank line. -/
def blockPieces (options : Options) (schema : Schema) : List Piece :=
  (declaredTypes schema options.order).flatMap fun d => .plain "\n\n" :: declarationPieces options d

/-- A binding without what a table decides in it. -/
def documentPieces (options : Options) (paths : Paths) (schema : Schema) : List Piece :=
  .plain (opening options paths schema ++ banner "Types") :: blockPieces options schema ++
    [.plain (closing schema)]

/-- The body of no other type than a scalar looks at the table. -/
theorem declarationBody_withScalars (options : Options) (table : ScalarTable) (name : String)
    {body : TypeBody}
    (h : body ≠ .scalar ∨ name = identifierScalar) :
    declarationBody (options.withScalars table) name body =
      declarationBody (options.withScalars {}) name body := by
  cases body with
  | scalar =>
    obtain rfl := h.resolve_left fun hne => hne rfl
    rfl
  | _ => rfl

theorem fillAll_declarationPieces (table : ScalarTable) (options : Options) (d : TypeDefinition) :
    fillAll table (declarationPieces options d) = declaration (options.withScalars table) d := by
  rw [declarationPieces]
  split
  next h =>
    obtain ⟨name, description, body⟩ := d
    obtain ⟨hbody, hname⟩ := h
    obtain rfl : body = .scalar := hbody
    have hdeclaration :
        declaration (options.withScalars table) ⟨name, description, .scalar⟩ = _ :=
      declaration_scalar hname description
    rw [fillAll_cons, fillAll_singleton, hdeclaration]
    show _ = _ ++ ("export type " ++ name ++ " = " ++ table.typeOf name)
    rw [typeOf_eq table hname]
    rfl
  next h =>
    have hbody := declarationBody_withScalars options table d.name
      ((Decidable.not_and_iff_or_not.mp h).imp_right Decidable.not_not.mp)
    rw [fillAll_singleton, declaration, declaration, hbody]
    rfl

theorem fillAll_blockPieces (table : ScalarTable) (options : Options) (schema : Schema) :
    fillAll table (blockPieces options schema) =
      String.join ((declarations (options.withScalars table) schema).map ("\n\n" ++ ·)) := by
  show fillAll table ((declaredTypes schema options.order).flatMap _) =
    String.join (((declaredTypes schema options.order).map _).map _)
  induction declaredTypes schema options.order with
  | nil => rfl
  | cons d ds ih =>
    rw [List.flatMap_cons, fillAll_append, ih, fillAll_cons, fillAll_declarationPieces,
      List.map_cons, List.map_cons, String.join_cons]
    rfl

theorem fillAll_documentPieces (table : ScalarTable) (options : Options) (paths : Paths)
    (schema : Schema) :
    fillAll table (documentPieces options paths schema) =
      document (options.withScalars table) paths schema := by
  rw [documentPieces, List.cons_append, fillAll_cons, fillAll_append, fillAll_blockPieces,
    fillAll_singleton, document_eq, typesSection_eq, String.append_assoc, String.append_assoc]
  show _ ++ _ ++ _ = _
  rw [String.append_assoc]
  rfl

/-- The table is looked at for the declared scalars only, and not for the identifier scalar. -/
theorem exists_of_alias_mem_documentPieces {name : String}
    (h : .aliasOf name ∈ documentPieces options paths schema) :
    name ≠ identifierScalar ∧ ∃ d ∈ declaredTypes schema options.order,
      d.name = name ∧ d.body = .scalar := by
  have hblocks : .aliasOf name ∈ blockPieces options schema := by
    simpa [documentPieces] using h
  obtain ⟨d, hd, hpiece⟩ := List.mem_flatMap.mp hblocks
  have hpieces : .aliasOf name ∈ declarationPieces options d := by
    simpa using hpiece
  rw [declarationPieces] at hpieces
  split at hpieces
  next hscalar =>
    obtain rfl : name = d.name := by simpa using hpieces
    exact ⟨hscalar.2, d, hd, rfl, hscalar.1⟩
  next => simp at hpieces

/-- Tables that agree on the scalars that are looked up fill pieces alike. -/
theorem fillAll_congr {pieces : List Piece}
    (h : ∀ name, .aliasOf name ∈ pieces → table.configured? name = other.configured? name) :
    fillAll table pieces = fillAll other pieces := by
  rw [fillAll, fillAll]
  congr 1
  refine List.map_congr_left fun piece hpiece => ?_
  cases piece with
  | plain text => rfl
  | aliasOf name => rw [Piece.fill, Piece.fill, h name hpiece]

theorem document_withScalars_congr
    (h : ∀ d ∈ declaredTypes schema options.order, d.body = .scalar →
      d.name ≠ identifierScalar → table.configured? d.name = other.configured? d.name) :
    document (options.withScalars table) paths schema =
      document (options.withScalars other) paths schema := by
  rw [← fillAll_documentPieces, ← fillAll_documentPieces]
  refine fillAll_congr fun name hname => ?_
  obtain ⟨hidentifier, d, hd, rfl, hscalar⟩ := exists_of_alias_mem_documentPieces hname
  exact h d hd hscalar hidentifier

/-! ## Entries of tables -/

/-- The table with all its entries for a name left out. -/
def ScalarTable.without (table : ScalarTable) (name : String) : ScalarTable :=
  ⟨table.entries.filter fun entry => entry.1 ≠ name⟩

/-- The table with entries added one after another. -/
def ScalarTable.addAll (table : ScalarTable) (entries : List (String × String)) : ScalarTable :=
  entries.foldl (fun table entry => table.add entry.1 entry.2) table

theorem configured?_without {name : String} (h : name ≠ identifierScalar) :
    (table.without identifierScalar).configured? name = table.configured? name := by
  rw [ScalarTable.configured?, ScalarTable.without, ScalarTable.configured?]
  exact (lookup_filterKeyed (fun key => key ≠ identifierScalar) table.entries name).trans
    (if_pos (decide_eq_true h))

theorem entries_addAll (entries : List (String × String)) :
    (table.addAll entries).entries = entries.reverse ++ table.entries := by
  induction entries generalizing table with
  | nil => rfl
  | cons entry entries ih =>
    show ((table.add entry.1 entry.2).addAll entries).entries = _
    rw [ih, List.reverse_cons, List.append_assoc]
    rfl

/-- The order in which different names are added does not matter. -/
theorem configured?_addAll_of_perm {entries others : List (String × String)}
    (hperm : entries.Perm others) (hnodup : (entries.map Prod.fst).Nodup) (name : String) :
    (table.addAll entries).configured? name = (table.addAll others).configured? name := by
  have hreversed : entries.reverse.Perm others.reverse :=
    (List.reverse_perm entries).trans (hperm.trans (List.reverse_perm others).symm)
  have hnodup : (entries.reverse.map Prod.fst).Nodup :=
    ((List.reverse_perm entries).map Prod.fst).nodup_iff.mpr hnodup
  rw [ScalarTable.configured?, ScalarTable.configured?, entries_addAll, entries_addAll,
    List.lookup_append, List.lookup_append, lookup_eq_of_perm hreversed hnodup]

end Binding

end SchemaBinding
