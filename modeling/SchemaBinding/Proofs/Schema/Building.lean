import Mathlib.Data.Finset.Card
import SchemaBinding.Proofs.Schema.Consistent
import SchemaBinding.Proofs.Schema.Filling
import SchemaBinding.Sdl.Document

/-!
# Building schemas

A schema is built by steps that add types and bind roots, in any order.  After
each of them it has the types in the order in which their names were first
added, each as it was added last, and every operation has the root that was
bound to it last.  The two sorts of steps do not see each other, and neither do
types of different names, as long as one of them has its place already.
-/

namespace SchemaBinding

open Named (name)

/-! ## Catalogs -/

section Catalogs

variable {α : Type} [Named α] {c d : Catalog α} {x y : α}

/-- A catalog has the names of some items in the order in which they first came, each of them
once, and under each name the item that came last. -/
structure Catalog.FilledWith (c : Catalog α) (xs : List α) : Prop where
  order : c.names = (xs.map name).eraseDups
  items : c.items = c.names.filterMap fun key => xs.findRev? fun x => name x == key
  find? : ∀ key, c.find? key = xs.findRev? fun x => name x == key
  isSome_find? : ∀ key, (c.find? key).isSome ↔ key ∈ xs.map name
  name_eq : ∀ key x, c.find? key = some x → name x = key
  size : c.size = (xs.map name).toFinset.card

namespace Catalog

theorem find?_insert (c : Catalog α) (x : α) (key : String) :
    (c.insert x).find? key = if name x = key then some x else c.find? key :=
  find?_upsert x c.items key

theorem items_eq_filterMap (c : Catalog α) : c.items = c.names.filterMap c.find? := by
  rw [names, List.filterMap_map]
  have hself : ∀ x ∈ c.items, (c.find? ∘ name) x = some x := by
    intro x hx
    exact find?_name_of_mem hx
  rw [List.filterMap_congr hself, List.filterMap_some]

/-- A catalog is known by its names and by what it has under them. -/
theorem ext_find? (hnames : c.names = d.names) (hfind : ∀ key, c.find? key = d.find? key) :
    c = d := by
  apply ext
  rw [items_eq_filterMap, items_eq_filterMap, hnames, funext hfind]

/-- Items of different names can be exchanged, unless both are new. -/
theorem insert_comm (hdifferent : name x ≠ name y)
    (hthere : name x ∈ c.names ∨ name y ∈ c.names) :
    (c.insert x).insert y = (c.insert y).insert x := by
  apply ext_find?
  · simp only [names_insert]
    rcases hthere with hx | hy
    · by_cases hy : name y ∈ c.names
      · simp [hx, hy]
      · simp [hx, hy]
    · by_cases hx : name x ∈ c.names
      · simp [hx, hy]
      · simp [hx, hy]
  · intro key
    rw [find?_insert, find?_insert, find?_insert, find?_insert]
    by_cases hy : name y = key
    · have hx : name x ≠ key := fun hx => hdifferent (hx.trans hy.symm)
      rw [if_pos hy, if_neg hx, if_pos hy]
    · rw [if_neg hy, if_neg hy]

theorem ofList_append (xs ys : List α) : ofList (xs ++ ys) = ys.foldl insert (ofList xs) :=
  List.foldl_append

theorem filledWith_ofList (xs : List α) : (ofList xs).FilledWith xs := by
  have hmem (key : String) : key ∈ (ofList xs).names ↔ key ∈ xs.map name := by
    rw [names_ofList, List.mem_eraseDups]
  refine ⟨names_ofList xs, ?_, find?_ofList xs, ?_, ?_, ?_⟩
  · rw [items_eq_filterMap, funext (find?_ofList xs)]
  · intro key
    rw [← hmem, ← Option.not_isNone, Bool.not_eq_true', ← Bool.not_eq_true, isNone_find?_iff,
      not_not]
  · intro key x hx
    exact (mem_of_find?_eq_some hx).2
  · have hset : (xs.map name).toFinset = (ofList xs).names.toFinset := by
      ext key
      rw [List.mem_toFinset, List.mem_toFinset, hmem]
    have hdistinct : (ofList xs).names.Nodup := (ofList xs).distinct
    rw [hset, List.toFinset_card_of_nodup hdistinct, names, List.length_map, size]

/-- Items that are filed in a catalog come behind those that it has. -/
theorem filledWith_foldl_insert (c : Catalog α) (xs : List α) :
    (xs.foldl insert c).FilledWith (c.items ++ xs) := by
  have hfold : xs.foldl insert c = ofList (c.items ++ xs) := by
    rw [ofList_append, ofList_items]
  rw [hfold]
  exact filledWith_ofList _

end Catalog

end Catalogs

/-! ## Fields -/

/-- The three ways to make a body of fields. -/
def fieldBodies (interfaces : List String) : List (Catalog Field → TypeBody) :=
  [(.object · interfaces), .interface, .inputObject]

theorem withField_of_mem_fieldBodies {interfaces : List String} {make : Catalog Field → TypeBody}
    (hmake : make ∈ fieldBodies interfaces) (fields : Catalog Field) (f : Field) :
    (make fields).withField f = make (fields.insert f) := by
  simp only [fieldBodies, List.mem_cons, List.not_mem_nil, or_false] at hmake
  rcases hmake with rfl | rfl | rfl
  all_goals rfl

theorem foldl_withField {interfaces : List String} {make : Catalog Field → TypeBody}
    (hmake : make ∈ fieldBodies interfaces) (fields : Catalog Field) (added : List Field) :
    added.foldl TypeBody.withField (make fields) = make (added.foldl Catalog.insert fields) := by
  induction added generalizing fields with
  | nil => rfl
  | cons f added ih =>
    rw [List.foldl_cons, List.foldl_cons, withField_of_mem_fieldBodies hmake, ih]

/-! ## Steps -/

namespace Schema

variable {schema other : Schema} {operation : Operation}

/-- One step of building: a type is added, or a root is bound. -/
inductive Step where
  | add (definition : TypeDefinition)
  | root (operation : Operation) (name : String)
deriving DecidableEq, Repr

def Step.definition? : Step → Option TypeDefinition
  | add definition => some definition
  | root .. => none

/-- The name that a step binds to an operation. -/
def Step.rootOf? (operation : Operation) : Step → Option String
  | add _ => none
  | root bound name => if bound = operation then some name else none

def after (schema : Schema) : Step → Schema
  | .add definition => schema.addType definition
  | .root operation name => schema.bindRoot operation name

/-- The schema that steps come to from an empty one. -/
def build (steps : List Step) : Schema :=
  steps.foldl after {}

/-- The types that steps add, as they come. -/
def added (steps : List Step) : List TypeDefinition :=
  steps.filterMap Step.definition?

/-- The names that steps bind to an operation, as they come. -/
def boundTo (operation : Operation) (steps : List Step) : List String :=
  steps.filterMap (Step.rootOf? operation)

/-- A schema is known by its types and by the roots of the three operations. -/
theorem ext_rootName? (htypes : schema.types = other.types)
    (hroots : ∀ operation, schema.rootName? operation = other.rootName? operation) :
    schema = other := by
  obtain ⟨types, query, mutation, subscription⟩ := schema
  obtain rfl : query = other.query := hroots .query
  obtain rfl : mutation = other.mutation := hroots .mutation
  obtain rfl : subscription = other.subscription := hroots .subscription
  obtain rfl : types = other.types := htypes
  rfl

theorem types_bindRoot (schema : Schema) (operation : Operation) (name : String) :
    (schema.bindRoot operation name).types = schema.types := by
  cases operation <;> rfl

theorem rootName?_bindRoot (schema : Schema) (bound operation : Operation) (name : String) :
    (schema.bindRoot bound name).rootName? operation =
      if bound = operation then some name else schema.rootName? operation := by
  cases bound <;> cases operation <;> rfl

theorem types_after (schema : Schema) (step : Step) :
    (schema.after step).types = step.definition?.elim schema.types schema.types.insert := by
  cases step with
  | add definition => rfl
  | root operation name => exact types_bindRoot schema operation name

theorem rootName?_after (schema : Schema) (step : Step) (operation : Operation) :
    (schema.after step).rootName? operation =
      (step.rootOf? operation).or (schema.rootName? operation) := by
  cases step with
  | add definition => cases operation <;> rfl
  | root bound name =>
    rw [after, rootName?_bindRoot, Step.rootOf?]
    split
    · rfl
    · rfl

theorem isRoot_eq_true_iff {key : String} :
    schema.isRoot key = true ↔ ∃ operation, schema.rootName? operation = some key := by
  rw [isRoot, List.any_eq_true]
  constructor
  · rintro ⟨operation, -, hname⟩
    exact ⟨operation, beq_iff_eq.mp hname⟩
  · rintro ⟨operation, hname⟩
    exact ⟨operation, Operation.mem_all operation, beq_iff_eq.mpr hname⟩

/-! ## Whole runs -/

theorem build_concat (steps : List Step) (step : Step) :
    build (steps ++ [step]) = (build steps).after step := by
  rw [build, List.foldl_append]
  rfl

theorem types_build (steps : List Step) : (build steps).types = Catalog.ofList (added steps) := by
  induction steps using List.reverseRecOn with
  | nil => rfl
  | append_singleton steps step ih =>
    have hadded : added (steps ++ [step]) = added steps ++ step.definition?.toList := by
      rw [added, added, List.filterMap_append]
      cases hstep : step.definition? <;> simp [hstep]
    rw [build_concat, types_after, ih, hadded]
    cases step.definition? with
    | none => rw [Option.toList_none, List.append_nil, Option.elim_none]
    | some definition => rw [Option.toList_some, Catalog.ofList_concat, Option.elim_some]

theorem rootName?_build (steps : List Step) (operation : Operation) :
    (build steps).rootName? operation = (boundTo operation steps).getLast? := by
  induction steps using List.reverseRecOn with
  | nil => cases operation <;> rfl
  | append_singleton steps step ih =>
    have hbound : boundTo operation (steps ++ [step]) =
        boundTo operation steps ++ (step.rootOf? operation).toList := by
      rw [boundTo, boundTo, List.filterMap_append]
      cases hstep : step.rootOf? operation <;> simp [hstep]
    rw [build_concat, rootName?_after, ih, hbound, List.getLast?_append]
    cases step.rootOf? operation <;> rfl

/-- Binding a root can wait, as long as no other one is bound to the operation meanwhile. -/
theorem foldl_after_bindRoot {middle : List Step} (hmiddle : boundTo operation middle = [])
    (schema : Schema) (name : String) :
    middle.foldl after (schema.bindRoot operation name) =
      (middle.foldl after schema).bindRoot operation name := by
  induction middle generalizing schema with
  | nil => rfl
  | cons step middle ih =>
    have hnone := List.filterMap_eq_nil_iff.mp hmiddle
    have hstep : step.rootOf? operation = none := hnone step List.mem_cons_self
    have hrest : boundTo operation middle = [] :=
      List.filterMap_eq_nil_iff.mpr fun later hlater =>
        hnone later (List.mem_cons_of_mem _ hlater)
    have hcomm : (schema.bindRoot operation name).after step =
        (schema.after step).bindRoot operation name := by
      apply ext_rootName?
      · rw [types_after, types_bindRoot, types_bindRoot, types_after]
      · intro asked
        rw [rootName?_after, rootName?_bindRoot, rootName?_bindRoot, rootName?_after]
        by_cases hasked : operation = asked
        · rw [if_pos hasked, if_pos hasked, ← hasked, hstep, Option.none_or]
        · rw [if_neg hasked, if_neg hasked]
    rw [List.foldl_cons, List.foldl_cons, hcomm]
    exact ih hrest _

theorem build_move_root {middle : List Step} (hmiddle : boundTo operation middle = [])
    (front back : List Step) (name : String) :
    build (front ++ .root operation name :: (middle ++ back)) =
      build (front ++ middle ++ .root operation name :: back) := by
  simp only [build, List.foldl_append, List.foldl_cons]
  exact congrArg (back.foldl after) (foldl_after_bindRoot hmiddle _ name)

theorem build_swap_types {front : List Step} {c d : TypeDefinition} (hdifferent : c.name ≠ d.name)
    (hthere : c.name ∈ (build front).types.names ∨ d.name ∈ (build front).types.names)
    (back : List Step) :
    build (front ++ .add c :: .add d :: back) = build (front ++ .add d :: .add c :: back) := by
  have hswap : ((build front).addType c).addType d = ((build front).addType d).addType c := by
    apply ext_rootName?
    · exact Catalog.insert_comm hdifferent hthere
    · intro operation
      cases operation <;> rfl
  simp only [build, List.foldl_append, List.foldl_cons]
  exact congrArg (back.foldl after) hswap

end Schema

/-! ## Documents -/

theorem Sdl.document_eq (schema : Schema) :
    Sdl.document schema =
      if Sdl.blocks schema = [] then ""
      else "\n\n".intercalate (Sdl.blocks schema) ++ "\n" := by
  rw [Sdl.document]
  split
  next hblocks => rw [if_pos hblocks]
  next hblocks => rw [if_neg hblocks]

namespace Schema

/-- The types of a run in the order of their first steps, each as its last step has it, that
a document shows: those of introspection and the scalars that every schema has are left out. -/
def shownTypes (steps : List Step) : List TypeDefinition :=
  ((added steps).map TypeDefinition.name).eraseDups.filterMap (fun key =>
    (added steps).findRev? fun d => d.name == key) |>.filter fun d =>
      !d.isIntrospection && !Sdl.isBuiltinScalar d

theorem visibleTypes_build (steps : List Step) :
    Sdl.visibleTypes (build steps) = shownTypes steps := by
  have hfilled := Catalog.filledWith_ofList (added steps)
  rw [Sdl.visibleTypes, types_build, hfilled.items, hfilled.order]
  rfl

/-- After any steps a schema has the types that were added, in the order in which their names
first came and each as it came last, and for each operation the root that was bound last.  So
roots may be bound earlier or later, and types of different names exchanged of which one has
its place already.  After each step the document shows the types in their order.  Bodies with
fields are filled in the same way. -/
theorem build_lastWins (steps : List Step) :
    (build steps).types.FilledWith (added steps) ∧
    (∀ key, (build steps).type? key = (added steps).findRev? fun d => d.name == key) ∧
    (∀ operation, (build steps).rootName? operation = (boundTo operation steps).getLast?) ∧
    (∀ key, (build steps).isRoot key = true ↔
      ∃ operation, (boundTo operation steps).getLast? = some key) ∧
    (∀ front, front <+: steps →
      Sdl.blocks (build front) =
        (Sdl.schemaBlock? (build front)).toList ++ (shownTypes front).map Sdl.definition ∧
      Sdl.document (build front) =
        if Sdl.blocks (build front) = [] then ""
        else "\n\n".intercalate (Sdl.blocks (build front)) ++ "\n") ∧
    (∀ operation front middle back name, boundTo operation middle = [] →
      build (front ++ .root operation name :: (middle ++ back)) =
        build (front ++ middle ++ .root operation name :: back)) ∧
    (∀ front back c d, c.name ≠ d.name →
      c.name ∈ (build front).types.names ∨ d.name ∈ (build front).types.names →
      build (front ++ .add c :: .add d :: back) = build (front ++ .add d :: .add c :: back)) ∧
    ∀ interfaces, ∀ make ∈ fieldBodies interfaces, ∀ fields : Catalog Field,
      (∀ added : List Field, ∃ filled : Catalog Field,
        added.foldl TypeBody.withField (make fields) = make filled ∧
          filled.FilledWith (fields.items ++ added)) ∧
      ∀ f g : Field, f.name ≠ g.name → f.name ∈ fields.names ∨ g.name ∈ fields.names →
        ((make fields).withField f).withField g = ((make fields).withField g).withField f := by
  have hroots := rootName?_build steps
  have hfilled : (build steps).types.FilledWith (added steps) := by
    rw [types_build]
    exact Catalog.filledWith_ofList _
  refine ⟨hfilled, hfilled.find?, hroots, ?_, ?_, ?_, ?_, ?_⟩
  · intro key
    rw [isRoot_eq_true_iff]
    simp only [hroots]
  · intro front _
    refine ⟨?_, Sdl.document_eq _⟩
    rw [Sdl.blocks, visibleTypes_build]
  · intro operation front middle back name hmiddle
    exact build_move_root hmiddle front back name
  · intro front back c d hdifferent hthere
    exact build_swap_types hdifferent hthere back
  · intro interfaces make hmake fields
    constructor
    · intro added
      exact ⟨_, foldl_withField hmake fields added, Catalog.filledWith_foldl_insert fields added⟩
    · intro f g hdifferent hthere
      have hswap := Catalog.insert_comm (c := fields) hdifferent hthere
      simp only [withField_of_mem_fieldBodies hmake, hswap]

/-- A run that binds a root before its type is there, takes a scalar for an enumeration and
binds another root in the end. -/
def revisedRun : List Step :=
  [.root .query "Root", .add { name := "Color", body := .scalar },
   .add { name := "Root", body := .object .empty [] },
   .add { name := "Color", body := .enumeration [{ name := "RED" }] }, .root .query "Entry"]

def cost : Field where
  name := "cost"
  type := .named "Int"

def price : Field where
  name := "price"
  type := .nonNull (.named "Int")

theorem build_lastWins_revisedRun :
    (build revisedRun).types.names = ["Color", "Root"] ∧
      ((build revisedRun).type? "Color").map TypeDefinition.kind = some .enumeration ∧
      (build revisedRun).types.size = 2 ∧
      (build revisedRun).rootName? .query = some "Entry" ∧
      (build revisedRun).isRoot "Root" = false ∧
      revisedRun.take 3 <+: revisedRun ∧
      Sdl.blocks (build (revisedRun.take 3)) =
        ["schema \x7b\n  query: Root\n\x7d", "scalar Color", "type Root"] ∧
      boundTo .query [.add { name := "Color", body := .scalar }] = [] ∧
      build revisedRun =
        build ([.add { name := "Color", body := .scalar }] ++ .root .query "Root" ::
          revisedRun.drop 2) ∧
      "Color" ≠ "Root" ∧ "Color" ∈ (build (revisedRun.take 2)).types.names ∧
      build revisedRun =
        build (revisedRun.take 2 ++ .add { name := "Color", body := .enumeration [{ name := "RED" }] } ::
          .add { name := "Root", body := .object .empty [] } :: [.root .query "Entry"]) ∧
      ((TypeBody.interface (.ofList [cost])).withField cost).withField price =
        ((TypeBody.interface (.ofList [cost])).withField price).withField cost := by
  obtain ⟨htypes, hfound, hroots, hroot, hdocuments, hmove, hswap, hfields⟩ :=
    build_lastWins revisedRun
  have hprefix : revisedRun.take 3 <+: revisedRun := List.take_prefix 3 revisedRun
  refine ⟨?_, ?_, ?_, ?_, ?_, hprefix, ?_, rfl, ?_, by decide, ?_, ?_, ?_⟩
  · exact htypes.order
  · rw [hfound]
    rfl
  · rw [htypes.size]
    rfl
  · exact hroots .query
  · rw [← Bool.not_eq_true, hroot]
    rintro ⟨operation, hbound⟩
    cases operation <;> exact absurd hbound (by decide)
  · exact (hdocuments _ hprefix).1
  · exact hmove .query [] [_] _ "Root" rfl
  · decide
  · refine (hswap (revisedRun.take 2) [.root .query "Entry"] _ _ ?_ ?_).symm
    all_goals decide
  · refine (hfields [] .interface (by simp [fieldBodies]) (.ofList [cost])).2 cost price ?_ ?_
    · decide
    · exact Or.inl (by decide)

end Schema

end SchemaBinding
