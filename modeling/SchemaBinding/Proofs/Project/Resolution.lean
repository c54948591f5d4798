import SchemaBinding.Proofs.Project.Runs
import SchemaBinding.Proofs.Project.Settings
import SchemaBinding.Proofs.Toml.Keyed

/-!
# Settings key by key

Where the sections of a document are tables, each setting is found under a key
of its own, and nothing else in the document counts for it.  The settings can be
made as soon as each of these keys has a value of its type or none at all.
-/

namespace SchemaBinding

namespace Toml

/-- The entries of a table of a document; none where there is no such table. -/
def tableAt (entries : Entries) (name : String) : Entries :=
  match entries.lookup name with
  | some (.table inner) => inner
  | _ => []

/-- The value under a key of a table of a document. -/
def valueAt? (entries : Entries) (table key : String) : Option Value :=
  (tableAt entries table).lookup key

def Value.isTable : Value → Bool
  | .table _ => true
  | _ => false

/-- The text that a value is. -/
def Value.text? : Value → Option String
  | .string text => some text
  | _ => none

/-- The truth value that a value is. -/
def Value.flag? : Value → Option Bool
  | .boolean flag => some flag
  | _ => none

def textAt? (entries : Entries) (table key : String) : Option String :=
  (valueAt? entries table key).bind Value.text?

def flagAt? (entries : Entries) (table key : String) : Option Bool :=
  (valueAt? entries table key).bind Value.flag?

/-- The entries of a table that have texts. -/
def textsOf (entries : Entries) : List (String × String) :=
  entries.filterMap fun entry => entry.2.text?.map (entry.1, ·)

theorem map_string_textsOf {entries : Entries}
    (h : ∀ entry ∈ entries, entry.2.text?.isSome = true) :
    ((textsOf entries).map fun text => (text.1, Value.string text.2)) = entries := by
  induction entries with
  | nil => rfl
  | cons entry entries ih =>
    obtain ⟨hentry, hentries⟩ := List.forall_mem_cons.mp h
    obtain ⟨name, value⟩ := entry
    cases value with
    | string text => exact congrArg ((name, Value.string text) :: ·) (ih hentries)
    | _ => cases hentry

/-- A table of a document that can be read has each of its keys once. -/
theorem nodup_tableAt {entries : Entries} (h : Entries.Keyed entries) (name : String) :
    ((tableAt entries name).map Prod.fst).Nodup := by
  rw [tableAt]
  split
  next inner hfound =>
    have hinner := h.value _ (mem_of_lookup_eq_some hfound)
    exact (Entries.Keyed.of_table hinner).nodup
  next => exact List.nodup_nil

end Toml

namespace Settings

open Toml (Value Entries valueAt? textAt? flagAt? tableAt)

variable {settings : Settings} {entries : Entries}

/-! ## Types -/

/-- The tables that settings are looked up in. -/
def sectionNames : List String :=
  ["input", "output", "generator", "scalars"]

/-- Where settings that are texts are found: their tables and keys. -/
def textKeys : List (String × String) :=
  [("input", "schema"), ("output", "path"), ("generator", "declaration_order"),
    ("generator", "binding_module")]

/-- Where settings that are truth values are found. -/
def flagKeys : List (String × String) :=
  [("generator", "generate_docs"), ("generator", "inline_builtin_scalars")]

/-- As far as the sections are there, they are tables. -/
def SectionsAreTables (entries : Entries) : Prop :=
  ∀ name ∈ sectionNames, ∀ value ∈ entries.lookup name, value.isTable = true

/-- As far as the keys of settings are there, they have values of their types, and all scalars
have texts. -/
structure WellTyped (entries : Entries) : Prop where
  texts : ∀ place ∈ textKeys, ∀ value ∈ valueAt? entries place.1 place.2, value.text?.isSome = true
  flags : ∀ place ∈ flagKeys, ∀ value ∈ valueAt? entries place.1 place.2, value.flag?.isSome = true
  scalars : ∀ entry ∈ tableAt entries "scalars", entry.2.text?.isSome = true

instance : DecidablePred SectionsAreTables := fun entries =>
  inferInstanceAs (Decidable (∀ name ∈ sectionNames, ∀ value ∈ entries.lookup name,
    value.isTable = true))

instance : DecidablePred WellTyped := fun entries =>
  decidable_of_iff
    ((∀ place ∈ textKeys, ∀ value ∈ valueAt? entries place.1 place.2, value.text?.isSome = true) ∧
      (∀ place ∈ flagKeys, ∀ value ∈ valueAt? entries place.1 place.2, value.flag?.isSome = true) ∧
      ∀ entry ∈ tableAt entries "scalars", entry.2.text?.isSome = true)
    ⟨fun ⟨htexts, hflags, hscalars⟩ => ⟨htexts, hflags, hscalars⟩,
      fun h => ⟨h.texts, h.flags, h.scalars⟩⟩

/-! ## Values -/

theorem slot?_eq_valueAt? (h : SectionsAreTables entries) {name : String}
    (hname : name ∈ sectionNames) (key : String) (place : Nat) :
    slot? name (entries.lookup name) key place = .ok (valueAt? entries name key) := by
  have htable := h name hname
  rw [valueAt?, tableAt]
  cases hfound : entries.lookup name with
  | none => rfl
  | some value =>
    have hvalue := htable value hfound
    cases value with
    | table inner => rfl
    | _ => cases hvalue

/-- What a value is as one of a type, or `fallback` where there is no value. -/
def valueOr {α : Type} (as? : Value → Option α) (expected key : String) (fallback : α) :
    Option Value → Except Toml.Fault α
  | none => .ok fallback
  | some value =>
    match as? value with
    | some found => .ok found
    | none => .error (.wrongType key expected)

theorem textOr_eq_valueOr (key fallback : String) (value? : Option Value) :
    textOr key fallback value? = valueOr Value.text? "a string" key fallback value? := by
  cases value? with
  | none => rfl
  | some value => cases value <;> rfl

theorem flagOr_eq_valueOr (key : String) (fallback : Bool) (value? : Option Value) :
    flagOr key fallback value? = valueOr Value.flag? "a boolean" key fallback value? := by
  cases value? with
  | none => rfl
  | some value => cases value <;> rfl

theorem valueOr_eq_ok_iff {α : Type} {as? : Value → Option α} {expected key : String}
    {fallback found : α} {value? : Option Value} :
    valueOr as? expected key fallback value? = .ok found ↔
      (∀ value ∈ value?, (as? value).isSome = true) ∧
        found = (value?.bind as?).getD fallback := by
  cases value? with
  | none => exact ⟨fun h => ⟨nofun, (Except.ok.inj h).symm⟩, fun h => congrArg _ h.2.symm⟩
  | some value =>
    rw [valueOr, Option.bind_some]
    cases hvalue : as? value with
    | none => simp [hvalue]
    | some written => simp [hvalue, eq_comm (a := written)]

/-! ## Scalars -/

theorem scalarEntries_eq_ok_iff_map {texts : List (String × String)} :
    scalarEntries entries = .ok texts ↔
      entries = texts.map fun text => (text.1, .string text.2) := by
  rw [scalarEntries_eq_ok_iff, ← List.forall₂_map_right_iff (R := Eq), List.forall₂_eq_eq_eq]

theorem scalarEntries_of_texts (h : ∀ entry ∈ entries, entry.2.text?.isSome = true) :
    scalarEntries entries = .ok (Toml.textsOf entries) :=
  scalarEntries_eq_ok_iff_map.mpr (Toml.map_string_textsOf h).symm

theorem texts_of_scalarEntries {texts : List (String × String)}
    (h : scalarEntries entries = .ok texts) : ∀ entry ∈ entries, entry.2.text?.isSome = true := by
  rw [scalarEntries_eq_ok_iff_map.mp h]
  exact List.forall_mem_map.mpr fun _ _ => rfl

theorem scalarsOf_eq (h : SectionsAreTables entries) :
    scalarsOf (entries.lookup "scalars") =
      (scalarEntries (tableAt entries "scalars")).map KeyOrder.sort := by
  have htable := h "scalars" (by decide)
  rw [tableAt]
  cases hfound : entries.lookup "scalars" with
  | none => rfl
  | some value =>
    have hvalue := htable value hfound
    cases value with
    | table inner => cases hinner : scalarEntries inner <;> simp [scalarsOf, hinner, Except.map]
    | _ => cases hvalue

/-! ## Settings -/

/-- The settings of a run: the paths of its command line where it has them, then what the
document has under the key of each setting, and else the usual value. -/
def resolve (schema output : Option Path) (entries : Entries) : Settings where
  schema := schema.getD ⟨(textAt? entries "input" "schema").getD "schema.json"⟩
  output := output.getD ⟨(textAt? entries "output" "path").getD "./generated/binding.ts"⟩
  docs := (flagAt? entries "generator" "generate_docs").getD true
  inlineScalars := (flagAt? entries "generator" "inline_builtin_scalars").getD true
  order := (textAt? entries "generator" "declaration_order").getD "kind"
  bindingModule := (textAt? entries "generator" "binding_module").getD "graphql-binding"
  scalars := KeyOrder.sort (Toml.textsOf (tableAt entries "scalars"))

/-- The text under a key of a table, or `fallback` where there is no value. -/
def textUnder (entries : Entries) (table key fallback : String) : Except Toml.Fault String :=
  valueOr Value.text? "a string" key fallback (valueAt? entries table key)

/-- The truth value under a key of a table, or `fallback` where there is no value. -/
def flagUnder (entries : Entries) (table key : String) (fallback : Bool) :
    Except Toml.Fault Bool :=
  valueOr Value.flag? "a boolean" key fallback (valueAt? entries table key)

/-- Where the sections are tables, each setting is read from its own key. -/
theorem ofEntries_eq (h : SectionsAreTables entries) :
    ofEntries entries = do
      let schema ← textUnder entries "input" "schema" "schema.json"
      let output ← textUnder entries "output" "path" "./generated/binding.ts"
      let docs ← flagUnder entries "generator" "generate_docs" true
      let inlineScalars ← flagUnder entries "generator" "inline_builtin_scalars" true
      let order ← textUnder entries "generator" "declaration_order" "kind"
      let bindingModule ← textUnder entries "generator" "binding_module" "graphql-binding"
      let texts ← scalarEntries (tableAt entries "scalars")
      return ⟨⟨schema⟩, ⟨output⟩, docs, inlineScalars, order, bindingModule,
        KeyOrder.sort texts⟩ := by
  have hinput : "input" ∈ sectionNames := by decide
  have houtput : "output" ∈ sectionNames := by decide
  have hgenerator : "generator" ∈ sectionNames := by decide
  simp only [ofEntries, slot?_eq_valueAt? h hinput, slot?_eq_valueAt? h houtput,
    slot?_eq_valueAt? h hgenerator, scalarsOf_eq h, textOr_eq_valueOr, flagOr_eq_valueOr]
  cases scalarEntries (tableAt entries "scalars") <;> rfl

theorem ofEntries_of_wellTyped (htables : SectionsAreTables entries) (h : WellTyped entries) :
    ofEntries entries = .ok (resolve none none entries) := by
  have htext {table key : String} (fallback : String) (hplace : (table, key) ∈ textKeys) :
      textUnder entries table key fallback = .ok ((textAt? entries table key).getD fallback) :=
    valueOr_eq_ok_iff.mpr ⟨h.texts _ hplace, rfl⟩
  have hflag {table key : String} (fallback : Bool) (hplace : (table, key) ∈ flagKeys) :
      flagUnder entries table key fallback = .ok ((flagAt? entries table key).getD fallback) :=
    valueOr_eq_ok_iff.mpr ⟨h.flags _ hplace, rfl⟩
  rw [ofEntries_eq htables, htext _ (by decide), htext _ (by decide), hflag _ (by decide),
    hflag _ (by decide), htext _ (by decide), htext _ (by decide),
    scalarEntries_of_texts h.scalars]
  rfl

theorem wellTyped_of_ofEntries (htables : SectionsAreTables entries)
    (h : ofEntries entries = .ok settings) : WellTyped entries := by
  rw [ofEntries_eq htables] at h
  obtain ⟨_, hschema, h⟩ := bind_eq_ok h
  obtain ⟨_, houtput, h⟩ := bind_eq_ok h
  obtain ⟨_, hdocs, h⟩ := bind_eq_ok h
  obtain ⟨_, hinline, h⟩ := bind_eq_ok h
  obtain ⟨_, horder, h⟩ := bind_eq_ok h
  obtain ⟨_, hmodule, h⟩ := bind_eq_ok h
  obtain ⟨_, hscalars, -⟩ := bind_eq_ok h
  refine ⟨?_, ?_, texts_of_scalarEntries hscalars⟩
  · simp only [textKeys, List.forall_mem_cons]
    exact ⟨(valueOr_eq_ok_iff.mp hschema).1, (valueOr_eq_ok_iff.mp houtput).1,
      (valueOr_eq_ok_iff.mp horder).1, (valueOr_eq_ok_iff.mp hmodule).1, nofun⟩
  · simp only [flagKeys, List.forall_mem_cons]
    exact ⟨(valueOr_eq_ok_iff.mp hdocs).1, (valueOr_eq_ok_iff.mp hinline).1, nofun⟩

/-- The settings can be made just where each key that is there has its type. -/
theorem ofEntries_eq_ok_iff (htables : SectionsAreTables entries) :
    ofEntries entries = .ok settings ↔
      WellTyped entries ∧ settings = resolve none none entries := by
  constructor
  · intro h
    have htyped := wellTyped_of_ofEntries htables h
    rw [ofEntries_of_wellTyped htables htyped] at h
    exact ⟨htyped, (Except.ok.inj h).symm⟩
  · rintro ⟨htyped, rfl⟩
    exact ofEntries_of_wellTyped htables htyped

/-! ## Options -/

/-- The order of declarations is one of the two that there are. -/
def HasKnownOrder (settings : Settings) : Prop :=
  settings.order = "kind" ∨ settings.order = "name"

/-- What is told where the order of declarations is unknown. -/
def unknownOrder (name : String) : Failure :=
  .settings (.invalidValue "generator.declaration_order"
    ("expected \"kind\" or \"name\", found \"" ++ name ++ "\""))

/-- The options take the settings over, and the table of scalars of the document with them,
entry for entry. -/
structure CarriedOver (entries : Entries) (settings : Settings) (options : Binding.Options) :
    Prop where
  docs : options.docs = settings.docs
  inlineScalars : options.inlineScalars = settings.inlineScalars
  order : settings.order = "kind" ∧ options.order = .kind ∨
    settings.order = "name" ∧ options.order = .name
  bindingModule : options.bindingModule = settings.bindingModule
  scalars : (options.scalars.entries.map fun entry => (entry.1, Value.string entry.2)).Perm
    (tableAt entries "scalars")
  configured : ∀ name, (options.scalars.configured? name).map Value.string =
    valueAt? entries "scalars" name

theorem orderOf?_eq_some_iff {name : String} {order : Binding.DeclarationOrder} :
    orderOf? name = some order ↔ name = "kind" ∧ order = .kind ∨ name = "name" ∧ order = .name := by
  rw [orderOf?]
  split
  next hkind => simp [hkind, eq_comm]
  split
  next hname => simp [hname, eq_comm]
  next hkind hname => simp [hkind, hname]

theorem options_of_unknown (h : ¬ settings.HasKnownOrder) :
    settings.options = .error (unknownOrder settings.order) := by
  obtain ⟨hkind, hname⟩ := not_or.mp h
  have hnone : orderOf? settings.order = none := by rw [orderOf?, if_neg hkind, if_neg hname]
  rw [options, options?, hnone]
  rfl

theorem exists_options_of_known (h : settings.HasKnownOrder) :
    ∃ options, settings.options = .ok options := by
  have hsome : ∃ order, orderOf? settings.order = some order := by
    rcases h with hkind | hname
    · exact ⟨_, orderOf?_eq_some_iff.mpr (Or.inl ⟨hkind, rfl⟩)⟩
    · exact ⟨_, orderOf?_eq_some_iff.mpr (Or.inr ⟨hname, rfl⟩)⟩
  obtain ⟨order, horder⟩ := hsome
  exact ⟨_, options_eq_ok_iff.mpr (by rw [options?, horder]; rfl)⟩

theorem carriedOver_of_options {schema output : Option Path} {options : Binding.Options}
    (hkeyed : Entries.Keyed entries) (htyped : WellTyped entries)
    (h : (resolve schema output entries).options = .ok options) :
    CarriedOver entries (resolve schema output entries) options := by
  obtain ⟨order, horder, rfl⟩ := Option.map_eq_some_iff.mp (options_eq_ok_iff.mp h)
  have htexts := Toml.map_string_textsOf htyped.scalars
  have hnodup : ((Toml.textsOf (tableAt entries "scalars")).map Prod.fst).Nodup := by
    have htable := Toml.nodup_tableAt hkeyed "scalars"
    rw [← htexts, List.map_map] at htable
    exact htable
  have hperm : (KeyOrder.sort (Toml.textsOf (tableAt entries "scalars"))).reverse.Perm
      (Toml.textsOf (tableAt entries "scalars")) :=
    (List.reverse_perm _).trans (KeyOrder.sort_perm hnodup)
  refine ⟨rfl, rfl, orderOf?_eq_some_iff.mp horder, rfl, ?_, fun name => ?_⟩
  · exact (hperm.map _).trans (.of_eq htexts)
  · have hlookup := lookup_eq_of_perm hperm.symm hnodup name
    rw [valueAt?, ← htexts, lookup_map, hlookup]
    rfl

/-! ## Configurations -/

variable {path? : Option Path} {tree : Files.Tree}

theorem keyed_of_configured (h : Configured path? tree entries) : Entries.Keyed entries := by
  cases h with
  | missing => exact ⟨List.nodup_nil, nofun⟩
  | read hread hentries husable => exact .of_table (Toml.keyed_of_read hentries)

/-- What is found in a configuration is what its entries come to. -/
theorem inTree_of_configured (h : Configured path? tree entries) :
    inTree path? tree = (ofEntries entries).mapError fun fault =>
      .settings (.invalidDocument (path?.getD usualConfiguration) fault.message) := by
  rw [inTree]
  cases h with
  | missing hpath habsent =>
    subst hpath
    rw [Option.getD_none, habsent, if_neg Bool.false_ne_true]
    rfl
  | @read text _ hread hentries husable =>
    have htext : ofText text = ofEntries entries := by
      rw [ofText, hentries]
      dsimp only [bind, Except.bind]
      rw [husable]
    rw [if_pos (Files.Tree.isPresent_of_readText hread), foundAt, mapError_eq_ok_iff.mpr hread,
      ← htext]
    rfl

end Settings

end SchemaBinding
