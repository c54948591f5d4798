import Mathlib.Data.List.Perm.Basic
import SchemaBinding.Proofs.Json.SortedEntries
import SchemaBinding.Proofs.Results
import SchemaBinding.Settings

/-!
# What settings are made from

A document sets what its sections say and leaves the rest as usual.  Its table
of scalars is a table whatever the order of its entries: where their names
differ, the settings do not tell one order from another.
-/

namespace SchemaBinding.Settings

open Toml (Entries)

variable {settings : Settings} {entries others : Entries}

/-! ## Paths -/

/-- The path that a document gives to the first setting of a section, if it gives one. -/
def writtenPath? (entries : Entries) (name key : String) : Option Path :=
  match slot? name (entries.lookup name) key 0 with
  | .ok (some (.string text)) => some ⟨text⟩
  | _ => none

theorem getD_writtenPath? {name key fallback text : String} {value? : Option Toml.Value}
    (hslot : slot? name (entries.lookup name) key 0 = .ok value?)
    (htext : textOr key fallback value? = .ok text) :
    (writtenPath? entries name key).getD ⟨fallback⟩ = ⟨text⟩ := by
  rw [writtenPath?, hslot]
  cases value? with
  | none =>
    cases htext
    rfl
  | some value =>
    cases value with
    | string written =>
      cases htext
      rfl
    | _ => cases htext

/-- The paths of settings are those of the document, or the usual ones. -/
theorem paths_of_ofEntries (h : ofEntries entries = .ok settings) :
    settings.schema = (writtenPath? entries "input" "schema").getD ⟨"schema.json"⟩ ∧
      settings.output = (writtenPath? entries "output" "path").getD ⟨"./generated/binding.ts"⟩ := by
  rw [ofEntries] at h
  obtain ⟨_, hschemaSlot, h⟩ := bind_eq_ok h
  obtain ⟨_, hschema, h⟩ := bind_eq_ok h
  obtain ⟨_, houtputSlot, h⟩ := bind_eq_ok h
  obtain ⟨_, houtput, h⟩ := bind_eq_ok h
  rw [getD_writtenPath? hschemaSlot hschema, getD_writtenPath? houtputSlot houtput]
  -- The options are read behind the paths and do not touch them.
  iterate 9 obtain ⟨_, -, h⟩ := bind_eq_ok h
  cases h
  exact ⟨rfl, rfl⟩

/-! ## Scalars -/

theorem scalarEntries_eq_ok_iff {entries : Entries} {texts : List (String × String)} :
    scalarEntries entries = .ok texts ↔
      List.Forall₂ (fun entry text => entry = (text.1, .string text.2)) entries texts := by
  induction entries generalizing texts with
  | nil =>
    rw [scalarEntries, List.forall₂_nil_left_iff]
    exact ⟨fun h => (Except.ok.inj h).symm, fun h => congrArg _ h.symm⟩
  | cons entry entries ih =>
    obtain ⟨name, value⟩ := entry
    rw [List.forall₂_cons_left_iff]
    constructor
    · intro h
      obtain ⟨type, htype, h⟩ := bind_eq_ok h
      obtain ⟨rest, hrest, h⟩ := bind_eq_ok h
      cases h
      refine ⟨(name, type), rest, ?_, ih.mp hrest, rfl⟩
      cases value with
      | string text =>
        cases htype
        rfl
      | _ => cases htype
    · rintro ⟨text, rest, heq, hrest, rfl⟩
      cases heq
      rw [scalarEntries, ih.mpr hrest]
      rfl

/-- Entries in another order are of the same types, and are the same table. -/
theorem scalarsOf_eq_ok_of_perm {entries others : Entries} {texts : List (String × String)}
    (hperm : entries.Perm others) (hnodup : (entries.map Prod.fst).Nodup)
    (h : scalarsOf (some (.table entries)) = .ok texts) :
    scalarsOf (some (.table others)) = .ok texts := by
  obtain ⟨found, hfound, h⟩ := bind_eq_ok h
  obtain rfl := Except.ok.inj h
  have htexts := scalarEntries_eq_ok_iff.mp hfound
  obtain ⟨moved, hmoved, hpermuted⟩ := List.perm_comp_forall₂ hperm.symm htexts
  have hnames : entries.map Prod.fst = found.map Prod.fst := by
    rw [← List.forall₂_eq_eq_eq, List.forall₂_map_left_iff, List.forall₂_map_right_iff]
    exact htexts.imp fun _ _ heq => by rw [heq]
  rw [hnames] at hnodup
  rw [scalarsOf, scalarEntries_eq_ok_iff.mpr hmoved, KeyOrder.sort_eq_of_perm hpermuted.symm hnodup]
  rfl

theorem toOption_scalarsOf_of_perm {entries others : Entries} (hperm : entries.Perm others)
    (hnodup : (entries.map Prod.fst).Nodup) :
    (scalarsOf (some (.table entries))).toOption =
      (scalarsOf (some (.table others))).toOption := by
  have hothers : (others.map Prod.fst).Nodup := (hperm.map Prod.fst).nodup_iff.mp hnodup
  cases hfound : scalarsOf (some (.table entries)) with
  | ok texts => rw [scalarsOf_eq_ok_of_perm hperm hnodup hfound]
  | error fault =>
    cases hmoved : scalarsOf (some (.table others)) with
    | error other => rfl
    | ok texts =>
      rw [scalarsOf_eq_ok_of_perm hperm.symm hothers hmoved] at hfound
      cases hfound

/-- The settings of a document are those of its sections. -/
theorem toOption_ofEntries_congr {entries others : Entries}
    (hsections : ∀ name, name ≠ "scalars" → entries.lookup name = others.lookup name)
    (hscalars : (scalarsOf (entries.lookup "scalars")).toOption =
      (scalarsOf (others.lookup "scalars")).toOption) :
    (ofEntries entries).toOption = (ofEntries others).toOption := by
  have hinput := hsections "input" (by decide)
  have houtput := hsections "output" (by decide)
  have hgenerator := hsections "generator" (by decide)
  simp only [ofEntries, hinput, houtput, hgenerator, toOption_bind, hscalars]

end SchemaBinding.Settings
