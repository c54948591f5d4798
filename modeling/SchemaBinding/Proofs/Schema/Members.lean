import SchemaBinding.Catalog

/-!
# Members of catalogs

An item of a catalog is found under its own name, and what is found under a
name is an item of that name.
-/

namespace SchemaBinding

variable {α : Type} [Named α]

namespace Catalog

theorem mem_of_find?_eq_some
    {c : Catalog α} {key : String} {x : α} (h : c.find? key = some x) :
    x ∈ c.items ∧ Named.name x = key := by
  refine ⟨List.mem_of_find?_eq_some h, ?_⟩
  simpa using List.find?_some h

/-- No other item stands in the way, since no two items share a name. -/
theorem find?_name_of_mem
    {c : Catalog α} {x : α} (h : x ∈ c.items) : c.find? (Named.name x) = some x := by
  obtain ⟨items, distinct⟩ := c
  rw [find?]
  induction items with
  | nil => cases h
  | cons y ys ih =>
    rw [List.map_cons, List.nodup_cons] at distinct
    rcases List.mem_cons.mp h with rfl | hmem
    · simp
    · have hne : Named.name y ≠ Named.name x := fun heq =>
        distinct.1 (heq ▸ List.mem_map_of_mem hmem)
      rw [List.find?_cons_of_neg (by simpa using hne)]
      exact ih distinct.2 hmem

theorem isNone_find?_iff {c : Catalog α} {key : String} :
    (c.find? key).isNone ↔ key ∉ c.names := by
  simp [find?, names]

end Catalog

end SchemaBinding
