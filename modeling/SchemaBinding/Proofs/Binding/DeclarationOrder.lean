import Mathlib.Data.List.Nodup
import SchemaBinding.Proofs.Binding.Identifiers
import SchemaBinding.Proofs.Schema.Building
import SchemaBinding.Proofs.Text.ByteOrder

/-!
# Order of declarations

A binding declares each type that has a declaration once.  By kind, the types of
one kind stand together as the schema has them; by name, they stand as the bytes
of their names do.  So the order in which a schema was built does not show in a
binding by name, and in a binding by kind it shows only where types of one kind
were exchanged.
-/

namespace SchemaBinding

open scoped List

/-! ## Sorted lists -/

section Lists

variable {α κ : Type} {xs ys : List α}

theorem filter_append_filter_not {p : α → Bool} (h : xs.Pairwise fun x y => p y → p x) :
    xs.filter p ++ xs.filter (fun x => !p x) = xs := by
  induction xs with
  | nil => rfl
  | cons x xs ih =>
    obtain ⟨hfirst, hrest⟩ := List.pairwise_cons.mp h
    by_cases hx : p x
    · rw [List.filter_cons_of_pos hx, List.filter_cons_of_neg (by simpa using hx),
        List.cons_append, ih hrest]
    · have hnone : xs.filter p = [] :=
        List.filter_eq_nil_iff.mpr fun y hy hpy => hx (hfirst y hy hpy)
      have hall : xs.filter (fun y => !p y) = xs :=
        List.filter_eq_self.mpr fun y hy => by simpa using List.filter_eq_nil_iff.mp hnone y hy
      rw [List.filter_cons_of_neg hx, hnone, List.nil_append,
        List.filter_cons_of_pos (by simpa using hx), hall]

theorem filter_filter_ne_key [DecidableEq κ] {key : α → κ} {j k : κ} (hne : j ≠ k) :
    (xs.filter fun x => !decide (key x = j)).filter (fun x => key x = k) =
      xs.filter fun x => key x = k := by
  rw [List.filter_filter]
  refine List.filter_congr ?_
  intro x _
  by_cases hx : key x = k
  · simp [hx, hne.symm]
  · simp [hx]

/-- A list in the order of its keys is a list for each key, one behind the other. -/
theorem flatMap_filter_key [DecidableEq κ] (rank : κ → Nat) (key : α → κ) {keys : List κ}
    (hkeys : keys.Pairwise fun j k => rank j < rank k) (hall : ∀ x ∈ xs, key x ∈ keys)
    (hxs : xs.Pairwise fun x y => rank (key x) ≤ rank (key y)) :
    (keys.flatMap fun k => xs.filter fun x => key x = k) = xs := by
  induction keys generalizing xs with
  | nil =>
    have hnil : xs = [] := List.eq_nil_iff_forall_not_mem.mpr fun x hx => by simpa using hall x hx
    rw [hnil, List.flatMap_nil]
  | cons first keys ih =>
    obtain ⟨hfirst, hkeys⟩ := List.pairwise_cons.mp hkeys
    have hfront : xs.Pairwise fun x y => decide (key y = first) → decide (key x = first) := by
      refine hxs.imp_of_mem ?_
      intro x y hx _ hxy hy
      rw [decide_eq_true_eq] at hy ⊢
      rcases List.mem_cons.mp (hall x hx) with hkey | hkey
      · exact hkey
      · rw [hy] at hxy
        exact absurd (hfirst _ hkey) (Nat.not_lt_of_le hxy)
    have hlater : ∀ x ∈ xs.filter fun x => !decide (key x = first), key x ∈ keys := by
      intro x hx
      obtain ⟨hx, hkey⟩ := List.mem_filter.mp hx
      exact (List.mem_cons.mp (hall x hx)).resolve_left (by simpa using hkey)
    have hback : (keys.flatMap fun k => xs.filter fun x => key x = k) =
        xs.filter fun x => !decide (key x = first) := by
      rw [← ih hkeys hlater (hxs.filter _)]
      refine List.flatMap_congr ?_
      intro k hk
      have hne : first ≠ k := fun h => Nat.lt_irrefl _ (h ▸ hfirst k hk)
      exact (filter_filter_ne_key hne).symm
    rw [List.flatMap_cons, hback]
    exact filter_append_filter_not hfront

/-- Sorting keeps the order of items that it does not tell apart. -/
theorem filter_mergeSort {le : α → α → Bool}
    (trans : ∀ x y z, le x y = true → le y z = true → le x z = true)
    (total : ∀ x y, (le x y || le y x) = true) {p : α → Bool}
    (hp : ∀ x y, p x → p y → le x y) :
    (xs.mergeSort le).filter p = xs.filter p := by
  have hsorted : (xs.filter p).Pairwise fun x y => le x y = true := by
    refine List.Pairwise.imp_of_mem ?_ (List.pairwise_of_forall (R := fun _ _ => True) (by simp))
    intro x y hx hy _
    exact hp x y (List.mem_filter.mp hx).2 (List.mem_filter.mp hy).2
  have hsub : xs.filter p <+ xs.mergeSort le :=
    List.sublist_mergeSort trans total hsorted List.filter_sublist
  have hfiltered : xs.filter p <+ (xs.mergeSort le).filter p := by
    simpa only [List.filter_filter, Bool.and_self] using hsub.filter p
  have hlength : (xs.filter p).length = ((xs.mergeSort le).filter p).length :=
    ((List.mergeSort_perm xs le).filter p).length_eq.symm
  exact (hfiltered.eq_of_length hlength).symm

theorem pair_sublist_filter {p : α → Bool} {x y : α} (hx : p x) (hy : p y)
    (h : [x, y] <+ xs) : [x, y] <+ xs.filter p := by
  have hfiltered := h.filter p
  rwa [List.filter_cons_of_pos hx, List.filter_cons_of_pos hy, List.filter_nil] at hfiltered

/-- Lists of the same items in the same order are the same, if they have each item once. -/
theorem eq_of_same_order (hxs : xs.Nodup) (hys : ys.Nodup) (hmem : ∀ x, x ∈ xs ↔ x ∈ ys)
    (horder : ∀ x ∈ xs, ∀ y ∈ xs, [x, y] <+ xs → [x, y] <+ ys) : xs = ys := by
  classical
  have hplace : ys.Pairwise fun x y => ys.idxOf x < ys.idxOf y := by
    rw [List.pairwise_iff_getElem]
    intro i j hi hj hij
    rwa [hys.idxOf_getElem, hys.idxOf_getElem]
  have hsame : xs.Pairwise fun x y => ys.idxOf x < ys.idxOf y := by
    rw [List.pairwise_iff_forall_sublist]
    intro x y hxy
    have hpair := horder x (hxy.mem (by simp)) y (hxy.mem (by simp)) hxy
    exact List.pairwise_iff_forall_sublist.mp hplace hpair
  have hperm : xs.Perm ys := (List.perm_ext_iff_of_nodup hxs hys).mpr hmem
  refine hperm.eq_of_pairwise ?_ hsame hplace
  intro x y _ _ hxy hyx
  exact absurd hxy (Nat.lt_asymm hyx)

end Lists

theorem TypeKind.pairwise_rank_all : TypeKind.all.Pairwise fun j k => j.rank < k.rank := by
  decide

theorem TypeKind.mem_all (kind : TypeKind) : kind ∈ TypeKind.all := by
  cases kind <;> decide

/-- Two schemas of the same definitions and roots, whatever the order of the definitions. -/
structure Schema.Rearranged (schema other : Schema) : Prop where
  definitions : ∀ d, d ∈ schema.types.items ↔ d ∈ other.types.items
  roots : ∀ operation, schema.rootName? operation = other.rootName? operation

namespace Binding

variable {schema other : Schema}

theorem DeclarationOrder.precedes_trans (order : DeclarationOrder) (a b c : TypeDefinition)
    (hab : order.precedes a b = true) (hbc : order.precedes b c = true) :
    order.precedes a c = true := by
  cases order with
  | kind =>
    simp only [precedes, decide_eq_true_eq] at hab hbc ⊢
    exact Nat.le_trans hab hbc
  | name =>
    simp only [precedes, decide_eq_true_eq] at hab hbc ⊢
    exact String.le_trans hab hbc

theorem DeclarationOrder.precedes_total (order : DeclarationOrder) (a b : TypeDefinition) :
    (order.precedes a b || order.precedes b a) = true := by
  cases order with
  | kind => simpa [precedes] using Nat.le_total _ _
  | name => simpa [precedes] using String.le_total _ _

theorem pairwise_precedes_declaredTypes (schema : Schema) (order : DeclarationOrder) :
    (declaredTypes schema order).Pairwise fun c d => order.precedes c d = true :=
  List.pairwise_mergeSort order.precedes_trans order.precedes_total _

theorem nodup_declaredTypes (schema : Schema) (order : DeclarationOrder) :
    (declaredTypes schema order).Nodup :=
  (pairwise_name_ne_declaredTypes schema order).imp fun h => ne_of_apply_ne _ h

/-- By kind, the types are those of each kind as the schema has them. -/
theorem declaredTypes_kind (schema : Schema) :
    declaredTypes schema .kind = TypeKind.all.flatMap fun kind =>
      schema.types.items.filter fun d => d.kind = kind ∧ ¬ IsHidden schema d.name := by
  have hsorted : (declaredTypes schema .kind).Pairwise fun c d => c.kind.rank ≤ d.kind.rank :=
    (pairwise_precedes_declaredTypes schema .kind).imp fun h => of_decide_eq_true h
  rw [← flatMap_filter_key TypeKind.rank TypeDefinition.kind TypeKind.pairwise_rank_all
    (fun d _ => TypeKind.mem_all d.kind) hsorted]
  refine List.flatMap_congr ?_
  intro kind _
  have hstable : (declaredTypes schema .kind).filter (fun d => d.kind = kind) =
      (schema.types.items.filter (isDeclared schema)).filter fun d => d.kind = kind := by
    refine filter_mergeSort (DeclarationOrder.precedes_trans .kind)
      (DeclarationOrder.precedes_total .kind) ?_
    intro c d hc hd
    rw [decide_eq_true_eq] at hc hd
    simp [DeclarationOrder.precedes, hc, hd]
  rw [hstable, List.filter_filter]
  refine List.filter_congr ?_
  intro d _
  rw [Bool.eq_iff_iff, Bool.and_eq_true, isDeclared_eq_true_iff]
  simp

/-- By name, the bytes of the names ascend. -/
theorem pairwise_bytes_declaredTypes (schema : Schema) :
    (declaredTypes schema .name).Pairwise fun c d => Text.bytes c.name < Text.bytes d.name := by
  have hsorted := pairwise_precedes_declaredTypes schema .name
  refine (hsorted.and (pairwise_name_ne_declaredTypes schema .name)).imp ?_
  rintro c d ⟨hprecedes, hne⟩
  have hle : c.name ≤ d.name := of_decide_eq_true hprecedes
  rw [← Text.lt_iff_bytes_lt, ← String.not_le]
  intro hge
  exact hne (String.le_antisymm hle hge)

end Binding

/-! ## Rearranged schemas -/

namespace Schema.Rearranged

open Binding

variable {schema other : Schema}

theorem isHidden_iff (h : schema.Rearranged other) (name : String) :
    IsHidden schema name ↔ IsHidden other name := by
  rw [IsHidden, IsHidden, isRoot_eq_true_iff, isRoot_eq_true_iff]
  simp only [h.roots]

theorem mem_declaredTypes_iff (h : schema.Rearranged other) (order : DeclarationOrder)
    (d : TypeDefinition) :
    d ∈ declaredTypes schema order ↔ d ∈ declaredTypes other order := by
  rw [Binding.mem_declaredTypes_iff, Binding.mem_declaredTypes_iff, h.definitions,
    h.isHidden_iff]

theorem declaredTypes_name_eq (h : schema.Rearranged other) :
    declaredTypes schema .name = declaredTypes other .name := by
  have hperm : (declaredTypes schema .name).Perm (declaredTypes other .name) :=
    (List.perm_ext_iff_of_nodup (nodup_declaredTypes schema .name)
      (nodup_declaredTypes other .name)).mpr (h.mem_declaredTypes_iff .name)
  refine hperm.eq_of_pairwise ?_ (pairwise_bytes_declaredTypes schema)
    (pairwise_bytes_declaredTypes other)
  intro c d _ _ hcd hdc
  exact absurd hcd (List.lt_asymm hdc)

/-- A list of the types of a kind is the same, if the schemas have them in one order. -/
theorem declaredTypes_kind_eq (h : schema.Rearranged other)
    (horder : ∀ c ∈ schema.types.items, ∀ d ∈ schema.types.items, c.kind = d.kind →
      ([c, d] <+ schema.types.items ↔ [c, d] <+ other.types.items)) :
    declaredTypes schema .kind = declaredTypes other .kind := by
  have hnodup (s : Schema) : s.types.items.Nodup := List.Nodup.of_map _ s.types.distinct
  rw [declaredTypes_kind, declaredTypes_kind]
  refine List.flatMap_congr ?_
  intro kind _
  simp only [← h.isHidden_iff]
  refine eq_of_same_order ((hnodup schema).filter _) ((hnodup other).filter _) ?_ ?_
  · intro d
    rw [List.mem_filter, List.mem_filter, h.definitions]
  · intro c hc d hd hpair
    obtain ⟨hcmem, hctest⟩ := List.mem_filter.mp hc
    obtain ⟨hdmem, hdtest⟩ := List.mem_filter.mp hd
    have hkind : c.kind = d.kind :=
      (of_decide_eq_true hctest).1.trans (of_decide_eq_true hdtest).1.symm
    have hother : [c, d] <+ other.types.items :=
      (horder c hcmem d hdmem hkind).mp (hpair.trans List.filter_sublist)
    exact pair_sublist_filter hctest hdtest hother

end Schema.Rearranged

namespace Binding

/-- Whatever the order, each type that is neither a root nor one of introspection is declared
once, and no other.  By kind, the six kinds follow each other, each as the schema has it; by
name, the bytes of the names ascend.  Where two runs build the same definitions and roots,
the declarations by name are the same, and those by kind are too if the runs agree about the
order of the types of each kind. -/
theorem declarations_ordered (schema : Schema) :
    (∀ order d, (declaredTypes schema order).count d =
      if d ∈ schema.types.items ∧ ¬ IsHidden schema d.name then 1 else 0) ∧
    (declaredTypes schema .kind =
      [TypeKind.enumeration, .inputObject, .interface, .object, .scalar, .union].flatMap
        fun kind => schema.types.items.filter fun d =>
          d.kind = kind ∧ ¬ IsHidden schema d.name) ∧
    ((declaredTypes schema .name).Pairwise fun c d =>
      Text.bytes c.name < Text.bytes d.name) ∧
    ∀ steps others, (Schema.build steps).Rearranged (Schema.build others) →
      ∀ options,
        (options.order = .name →
          declarations options (Schema.build steps) =
            declarations options (Schema.build others)) ∧
        (options.order = .kind →
          (∀ c ∈ (Schema.build steps).types.items, ∀ d ∈ (Schema.build steps).types.items,
            c.kind = d.kind →
            ([c, d] <+ (Schema.build steps).types.items ↔
              [c, d] <+ (Schema.build others).types.items)) →
          declarations options (Schema.build steps) =
            declarations options (Schema.build others)) := by
  refine ⟨?_, declaredTypes_kind schema, pairwise_bytes_declaredTypes schema, ?_⟩
  · intro order d
    rw [(nodup_declaredTypes schema order).count]
    exact if_congr mem_declaredTypes_iff rfl rfl
  · intro steps others hsame options
    constructor
    · intro hname
      rw [declarations, declarations, hname, hsame.declaredTypes_name_eq]
    · intro hkind horder
      rw [declarations, declarations, hkind, hsame.declaredTypes_kind_eq horder]

/-- A run that adds the types of a shelf as they come to mind. -/
def shelfRun : List Schema.Step :=
  [.add { name := "Book", body := .object .empty [] },
   .add { name := "Color", body := .enumeration [{ name := "RED" }] },
   .add { name := "Author", body := .object .empty [] }, .root .query "Query",
   .add { name := "__Type", body := .scalar }, .add { name := "Query", body := .object .empty [] }]

/-- A run that comes to the same shelf in another order and after second thoughts. -/
def tidyRun : List Schema.Step :=
  [.root .query "Shelf", .add { name := "__Type", body := .scalar },
   .add { name := "Color", body := .scalar }, .add { name := "Book", body := .object .empty [] },
   .add { name := "Author", body := .object .empty [] },
   .add { name := "Query", body := .object .empty [] }, .root .query "Query",
   .add { name := "Color", body := .enumeration [{ name := "RED" }] }]

theorem declarations_ordered_shelfRun :
    (Schema.build shelfRun).Rearranged (Schema.build tidyRun) ∧
      (Schema.build shelfRun).types.items ≠ (Schema.build tidyRun).types.items ∧
      declarations { order := .name } (Schema.build shelfRun) =
        declarations { order := .name } (Schema.build tidyRun) ∧
      declarations { order := .kind } (Schema.build shelfRun) =
        declarations { order := .kind } (Schema.build tidyRun) ∧
      (declaredTypes (Schema.build shelfRun) .kind).map TypeDefinition.name =
        ["Color", "Book", "Author"] := by
  obtain ⟨-, hkind, -, hruns⟩ := declarations_ordered (Schema.build shelfRun)
  have hperm : (Schema.build shelfRun).types.items.Perm (Schema.build tidyRun).types.items := by
    decide
  have hsame : (Schema.build shelfRun).Rearranged (Schema.build tidyRun) := by
    constructor
    · intro d
      exact hperm.mem_iff
    · intro operation
      cases operation <;> rfl
  refine ⟨hsame, by decide, ?_, ?_, ?_⟩
  · exact (hruns _ _ hsame _).1 rfl
  · exact (hruns _ _ hsame _).2 rfl (by decide)
  · rw [hkind]
    decide

end Binding

end SchemaBinding
