import Mathlib.Data.List.Forall2
import Mathlib.Data.List.Induction
import SchemaBinding.Proofs.Schema.Members

/-!
# Catalogs filled from lists

A catalog that is filled from a list keeps the names in the order in which they
first came, each of them once, and under each name the item that came last.
Where the list was made from entries one by one, the same can be said of the
entries: each name is that of an entry, and its item was made from the last
entry of the name.
-/

namespace SchemaBinding

open Named (name)

variable {α ε : Type} [Named α]

/-! ## Filling -/

theorem upsert_of_not_mem
    {x : α} {items : List α} (h : name x ∉ items.map name) : upsert x items = items ++ [x] := by
  induction items with
  | nil => rfl
  | cons y ys ih =>
    have hother : name y ≠ name x := fun heq => h (by simp [heq])
    have hrest : name x ∉ ys.map name := fun hmem => h (List.mem_cons_of_mem _ hmem)
    rw [upsert, if_neg hother, ih hrest, List.cons_append]

theorem find?_upsert (x : α) (items : List α) (key : String) :
    (upsert x items).find? (fun y => name y == key) =
      if name x = key then some x else items.find? fun y => name y == key := by
  induction items with
  | nil => by_cases hkey : name x = key <;> simp [upsert, hkey]
  | cons y ys ih =>
    by_cases hsame : name y = name x
    · rw [upsert, if_pos hsame]
      by_cases hkey : name x = key
      · simp [hkey]
      · have hother : name y ≠ key := hsame ▸ hkey
        simp [hkey, hother]
    · rw [upsert, if_neg hsame]
      by_cases hkey : name y = key
      · have hother : name x ≠ key := fun heq => hsame (hkey.trans heq.symm)
        simp [hkey, hother]
      · rw [List.find?_cons_of_neg (by simpa using hkey), ih,
          List.find?_cons_of_neg (by simpa using hkey)]

namespace Catalog

theorem ofList_concat (xs : List α) (x : α) : ofList (xs ++ [x]) = (ofList xs).insert x := by
  rw [ofList, List.foldl_append]
  rfl

theorem names_insert (c : Catalog α) (x : α) :
    (c.insert x).names = if name x ∈ c.names then c.names else c.names ++ [name x] :=
  map_name_upsert x c.items

/-- The names stand in the order in which they first came. -/
theorem names_ofList (xs : List α) : (ofList xs).names = (xs.map name).eraseDups := by
  induction xs using List.reverseRecOn with
  | nil => rfl
  | append_singleton xs x ih =>
    rw [ofList_concat, names_insert, ih, List.map_append, List.map_singleton,
      List.eraseDups_append]
    generalize xs.map name = earlier
    by_cases hmem : name x ∈ earlier
    · have hnone : [name x].removeAll earlier = [] := by simp [List.removeAll, hmem]
      rw [if_pos (List.mem_eraseDups.mpr hmem), hnone, List.eraseDups_nil, List.append_nil]
    · have hone : [name x].removeAll earlier = [name x] := by simp [List.removeAll, hmem]
      rw [if_neg (mt List.mem_eraseDups.mp hmem), hone]
      rfl

/-- Under a name stands the item of that name that came last. -/
theorem find?_ofList (xs : List α) (key : String) :
    (ofList xs).find? key = xs.findRev? fun x => name x == key := by
  induction xs using List.reverseRecOn with
  | nil => rfl
  | append_singleton xs x ih =>
    have hinsert : ((ofList xs).insert x).find? key =
        if name x = key then some x else (ofList xs).find? key := find?_upsert x _ key
    rw [ofList_concat, hinsert, List.findRev?_eq_find?_reverse, List.reverse_concat]
    by_cases hkey : name x = key
    · rw [if_pos hkey, List.find?_cons_of_pos (by simpa using hkey)]
    · rw [if_neg hkey, List.find?_cons_of_neg (by simpa using hkey), ih,
        List.findRev?_eq_find?_reverse]

theorem items_foldl_insert
    (c : Catalog α) (xs : List α) (h : ((c.items ++ xs).map name).Nodup) :
    (xs.foldl insert c).items = c.items ++ xs := by
  induction xs generalizing c with
  | nil => simp
  | cons x xs ih =>
    have hnew : name x ∉ c.items.map name := by
      rw [List.map_append, List.map_cons] at h
      intro hmem
      exact (List.nodup_append.mp h).2.2 _ hmem _ (by simp) rfl
    have hinsert : (c.insert x).items = c.items ++ [x] := upsert_of_not_mem hnew
    rw [List.foldl_cons, ih (c.insert x) (by simpa [hinsert] using h), hinsert]
    simp

/-- Filling a catalog with the items of another one gives that one again. -/
theorem ofList_items (c : Catalog α) : ofList c.items = c := by
  apply ext
  exact items_foldl_insert empty c.items c.distinct

end Catalog

/-! ## Items made from entries -/

/-- The items that are left of entries: one for each name, in the order of the
first entries of the names, and each made from the last entry of its name. -/
structure Settled (nameOf : ε → String) (Made : ε → α → Prop) (entries : List ε)
    (c : Catalog α) : Prop where
  distinct : c.names.Nodup
  keyed : ∀ key x, c.find? key = some x ↔ x ∈ c.items ∧ name x = key
  order : c.names = (entries.map nameOf).eraseDups
  last : ∀ x ∈ c.items,
    ∃ entry, entries.findRev? (fun e => nameOf e == name x) = some entry ∧ Made entry x

variable {nameOf : ε → String} {Made : ε → α → Prop}

theorem map_eq_map_of_forall₂
    {β γ δ : Type} {R : β → γ → Prop} {f : β → δ} {g : γ → δ}
    (heq : ∀ b c, R b c → f b = g c) {bs : List β} {cs : List γ} (h : List.Forall₂ R bs cs) :
    bs.map f = cs.map g := by
  induction h with
  | nil => rfl
  | cons hfirst _ ih => rw [List.map_cons, List.map_cons, heq _ _ hfirst, ih]

/-- What is found in a list comes from what is found in the list it was made from. -/
theorem exists_find?_of_forall₂
    {β γ : Type} {R : β → γ → Prop} {p : β → Bool} {q : γ → Bool}
    (hfound : ∀ b c, R b c → p b = q c) {bs : List β} {cs : List γ} (h : List.Forall₂ R bs cs)
    {c : γ} (hc : cs.find? q = some c) : ∃ b, bs.find? p = some b ∧ R b c := by
  induction h with
  | nil => cases hc
  | @cons first made bs cs hfirst htail ih =>
    by_cases hmade : q made = true
    · rw [List.find?_cons_of_pos hmade] at hc
      obtain rfl : made = c := Option.some.inj hc
      exact ⟨first, List.find?_cons_of_pos (by rw [hfound first made hfirst, hmade]), hfirst⟩
    · rw [List.find?_cons_of_neg hmade] at hc
      obtain ⟨b, hb, hmade'⟩ := ih hc
      refine ⟨b, ?_, hmade'⟩
      rw [List.find?_cons_of_neg (by rwa [hfound first made hfirst])]
      exact hb

theorem settled_ofList
    (hname : ∀ entry x, Made entry x → nameOf entry = name x) {entries : List ε} {xs : List α}
    (h : List.Forall₂ Made entries xs) : Settled nameOf Made entries (Catalog.ofList xs) := by
  constructor
  · exact (Catalog.ofList xs).distinct
  · intro key x
    constructor
    · exact Catalog.mem_of_find?_eq_some
    · rintro ⟨hx, rfl⟩
      exact Catalog.find?_name_of_mem hx
  · rw [Catalog.names_ofList, map_eq_map_of_forall₂ hname h]
  · intro x hx
    have hfind : xs.findRev? (fun y => name y == name x) = some x := by
      rw [← Catalog.find?_ofList]
      exact Catalog.find?_name_of_mem hx
    rw [List.findRev?_eq_find?_reverse] at hfind
    obtain ⟨entry, hentry, hmade⟩ := exists_find?_of_forall₂
      (p := fun e => nameOf e == name x) (fun e y hmade => by rw [hname e y hmade])
      (List.forall₂_reverse_iff.mpr h) hfind
    refine ⟨entry, ?_, hmade⟩
    rw [List.findRev?_eq_find?_reverse]
    exact hentry

/-- Entries that were made one by one from others can stand back behind those. -/
theorem Settled.of_forall₂
    {δ : Type} {keyOf : δ → String} {Tells : δ → α → Prop} {R : δ → ε → Prop} {entries : List ε}
    {c : Catalog α} (h : Settled nameOf Made entries c) {sources : List δ}
    (hsources : List.Forall₂ R sources entries) (hkey : ∀ d e, R d e → keyOf d = nameOf e)
    (htells : ∀ d e, ∀ x ∈ c.items, R d e → Made e x → Tells d x) :
    Settled keyOf Tells sources c := by
  refine ⟨h.distinct, h.keyed, ?_, ?_⟩
  · rw [map_eq_map_of_forall₂ hkey hsources, h.order]
  · intro x hx
    obtain ⟨entry, hentry, hmade⟩ := h.last x hx
    rw [List.findRev?_eq_find?_reverse] at hentry
    obtain ⟨source, hsource, hrelated⟩ := exists_find?_of_forall₂
      (p := fun d => keyOf d == name x) (fun d e hrelated => by rw [hkey d e hrelated])
      (List.forall₂_reverse_iff.mpr hsources) hentry
    refine ⟨source, ?_, htells source entry x hx hrelated hmade⟩
    rw [List.findRev?_eq_find?_reverse]
    exact hsource

end SchemaBinding
