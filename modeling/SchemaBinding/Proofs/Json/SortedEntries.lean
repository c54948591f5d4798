import SchemaBinding.KeyOrder

/-!
# Entries under keys

Entries with different keys can be looked up in any order.  Sorted entries have
different keys, and under each key they hold the last of the entries that they
were sorted from.
-/

namespace SchemaBinding

section Lookup

variable {α β : Type}

theorem lookup_cons_eq (entry : String × α) (entries : List (String × α)) (key : String) :
    (entry :: entries).lookup key = if key = entry.1 then some entry.2 else entries.lookup key := by
  rw [List.lookup_cons]
  by_cases hkey : key = entry.1
  · rw [if_pos hkey, beq_iff_eq.mpr hkey]
  · rw [if_neg hkey, beq_eq_false_iff_ne.mpr hkey]

theorem mem_of_lookup_eq_some
    {entries : List (String × α)} {key : String} {value : α}
    (h : entries.lookup key = some value) : (key, value) ∈ entries := by
  obtain ⟨front, back, rfl, -⟩ := List.lookup_eq_some_iff.mp h
  simp

theorem nodup_of_keys {entries : List (String × α)} (h : (entries.map Prod.fst).Nodup) :
    entries.Nodup :=
  (List.pairwise_map.mp h).imp fun hne heq => hne (congrArg Prod.fst heq)

theorem lookup_eq_some_iff_mem
    {entries : List (String × α)} (h : (entries.map Prod.fst).Nodup) {key : String} {value : α} :
    entries.lookup key = some value ↔ (key, value) ∈ entries := by
  induction entries with
  | nil => simp
  | cons entry entries ih =>
    obtain ⟨k, v⟩ := entry
    rw [List.map_cons, List.nodup_cons] at h
    rw [lookup_cons_eq, List.mem_cons]
    by_cases hkey : key = k
    · subst hkey
      have hnew : (key, value) ∉ entries := by
        intro hmem
        exact h.1 (List.mem_map.mpr ⟨(key, value), hmem, rfl⟩)
      simp [hnew, eq_comm]
    · simp only [hkey, if_false, Prod.mk.injEq, false_and, false_or]
      exact ih h.2

/-- The order of entries with different keys does not matter. -/
theorem lookup_eq_of_perm
    {entries others : List (String × α)} (hperm : entries.Perm others)
    (h : (entries.map Prod.fst).Nodup) (key : String) :
    entries.lookup key = others.lookup key := by
  have hothers : (others.map Prod.fst).Nodup := (hperm.map Prod.fst).nodup_iff.mp h
  apply Option.ext
  intro value
  rw [lookup_eq_some_iff_mem h, lookup_eq_some_iff_mem hothers]
  exact hperm.mem_iff

theorem lookup_reverse_of_nodup
    {entries : List (String × α)} (h : (entries.map Prod.fst).Nodup) (key : String) :
    entries.reverse.lookup key = entries.lookup key :=
  (lookup_eq_of_perm (List.reverse_perm entries).symm h key).symm

theorem lookup_mapKeyed (f : String → α → β) (entries : List (String × α)) (key : String) :
    (entries.map fun entry => (entry.1, f entry.1 entry.2)).lookup key =
      (entries.lookup key).map (f key) := by
  induction entries with
  | nil => rfl
  | cons entry entries ih =>
    rw [List.map_cons, lookup_cons_eq, lookup_cons_eq, ih]
    split
    next hkey => rw [hkey, Option.map_some]
    next => rfl

theorem lookup_map (f : α → β) (entries : List (String × α)) (key : String) :
    (entries.map fun entry => (entry.1, f entry.2)).lookup key = (entries.lookup key).map f :=
  lookup_mapKeyed (fun _ => f) entries key

theorem lookup_filterKeyed (keep : String → Bool) (entries : List (String × α)) (key : String) :
    (entries.filter fun entry => keep entry.1).lookup key =
      if keep key then entries.lookup key else none := by
  induction entries with
  | nil => simp
  | cons entry entries ih =>
    rw [List.filter_cons, lookup_cons_eq]
    by_cases hkey : key = entry.1
    · subst hkey
      by_cases hkeep : keep entry.1 = true
      · rw [if_pos hkeep, lookup_cons_eq, if_pos rfl, if_pos hkeep, if_pos rfl]
      · rw [if_neg hkeep, ih, if_neg hkeep, if_neg hkeep]
    · rw [if_neg hkey, ← ih]
      split
      · rw [lookup_cons_eq, if_neg hkey]
      · rfl

end Lookup

namespace KeyOrder

variable {α β : Type}

theorem lookup_insert (key : String) (value : α) (entries : List (String × α)) (k : String) :
    (insert key value entries).lookup k = if k = key then some value else entries.lookup k := by
  induction entries with
  | nil => rw [insert, lookup_cons_eq]
  | cons entry entries ih =>
    obtain ⟨other, v⟩ := entry
    rw [insert]
    split
    · rw [lookup_cons_eq]
    split
    next hsame =>
      rw [lookup_cons_eq, lookup_cons_eq, hsame]
      split <;> rfl
    next hother =>
      rw [lookup_cons_eq, lookup_cons_eq, ih]
      by_cases hk : k = other
      · have hne : k ≠ key := fun heq => hother (heq.symm.trans hk)
        rw [if_pos hk, if_neg hne, if_pos hk]
      · rw [if_neg hk, if_neg hk]

/-- Sorting keeps the last entry of each key. -/
theorem lookup_sort (entries : List (String × α)) (key : String) :
    (sort entries).lookup key = entries.reverse.lookup key := by
  have hfold : ∀ sorted : List (String × α),
      (entries.foldl (fun sorted entry => insert entry.1 entry.2 sorted) sorted).lookup key =
        (entries.reverse.lookup key).or (sorted.lookup key) := by
    induction entries with
    | nil => simp
    | cons entry entries ih =>
      intro sorted
      rw [List.foldl_cons, ih, lookup_insert, List.reverse_cons, List.lookup_append,
        lookup_cons_eq, Option.or_assoc]
      by_cases hkey : key = entry.1
      · rw [if_pos hkey, if_pos hkey, Option.some_or]
      · rw [if_neg hkey, if_neg hkey, List.lookup_nil, Option.none_or]
  rw [sort, hfold [], List.lookup_nil, Option.or_none]

theorem mem_of_mem_insert
    {key : String} {value : α} {entry : String × α} {entries : List (String × α)}
    (h : entry ∈ insert key value entries) : entry = (key, value) ∨ entry ∈ entries := by
  induction entries with
  | nil => simpa [insert] using h
  | cons other entries ih =>
    obtain ⟨k, v⟩ := other
    rw [insert] at h
    split at h
    · simpa using h
    split at h
    · rcases List.mem_cons.mp h with rfl | hmem
      · exact Or.inl rfl
      · exact Or.inr (List.mem_cons_of_mem _ hmem)
    · rcases List.mem_cons.mp h with rfl | hmem
      · exact Or.inr (by simp)
      · exact (ih hmem).imp_right (List.mem_cons_of_mem _)

theorem mem_of_mem_sort
    {entry : String × α} {entries : List (String × α)} (h : entry ∈ sort entries) :
    entry ∈ entries := by
  have hfold : ∀ sorted : List (String × α),
      entry ∈ entries.foldl (fun sorted entry => insert entry.1 entry.2 sorted) sorted →
        entry ∈ sorted ∨ entry ∈ entries := by
    clear h
    induction entries with
    | nil => exact fun _ hmem => Or.inl hmem
    | cons other entries ih =>
      intro sorted hmem
      rcases ih _ hmem with hinsert | hrest
      · rcases mem_of_mem_insert hinsert with rfl | hsorted
        · exact Or.inr (by simp)
        · exact Or.inl hsorted
      · exact Or.inr (List.mem_cons_of_mem _ hrest)
  simpa using hfold [] h

/-- The keys of entries go up, so no key comes twice. -/
def Ascending (entries : List (String × α)) : Prop :=
  entries.Pairwise fun a b => a.1 < b.1

theorem Ascending.nodup_keys {entries : List (String × α)} (h : Ascending entries) :
    (entries.map Prod.fst).Nodup := by
  rw [List.Nodup, List.pairwise_map]
  refine h.imp fun {a b} hlt heq => ?_
  exact String.lt_irrefl b.1 (heq ▸ hlt)

theorem ascending_insert
    (key : String) (value : α) {entries : List (String × α)} (h : Ascending entries) :
    Ascending (insert key value entries) := by
  induction entries with
  | nil => exact List.pairwise_singleton _ _
  | cons other entries ih =>
    obtain ⟨k, v⟩ := other
    have hhead : ∀ entry ∈ entries, k < entry.1 := (List.pairwise_cons.mp h).1
    have htail : Ascending entries := (List.pairwise_cons.mp h).2
    rw [insert]
    split
    next hlt =>
      refine List.pairwise_cons.mpr ⟨fun entry hentry => ?_, h⟩
      rcases List.mem_cons.mp hentry with rfl | hmem
      · exact hlt
      · exact String.lt_trans hlt (hhead entry hmem)
    split
    next hsame =>
      subst hsame
      exact List.pairwise_cons.mpr ⟨hhead, htail⟩
    next hnot hother =>
      have hlt : k < key := String.not_le.mp fun hle =>
        hother (String.le_antisymm hle (String.not_lt.mp hnot))
      refine List.pairwise_cons.mpr ⟨fun entry hentry => ?_, ih htail⟩
      rcases mem_of_mem_insert hentry with rfl | hmem
      · exact hlt
      · exact hhead entry hmem

theorem ascending_sort (entries : List (String × α)) : Ascending (sort entries) := by
  have hfold : ∀ sorted : List (String × α), Ascending sorted →
      Ascending (entries.foldl (fun sorted entry => insert entry.1 entry.2 sorted) sorted) := by
    induction entries with
    | nil => exact fun _ hsorted => hsorted
    | cons entry entries ih => exact fun sorted hsorted => ih _ (ascending_insert _ _ hsorted)
  exact hfold [] List.Pairwise.nil

/-- Entries in ascending order are the same as soon as the same is found under every key. -/
theorem Ascending.eq_of_lookup
    {entries others : List (String × α)} (hentries : Ascending entries)
    (hothers : Ascending others) (h : ∀ key, entries.lookup key = others.lookup key) :
    entries = others := by
  refine List.Perm.eq_of_pairwise (fun a b _ _ hab hba => ?_) hentries hothers
    ((List.perm_ext_iff_of_nodup (nodup_of_keys hentries.nodup_keys)
      (nodup_of_keys hothers.nodup_keys)).mpr fun entry => ?_)
  · exact absurd (String.lt_trans hab hba) (String.lt_irrefl _)
  · rw [← lookup_eq_some_iff_mem hentries.nodup_keys, h,
      lookup_eq_some_iff_mem hothers.nodup_keys]

/-- Of entries with different keys none is left out. -/
theorem sort_perm {entries : List (String × α)} (h : (entries.map Prod.fst).Nodup) :
    (sort entries).Perm entries := by
  refine (List.perm_ext_iff_of_nodup (nodup_of_keys (ascending_sort entries).nodup_keys)
    (nodup_of_keys h)).mpr fun entry => ?_
  rw [← lookup_eq_some_iff_mem (ascending_sort entries).nodup_keys, lookup_sort,
    lookup_reverse_of_nodup h, lookup_eq_some_iff_mem h]

/-- Entries with different keys are sorted in one way. -/
theorem sort_eq_of_perm
    {entries others : List (String × α)} (hperm : entries.Perm others)
    (h : (entries.map Prod.fst).Nodup) : sort entries = sort others := by
  have hothers : (others.map Prod.fst).Nodup := (hperm.map Prod.fst).nodup_iff.mp h
  refine (ascending_sort entries).eq_of_lookup (ascending_sort others) fun key => ?_
  rw [lookup_sort, lookup_sort, lookup_reverse_of_nodup h, lookup_reverse_of_nodup hothers,
    lookup_eq_of_perm hperm h]

theorem sort_mapKeyed (f : String → α → β) (entries : List (String × α)) :
    sort (entries.map fun entry => (entry.1, f entry.1 entry.2)) =
      (sort entries).map fun entry => (entry.1, f entry.1 entry.2) := by
  have hmapped : Ascending ((sort entries).map fun entry => (entry.1, f entry.1 entry.2)) :=
    List.pairwise_map.mpr (ascending_sort entries)
  refine (ascending_sort _).eq_of_lookup hmapped fun key => ?_
  rw [lookup_sort, ← List.map_reverse, lookup_mapKeyed, lookup_mapKeyed, lookup_sort]

theorem sort_map (f : α → β) (entries : List (String × α)) :
    sort (entries.map fun entry => (entry.1, f entry.2)) =
      (sort entries).map fun entry => (entry.1, f entry.2) :=
  sort_mapKeyed (fun _ => f) entries

theorem sort_filterKeyed (keep : String → Bool) (entries : List (String × α)) :
    sort (entries.filter fun entry => keep entry.1) =
      (sort entries).filter fun entry => keep entry.1 := by
  refine (ascending_sort _).eq_of_lookup ((ascending_sort entries).filter _) fun key => ?_
  rw [lookup_sort, ← List.filter_reverse, lookup_filterKeyed, lookup_filterKeyed, lookup_sort]

end KeyOrder

end SchemaBinding
