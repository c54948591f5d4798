/-!
# Catalogs of named items

A catalog lists items with pairwise different names in the order in which the
names first came.  Inserting an item under a name that is already there
replaces the earlier item and keeps its place.  That names differ is part of
the type, so every schema and every field list has it without being checked.
-/

namespace SchemaBinding

/-- Items that carry the name they are filed under. -/
class Named (α : Type) where
  name : α → String

open Named (name)

variable {α : Type} [Named α]

/-- Puts `x` in the place of the item of the same name, or at the end. -/
def upsert (x : α) : List α → List α
  | [] => [x]
  | y :: ys => if name y = name x then x :: ys else y :: upsert x ys

theorem map_name_upsert
    (x : α) (items : List α) :
    (upsert x items).map name =
      if name x ∈ items.map name then items.map name
      else items.map name ++ [name x] := by
  induction items with
  | nil => simp [upsert]
  | cons y ys ih =>
    by_cases h : name y = name x
    · simp [upsert, h]
    · have h' : ¬ name x = name y := fun e => h e.symm
      simp only [upsert, h, if_false, List.map_cons, ih, List.mem_cons, h', false_or]
      split <;> simp

theorem nodup_map_name_upsert
    {x : α} {items : List α} (h : (items.map name).Nodup) :
    ((upsert x items).map name).Nodup := by
  rw [map_name_upsert]
  split
  · exact h
  · rename_i hx
    rw [List.nodup_append]
    refine ⟨h, by simp, ?_⟩
    intro a ha b hb
    simp only [List.mem_singleton] at hb
    subst hb
    exact fun e => hx (e ▸ ha)

/-- Named items in order of first insertion, no two under one name. -/
structure Catalog (α : Type) [Named α] where
  items : List α
  distinct : (items.map name).Nodup

namespace Catalog

def empty : Catalog α := ⟨[], by simp⟩

instance : Inhabited (Catalog α) := ⟨empty⟩

@[ext]
theorem ext
    {c d : Catalog α} (h : c.items = d.items) : c = d := by
  cases c
  cases d
  simp_all

instance [DecidableEq α] : DecidableEq (Catalog α) := fun c d =>
  if h : c.items = d.items then isTrue (ext h)
  else isFalse fun e => h (congrArg items e)

instance [Repr α] : Repr (Catalog α) := ⟨fun c => reprPrec c.items⟩

/-- Files an item under its name, in the place of an earlier one of that name. -/
def insert (c : Catalog α) (x : α) : Catalog α :=
  ⟨upsert x c.items, nodup_map_name_upsert c.distinct⟩

def ofList (xs : List α) : Catalog α :=
  xs.foldl insert empty

def names (c : Catalog α) : List String :=
  c.items.map name

def find? (c : Catalog α) (key : String) : Option α :=
  c.items.find? fun x => name x == key

def size (c : Catalog α) : Nat :=
  c.items.length

end Catalog

end SchemaBinding
