import Mathlib.Data.List.Forall2

/-!
# Results of steps that may fail

A step comes to a value or fails, and steps one after another come to a value
when each of them does.
-/

namespace SchemaBinding

theorem bind_eq_ok
    {ε α β : Type} {x : Except ε α} {f : α → Except ε β} {b : β} (h : (x >>= f) = .ok b) :
    ∃ a, x = .ok a ∧ f a = .ok b := by
  cases x with
  | error e => cases h
  | ok a => exact ⟨a, rfl, h⟩

/-- A list is made item by item, and each item without an error. -/
theorem mapM_eq_ok_iff
    {ε α β : Type} {f : α → Except ε β} {as : List α} {bs : List β} :
    as.mapM f = .ok bs ↔ List.Forall₂ (fun a b => f a = .ok b) as bs := by
  induction as generalizing bs with
  | nil => cases bs <;> simp [pure, Except.pure]
  | cons a as ih =>
    rw [List.mapM_cons]
    constructor
    · intro h
      obtain ⟨b, hb, hrest⟩ := bind_eq_ok h
      obtain ⟨others, hothers, heq⟩ := bind_eq_ok hrest
      cases heq
      exact .cons hb (ih.mp hothers)
    · rintro (_ | ⟨hb, hothers⟩)
      rw [hb, ih.mpr hothers]
      rfl

/-- The error of a step that fails. -/
def failureOf? {ε α : Type} : Except ε α → Option ε
  | .ok _ => none
  | .error e => some e

theorem failureOf?_eq_some_iff {ε α : Type} {x : Except ε α} {e : ε} :
    failureOf? x = some e ↔ x = .error e := by
  cases x <;> simp [failureOf?]

theorem failureOf?_eq_none_iff {ε α : Type} {x : Except ε α} :
    failureOf? x = none ↔ ∃ a, x = .ok a := by
  cases x <;> simp [failureOf?]

/-- Where the second step fails in the same way whatever the first one gives, the first
failure counts. -/
theorem failureOf?_bind
    {ε α β : Type} {x : Except ε α} {f : α → Except ε β} {failure : Option ε}
    (h : ∀ a, x = .ok a → failureOf? (f a) = failure) :
    failureOf? (x >>= f) = (failureOf? x).or failure := by
  cases x with
  | error e => rfl
  | ok a => exact h a rfl

/-- What is made of a result cannot fail. -/
theorem failureOf?_bind_return {ε α β : Type} (x : Except ε α) (f : α → β) :
    failureOf? (do return f (← x)) = failureOf? x := by
  cases x <;> rfl

/-- The first item that cannot be made is the one that is told of. -/
theorem failureOf?_mapM {ε α β : Type} (f : α → Except ε β) (as : List α) :
    failureOf? (as.mapM f) = as.findSome? fun a => failureOf? (f a) := by
  induction as with
  | nil => rfl
  | cons a as ih =>
    have hrest : ∀ b, f a = .ok b →
        failureOf? (do return b :: (← as.mapM f)) = as.findSome? fun a => failureOf? (f a) := by
      intro b _
      rw [failureOf?_bind_return, ih]
    rw [List.mapM_cons, failureOf?_bind hrest, List.findSome?_cons]
    cases failureOf? (f a) <;> rfl

theorem toOption_bind
    {ε α β : Type} (x : Except ε α) (f : α → Except ε β) :
    (x >>= f).toOption = x.toOption.bind fun a => (f a).toOption := by
  cases x <;> rfl

theorem eq_ok_of_toOption_eq_some
    {ε α : Type} {x : Except ε α} {a : α} (h : x.toOption = some a) : x = .ok a := by
  cases x with
  | error e => cases h
  | ok b =>
    cases h
    rfl

/-- A fault that is told in other words is still one. -/
theorem mapError_eq_ok_iff {ε ε' α : Type} {failure : ε → ε'} {result : Except ε α} {value : α} :
    result.mapError failure = .ok value ↔ result = .ok value := by
  cases result with
  | error fault => exact ⟨nofun, nofun⟩
  | ok found => exact ⟨fun h => congrArg _ (Except.ok.inj h), fun h => congrArg _ (Except.ok.inj h)⟩

end SchemaBinding
