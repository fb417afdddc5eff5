/- digest: Texts that can be read back: prefix codes, and segments with a separator between them. -/

import Mathlib.Data.List.Basic
import Mathlib.Logic.Function.Basic

set_option autoImplicit false
set_option relaxedAutoImplicit false

namespace GuitarCoach.Ecma

variable {α β : Type}

/-- From the code of an item and any rest, both can be told. -/
structure IsCode (f : α → List β) : Prop where
  ne_nil : ∀ a, f a ≠ []
  cancel : ∀ {a b r r'}, f a ++ r = f b ++ r' → a = b ∧ r = r'

/-- From the codes of a list, one after the other, the list can be told. -/
theorem IsCode.flatMap_injective {f : α → List β} (code : IsCode f) :
    Function.Injective (List.flatMap f) := by
  intro xs ys same
  induction xs generalizing ys with
  | nil =>
    cases ys with
    | nil => rfl
    | cons y ys =>
      rw [List.flatMap_cons, List.flatMap_nil] at same
      exact absurd (List.append_eq_nil_iff.mp same.symm).1 (code.ne_nil y)
  | cons x xs ih =>
    cases ys with
    | nil =>
      rw [List.flatMap_cons, List.flatMap_nil] at same
      exact absurd (List.append_eq_nil_iff.mp same).1 (code.ne_nil x)
    | cons y ys =>
      rw [List.flatMap_cons, List.flatMap_cons] at same
      obtain ⟨rfl, rest⟩ := code.cancel same
      rw [ih rest]

/-- A separator that stands in neither of two segments tells where they end. -/
theorem segment_cancel {sep : β} {s t r r' : List β} (hs : sep ∉ s) (ht : sep ∉ t)
    (same : s ++ sep :: r = t ++ sep :: r') : s = t ∧ r = r' := by
  induction s generalizing t with
  | nil =>
    cases t with
    | nil => exact ⟨rfl, (List.cons.inj same).2⟩
    | cons b t =>
      rw [List.nil_append, List.cons_append] at same
      exact absurd ((List.cons.inj same).1 ▸ List.mem_cons_self) ht
  | cons a s ih =>
    cases t with
    | nil =>
      rw [List.nil_append, List.cons_append] at same
      exact absurd ((List.cons.inj same).1 ▸ List.mem_cons_self) hs
    | cons b t =>
      rw [List.cons_append, List.cons_append] at same
      obtain ⟨rfl, rest⟩ := List.cons.inj same
      obtain ⟨rfl, rfl⟩ := ih (fun h => hs (List.mem_cons_of_mem a h))
        (fun h => ht (List.mem_cons_of_mem a h)) rest
      exact ⟨rfl, rfl⟩

end GuitarCoach.Ecma
