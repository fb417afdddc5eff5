/- digest: Lists mapped by a function that can fail. -/

import Mathlib.Data.List.Forall2

set_option autoImplicit false
set_option relaxedAutoImplicit false

namespace GuitarCoach

variable {α β : Type} {f f' : α → Option β} {xs : List α} {ys : List β}

/-- Each item is mapped to the item at its place. -/
theorem mapM_eq_some_iff :
    xs.mapM f = some ys ↔ List.Forall₂ (fun x y => f x = some y) xs ys := by
  induction xs generalizing ys with
  | nil =>
    rw [List.forall₂_nil_left_iff]
    constructor
    · intro mapped
      cases mapped
      rfl
    · rintro rfl
      rfl
  | cons x xs ih =>
    rw [List.mapM_cons, List.forall₂_cons_left_iff]
    constructor
    · intro mapped
      obtain ⟨y, first, mapped⟩ := Option.bind_eq_some_iff.mp mapped
      obtain ⟨rest, later, mapped⟩ := Option.bind_eq_some_iff.mp mapped
      cases mapped
      exact ⟨y, rest, first, ih.mp later, rfl⟩
    · rintro ⟨y, rest, first, later, rfl⟩
      rw [first, ih.mpr later]
      rfl

/-- What the list is mapped to comes from its items. -/
theorem mem_of_mapM (mapped : xs.mapM f = some ys) {y : β} (hy : y ∈ ys) :
    ∃ x ∈ xs, f x = some y := by
  have all := mapM_eq_some_iff.mp mapped
  clear mapped
  induction all with
  | nil => cases hy
  | @cons x z xs ys first _ ih =>
    rcases List.mem_cons.mp hy with rfl | hy
    · exact ⟨x, List.mem_cons_self, first⟩
    · obtain ⟨x', hx', same⟩ := ih hy
      exact ⟨x', List.mem_cons_of_mem x hx', same⟩

theorem exists_mem_of_mapM (mapped : xs.mapM f = some ys) {x : α} (hx : x ∈ xs) :
    ∃ y ∈ ys, f x = some y := by
  have all := mapM_eq_some_iff.mp mapped
  clear mapped
  induction all with
  | nil => cases hx
  | @cons z y xs ys first _ ih =>
    rcases List.mem_cons.mp hx with rfl | hx
    · exact ⟨y, List.mem_cons_self, first⟩
    · obtain ⟨y', hy', same⟩ := ih hx
      exact ⟨y', List.mem_cons_of_mem y hy', same⟩

theorem mapM_mono (more : ∀ x y, f x = some y → f' x = some y) (mapped : xs.mapM f = some ys) :
    xs.mapM f' = some ys :=
  mapM_eq_some_iff.mpr ((mapM_eq_some_iff.mp mapped).imp more)

/-- The list is mapped when each of its items is. -/
theorem exists_mapM_iff : (∃ ys, xs.mapM f = some ys) ↔ ∀ x ∈ xs, ∃ y, f x = some y := by
  simp only [mapM_eq_some_iff]
  induction xs with
  | nil => exact iff_of_true ⟨[], .nil⟩ nofun
  | cons x xs ih =>
    rw [List.forall_mem_cons, ← ih]
    constructor
    · rintro ⟨_, _ | ⟨first, rest⟩⟩
      exact ⟨⟨_, first⟩, _, rest⟩
    · rintro ⟨⟨y, first⟩, ys, rest⟩
      exact ⟨y :: ys, .cons first rest⟩

/-- When each item is mapped with room enough, all are mapped with the room of the largest. -/
theorem mapM_room {f : Nat → α → Option β}
    (mono : ∀ {room room' x y}, room ≤ room' → f room x = some y → f room' x = some y)
    (each : ∀ x ∈ xs, ∃ room y, f room x = some y) : ∃ room ys, xs.mapM (f room) = some ys := by
  induction xs with
  | nil => exact ⟨0, [], rfl⟩
  | cons x xs ih =>
    obtain ⟨room, first, hfirst⟩ := each x List.mem_cons_self
    obtain ⟨room', rest, hrest⟩ := ih fun x hx => each x (List.mem_cons_of_mem _ hx)
    have hfirst := mono (Nat.le_max_left room room') hfirst
    have hrest := mapM_mono (fun _ _ => mono (Nat.le_max_right room room')) hrest
    refine ⟨max room room', first :: rest, ?_⟩
    rw [List.mapM_cons, hfirst, hrest]
    rfl

end GuitarCoach
