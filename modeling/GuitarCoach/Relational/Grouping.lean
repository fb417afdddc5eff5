/- digest: Rows gathered by a key in a map that keeps the order in which its keys came. -/

import Mathlib.Data.List.Induction
import Mathlib.Data.List.Nodup
import Mathlib.Algebra.BigOperators.Group.Finset.Piecewise

/-!
A loop over rows keeps one accumulator for each key, in a map with the keys in the order of
insertion. Each accumulator is what the loop makes of the rows of its key alone, and the
accumulators stand in the order of the first rows of their keys.
-/

set_option autoImplicit false
set_option relaxedAutoImplicit false

namespace GuitarCoach.Relational

variable {α β κ : Type} [DecidableEq κ]

/-- How rows are gathered: by which key, from which accumulator, and how a row is added. -/
structure Gathering (α β κ : Type) where
  key : α → κ
  keyOf : β → κ
  init : α → β
  add : α → β → β
  keyOf_init : ∀ a, keyOf (init a) = key a
  keyOf_add : ∀ a b, keyOf (add a b) = keyOf b

namespace Gathering

variable (g : Gathering α β κ)

def rowsOf (k : κ) (rows : List α) : List α := rows.filter (g.key · = k)

/-- The accumulator of a key, of which this is the first row. -/
def Gathers (rows : List α) (first : α) (b : β) : Prop :=
  ∃ later, g.rowsOf (g.keyOf b) rows = first :: later ∧
    b = (first :: later).foldl (fun b a => g.add a b) (g.init first)

variable {g} {rows firsts : List α} {map : List β} {a : α} {k : κ}

theorem rowsOf_append_same (same : g.key a = k) :
    g.rowsOf k (rows ++ [a]) = g.rowsOf k rows ++ [a] := by
  unfold rowsOf
  rw [List.filter_append, List.filter_cons_of_pos (by simp [same]), List.filter_nil]

theorem rowsOf_append_other (other : g.key a ≠ k) :
    g.rowsOf k (rows ++ [a]) = g.rowsOf k rows := by
  unfold rowsOf
  rw [List.filter_append, List.filter_cons_of_neg (by simp [other]), List.filter_nil,
    List.append_nil]

theorem Gathers.more {first : α} {b : β} (gathers : g.Gathers rows first b)
    (same : g.keyOf b = g.key a) : g.Gathers (rows ++ [a]) first (g.add a b) := by
  obtain ⟨later, hrows, hb⟩ := gathers
  refine ⟨later ++ [a], ?_, ?_⟩
  · rw [g.keyOf_add, rowsOf_append_same same.symm, hrows]
    rfl
  · rw [← List.cons_append, List.foldl_append, ← hb]
    rfl

theorem Gathers.other {first : α} {b : β} (gathers : g.Gathers rows first b)
    (other : g.keyOf b ≠ g.key a) : g.Gathers (rows ++ [a]) first b := by
  obtain ⟨later, hrows, hb⟩ := gathers
  exact ⟨later, by rw [rowsOf_append_other (Ne.symm other), hrows], hb⟩

theorem Gathers.start (new : ∀ b ∈ rows, g.key b ≠ g.key a) :
    g.Gathers (rows ++ [a]) a (g.add a (g.init a)) := by
  have none : g.rowsOf (g.key a) rows = [] := by
    refine List.filter_eq_nil_iff.mpr fun b hb same => ?_
    exact new b hb (by simpa using same)
  refine ⟨[], ?_, rfl⟩
  rw [g.keyOf_add, g.keyOf_init, rowsOf_append_same rfl, none]
  rfl

/-- What the loop over the rows has gathered. -/
structure Gathered (g : Gathering α β κ) (rows firsts : List α) (map : List β) : Prop where
  order : firsts.Sublist rows
  each : List.Forall₂ (g.Gathers rows) firsts map
  nodup : (map.map g.keyOf).Nodup
  covers : ∀ k, k ∈ map.map g.keyOf ↔ ∃ a ∈ rows, g.key a = k

/-- Every accumulator is that of a key with a row. -/
theorem Gathered.gathers (gathered : Gathered g rows firsts map) {b : β} (hb : b ∈ map) :
    ∃ first, g.Gathers rows first b := by
  have each := gathered.each
  clear gathered
  induction each with
  | nil => cases hb
  | cons gathers _ ih =>
    rcases List.mem_cons.mp hb with rfl | hb
    · exact ⟨_, gathers⟩
    · exact ih hb

end Gathering

end GuitarCoach.Relational
