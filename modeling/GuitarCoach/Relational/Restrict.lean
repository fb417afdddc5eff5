/- digest: A table restricted to the rows one may see, and the statements that do not notice. -/

import GuitarCoach.Relational.Table

/-!
A statement whose rows may all be seen reads from the restricted table what it reads from the whole
one, and what it writes is restricted as it is written.
-/

set_option autoImplicit false
set_option relaxedAutoImplicit false

namespace GuitarCoach.Relational.Table

variable {ρ κ : Type} {key : ρ → κ} {t : Table key} {p q : ρ → Bool} {f : ρ → ρ}
  {same : ∀ a, key (f a) = key a}

def restrict (t : Table key) (p : ρ → Bool) : Table key := t.deleteWhere fun a => !p a

@[simp] theorem rows_restrict : (t.restrict p).rows = t.rows.filter p := by
  simp [restrict]

theorem mem_restrict {a : ρ} : a ∈ (t.restrict p).rows ↔ a ∈ t.rows ∧ p a = true := by
  simp

theorem restrict_congr (agree : ∀ a ∈ t.rows, p a = q a) : t.restrict p = t.restrict q :=
  deleteWhere_congr fun a ha => congrArg not (agree a ha)

theorem filter_restrict (within : ∀ a ∈ t.rows, q a = true → p a = true) :
    (t.restrict p).rows.filter q = t.rows.filter q := by
  rw [rows_restrict, List.filter_filter]
  refine List.filter_congr fun a ha => ?_
  cases hq : q a with
  | false => rfl
  | true => simp [within a ha hq]

theorem any_restrict (within : ∀ a ∈ t.rows, q a = true → p a = true) :
    (t.restrict p).rows.any q = t.rows.any q := by
  rw [Bool.eq_iff_iff, List.any_eq_true, List.any_eq_true]
  constructor
  · rintro ⟨a, ha, hq⟩
    exact ⟨a, (mem_restrict.mp ha).1, hq⟩
  · rintro ⟨a, ha, hq⟩
    exact ⟨a, mem_restrict.mpr ⟨ha, within a ha hq⟩, hq⟩

theorem find?_restrict (within : ∀ a ∈ t.rows, q a = true → p a = true) :
    (t.restrict p).rows.find? q = t.rows.find? q := by
  rw [← List.head?_filter, ← List.head?_filter, filter_restrict within]

/-- An update that leaves it as it is who may see a row. -/
theorem restrict_updateWhere (stays : ∀ a, p (f a) = p a) :
    (t.updateWhere q f same).restrict p = (t.restrict p).updateWhere q f same :=
  deleteWhere_updateWhere fun a => congrArg not (stays a)

theorem restrict_deleteWhere :
    (t.deleteWhere q).restrict p = (t.restrict p).deleteWhere q := by
  unfold restrict
  rw [deleteWhere_deleteWhere, deleteWhere_deleteWhere]
  exact deleteWhere_congr fun a _ => Bool.or_comm _ _

variable [DecidableEq κ] {k : κ}

theorem find_restrict_of (seen : ∀ a ∈ t.rows, key a = k → p a = true) :
    (t.restrict p).find k = t.find k :=
  find?_restrict fun a ha hk => seen a ha (of_decide_eq_true hk)

theorem has_restrict (seen : ∀ a ∈ t.rows, key a = k → p a = true) :
    (t.restrict p).has k = t.has k :=
  any_restrict fun a ha hk => seen a ha (of_decide_eq_true hk)

/-- A key that is taken is taken by a row that may be seen. -/
theorem insert_restrict {a : ρ} (keeps : p a = true)
    (seen : ∀ b ∈ t.rows, key b = key a → p b = true) :
    (t.restrict p).insert a = (t.insert a).map fun u => u.restrict p := by
  cases inserted : t.insert a with
  | some u => exact insert_deleteWhere inserted (by simp [keeps])
  | none =>
    have taken : key a ∈ t.rows.map key := by
      by_contra fresh
      obtain ⟨u, added, -⟩ := insert_of_fresh fresh
      rw [added] at inserted
      cases inserted
    obtain ⟨b, hb, hk⟩ := List.mem_map.mp taken
    have there : key a ∈ (t.restrict p).rows.map key :=
      List.mem_map.mpr ⟨b, mem_restrict.mpr ⟨hb, seen b hb hk⟩, hk⟩
    unfold insert
    rw [dif_neg (not_not.mpr there), Option.map_none]

end GuitarCoach.Relational.Table
