/- digest: A table as time passes, and columns that its rows keep. -/

import GuitarCoach.Relational.Table

set_option autoImplicit false
set_option relaxedAutoImplicit false

namespace GuitarCoach.Relational

variable {ρ κ ω : Type} {key : ρ → κ}

/-- Up to `t`, whatever had the key of a row of `t` had what the row has in this column. -/
def Lasting (table : Nat → Table key) (column : ρ → ω) (t : Nat) : Prop :=
  ∀ s ≤ t, ∀ a ∈ (table s).rows, ∀ b ∈ (table t).rows, key a = key b → column a = column b

namespace Lasting

variable {table : Nat → Table key} {column : ρ → ω} {t : Nat}

theorem zero : Lasting table column 0 := by
  intro s hs a ha b hb same
  obtain rfl : s = 0 := by omega
  rw [Table.eq_of_key ha hb same]

/-- A row of the next moment has a key that was never there, or the key and the column of a row
of now. -/
theorem next [DecidableEq κ] (lasting : Lasting table column t)
    (rows : ∀ b ∈ (table (t + 1)).rows, (∀ s ≤ t, (table s).has (key b) = false) ∨
      ∃ a ∈ (table t).rows, key a = key b ∧ column a = column b) :
    Lasting table column (t + 1) := by
  intro s hs a ha b hb same
  rcases Nat.le_succ_iff.mp hs with before | rfl
  · rcases rows b hb with new | ⟨c, hc, hkey, hcolumn⟩
    · have there : (table s).has (key b) = true := Table.has_iff.mpr ⟨a, ha, same⟩
      rw [new s before] at there
      cases there
    · rw [← hcolumn]
      exact lasting s before a ha c hc (same.trans hkey.symm)
  · rw [Table.eq_of_key ha hb same]

end Lasting

end GuitarCoach.Relational
