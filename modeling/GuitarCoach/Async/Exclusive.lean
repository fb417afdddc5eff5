/- digest: A part of the state that one request at a time holds, and that nobody else changes. -/

import GuitarCoach.Async.Interleaving

/-!
`held` shows what the holder has there, and nothing while it is free. Whoever takes it holds it
until it is free again; when only holders and takers change it, the holder finds it as it left it,
however long it waits between two of its calls.
-/

set_option autoImplicit false
set_option relaxedAutoImplicit false

namespace GuitarCoach.Async.Run

variable {σ ι ε κ η α ρ : Type}

/-- Request `i` has taken it, and it has not been free since. -/
def Holds (r : Run σ ι ε κ η α) (held : σ → Option ρ) (i t : Nat) : Prop :=
  ∃ a < t, (∃ l x, r.CallsAt i a l x) ∧ held (r.state a) = none ∧
    ∀ v, a < v → v ≤ t → held (r.state v) ≠ none

/-- Before `t` it was only changed by calls that found it free, and by calls of its holder. -/
def Disciplined (r : Run σ ι ε κ η α) (held : σ → Option ρ) (t : Nat) : Prop :=
  ∀ s < t, held (r.state (s + 1)) = held (r.state s) ∨
    ∃ i l x, r.CallsAt i s l x ∧ (held (r.state s) = none ∨ r.Holds held i s)

section Holds

variable {r : Run σ ι ε κ η α} {held : σ → Option ρ} {i j t u : Nat}

theorem Holds.now (holds : r.Holds held i t) : held (r.state t) ≠ none := by
  obtain ⟨a, before, -, -, since⟩ := holds
  exact since t before le_rfl

/-- There is one holder at a time. -/
theorem Holds.unique (holds : r.Holds held i t) (holds' : r.Holds held j t) : i = j := by
  obtain ⟨a, before, ⟨l, x, called⟩, free, since⟩ := holds
  obtain ⟨b, before', ⟨l', x', called'⟩, free', since'⟩ := holds'
  rcases Nat.lt_trichotomy a b with earlier | rfl | later
  · exact absurd free' (since b earlier before'.le)
  · exact (called.unique called').1
  · exact absurd free (since' a later before.le)

/-- Whoever finds it free and leaves it taken is the holder. -/
theorem holds_taken {l : κ} {x : Answer ι ε} (called : r.CallsAt i t l x)
    (free : held (r.state t) = none) (taken : held (r.state (t + 1)) ≠ none) :
    r.Holds held i (t + 1) := by
  refine ⟨t, Nat.lt_succ_self t, ⟨l, x, called⟩, free, fun v hv hvt => ?_⟩
  obtain rfl : v = t + 1 := by omega
  exact taken

theorem Holds.next (holds : r.Holds held i t) (taken : held (r.state (t + 1)) ≠ none) :
    r.Holds held i (t + 1) := by
  obtain ⟨a, before, called, free, since⟩ := holds
  refine ⟨a, before.trans (Nat.lt_succ_self t), called, free, fun v hv hvt => ?_⟩
  rcases Nat.le_succ_iff.mp hvt with earlier | rfl
  · exact since v hv earlier
  · exact taken

theorem disciplined_zero : r.Disciplined held 0 := fun s hs => absurd hs (Nat.not_lt_zero s)

theorem Disciplined.next (kept : r.Disciplined held t)
    (step : held (r.state (t + 1)) = held (r.state t) ∨
      ∃ i l x, r.CallsAt i t l x ∧ (held (r.state t) = none ∨ r.Holds held i t)) :
    r.Disciplined held (t + 1) := by
  intro s hs
  rcases Nat.lt_succ_iff_lt_or_eq.mp hs with before | rfl
  · exact kept s before
  · exact step

/-- While the holder makes no call, it goes on holding what it held. -/
theorem Disciplined.still (kept : r.Disciplined held u) (quiet : r.Quiet i t u)
    (holds : r.Holds held i t) : r.Holds held i u ∧ held (r.state u) = held (r.state t) := by
  obtain ⟨later, silent⟩ := quiet
  induction u, later using Nat.le_induction with
  | base => exact ⟨holds, rfl⟩
  | succ u later ih =>
    obtain ⟨holds, same⟩ := ih (fun s hs => kept s (hs.trans (Nat.lt_succ_self u)))
      fun v hv hvu => silent v hv (hvu.trans (Nat.lt_succ_self u))
    have unchanged : held (r.state (u + 1)) = held (r.state u) := by
      rcases kept u (Nat.lt_succ_self u) with unchanged | ⟨j, l, x, called, free | holds'⟩
      · exact unchanged
      · exact absurd free holds.now
      · obtain rfl := holds.unique holds'
        exact absurd called (silent u later (Nat.lt_succ_self u) l x)
    refine ⟨holds.next ?_, unchanged.trans same⟩
    rw [unchanged]
    exact holds.now

/-- Whenever it is not free, somebody holds it. -/
theorem Disciplined.holder (kept : r.Disciplined held t) (start : held r.start = none)
    (taken : held (r.state t) ≠ none) : ∃ i, r.Holds held i t := by
  induction t with
  | zero => exact absurd start taken
  | succ t ih =>
    have sofar : held (r.state t) ≠ none → ∃ i, r.Holds held i (t + 1) := by
      intro before
      obtain ⟨i, holds⟩ := ih (fun s hs => kept s (hs.trans (Nat.lt_succ_self t))) before
      exact ⟨i, holds.next taken⟩
    rcases kept t (Nat.lt_succ_self t) with same | ⟨i, l, x, called, free | holds⟩
    · exact sofar (same ▸ taken)
    · exact ⟨i, holds_taken called free taken⟩
    · exact sofar holds.now

end Holds

end GuitarCoach.Async.Run
