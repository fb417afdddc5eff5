/- digest: Any number of methods at once: scheduled runs and a rely-guarantee rule for them. -/

import GuitarCoach.Async.RelyGuarantee
import Mathlib.Order.Nat

/-!
A run is a family of requests and a schedule that starts them, answers the call one of
them awaits, or lets the surroundings act; a choice that does not apply changes nothing.
States and slots are functions of time, so a fact about a past moment stays true.

A request relies on making no call of its own while it waits; what the others do meanwhile
is for the invariant to say. `Run.safe` puts the requests together.
-/

set_option autoImplicit false
set_option relaxedAutoImplicit false

namespace GuitarCoach.Async

inductive Choice (ι ε η : Type)
  | begin (who : Nat)
  | advance (who : Nat) (answer : Answer ι ε)
  | turn (who : Nat) (side : Bool)
  | outside (act : η)

/-- The shared state, and what is left of each request that has begun. -/
structure Config (σ ι ε κ α : Type) where
  state : σ
  slot : Nat → Option (Method σ ι ε κ α)

structure Run (σ ι ε κ η α : Type) where
  requests : Nat → Method σ ι ε κ α
  outside : η → σ → σ
  start : σ
  schedule : Nat → Choice ι ε η

variable {σ ι ε κ η α β : Type}

namespace Run

/-- One step; a call that is not ready and a choice without a partner change nothing. -/
def step (r : Run σ ι ε κ η α) (c : Config σ ι ε κ α) : Choice ι ε η → Config σ ι ε κ α
  | .begin i =>
      match c.slot i with
      | none => { c with slot := Function.update c.slot i (some (r.requests i)) }
      | some _ => c
  | .advance i x =>
      match c.slot i with
      | some (.await call next) =>
          if call.ready c.state then
            ⟨(call.answer x c.state).2,
              Function.update c.slot i (some (next (call.answer x c.state).1))⟩
          else c
      | _ => c
  | .turn i b =>
      match c.slot i with
      | some (.either next) => { c with slot := Function.update c.slot i (some (next b)) }
      | _ => c
  | .outside a => { c with state := r.outside a c.state }

def config (r : Run σ ι ε κ η α) : Nat → Config σ ι ε κ α
  | 0 => ⟨r.start, fun _ => none⟩
  | t + 1 => r.step (r.config t) (r.schedule t)

def state (r : Run σ ι ε κ η α) (t : Nat) : σ := (r.config t).state

def slot (r : Run σ ι ε κ η α) (i t : Nat) : Option (Method σ ι ε κ α) := (r.config t).slot i

/-- At time `t` request `i` starts. -/
def Begins (r : Run σ ι ε κ η α) (i t : Nat) : Prop :=
  r.schedule t = .begin i ∧ r.slot i t = none

/-- At time `t` the call with label `l` that request `i` awaits gets the answer `x`. -/
def CallsAt (r : Run σ ι ε κ η α) (i t : Nat) (l : κ) (x : Answer ι ε) : Prop :=
  ∃ (β : Type) (c : Call σ ι ε κ β) (k : Except ε β → Method σ ι ε κ α),
    r.slot i t = some (.await c k) ∧ c.label = l ∧ c.ready (r.state t) = true ∧
      r.schedule t = .advance i x

/-- The label of the call that request `i` awaits, when it can be answered. -/
def awaited (r : Run σ ι ε κ η α) (i t : Nat) : Option κ :=
  match r.slot i t with
  | some (.await call _) => if call.ready (r.state t) then some call.label else none
  | _ => none

/-- By time `t` request `i` has ended with this result. -/
def Ended (r : Run σ ι ε κ η α) (i t : Nat) (result : Except ε α) : Prop :=
  ∃ m, r.slot i t = some m ∧ m.result? = some result

@[simp] theorem state_zero (r : Run σ ι ε κ η α) : r.state 0 = r.start := rfl

theorem callsAt_iff {r : Run σ ι ε κ η α} {i t : Nat} {l : κ} {x : Answer ι ε} :
    r.CallsAt i t l x ↔ r.awaited i t = some l ∧ r.schedule t = .advance i x := by
  unfold CallsAt awaited
  constructor
  · rintro ⟨β, c, k, hslot, rfl, ready, hs⟩
    rw [hslot]
    exact ⟨if_pos ready, hs⟩
  · rintro ⟨hl, hs⟩
    split at hl
    · next β c k hslot =>
      split at hl
      · next ready => exact ⟨β, c, k, hslot, Option.some.inj hl, ready, hs⟩
      · cases hl
    · cases hl

/-- `Ended` with a value, in a form to be decided by evaluation. -/
theorem ended_of_eval {r : Run σ ι ε κ η α} {i t : Nat} {a : α}
    (eval : ((r.slot i t).bind Method.result?).bind Except.toOption = some a) :
    r.Ended i t (.ok a) := by
  obtain ⟨result, hresult, ha⟩ := Option.bind_eq_some_iff.mp eval
  obtain ⟨m, hslot, hm⟩ := Option.bind_eq_some_iff.mp hresult
  cases result with
  | error e => cases ha
  | ok b =>
    obtain rfl : b = a := Option.some.inj ha
    exact ⟨m, hslot, hm⟩

/-- `Ended` with a result that passes a test, in a form to be decided by evaluation. -/
theorem ended_of_passes {r : Run σ ι ε κ η α} {i t : Nat} {test : Except ε α → Bool}
    (eval : ((r.slot i t).bind Method.result?).any test = true) :
    ∃ result, test result = true ∧ r.Ended i t result := by
  cases hresult : (r.slot i t).bind Method.result? with
  | none =>
    rw [hresult] at eval
    cases eval
  | some result =>
    rw [hresult] at eval
    obtain ⟨m, hslot, hm⟩ := Option.bind_eq_some_iff.mp hresult
    exact ⟨result, eval, m, hslot, hm⟩

theorem CallsAt.schedule {r : Run σ ι ε κ η α} {i t : Nat} {l : κ} {x : Answer ι ε}
    (h : r.CallsAt i t l x) : r.schedule t = .advance i x := by
  obtain ⟨_, _, _, _, _, _, hs⟩ := h
  exact hs

/-- Only one request makes a call at a time. -/
theorem CallsAt.unique {r : Run σ ι ε κ η α} {i j t : Nat} {l l' : κ} {x y : Answer ι ε}
    (h : r.CallsAt i t l x) (h' : r.CallsAt j t l' y) : i = j ∧ l = l' ∧ x = y := by
  have same := h.schedule.symm.trans h'.schedule
  injection same with hij hxy
  subst hij
  obtain ⟨_, c, k, hslot, rfl, _, _⟩ := h
  obtain ⟨_, c', k', hslot', rfl, _, _⟩ := h'
  have hm := Option.some.inj (hslot.symm.trans hslot')
  injection hm with hβ hc hk
  subst hβ
  cases eq_of_heq hc
  exact ⟨rfl, rfl, hxy⟩

/-- What one moment of a run can do to the state. -/
theorem state_cases (r : Run σ ι ε κ η α) (t : Nat) :
    (r.state (t + 1) = r.state t ∧ (∀ i l x, ¬r.CallsAt i t l x) ∧
        ∀ a, r.schedule t ≠ .outside a) ∨
      (∃ a, r.schedule t = .outside a ∧ r.state (t + 1) = r.outside a (r.state t)) ∨
      ∃ i l x, r.CallsAt i t l x := by
  have hstep : r.config (t + 1) = r.step (r.config t) (r.schedule t) := rfl
  cases hs : r.schedule t with
  | outside a =>
    refine .inr (.inl ⟨a, rfl, ?_⟩)
    simp only [state, hstep, hs, step]
  | begin i =>
    refine .inl ⟨?_, fun j l x h => ?_, by simp⟩
    · simp only [state, hstep, hs, step]
      split <;> rfl
    · simp [h.schedule] at hs
  | turn i b =>
    refine .inl ⟨?_, fun j l x h => ?_, by simp⟩
    · simp only [state, hstep, hs, step]
      split <;> rfl
    · simp [h.schedule] at hs
  | advance i x =>
    by_cases hc : ∃ l, r.CallsAt i t l x
    · obtain ⟨l, hl⟩ := hc
      exact .inr (.inr ⟨i, l, x, hl⟩)
    · refine .inl ⟨?_, fun j l y h => ?_, by simp⟩
      · simp only [state, hstep, hs, step]
        split
        · next c k hslot =>
          split
          · next hready => exact absurd ⟨c.label, _, c, k, hslot, rfl, hready, hs⟩ hc
          · rfl
        · rfl
      · have same := h.schedule.symm.trans hs
        injection same with hj hy
        exact hc ⟨l, hj ▸ hy ▸ h⟩

/-- What one moment of a run can do to one request. -/
theorem slot_cases (r : Run σ ι ε κ η α) (i t : Nat) :
    r.slot i (t + 1) = r.slot i t ∧ (∀ l x, ¬r.CallsAt i t l x) ∨
      r.Begins i t ∧ r.slot i (t + 1) = some (r.requests i) ∨
      (∃ k b, r.slot i t = some (.either k) ∧ r.slot i (t + 1) = some (k b) ∧
        r.schedule t = .turn i b) ∨
      ∃ (β : Type) (c : Call σ ι ε κ β) (k : Except ε β → Method σ ι ε κ α)
        (x : Answer ι ε), r.slot i t = some (.await c k) ∧ c.ready (r.state t) = true ∧
          r.schedule t = .advance i x ∧ r.state (t + 1) = (c.answer x (r.state t)).2 ∧
          r.slot i (t + 1) = some (k (c.answer x (r.state t)).1) := by
  have hstep : r.config (t + 1) = r.step (r.config t) (r.schedule t) := rfl
  cases hs : r.schedule t with
  | outside a =>
    refine .inl ⟨by simp only [slot, hstep, hs, step], fun l x h => ?_⟩
    simp [h.schedule] at hs
  | begin j =>
    cases hslot : (r.config t).slot j with
    | some m =>
      refine .inl ⟨by simp only [slot, hstep, hs, step, hslot], fun l x h => ?_⟩
      simp [h.schedule] at hs
    | none =>
      by_cases hij : i = j
      · subst hij
        refine .inr (.inl ⟨⟨hs, hslot⟩, ?_⟩)
        simp only [slot, hstep, hs, step, hslot, Function.update_self]
      · refine .inl ⟨?_, fun l x h => ?_⟩
        · simp only [slot, hstep, hs, step, hslot, Function.update_of_ne hij]
        · simp [h.schedule] at hs
  | turn j b =>
    cases hslot : (r.config t).slot j with
    | none =>
      refine .inl ⟨by simp only [slot, hstep, hs, step, hslot], fun l x h => ?_⟩
      simp [h.schedule] at hs
    | some m =>
      by_cases hk : ∃ k, m = .either k ∧ i = j
      · obtain ⟨k, rfl, rfl⟩ := hk
        refine .inr (.inr (.inl ⟨k, b, hslot, ?_, rfl⟩))
        simp only [slot, hstep, hs, step, hslot, Function.update_self]
      · refine .inl ⟨?_, fun l x h => ?_⟩
        · simp only [slot, hstep, hs, step, hslot]
          cases m with
          | either k =>
            have hij : i ≠ j := fun h => hk ⟨k, rfl, h⟩
            simp only [Function.update_of_ne hij]
          | _ => rfl
        · simp [h.schedule] at hs
  | advance j x =>
    by_cases hc : ∃ l, r.CallsAt j t l x
    · obtain ⟨l, β, c, k, hslot, -, hready, -⟩ := hc
      have hslot' : (r.config t).slot j = some (.await c k) := hslot
      have hready' : c.ready (r.config t).state = true := hready
      by_cases hij : i = j
      · subst hij
        refine .inr (.inr (.inr ⟨β, c, k, x, hslot, hready, rfl, ?_, ?_⟩))
        · simp only [state, hstep, hs, step, hslot', hready', if_true]
        · simp only [slot, state, hstep, hs, step, hslot', hready', if_true,
            Function.update_self]
      · refine .inl ⟨?_, fun l x h => ?_⟩
        · simp only [slot, hstep, hs, step, hslot', hready', if_true,
            Function.update_of_ne hij]
        · have same := h.schedule.symm.trans hs
          injection same with hi _
          exact hij hi
    · refine .inl ⟨?_, fun l y h => ?_⟩
      · simp only [slot, hstep, hs, step]
        split
        · next c k hslot =>
          split
          · next hready => exact absurd ⟨c.label, _, c, k, hslot, rfl, hready, hs⟩ hc
          · rfl
        · rfl
      · have same := h.schedule.symm.trans hs
        injection same with hi hy
        exact hc ⟨l, hi ▸ hy ▸ h⟩

end Run

namespace Run

/-- From `t` to `u` request `i` makes no call. -/
def Quiet (r : Run σ ι ε κ η α) (i t u : Nat) : Prop :=
  t ≤ u ∧ ∀ v, t ≤ v → v < u → ∀ l x, ¬r.CallsAt i v l x

theorem Quiet.refl (r : Run σ ι ε κ η α) (i t : Nat) : r.Quiet i t t :=
  ⟨le_rfl, fun _ htv hvt => absurd (htv.trans_lt hvt) (lt_irrefl t)⟩

theorem Quiet.trans {r : Run σ ι ε κ η α} {i t u v : Nat} (h : r.Quiet i t u)
    (h' : r.Quiet i u v) : r.Quiet i t v := by
  refine ⟨h.1.trans h'.1, fun w htw hwv => ?_⟩
  by_cases hwu : w < u
  · exact h.2 w htw hwu
  · exact h'.2 w (not_lt.mp hwu) hwv

theorem Quiet.next {r : Run σ ι ε κ η α} {i t : Nat} (h : ∀ l x, ¬r.CallsAt i t l x) :
    r.Quiet i t (t + 1) := by
  refine ⟨Nat.le_succ t, fun v htv hvt => ?_⟩
  obtain rfl : v = t := by omega
  exact h

/-- At `u` request `i` made its last call before `v`. -/
def LastCall (r : Run σ ι ε κ η α) (i u v : Nat) : Prop :=
  u < v ∧ (∃ l x, r.CallsAt i u l x) ∧ r.Quiet i (u + 1) v

theorem LastCall.unique {r : Run σ ι ε κ η α} {i u u' v : Nat} (h : r.LastCall i u v)
    (h' : r.LastCall i u' v) : u = u' := by
  obtain ⟨before, ⟨l, x, called⟩, -, quiet⟩ := h
  obtain ⟨before', ⟨l', x', called'⟩, -, quiet'⟩ := h'
  rcases Nat.lt_trichotomy u u' with earlier | same | later
  · exact absurd called' (quiet u' earlier before' l' x')
  · exact same
  · exact absurd called (quiet' u later before l x)

/-- A request that has not begun has made no call. -/
theorem not_callsAt_of_slot {r : Run σ ι ε κ η α} {i t : Nat} (unbegun : r.slot i t = none) :
    ∀ s, s ≤ t → ∀ l x, ¬r.CallsAt i s l x := by
  have earlier : ∀ d, r.slot i (t - d) = none := by
    intro d
    induction d with
    | zero => exact unbegun
    | succ d ih =>
      by_cases start : t ≤ d
      · rwa [show t - (d + 1) = t - d by omega]
      · rw [show t - d = t - (d + 1) + 1 by omega] at ih
        rcases r.slot_cases i (t - (d + 1)) with ⟨same, -⟩ | ⟨-, new⟩ | ⟨k, b, -, new, -⟩ |
          ⟨β, c, k, x, -, -, -, -, new⟩
        · rw [← same, ih]
        all_goals
          rw [ih] at new
          cases new
  intro s hs l x called
  have unbegun : r.slot i s = none := by
    have := earlier (t - s)
    rwa [show t - (t - s) = s by omega] at this
  obtain ⟨β, c, k, hslot, -⟩ := called
  rw [unbegun] at hslot
  cases hslot

/-- Request `i` in a run: it relies on making no calls of its own meanwhile. -/
def setting (r : Run σ ι ε κ η α) (i : Nat) (inv : Nat → Prop) : Setting σ ι ε κ Nat where
  state := r.state
  rely := r.Quiet i
  inv := inv
  answers := fun l x u v => r.CallsAt i u l x ∧ v = u + 1
  refl := Quiet.refl r i
  trans := Quiet.trans

/-- The same, relying on nothing but the order of time. -/
def anytime (r : Run σ ι ε κ η α) (i : Nat) (inv : Nat → Prop) : Setting σ ι ε κ Nat :=
  { r.setting i inv with rely := (· ≤ ·), refl := le_refl, trans := le_trans }

theorem anytime_passing {r : Run σ ι ε κ η α} {i : Nat} {inv : Nat → Prop} (l : κ)
    (x : Answer ι ε) (u v : Nat) (h : (r.anytime i inv).answers l x u v) :
    (r.anytime i inv).rely u v := by
  obtain ⟨-, rfl⟩ := h
  exact Nat.le_succ u

theorem safe_of_anytime {r : Run σ ι ε κ η α} {i : Nat} {inv : Nat → Prop}
    {m : Method σ ι ε κ β} {Q : Except ε β → Nat → Prop} {t : Nat}
    (safe : Safe (r.anytime i inv) m Q t) : Safe (r.setting i inv) m Q t :=
  Safe.relyMore (fun _ _ h => h.1) safe

/-- A request ends no earlier than it began. -/
theorem safe_after {r : Run σ ι ε κ η α} {i : Nat} {inv : Nat → Prop} {m : Method σ ι ε κ β}
    {Q : Except ε β → Nat → Prop} {s t : Nat} (hst : s ≤ t) (safe : Safe (r.setting i inv) m Q t) :
    Safe (r.setting i inv) m (fun res u => Q res u ∧ s ≤ u) t := by
  induction m generalizing t with
  | done a => exact fun u htu hu => ⟨safe u htu hu, hst.trans htu.1⟩
  | fail e => exact fun u htu hu => ⟨safe u htu hu, hst.trans htu.1⟩
  | await c k ih =>
    intro u v x htu hu hanswer hready hnext
    obtain ⟨kept, rest⟩ := safe u v x htu hu hanswer hready hnext
    have later : v = u + 1 := hanswer.2
    exact ⟨kept, ih _ ((hst.trans htu.1).trans (by omega)) rest⟩
  | either k ih => exact fun b => ih b hst (safe b)

/-- Requests that are safe from the moment they begin keep the invariant of the run, and
each of them ends as promised. -/
theorem safe {r : Run σ ι ε κ η α} {inv : Nat → Prop} {Q : Nat → Except ε α → Nat → Prop}
    (start : inv 0)
    (silent : ∀ t, inv t → r.state (t + 1) = r.state t → (∀ i l x, ¬r.CallsAt i t l x) →
      inv (t + 1))
    (outside : ∀ t a, inv t → r.schedule t = .outside a →
      r.state (t + 1) = r.outside a (r.state t) → inv (t + 1))
    (requests : ∀ i t, r.Begins i t → inv t → inv (t + 1) →
      Safe (r.setting i inv) (r.requests i) (Q i) (t + 1)) :
    ∀ t, inv t ∧ ∀ i m, r.slot i t = some m → Safe (r.setting i inv) m (Q i) t := by
  intro t
  induction t with
  | zero => exact ⟨start, fun i m h => by cases h⟩
  | succ t ih =>
    obtain ⟨hinv, hslots⟩ := ih
    have kept : inv (t + 1) := by
      rcases r.state_cases t with ⟨same, quiet, -⟩ | ⟨a, hs, next⟩ | ⟨i, l, x, hcall⟩
      · exact silent t hinv same quiet
      · exact outside t a hinv hs next
      · rcases r.slot_cases i t with ⟨_, quiet⟩ | ⟨⟨hb, _⟩, _⟩ | ⟨k', b, hk, _, hturn⟩ |
          ⟨β, c, k, y, hslot, hready, hs, next, _⟩
        · exact absurd hcall (quiet l x)
        · simp [hcall.schedule] at hb
        · simp [hcall.schedule] at hturn
        · have own : r.CallsAt i t c.label y := ⟨β, c, k, hslot, rfl, hready, hs⟩
          exact (hslots i _ hslot t (t + 1) y (Quiet.refl r i t) hinv ⟨own, rfl⟩ hready next).1
    refine ⟨kept, fun i m hm => ?_⟩
    rcases r.slot_cases i t with ⟨same, quiet⟩ | ⟨hbegin, hnew⟩ | ⟨k, b, hk, hnew, hturn⟩ |
      ⟨β, c, k, x, hslot, hready, hs, next, hnew⟩
    · exact (hslots i m (same ▸ hm)).later (Quiet.next quiet)
    · obtain rfl : r.requests i = m := Option.some.inj (hnew.symm.trans hm)
      exact requests i t hbegin hinv kept
    · obtain rfl : k b = m := Option.some.inj (hnew.symm.trans hm)
      have quiet : ∀ l x, ¬r.CallsAt i t l x := fun l x h => by
        simp [h.schedule] at hturn
      exact (hslots i _ hk b).later (Quiet.next quiet)
    · obtain rfl := Option.some.inj (hnew.symm.trans hm)
      have hcall : r.CallsAt i t c.label x := ⟨β, c, k, hslot, rfl, hready, hs⟩
      exact (hslots i _ hslot t (t + 1) x (Quiet.refl r i t) hinv ⟨hcall, rfl⟩ hready next).2

/-- What `Run.safe` says of a request that has ended. -/
theorem Ended.post {r : Run σ ι ε κ η α} {i t : Nat} {inv : Nat → Prop}
    {Q : Except ε α → Nat → Prop} {result : Except ε α} (ended : r.Ended i t result)
    (hinv : inv t) (safe : ∀ m, r.slot i t = some m → Safe (r.setting i inv) m Q t) :
    Q result t := by
  obtain ⟨m, hslot, hres⟩ := ended
  have hm := safe m hslot
  cases m with
  | done a =>
    cases hres
    exact hm t (Quiet.refl r i t) hinv
  | fail e =>
    cases hres
    exact hm t (Quiet.refl r i t) hinv
  | await c k => cases hres
  | either k => cases hres

end Run

end GuitarCoach.Async
