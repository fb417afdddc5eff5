/- digest: What a method guarantees of each of its calls while others keep an invariant. -/

import GuitarCoach.Async.Interleaving

/-!
Between two of its calls a method knows nothing of the state but the invariant that everybody
keeps. What it has read stays true only as far as it is a fact about the values it has read.
-/

set_option autoImplicit false
set_option relaxedAutoImplicit false

namespace GuitarCoach.Async

variable {σ ι ε κ η α β γ : Type}

/-- Each call of the method, made where the invariant holds, keeps it and is an event of the
promised kind; the method ends with a result of which `Q` holds. -/
def Guarantees (inv : σ → Prop) (event : κ → Answer ι ε → σ → σ → Prop) :
    Method σ ι ε κ α → (Except ε α → Prop) → Prop
  | .done a, Q => Q (.ok a)
  | .fail e, Q => Q (.error e)
  | .await c k, Q => ∀ x s, inv s → c.ready s = true →
      (inv (c.answer x s).2 ∧ event c.label x s (c.answer x s).2) ∧
        Guarantees inv event (k (c.answer x s).1) Q
  | .either k, Q => ∀ b, Guarantees inv event (k b) Q

section Rules

variable {inv : σ → Prop} {event : κ → Answer ι ε → σ → σ → Prop} {m : Method σ ι ε κ α}
  {Q Q' : Except ε α → Prop}

theorem Guarantees.weaken (h : Guarantees inv event m Q) (weaker : ∀ r, Q r → Q' r) :
    Guarantees inv event m Q' := by
  induction m with
  | done a => exact weaker _ h
  | fail e => exact weaker _ h
  | await c k ih => exact fun x s hs ready => ⟨(h x s hs ready).1, ih _ (h x s hs ready).2⟩
  | either k ih => exact fun b => ih b (h b)

theorem Guarantees.call {c : Call σ ι ε κ α}
    (step : ∀ x s, inv s → c.ready s = true →
      (inv (c.answer x s).2 ∧ event c.label x s (c.answer x s).2) ∧ Q (c.answer x s).1) :
    Guarantees inv event (.call c) Q := by
  intro x s hs ready
  obtain ⟨kept, post⟩ := step x s hs ready
  refine ⟨kept, ?_⟩
  generalize (c.answer x s).1 = r at post ⊢
  cases r with
  | ok a => exact post
  | error e => exact post

theorem Guarantees.bind {f : α → Method σ ι ε κ β} {P : Except ε β → Prop}
    (h : Guarantees inv event m Q) (ok : ∀ a, Q (.ok a) → Guarantees inv event (f a) P)
    (error : ∀ e, Q (.error e) → P (.error e)) : Guarantees inv event (m.bind f) P := by
  induction m with
  | done a => exact ok a h
  | fail e => exact error e h
  | await c k ih => exact fun x s hs ready => ⟨(h x s hs ready).1, ih _ (h x s hs ready).2⟩
  | either k ih => exact fun b => ih b (h b)

theorem Guarantees.handle {f : ε → Method σ ι ε κ α}
    (h : Guarantees inv event m Q) (ok : ∀ a, Q (.ok a) → Q' (.ok a))
    (error : ∀ e, Q (.error e) → Guarantees inv event (f e) Q') :
    Guarantees inv event (m.handle f) Q' := by
  induction m with
  | done a => exact ok a h
  | fail e => exact error e h
  | await c k ih => exact fun x s hs ready => ⟨(h x s hs ready).1, ih _ (h x s hs ready).2⟩
  | either k ih => exact fun b => ih b (h b)

/-- Calls of which nothing has to be remembered. -/
theorem Guarantees.of_calls
    (calls : m.Calls fun c => ∀ x s, inv s → c.ready s = true →
      inv (c.answer x s).2 ∧ event c.label x s (c.answer x s).2) :
    Guarantees inv event m fun _ => True := by
  induction m with
  | done a => trivial
  | fail e => trivial
  | await c k ih => exact fun x s hs ready => ⟨calls.1 x s hs ready, ih _ (calls.2 _)⟩
  | either k ih => exact fun b => ih b (calls b)

private theorem Guarantees.parRight {c : Call σ ι ε κ γ}
    {left : Except ε γ → Method σ ι ε κ β → Method σ ι ε κ (α × β)} {q : Method σ ι ε κ β}
    {P : Except ε β → Prop} {R : Except ε (α × β) → Prop}
    (right : ∀ e, P (.error e) → R (.error e))
    (hc : ∀ x s, inv s → c.ready s = true →
      (inv (c.answer x s).2 ∧ event c.label x s (c.answer x s).2) ∧
        ∀ q, Guarantees inv event q P → Guarantees inv event (left (c.answer x s).1 q) R)
    (hq : Guarantees inv event q P) : Guarantees inv event (Method.parRight c left q) R := by
  induction q with
  | done b => exact fun x s hs ready => ⟨(hc x s hs ready).1, (hc x s hs ready).2 _ hq⟩
  | fail e => exact right e hq
  | await d l ih =>
    rw [Method.parRight]
    intro side
    cases side with
    | true => exact fun x s hs ready => ⟨(hc x s hs ready).1, (hc x s hs ready).2 _ hq⟩
    | false => exact fun x s hs ready => ⟨(hq x s hs ready).1, ih _ (hq x s hs ready).2⟩
  | either l ih => exact fun b => ih b (hq b)

theorem Guarantees.par {p : Method σ ι ε κ α} {q : Method σ ι ε κ β} {P : Except ε β → Prop}
    {R : Except ε (α × β) → Prop} (both : ∀ a b, Q (.ok a) → P (.ok b) → R (.ok (a, b)))
    (left : ∀ e, Q (.error e) → R (.error e)) (right : ∀ e, P (.error e) → R (.error e))
    (hp : Guarantees inv event p Q) (hq : Guarantees inv event q P) :
    Guarantees inv event (Method.par p q) R := by
  induction p generalizing q with
  | done a => exact Guarantees.bind hq (fun b hb => both a b hp hb) right
  | fail e => exact left e hp
  | await c k ih =>
    refine Guarantees.parRight right (fun x s hs ready => ⟨(hp x s hs ready).1, ?_⟩) hq
    exact fun q hq => ih _ (hp x s hs ready).2 hq
  | either k ih => exact fun b => ih b (hp b) hq

end Rules

/-- In a run whose requests guarantee it and whose surroundings keep it, the invariant holds at
any time, and each call of each request is an event of its kind. -/
theorem Run.guarantees {r : Run σ ι ε κ η α} {inv : σ → Prop}
    {event : Nat → κ → Answer ι ε → σ → σ → Prop} (start : inv r.start)
    (outside : ∀ a s, inv s → inv (r.outside a s))
    (requests : ∀ i, Guarantees inv (event i) (r.requests i) fun _ => True) (t : Nat) :
    inv (r.state t) ∧
      ∀ i l x, r.CallsAt i t l x → event i l x (r.state t) (r.state (t + 1)) := by
  -- what is left of a request still guarantees it
  have slots : ∀ t, inv (r.state t) ∧ ∀ i m, r.slot i t = some m →
      Guarantees inv (event i) m fun _ => True := by
    intro t
    induction t with
    | zero => exact ⟨start, fun i m h => by cases h⟩
    | succ t ih =>
      obtain ⟨hinv, hslots⟩ := ih
      constructor
      · rcases r.state_cases t with ⟨same, -, -⟩ | ⟨a, -, next⟩ | ⟨i, l, x, hcall⟩
        · rw [same]
          exact hinv
        · rw [next]
          exact outside a _ hinv
        · rcases r.slot_cases i t with ⟨-, quiet⟩ | ⟨⟨hb, -⟩, -⟩ | ⟨k, b, -, -, hturn⟩ |
            ⟨β, c, k, y, hslot, hready, -, next, -⟩
          · exact absurd hcall (quiet l x)
          · simp [hcall.schedule] at hb
          · simp [hcall.schedule] at hturn
          · rw [next]
            exact (hslots i _ hslot y _ hinv hready).1.1
      · intro i m hm
        rcases r.slot_cases i t with ⟨same, -⟩ | ⟨-, hnew⟩ | ⟨k, b, hk, hnew, -⟩ |
          ⟨β, c, k, x, hslot, hready, -, -, hnew⟩
        · exact hslots i m (same ▸ hm)
        · obtain rfl := Option.some.inj (hnew.symm.trans hm)
          exact requests i
        · obtain rfl := Option.some.inj (hnew.symm.trans hm)
          exact hslots i _ hk b
        · obtain rfl := Option.some.inj (hnew.symm.trans hm)
          exact (hslots i _ hslot x _ hinv hready).2
  obtain ⟨hinv, hslots⟩ := slots t
  refine ⟨hinv, ?_⟩
  rintro i l x ⟨β, c, k, hslot, rfl, hready, hs⟩
  rcases r.slot_cases i t with ⟨-, quiet⟩ | ⟨⟨hb, -⟩, -⟩ | ⟨k', b, -, -, hturn⟩ |
    ⟨β', c', k', y, hslot', -, hs', next, -⟩
  · exact absurd ⟨β, c, k, hslot, rfl, hready, hs⟩ (quiet c.label x)
  · simp [hs] at hb
  · simp [hs] at hturn
  · have same := Option.some.inj (hslot.symm.trans hslot')
    injection same with hβ hc hk
    subst hβ
    cases eq_of_heq hc
    have answer := hs.symm.trans hs'
    injection answer with _ hxy
    rw [next, ← hxy]
    exact (hslots i _ hslot x _ hinv hready).1.2

end GuitarCoach.Async
