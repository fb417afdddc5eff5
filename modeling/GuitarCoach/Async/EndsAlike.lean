/- digest: Two methods in two states that can end alike, and the rules for comparing them. -/

import GuitarCoach.Async.Sequential

/-!
`EndsAlike` compares what two methods can do, each alone in a state of its own: every result that
one of them can have the other can have, and the states they leave are related. How many calls they
make on the way may differ. The rules follow the way methods are written.
-/

set_option autoImplicit false
set_option relaxedAutoImplicit false

namespace GuitarCoach.Async

variable {σ ι ε κ α β : Type}

/-- However the first method ends in the first state, the second can end with the same result in
the second state. -/
def EndsAs (allowed : Policy σ ι ε κ) (m n : Method σ ι ε κ α) (Q : Except ε α → σ × σ → Prop)
    (p : σ × σ) : Prop :=
  wp allowed m (fun r s => ∃ t, Ends allowed n p.2 r t ∧ Q r (s, t)) p.1

/-- Each of the two methods can end as the other does. -/
structure EndsAlike (allowed : Policy σ ι ε κ) (m n : Method σ ι ε κ α)
    (Q : Except ε α → σ × σ → Prop) (p : σ × σ) : Prop where
  forth : EndsAs allowed m n Q p
  back : EndsAs allowed n m (fun r q => Q r q.swap) p.swap

section Rules

variable {allowed : Policy σ ι ε κ} {m n : Method σ ι ε κ α} {Q Q' : Except ε α → σ × σ → Prop}
  {p : σ × σ}

theorem EndsAs.ends {r : Except ε α} {s : σ} (follows : EndsAs allowed m n Q p)
    (run : Ends allowed m p.1 r s) : ∃ t, Ends allowed n p.2 r t ∧ Q r (s, t) :=
  wp_ends follows run

theorem EndsAs.weaken (follows : EndsAs allowed m n Q p) (weaker : ∀ r q, Q r q → Q' r q) :
    EndsAs allowed m n Q' p := by
  refine wp_mono follows fun r s h => ?_
  obtain ⟨t, run, post⟩ := h
  exact ⟨t, run, weaker r _ post⟩

theorem EndsAs.bind {f g : α → Method σ ι ε κ β} {P : Except ε β → σ × σ → Prop}
    (follows : EndsAs allowed m n
      (onOk (fun a => EndsAs allowed (f a) (g a) P) fun e => P (.error e)) p) :
    EndsAs allowed (m.bind f) (n.bind g) P p := by
  unfold EndsAs
  rw [wp_bind]
  refine wp_mono follows fun r s h => ?_
  obtain ⟨t, run, post⟩ := h
  cases r with
  | ok a =>
    refine wp_mono post fun r' s' h' => ?_
    obtain ⟨t', run', post'⟩ := h'
    exact ⟨t', run.bind run', post'⟩
  | error e => exact ⟨t, run.bind_error, post⟩

theorem EndsAs.handle {h k : ε → Method σ ι ε κ α}
    (follows : EndsAs allowed m n
      (onOk (fun a => Q (.ok a)) fun e => EndsAs allowed (h e) (k e) Q) p) :
    EndsAs allowed (m.handle h) (n.handle k) Q p := by
  unfold EndsAs
  rw [wp_handle]
  refine wp_mono follows fun r s there => ?_
  obtain ⟨t, run, post⟩ := there
  cases r with
  | ok a => exact ⟨t, run.handle_ok, post⟩
  | error e =>
    refine wp_mono post fun r' s' h' => ?_
    obtain ⟨t', run', post'⟩ := h'
    exact ⟨t', run.handle_error run', post'⟩

/-- Both make the same call; whatever answer the first gets, some answer lets the second go on. -/
theorem EndsAs.await {c : Call σ ι ε κ β} {k l : Except ε β → Method σ ι ε κ α}
    (step : ∀ x, allowed c.label p.1 x → ∃ y, allowed c.label p.2 y ∧
      EndsAs allowed (k (c.answer x p.1).1) (l (c.answer y p.2).1) Q
        ((c.answer x p.1).2, (c.answer y p.2).2)) :
    EndsAs allowed (.await c k) (.await c l) Q p := by
  intro x may
  obtain ⟨y, may', follows⟩ := step x may
  refine wp_mono follows fun r s h => ?_
  obtain ⟨t, run, post⟩ := h
  exact ⟨t, .await y may' run, post⟩

theorem EndsAlike.done {a : α} (post : Q (.ok a) p) : EndsAlike allowed (.done a) (.done a) Q p :=
  ⟨⟨p.2, .done a _, post⟩, ⟨p.1, .done a _, post⟩⟩

theorem EndsAlike.fail {e : ε} (post : Q (.error e) p) :
    EndsAlike allowed (.fail e) (.fail e) Q p :=
  ⟨⟨p.2, .fail e _, post⟩, ⟨p.1, .fail e _, post⟩⟩

theorem EndsAlike.weaken (alike : EndsAlike allowed m n Q p) (weaker : ∀ r q, Q r q → Q' r q) :
    EndsAlike allowed m n Q' p :=
  ⟨alike.forth.weaken weaker, alike.back.weaken fun r q => weaker r q.swap⟩

theorem EndsAlike.bind {f g : α → Method σ ι ε κ β} {P : Except ε β → σ × σ → Prop}
    (alike : EndsAlike allowed m n
      (onOk (fun a => EndsAlike allowed (f a) (g a) P) fun e => P (.error e)) p) :
    EndsAlike allowed (m.bind f) (n.bind g) P p where
  forth := EndsAs.bind (alike.forth.weaken fun r q h => by
    cases r with
    | ok a => exact EndsAlike.forth h
    | error e => exact h)
  back := EndsAs.bind (alike.back.weaken fun r q h => by
    cases r with
    | ok a => exact EndsAlike.back h
    | error e => exact h)

theorem EndsAlike.handle {h k : ε → Method σ ι ε κ α}
    (alike : EndsAlike allowed m n
      (onOk (fun a => Q (.ok a)) fun e => EndsAlike allowed (h e) (k e) Q) p) :
    EndsAlike allowed (m.handle h) (n.handle k) Q p where
  forth := EndsAs.handle (alike.forth.weaken fun r q h => by
    cases r with
    | ok a => exact h
    | error e => exact EndsAlike.forth h)
  back := EndsAs.handle (alike.back.weaken fun r q h => by
    cases r with
    | ok a => exact h
    | error e => exact EndsAlike.back h)

/-- Both make the same call, and what it may be answered it may be answered in both states. -/
theorem EndsAlike.await {c : Call σ ι ε κ β} {k l : Except ε β → Method σ ι ε κ α}
    (may : ∀ x, allowed c.label p.1 x ↔ allowed c.label p.2 x)
    (step : ∀ x, allowed c.label p.1 x → EndsAlike allowed (k (c.answer x p.1).1)
      (l (c.answer x p.2).1) Q ((c.answer x p.1).2, (c.answer x p.2).2)) :
    EndsAlike allowed (.await c k) (.await c l) Q p where
  forth := EndsAs.await fun x hx => ⟨x, (may x).mp hx, (step x hx).forth⟩
  back := EndsAs.await fun x hx => ⟨x, (may x).mpr hx, (step x ((may x).mpr hx)).back⟩

theorem EndsAlike.call {c : Call σ ι ε κ α}
    (may : ∀ x, allowed c.label p.1 x ↔ allowed c.label p.2 x)
    (same : ∀ x, allowed c.label p.1 x → (c.answer x p.2).1 = (c.answer x p.1).1 ∧
      Q (c.answer x p.1).1 ((c.answer x p.1).2, (c.answer x p.2).2)) :
    EndsAlike allowed (.call c) (.call c) Q p := by
  refine EndsAlike.await may fun x hx => ?_
  obtain ⟨result, post⟩ := same x hx
  rw [result]
  cases hr : (c.answer x p.1).1 with
  | ok a => exact .done (hr ▸ post)
  | error e => exact .fail (hr ▸ post)

/-- Each call is answered alike, and the answer changes both states alike. -/
theorem EndsAlike.of_calls {R : σ × σ → Prop}
    (calls : m.Calls fun c => ∀ x q, R q → (allowed c.label q.1 x ↔ allowed c.label q.2 x) ∧
      (allowed c.label q.1 x → (c.answer x q.2).1 = (c.answer x q.1).1 ∧
        R ((c.answer x q.1).2, (c.answer x q.2).2)))
    (related : R p) : EndsAlike allowed m m (fun _ => R) p := by
  induction m generalizing p with
  | done a => exact .done related
  | fail e => exact .fail related
  | await c k ih =>
    refine EndsAlike.await (fun x => (calls.1 x p related).1) fun x hx => ?_
    obtain ⟨same, next⟩ := (calls.1 x p related).2 hx
    rw [same]
    exact ih _ (calls.2 _) next
  | either k ih =>
    have branch : ∀ b, EndsAlike allowed (k b) (k b) (fun _ => R) p :=
      fun b => ih b (calls b) related
    constructor
    · intro b
      refine wp_mono (branch b).forth fun r s h => ?_
      obtain ⟨t, run, post⟩ := h
      exact ⟨t, .either b run, post⟩
    · intro b
      refine wp_mono (branch b).back fun r s h => ?_
      obtain ⟨t, run, post⟩ := h
      exact ⟨t, .either b run, post⟩

/-- Two comparisons with the same method and state in the middle. -/
theorem EndsAs.trans {l : Method σ ι ε κ α} {R : Except ε α → σ × σ → Prop} {s t u : σ}
    (first : EndsAs allowed l m Q (s, t)) (second : EndsAs allowed m n Q' (t, u))
    (both : ∀ r s t u, Q r (s, t) → Q' r (t, u) → R r (s, u)) : EndsAs allowed l n R (s, u) := by
  refine wp_mono first fun r s' h => ?_
  obtain ⟨t', run, post⟩ := h
  obtain ⟨u', run', post'⟩ := second.ends run
  exact ⟨u', run', both r s' t' u' post post'⟩

end Rules

end GuitarCoach.Async
