/- digest: A request that is the only one to write a part of the state, and its proof rules. -/

import GuitarCoach.Async.Guarantee

/-!
When nobody but one request changes what a function shows of the state, that request can be
followed through the part that the function shows, whatever happens to the rest of the state
between two of its calls. `wpPart` is the weakest precondition of a method on such a part.
-/

set_option autoImplicit false
set_option relaxedAutoImplicit false

namespace GuitarCoach.Async

variable {σ ι ε κ η α β τ : Type}

/-- Every way the method can end satisfies the postcondition, when all of the state but the
part may be another one at each of its calls. -/
def wpPart (part : σ → τ) : Method σ ι ε κ α → (Except ε α → τ → Prop) → τ → Prop
  | .done a, Q, p => Q (.ok a) p
  | .fail e, Q, p => Q (.error e) p
  | .await c k, Q, p =>
      ∀ x s, part s = p → wpPart part (k (c.answer x s).1) Q (part (c.answer x s).2)
  | .either k, Q, p => ∀ b, wpPart part (k b) Q p

section Rules

variable {part : σ → τ} {m : Method σ ι ε κ α} {Q Q' : Except ε α → τ → Prop} {p : τ}

theorem wpPart_mono (h : wpPart part m Q p) (weaken : ∀ r p, Q r p → Q' r p) :
    wpPart part m Q' p := by
  induction m generalizing p with
  | done a => exact weaken _ _ h
  | fail e => exact weaken _ _ h
  | await c k ih => exact fun x s hs => ih _ (h x s hs)
  | either k ih => exact fun b => ih b (h b)

theorem wpPart_call {c : Call σ ι ε κ α}
    (step : ∀ x s, part s = p → Q (c.answer x s).1 (part (c.answer x s).2)) :
    wpPart part (.call c) Q p := by
  intro x s hs
  have post := step x s hs
  generalize (c.answer x s).1 = r at post ⊢
  cases r with
  | ok a => exact post
  | error e => exact post

theorem wpPart_bind {f : α → Method σ ι ε κ β} {P : Except ε β → τ → Prop}
    (h : wpPart part m (onOk (fun a => wpPart part (f a) P) fun e => P (.error e)) p) :
    wpPart part (m.bind f) P p := by
  induction m generalizing p with
  | done a => exact h
  | fail e => exact h
  | await c k ih => exact fun x s hs => ih _ (h x s hs)
  | either k ih => exact fun b => ih b (h b)

theorem wpPart_handle {h : ε → Method σ ι ε κ α}
    (body : wpPart part m (onOk (fun a => Q (.ok a)) fun e => wpPart part (h e) Q) p) :
    wpPart part (m.handle h) Q p := by
  induction m generalizing p with
  | done a => exact body
  | fail e => exact body
  | await c k ih => exact fun x s hs => ih _ (body x s hs)
  | either k ih => exact fun b => ih b (body b)

/-- A method whose calls leave the part alone. -/
theorem wpPart_of_calls (calls : m.Calls fun c => ∀ x s, part (c.answer x s).2 = part s)
    (ended : ∀ r, Q r p) : wpPart part m Q p := by
  induction m with
  | done a => exact ended _
  | fail e => exact ended _
  | await c k ih =>
    intro x s hs
    rw [calls.1 x s, hs]
    exact ih _ (calls.2 _)
  | either k ih => exact fun b => ih b (calls b)

/-- A loop keeps an invariant about the part of the list it has gone through. -/
theorem wpPart_forM {f : α → Method σ ι ε κ PUnit} {P : Except ε PUnit → τ → Prop}
    (I : List α → τ → Prop) (xs : List α)
    (body : ∀ done a rest, xs = done ++ a :: rest → ∀ p, I done p →
      wpPart part (f a) (onOk (fun _ => I (done ++ [a])) fun e => P (.error e)) p)
    (finish : ∀ p, I xs p → P (.ok ⟨⟩) p) (start : I [] p) : wpPart part (xs.forM f) P p := by
  have loop : ∀ rest done p, xs = done ++ rest → I done p → wpPart part (rest.forM f) P p := by
    intro rest
    induction rest with
    | nil =>
      intro done p split inv
      obtain rfl : xs = done := by simpa using split
      exact finish p inv
    | cons a rest ih =>
      intro done p split inv
      refine wpPart_bind (f := fun _ => rest.forM f) ?_
      refine wpPart_mono (body done a rest split p inv) fun r p' h => ?_
      cases r with
      | ok u => exact ih (done ++ [a]) p' (by simpa using split) h
      | error e => exact h
  exact loop xs [] p rfl start

end Rules

namespace Run

/-- Nobody but request `i` changes the part. -/
structure SoleWriter (r : Run σ ι ε κ η α) (i : Nat) (part : σ → τ) : Prop where
  others : ∀ j t l x, j ≠ i → r.CallsAt j t l x → part (r.state (t + 1)) = part (r.state t)
  outside : ∀ a s, part (r.outside a s) = part s

variable {r : Run σ ι ε κ η α} {i : Nat} {part : σ → τ}

theorem soleWriter_of_calls
    (others : ∀ j, j ≠ i → (r.requests j).Calls fun c => ∀ x s, part (c.answer x s).2 = part s)
    (outside : ∀ a s, part (r.outside a s) = part s) : r.SoleWriter i part where
  others := by
    intro j t l x apart called
    have each : ∀ j, Guarantees (fun _ => True) (fun _ _ s s' => j ≠ i → part s' = part s)
        (r.requests j) fun _ => True := by
      intro j
      by_cases same : j = i
      · exact Guarantees.of_calls (Method.calls_of_forall
          fun c x s _ _ => ⟨trivial, fun apart => absurd same apart⟩)
      · exact Guarantees.of_calls (Method.Calls.mono
          (fun keeps x s _ _ => ⟨trivial, fun _ => keeps x s⟩) (others j same))
    exact (Run.guarantees trivial (fun _ _ _ => trivial) each t).2 j l x called apart
  outside := outside

theorem SoleWriter.silent (sole : r.SoleWriter i part) {t : Nat}
    (quiet : ∀ l x, ¬r.CallsAt i t l x) : part (r.state (t + 1)) = part (r.state t) := by
  rcases r.state_cases t with ⟨same, -, -⟩ | ⟨a, -, next⟩ | ⟨j, l, x, called⟩
  · rw [same]
  · rw [next, sole.outside]
  · refine sole.others j t l x ?_ called
    rintro rfl
    exact quiet l x called

/-- The only writer of a part ends as it does when it is followed through that part alone. -/
theorem SoleWriter.ended (sole : r.SoleWriter i part) {Q : Except ε α → τ → Prop}
    (spec : wpPart part (r.requests i) Q (part r.start)) {t : Nat} {result : Except ε α}
    (ended : r.Ended i t result) : Q result (part (r.state t)) := by
  have slots : ∀ t, (r.slot i t = none → part (r.state t) = part r.start) ∧
      ∀ m, r.slot i t = some m → wpPart part m Q (part (r.state t)) := by
    intro t
    induction t with
    | zero => exact ⟨fun _ => rfl, fun m h => by cases h⟩
    | succ t ih =>
      obtain ⟨unbegun, running⟩ := ih
      rcases r.slot_cases i t with ⟨same, quiet⟩ | ⟨⟨hbegin, hnone⟩, hnew⟩ |
        ⟨k, b, hk, hnew, hturn⟩ | ⟨β, c, k, x, hslot, -, -, next, hnew⟩
      · rw [sole.silent quiet, same]
        exact ⟨unbegun, running⟩
      · have quiet : ∀ l x, ¬r.CallsAt i t l x := fun l x h => by simp [h.schedule] at hbegin
        rw [sole.silent quiet, hnew, unbegun hnone]
        refine ⟨nofun, fun m hm => ?_⟩
        cases hm
        exact spec
      · have quiet : ∀ l x, ¬r.CallsAt i t l x := fun l x h => by simp [h.schedule] at hturn
        rw [sole.silent quiet, hnew]
        refine ⟨nofun, fun m hm => ?_⟩
        cases hm
        exact running _ hk b
      · rw [hnew, next]
        refine ⟨nofun, fun m hm => ?_⟩
        cases hm
        exact running _ hslot x _ rfl
  obtain ⟨m, hslot, hresult⟩ := ended
  have hm := (slots t).2 m hslot
  cases m with
  | done a =>
    cases hresult
    exact hm
  | fail e =>
    cases hresult
    exact hm
  | await c k => cases hresult
  | either k => cases hresult

end Run

end GuitarCoach.Async
