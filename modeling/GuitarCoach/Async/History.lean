/- digest: Histories of calls served one after the other, and calls whose effects commute. -/

import GuitarCoach.Async.Sequential

/-!
A history serves its calls one at a time, each alone and to its end; between two of them the
surroundings may move. Each call has a mode, which says how the environment treats it.

`History.refines` compares two services on the same calls: what each call of the first does,
seen through a function of the state, the second does too.
-/

set_option autoImplicit false
set_option relaxedAutoImplicit false

namespace GuitarCoach.Async

variable {σ ι ε κ α β γ : Type}

/-! ### Effects that commute -/

section Commute

variable {allowed : Policy σ ι ε κ} {m : Method σ ι ε κ α} {s s' : σ}

/-- A change of state that every call of the method passes by can be made before the method
as well as after it. -/
theorem Ends.commute {f : σ → σ} {r : Except ε α}
    (may : ∀ l s x, allowed l s x → allowed l (f s) x)
    (calls : m.Calls fun c => ∀ x s, c.answer x (f s) = ((c.answer x s).1, f (c.answer x s).2))
    (run : Ends allowed m s r s') : Ends allowed m (f s) r (f s') := by
  induction run with
  | done a s => exact .done a _
  | fail e s => exact .fail e _
  | @await β c k s s' r x hx rest ih =>
    have step := calls.1 x s
    have later := ih (calls.2 _)
    apply Ends.await x (may _ _ _ hx)
    rw [step]
    exact later
  | either b rest ih => exact .either b (ih (calls b))

theorem wp_commute {f : σ → σ} {Q : Except ε α → σ → Prop}
    (may : ∀ l s x, allowed l (f s) x → allowed l s x)
    (calls : m.Calls fun c => ∀ x s, c.answer x (f s) = ((c.answer x s).1, f (c.answer x s).2))
    (h : wp allowed m (fun r t => Q r (f t)) s) : wp allowed m Q (f s) := by
  induction m generalizing s with
  | done a => exact h
  | fail e => exact h
  | await c k ih =>
    intro x hx
    have step := calls.1 x s
    rw [step]
    exact ih _ (calls.2 _) (h x (may _ _ _ hx))
  | either k ih => exact fun b => ih b (calls b) (h b)

/-- `Promise.all` of one call and a method it commutes with: whenever the call is answered, it
is as if it were answered last. -/
theorem wp_par_await {c : Call σ ι ε κ γ} {a : α} {q : Method σ ι ε κ β}
    {Q : Except ε (α × β) → σ → Prop}
    (passes : ∀ x l s y, allowed l (c.answer x s).2 y → allowed l s y)
    (steady : ∀ x s t, allowed c.label s x → allowed c.label t x)
    (calls : ∀ x, q.Calls fun d => ∀ y s,
      d.answer y (c.answer x s).2 = ((d.answer y s).1, (c.answer x (d.answer y s).2).2))
    (h : wp allowed q (onOk
      (fun b t => ∀ x, allowed c.label t x → Q (.ok (a, b)) (c.answer x t).2)
      fun e t => Q (.error e) t ∧ ∀ x, allowed c.label t x → Q (.error e) (c.answer x t).2) s) :
    wp allowed (Method.par (.await c fun _ => .done a) q) Q s := by
  rw [Method.par]
  induction q generalizing s with
  | done b => exact h
  | fail e => exact h.1
  | await d l ih =>
    rw [Method.parRight]
    intro side
    cases side with
    | false =>
      intro y hy
      exact ih _ (fun x => (calls x).2 _) (h y hy)
    | true =>
      intro x hx
      -- the call is answered first: move it behind what is left of the method
      have after : wp allowed (.await d l) (fun r t => onOk (fun b => Q (.ok (a, b)))
          (fun e => Q (.error e)) r (c.answer x t).2) s := by
        refine wp_mono h fun r t ht => ?_
        cases r with
        | ok b => exact ht x (steady x s t hx)
        | error e => exact ht.2 x (steady x s t hx)
      have before := wp_commute (fun l s y => passes x l s y) (calls x) after
      show wp allowed ((Method.await d l).bind fun b => .done (a, b)) Q (c.answer x s).2
      rw [wp_bind]
      exact before
  | either l ih => exact fun b => ih b (fun x => calls x b) (h b)

end Commute

/-! ### Histories -/

variable {θ ϱ : Type} {Res : ϱ → Type}

/-- A call that was served: how the environment treated it, its result, and the state before
and after it. -/
structure Served (σ ε θ : Type) (Res : ϱ → Type) where
  mode : θ
  request : ϱ
  result : Except ε (Res request)
  before : σ
  after : σ

/-- The same call on states seen through a function. -/
def Served.through (f : σ → σ) (c : Served σ ε θ Res) : Served σ ε θ Res :=
  { c with before := f c.before, after := f c.after }

/-- The states before and after each call, in their order. -/
def states (calls : List (Served σ ε θ Res)) : List σ :=
  calls.flatMap fun c => [c.before, c.after]

inductive History (run : (q : ϱ) → Method σ ι ε κ (Res q)) (policy : θ → Policy σ ι ε κ)
    (between : σ → σ → Prop) (start : σ) : List (Served σ ε θ Res) → σ → Prop
  | idle : History run policy between start [] start
  | serve {past : List (Served σ ε θ Res)} {s s' : σ} (mode : θ) (request : ϱ)
      (result : Except ε (Res request)) (sofar : History run policy between start past s)
      (ends : Ends (policy mode) (run request) s result s') :
      History run policy between start (past ++ [⟨mode, request, result, s, s'⟩]) s'
  | pause {past : List (Served σ ε θ Res)} {s s' : σ}
      (sofar : History run policy between start past s) (moves : between s s') :
      History run policy between start past s'

section History

variable {run run' : (q : ϱ) → Method σ ι ε κ (Res q)} {policy policy' : θ → Policy σ ι ε κ}
  {between between' : σ → σ → Prop} {start s : σ} {calls : List (Served σ ε θ Res)}

/-- Each call of a history ended as its service can end. -/
theorem History.ends (history : History run policy between start calls s) :
    ∀ c ∈ calls, Ends (policy c.mode) (run c.request) c.before c.result c.after := by
  induction history with
  | idle => exact fun c hc => absurd hc List.not_mem_nil
  | serve mode request result sofar ends ih =>
    intro c hc
    rcases List.mem_append.mp hc with hc | hc
    · exact ih c hc
    · rw [List.mem_singleton.mp hc]
      exact ends
  | pause sofar moves ih => exact ih

/-- If each served call that meets a condition keeps an invariant and is, seen through `f`, a
call of another service with the same result, then so is the whole history. -/
theorem History.refines (f : σ → σ) (inv : σ → Prop) (meets : Served σ ε θ Res → Prop)
    (serves : ∀ c, inv c.before → meets c →
      Ends (policy c.mode) (run c.request) c.before c.result c.after →
      inv c.after ∧ Ends (policy' c.mode) (run' c.request) (f c.before) c.result (f c.after))
    (moves : ∀ s s', inv s → between s s' → inv s' ∧ between' (f s) (f s'))
    (init : inv start) (history : History run policy between start calls s)
    (all : ∀ c ∈ calls, meets c) :
    inv s ∧ History run' policy' between' (f start) (calls.map (Served.through f)) (f s) := by
  induction history with
  | idle => exact ⟨init, .idle⟩
  | serve mode request result sofar ends ih =>
    obtain ⟨hinv, hpast⟩ := ih fun c hc => all c (List.mem_append_left _ hc)
    have hlast := all _ (List.mem_append_right _ (List.mem_singleton_self _))
    obtain ⟨hnext, hends⟩ := serves ⟨mode, request, result, _, _⟩ hinv hlast ends
    refine ⟨hnext, ?_⟩
    rw [List.map_append]
    exact .serve mode request result hpast hends
  | pause sofar between ih =>
    obtain ⟨hinv, hpast⟩ := ih all
    obtain ⟨hnext, hmoves⟩ := moves _ _ hinv between
    exact ⟨hnext, .pause hpast hmoves⟩

/-- The state after a call lies before the state in which a later one starts. -/
theorem after_before {le : σ → σ → Prop} {past middle rest : List (Served σ ε θ Res)}
    {c d : Served σ ε θ Res} (sorted : (states calls).Pairwise le)
    (split : calls = past ++ c :: (middle ++ d :: rest)) : le c.after d.before := by
  have hstates : states calls = states past ++ c.before :: c.after ::
      (states middle ++ d.before :: d.after :: states rest) := by
    simp [split, states]
  rw [hstates] at sorted
  have fromCall := (List.pairwise_append.mp sorted).2.1
  have fromAfter := (List.pairwise_cons.mp fromCall).2
  exact (List.pairwise_cons.mp fromAfter).1 d.before (by simp)

/-- If each served call that meets a condition keeps an invariant and moves the state up in a
preorder, then so does the whole history. -/
theorem History.ordered (le : σ → σ → Prop) (inv : σ → Prop) (meets : Served σ ε θ Res → Prop)
    (refl : ∀ s, le s s) (trans : ∀ {s t u}, le s t → le t u → le s u)
    (serves : ∀ c, inv c.before → meets c →
      Ends (policy c.mode) (run c.request) c.before c.result c.after →
      inv c.after ∧ le c.before c.after)
    (moves : ∀ s s', inv s → between s s' → inv s' ∧ le s s')
    (init : inv start) (history : History run policy between start calls s)
    (all : ∀ c ∈ calls, meets c) :
    inv s ∧ (∀ c ∈ calls, inv c.before) ∧ (states calls).Pairwise le ∧
      ∀ t ∈ states calls, le t s := by
  induction history with
  | idle => exact ⟨init, by simp, by simp [states], by simp [states]⟩
  | @serve past t t' mode request result sofar ends ih =>
    obtain ⟨hinv, hpast, sorted, below⟩ := ih fun c hc => all c (List.mem_append_left _ hc)
    have hlast := all _ (List.mem_append_right _ (List.mem_singleton_self _))
    obtain ⟨hnext, hle⟩ := serves ⟨mode, request, result, _, _⟩ hinv hlast ends
    have hstates : states (past ++ [⟨mode, request, result, t, t'⟩]) = states past ++ [t, t'] := by
      simp [states]
    refine ⟨hnext, ?_, ?_, ?_⟩
    · intro c hc
      rcases List.mem_append.mp hc with hc | hc
      · exact hpast c hc
      · rw [List.mem_singleton.mp hc]
        exact hinv
    · rw [hstates]
      refine List.pairwise_append.mpr ⟨sorted, by simpa using hle, ?_⟩
      intro u hu v hv
      have hut := below u hu
      simp only [List.mem_cons, List.not_mem_nil, or_false] at hv
      rcases hv with rfl | rfl
      · exact hut
      · exact trans hut hle
    · rw [hstates]
      intro u hu
      simp only [List.mem_append, List.mem_cons, List.not_mem_nil, or_false] at hu
      rcases hu with hu | rfl | rfl
      · exact trans (below u hu) hle
      · exact hle
      · exact refl _
  | pause sofar between ih =>
    obtain ⟨hinv, hpast, sorted, below⟩ := ih all
    obtain ⟨hnext, hle⟩ := moves _ _ hinv between
    exact ⟨hnext, hpast, sorted, fun u hu => trans (below u hu) hle⟩

end History

end GuitarCoach.Async
