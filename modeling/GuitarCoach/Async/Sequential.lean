/- digest: One method at a time: big-step runs, weakest preconditions and their rules. -/

import GuitarCoach.Async.Method

/-!
A method that runs alone sees only its own calls. `Ends` is its big-step behaviour under a
policy of what the environment may answer; `wp` is the matching weakest precondition, and
its rules follow the way a method is written.
-/

set_option autoImplicit false
set_option relaxedAutoImplicit false

namespace GuitarCoach.Async

variable {σ ι ε κ α β : Type}

/-- What the environment may answer to a call with this label in this state. -/
abbrev Policy (σ ι ε κ : Type) := κ → σ → Answer ι ε → Prop

/-- The method, started alone in the first state, ends with this result in the second. -/
inductive Ends (allowed : Policy σ ι ε κ) {α : Type} :
    Method σ ι ε κ α → σ → Except ε α → σ → Prop
  | done (a : α) (s : σ) : Ends allowed (.done a) s (.ok a) s
  | fail (e : ε) (s : σ) : Ends allowed (.fail e) s (.error e) s
  | await {β : Type} {c : Call σ ι ε κ β} {k : Except ε β → Method σ ι ε κ α} {s s' : σ}
      {r : Except ε α} (x : Answer ι ε) (may : allowed c.label s x)
      (rest : Ends allowed (k (c.answer x s).1) (c.answer x s).2 r s') :
      Ends allowed (.await c k) s r s'
  | either {k : Bool → Method σ ι ε κ α} {s s' : σ} {r : Except ε α} (b : Bool)
      (rest : Ends allowed (k b) s r s') : Ends allowed (.either k) s r s'

/-- Every way the method can end satisfies the postcondition. -/
def wp (allowed : Policy σ ι ε κ) :
    Method σ ι ε κ α → (Except ε α → σ → Prop) → σ → Prop
  | .done a, Q, s => Q (.ok a) s
  | .fail e, Q, s => Q (.error e) s
  | .await c k, Q, s =>
      ∀ x, allowed c.label s x → wp allowed (k (c.answer x s).1) Q (c.answer x s).2
  | .either k, Q, s => ∀ b, wp allowed (k b) Q s

/-- A postcondition given separately for a value and for an error. -/
def onOk (Q : α → σ → Prop) (E : ε → σ → Prop) : Except ε α → σ → Prop
  | .ok a, s => Q a s
  | .error e, s => E e s

@[simp] theorem onOk_ok (Q : α → σ → Prop) (E : ε → σ → Prop) (a : α) (s : σ) :
    onOk Q E (.ok a) s = Q a s := rfl

@[simp] theorem onOk_error (Q : α → σ → Prop) (E : ε → σ → Prop) (e : ε) (s : σ) :
    onOk Q E (.error e) s = E e s := rfl

section Rules

variable {allowed : Policy σ ι ε κ} {m : Method σ ι ε κ α}
  {Q Q' : Except ε α → σ → Prop} {s s' : σ}

theorem wp_ends {r : Except ε α} (h : wp allowed m Q s) (run : Ends allowed m s r s') :
    Q r s' := by
  induction run with
  | done a s => exact h
  | fail e s => exact h
  | await x may rest ih => exact ih (h x may)
  | either b rest ih => exact ih (h b)

theorem wp_iff_ends : wp allowed m Q s ↔ ∀ r s', Ends allowed m s r s' → Q r s' := by
  refine ⟨fun h r s' run => wp_ends h run, fun h => ?_⟩
  induction m generalizing s with
  | done a => exact h _ _ (.done a s)
  | fail e => exact h _ _ (.fail e s)
  | await c k ih => exact fun x may => ih _ fun r s' rest => h r s' (.await x may rest)
  | either k ih => exact fun b => ih b fun r s' rest => h r s' (.either b rest)

theorem wp_mono (h : wp allowed m Q s) (weaken : ∀ r s', Q r s' → Q' r s') :
    wp allowed m Q' s :=
  wp_iff_ends.mpr fun r s' run => weaken r s' (wp_ends h run)

/-- What is shown of every answer holds where fewer are allowed. -/
theorem wp_fewer {allowed' : Policy σ ι ε κ} (fewer : ∀ l s x, allowed' l s x → allowed l s x)
    (h : wp allowed m Q s) : wp allowed' m Q s := by
  induction m generalizing s with
  | done a => exact h
  | fail e => exact h
  | await c k ih => exact fun x may => ih _ (h x (fewer c.label s x may))
  | either k ih => exact fun b => ih b (h b)

@[simp] theorem wp_done (a : α) : wp allowed (.done a) Q = Q (.ok a) := rfl

@[simp] theorem wp_fail (e : ε) : wp allowed (.fail e) Q = Q (.error e) := rfl

@[simp] theorem wp_call (c : Call σ ι ε κ α) :
    wp allowed (.call c) Q =
      fun s => ∀ x, allowed c.label s x → Q (c.answer x s).1 (c.answer x s).2 := by
  funext s
  refine forall_congr fun x => forall_congr fun _ => ?_
  cases (c.answer x s).1 <;> rfl

@[simp] theorem wp_bind (f : α → Method σ ι ε κ β) {P : Except ε β → σ → Prop} :
    wp allowed (m.bind f) P =
      wp allowed m (onOk (fun a => wp allowed (f a) P) fun e => P (.error e)) := by
  induction m with
  | done a => rfl
  | fail e => rfl
  | await c k ih =>
    funext s
    exact forall_congr fun x => forall_congr fun _ => congrFun (ih _) _
  | either k ih =>
    funext s
    exact forall_congr fun b => congrFun (ih b) s

@[simp] theorem wp_handle (h : ε → Method σ ι ε κ α) :
    wp allowed (m.handle h) Q =
      wp allowed m (onOk (fun a => Q (.ok a)) fun e => wp allowed (h e) Q) := by
  induction m with
  | done a => rfl
  | fail e => rfl
  | await c k ih =>
    funext s
    exact forall_congr fun x => forall_congr fun _ => congrFun (ih _) _
  | either k ih =>
    funext s
    exact forall_congr fun b => congrFun (ih b) s

@[simp] theorem wp_ite (p : Prop) [Decidable p] (m' : Method σ ι ε κ α) :
    wp allowed (if p then m else m') Q s ↔
      (p → wp allowed m Q s) ∧ (¬p → wp allowed m' Q s) := by
  by_cases hp : p <;> simp [hp]

/-- A loop keeps an invariant about the part of the list it has gone through. -/
theorem wp_forM {f : α → Method σ ι ε κ PUnit} {P : Except ε PUnit → σ → Prop}
    (I : List α → σ → Prop) (xs : List α)
    (body : ∀ done a rest, xs = done ++ a :: rest → ∀ s, I done s →
      wp allowed (f a) (onOk (fun _ => I (done ++ [a])) fun e => P (.error e)) s)
    (finish : ∀ s, I xs s → P (.ok ⟨⟩) s) (start : I [] s) :
    wp allowed (xs.forM f) P s := by
  have loop : ∀ rest done s, xs = done ++ rest → I done s → wp allowed (rest.forM f) P s := by
    intro rest
    induction rest with
    | nil =>
      intro done s split inv
      obtain rfl : xs = done := by simpa using split
      exact finish s inv
    | cons a rest ih =>
      intro done s split inv
      change wp allowed ((f a).bind fun _ => rest.forM f) P s
      rw [wp_bind]
      refine wp_mono (body done a rest split s inv) fun r s' h => ?_
      cases r with
      | ok u => exact ih (done ++ [a]) s' (by simpa using split) h
      | error e => exact h
  exact loop xs [] s rfl start

/-- `Promise.all` of two calls makes them in either order. -/
theorem wp_par_call {c : Call σ ι ε κ α} {d : Call σ ι ε κ β}
    {P : Except ε (α × β) → σ → Prop}
    (left : wp allowed (.call c) (onOk
      (fun a => wp allowed (.call d) (onOk (fun b => P (.ok (a, b))) fun e => P (.error e)))
      fun e => P (.error e)) s)
    (right : wp allowed (.call d) (onOk
      (fun b => wp allowed (.call c) (onOk (fun a => P (.ok (a, b))) fun e => P (.error e)))
      fun e => P (.error e)) s) :
    wp allowed (Method.par (.call c) (.call d)) P s := by
  rw [Method.par_call]
  intro b
  cases b with
  | true => simpa only [wp_bind, wp_done] using left
  | false => simpa only [wp_bind, wp_done] using right

theorem Ends.call {c : Call σ ι ε κ α} {x : Answer ι ε} (may : allowed c.label s x) :
    Ends allowed (.call c) s (c.answer x s).1 (c.answer x s).2 := by
  apply Ends.await x may
  cases (c.answer x s).1 with
  | ok a => exact .done a _
  | error e => exact .fail e _

theorem Ends.bind {f : α → Method σ ι ε κ β} {a : α} {t : σ} {r : Except ε β}
    (first : Ends allowed m s (.ok a) t) (rest : Ends allowed (f a) t r s') :
    Ends allowed (m.bind f) s r s' := by
  generalize hv : (Except.ok a : Except ε α) = v at first
  induction first with
  | done b s =>
    cases hv
    exact rest
  | fail e s => cases hv
  | await x may next ih => exact .await x may (ih rest hv)
  | either b next ih => exact .either b (ih rest hv)

theorem Ends.bind_error {f : α → Method σ ι ε κ β} {e : ε}
    (run : Ends allowed m s (.error e) s') : Ends allowed (m.bind f) s (.error e) s' := by
  generalize hv : (Except.error e : Except ε α) = v at run
  induction run with
  | done b s => cases hv
  | fail e s =>
    cases hv
    exact .fail e s
  | await x may next ih => exact .await x may (ih hv)
  | either b next ih => exact .either b (ih hv)

theorem Ends.handle_ok {h : ε → Method σ ι ε κ α} {a : α}
    (run : Ends allowed m s (.ok a) s') : Ends allowed (m.handle h) s (.ok a) s' := by
  generalize hv : (Except.ok a : Except ε α) = v at run
  induction run with
  | done b s => exact .done b s
  | fail e s => cases hv
  | await x may next ih => exact .await x may (ih hv)
  | either b next ih => exact .either b (ih hv)

theorem Ends.handle_error {h : ε → Method σ ι ε κ α} {e : ε} {t : σ} {r : Except ε α}
    (first : Ends allowed m s (.error e) t) (rest : Ends allowed (h e) t r s') :
    Ends allowed (m.handle h) s r s' := by
  generalize hv : (Except.error e : Except ε α) = v at first
  induction first with
  | done b s => cases hv
  | fail e s =>
    cases hv
    exact rest
  | await x may next ih => exact .await x may (ih rest hv)
  | either b next ih => exact .either b (ih rest hv)

/-- A relation that every call of a method keeps relates its first and last state. -/
theorem Ends.keeps {R : σ → σ → Prop} (refl : ∀ s, R s s)
    (trans : ∀ s t u, R s t → R t u → R s u) {r : Except ε α}
    (calls : m.Calls fun c => ∀ x s, allowed c.label s x → R s (c.answer x s).2)
    (run : Ends allowed m s r s') : R s s' := by
  induction run with
  | done a s => exact refl s
  | fail e s => exact refl s
  | await x may rest ih => exact trans _ _ _ (calls.1 x _ may) (ih (calls.2 _))
  | either b rest ih => exact ih (calls b)

theorem Calls.wp {R : σ → σ → Prop} (refl : ∀ s, R s s)
    (trans : ∀ s t u, R s t → R t u → R s u)
    (calls : m.Calls fun c => ∀ x s, allowed c.label s x → R s (c.answer x s).2) :
    wp allowed m (fun _ s' => R s s') s :=
  wp_iff_ends.mpr fun _ _ run => run.keeps refl trans calls

end Rules

/-- Started where `P` holds, the method ends where `P` holds, with a value or an error. -/
def Preserves (allowed : Policy σ ι ε κ) (P : σ → Prop) (m : Method σ ι ε κ α) : Prop :=
  ∀ s, P s → wp allowed m (fun _ => P) s

namespace Preserves

variable {allowed : Policy σ ι ε κ} {P : σ → Prop} {m : Method σ ι ε κ α}

theorem done (a : α) : Preserves allowed P (.done a) := fun _ h => h

theorem fail (e : ε) : Preserves allowed P (.fail e : Method σ ι ε κ α) := fun _ h => h

theorem of_calls (calls : m.Calls fun c => ∀ x s, allowed c.label s x → P s → P (c.answer x s).2) :
    Preserves allowed P m := fun _ hs =>
  wp_mono (Calls.wp (R := fun s s' => P s → P s') (fun _ h => h) (fun _ _ _ h h' hs => h' (h hs))
    calls) fun _ _ h => h hs

theorem bind {f : α → Method σ ι ε κ β} (hm : Preserves allowed P m)
    (hf : ∀ a, Preserves allowed P (f a)) : Preserves allowed P (m.bind f) := by
  intro s hs
  rw [wp_bind]
  refine wp_mono (hm s hs) fun r t ht => ?_
  cases r with
  | ok a => exact hf a t ht
  | error e => exact ht

theorem handle {h : ε → Method σ ι ε κ α} (hm : Preserves allowed P m)
    (hh : ∀ e, Preserves allowed P (h e)) : Preserves allowed P (m.handle h) := by
  intro s hs
  rw [wp_handle]
  refine wp_mono (hm s hs) fun r t ht => ?_
  cases r with
  | ok a => exact ht
  | error e => exact hh e t ht

theorem forM {f : α → Method σ ι ε κ PUnit} (hf : ∀ a, Preserves allowed P (f a))
    (xs : List α) : Preserves allowed P (xs.forM f) := by
  induction xs with
  | nil => exact done _
  | cons x xs ih => exact (hf x).bind fun _ => ih

end Preserves

/-- A method ends, whatever the environment may answer, if it may always answer something. -/
theorem exists_ends {allowed : Policy σ ι ε κ} (some : ∀ l s, ∃ x, allowed l s x)
    (m : Method σ ι ε κ α) (s : σ) : ∃ r s', Ends allowed m s r s' := by
  induction m generalizing s with
  | done a => exact ⟨_, s, .done a s⟩
  | fail e => exact ⟨_, s, .fail e s⟩
  | await c k ih =>
    obtain ⟨x, hx⟩ := some c.label s
    obtain ⟨r, s', rest⟩ := ih _ (c.answer x s).2
    exact ⟨r, s', .await x hx rest⟩
  | either k ih =>
    obtain ⟨r, s', rest⟩ := ih true s
    exact ⟨r, s', .either true rest⟩

/-- A scripted choice of the environment: an answer, or the branch that moves first. -/
inductive Cue (ι ε : Type)
  | reply (answer : Answer ι ε)
  | side (b : Bool)

/-- Run a method alone on a script; `none` when the script does not fit. -/
def exec : Method σ ι ε κ α → List (Cue ι ε) → σ → Option (Except ε α × σ)
  | .done a, _, s => some (.ok a, s)
  | .fail e, _, s => some (.error e, s)
  | .await c k, .reply x :: cues, s => exec (k (c.answer x s).1) cues (c.answer x s).2
  | .either k, .side b :: cues, s => exec (k b) cues s
  | .await _ _, _, _ => none
  | .either _, _, _ => none

theorem ends_of_exec {allowed : Policy σ ι ε κ} {m : Method σ ι ε κ α}
    {cues : List (Cue ι ε)} {s s' : σ} {r : Except ε α}
    (may : ∀ x, .reply x ∈ cues → ∀ l s, allowed l s x)
    (run : exec m cues s = some (r, s')) : Ends allowed m s r s' := by
  induction m generalizing cues s with
  | done a =>
    cases run
    exact .done a _
  | fail e =>
    cases run
    exact .fail e _
  | await c k ih =>
    match cues, run with
    | .reply x :: cues, run =>
      exact .await x (may x (by simp) _ _) (ih _ (fun y hy => may y (by simp [hy])) run)
  | either k ih =>
    match cues, run with
    | .side b :: cues, run => exact .either b (ih b (fun y hy => may y (by simp [hy])) run)

/-- The state a scripted run ends in. -/
def after (m : Method σ ι ε κ α) (cues : List (Cue ι ε)) (s : σ) : σ :=
  match exec m cues s with
  | some (_, s') => s'
  | none => s

theorem ends_after {allowed : Policy σ ι ε κ} {m : Method σ ι ε κ α} {cues : List (Cue ι ε)}
    {s : σ} {r : Except ε α} (may : ∀ x, .reply x ∈ cues → ∀ l s, allowed l s x)
    (run : (exec m cues s).map Prod.fst = some r) : Ends allowed m s r (after m cues s) := by
  obtain ⟨⟨r', s'⟩, hexec, rfl⟩ := Option.map_eq_some_iff.mp run
  refine ends_of_exec may ?_
  simp only [after, hexec]

/-- `ends_after` for a run that returns, in a form to be decided by evaluation. -/
theorem ends_after_ok {allowed : Policy σ ι ε κ} {m : Method σ ι ε κ α} {cues : List (Cue ι ε)}
    {s : σ} {a : α} (may : ∀ x, .reply x ∈ cues → ∀ l s, allowed l s x)
    (run : (exec m cues s).bind (fun end_ => end_.1.toOption) = some a) :
    Ends allowed m s (.ok a) (after m cues s) := by
  refine ends_after may ?_
  obtain ⟨⟨r, s'⟩, hexec, hr⟩ := Option.bind_eq_some_iff.mp run
  rw [hexec]
  cases r with
  | ok b => exact congrArg (fun b => some (Except.ok b)) (Option.some.inj hr)
  | error e => cases hr

/-- Every answer of the script is permitted for the call it goes to. -/
def fits (permits : κ → σ → Answer ι ε → Bool) : Method σ ι ε κ α → List (Cue ι ε) → σ → Bool
  | .done _, _, _ => true
  | .fail _, _, _ => true
  | .await c k, .reply x :: cues, s =>
      permits c.label s x && fits permits (k (c.answer x s).1) cues (c.answer x s).2
  | .either k, .side b :: cues, s => fits permits (k b) cues s
  | .await _ _, _, _ => false
  | .either _, _, _ => false

theorem ends_of_fits {allowed : Policy σ ι ε κ} {permits : κ → σ → Answer ι ε → Bool}
    {m : Method σ ι ε κ α} {cues : List (Cue ι ε)} {s s' : σ} {r : Except ε α}
    (sound : ∀ l s x, permits l s x = true → allowed l s x) (fit : fits permits m cues s = true)
    (run : exec m cues s = some (r, s')) : Ends allowed m s r s' := by
  induction m generalizing cues s with
  | done a =>
    cases run
    exact .done a _
  | fail e =>
    cases run
    exact .fail e _
  | await c k ih =>
    match cues, fit, run with
    | .reply x :: cues, fit, run =>
      obtain ⟨permitted, rest⟩ := Bool.and_eq_true_iff.mp fit
      exact .await x (sound _ _ x permitted) (ih _ rest run)
  | either k ih =>
    match cues, fit, run with
    | .side b :: cues, fit, run => exact .either b (ih b fit run)

/-- `ends_after_ok` for a policy that tells the calls apart. -/
theorem ends_after_fits {allowed : Policy σ ι ε κ} {permits : κ → σ → Answer ι ε → Bool}
    {m : Method σ ι ε κ α} {cues : List (Cue ι ε)} {s : σ} {a : α}
    (sound : ∀ l s x, permits l s x = true → allowed l s x) (fit : fits permits m cues s = true)
    (run : (exec m cues s).bind (fun end_ => end_.1.toOption) = some a) :
    Ends allowed m s (.ok a) (after m cues s) := by
  obtain ⟨⟨r, s'⟩, hexec, hr⟩ := Option.bind_eq_some_iff.mp run
  have ends := ends_of_fits sound fit hexec
  have hafter : after m cues s = s' := by simp only [after, hexec]
  rw [hafter]
  cases r with
  | ok b =>
    obtain rfl : b = a := Option.some.inj hr
    exact ends
  | error e => cases hr

/-- `ends_after_fits` for a result that is only tested. -/
theorem ends_after_passes {allowed : Policy σ ι ε κ} {permits : κ → σ → Answer ι ε → Bool}
    {m : Method σ ι ε κ α} {cues : List (Cue ι ε)} {s : σ} {test : Except ε α → Bool}
    (sound : ∀ l s x, permits l s x = true → allowed l s x) (fit : fits permits m cues s = true)
    (run : (exec m cues s).any (fun end_ => test end_.1) = true) :
    ∃ r, test r = true ∧ Ends allowed m s r (after m cues s) := by
  cases hexec : exec m cues s with
  | none => simp [hexec] at run
  | some end_ =>
    rw [hexec, Option.any_some] at run
    have hafter : after m cues s = end_.2 := by simp only [after, hexec]
    exact ⟨end_.1, run, hafter ▸ ends_of_fits sound fit hexec⟩

/-- `ends_after` for a run that throws. -/
theorem ends_after_error {allowed : Policy σ ι ε κ} {m : Method σ ι ε κ α}
    {cues : List (Cue ι ε)} {s : σ} (may : ∀ x, .reply x ∈ cues → ∀ l s, allowed l s x)
    (run : (exec m cues s).any (fun end_ => !end_.1.isOk) = true) :
    ∃ e, Ends allowed m s (.error e) (after m cues s) := by
  cases hexec : exec m cues s with
  | none => simp [hexec] at run
  | some end_ =>
    obtain ⟨r, s'⟩ := end_
    cases r with
    | ok a => simp [hexec, Except.isOk, Except.toBool] at run
    | error e => exact ⟨e, ends_after may (by rw [hexec]; rfl)⟩

end GuitarCoach.Async
