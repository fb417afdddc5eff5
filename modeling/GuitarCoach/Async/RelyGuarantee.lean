/- digest: A method among others that move between its calls: its safety and the proof rules. -/

import GuitarCoach.Async.Sequential

/-!
`Safe` follows one method through a setting in which time passes: between two of its calls
it relies on a relation of moments, and each of its own calls has to keep an invariant. The
rules follow the way a method is written, `Promise.all` included.
-/

set_option autoImplicit false
set_option relaxedAutoImplicit false

namespace GuitarCoach.Async

variable {σ ι ε κ α β γ τ : Type}

/-- Moments of type `τ`, each with its state: what a method may assume about the time
between two of its calls, what holds all along, and which answers its calls can get, with
the moment before the answer and the one after. -/
structure Setting (σ ι ε κ τ : Type) where
  state : τ → σ
  rely : τ → τ → Prop
  inv : τ → Prop
  answers : κ → Answer ι ε → τ → τ → Prop
  refl : ∀ t, rely t t
  trans : ∀ {t u v}, rely t u → rely u v → rely t v

/-- From the moment `t` on, the method keeps the invariant with every call it makes, and
ends with `Q`. -/
def Safe (S : Setting σ ι ε κ τ) :
    Method σ ι ε κ β → (Except ε β → τ → Prop) → τ → Prop
  | .done b, Q, t => ∀ u, S.rely t u → S.inv u → Q (.ok b) u
  | .fail e, Q, t => ∀ u, S.rely t u → S.inv u → Q (.error e) u
  | .await c k, Q, t => ∀ u v x, S.rely t u → S.inv u → S.answers c.label x u v →
      c.ready (S.state u) = true → S.state v = (c.answer x (S.state u)).2 →
      S.inv v ∧ Safe S (k (c.answer x (S.state u)).1) Q v
  | .either k, Q, t => ∀ b, Safe S (k b) Q t

section Rules

variable {S : Setting σ ι ε κ τ} {m : Method σ ι ε κ β} {Q Q' : Except ε β → τ → Prop} {t u : τ}

theorem Safe.later (safe : Safe S m Q t) (later : S.rely t u) : Safe S m Q u := by
  induction m with
  | done b => exact fun v huv hv => safe v (S.trans later huv) hv
  | fail e => exact fun v huv hv => safe v (S.trans later huv) hv
  | await c k ih => exact fun v w x huv hv => safe v w x (S.trans later huv) hv
  | either k ih => exact fun b => ih b (safe b)

theorem Safe.of_later (safe : ∀ u, S.rely t u → S.inv u → Safe S m Q u) : Safe S m Q t := by
  induction m with
  | done b => exact fun u htu hu => safe u htu hu u (S.refl u) hu
  | fail e => exact fun u htu hu => safe u htu hu u (S.refl u) hu
  | await c k ih => exact fun u v x htu hu => safe u htu hu u v x (S.refl u) hu
  | either k ih => exact fun b => ih b fun u htu hu => safe u htu hu b

theorem Safe.weaken (safe : Safe S m Q t) (weaker : ∀ r u, S.inv u → Q r u → Q' r u) :
    Safe S m Q' t := by
  induction m generalizing t with
  | done b => exact fun u htu hu => weaker _ u hu (safe u htu hu)
  | fail e => exact fun u htu hu => weaker _ u hu (safe u htu hu)
  | await c k ih =>
    intro u v x htu hu hanswer hready hnext
    obtain ⟨kept, rest⟩ := safe u v x htu hu hanswer hready hnext
    exact ⟨kept, ih _ rest⟩
  | either k ih => exact fun b => ih b (safe b)

/-- A method that assumes less is safe where it may assume more. -/
theorem Safe.relyMore {rely : τ → τ → Prop} {refl : ∀ t, rely t t}
    {trans : ∀ {t u v}, rely t u → rely u v → rely t v} (more : ∀ t u, S.rely t u → rely t u)
    (safe : Safe { S with rely, refl, trans } m Q t) : Safe S m Q t := by
  induction m generalizing t with
  | done b => exact fun u htu hu => safe u (more t u htu) hu
  | fail e => exact fun u htu hu => safe u (more t u htu) hu
  | await c k ih =>
    intro u v x htu hu hanswer hready hnext
    obtain ⟨kept, rest⟩ := safe u v x (more t u htu) hu hanswer hready hnext
    exact ⟨kept, ih _ rest⟩
  | either k ih => exact fun b => ih b (safe b)

theorem Safe.call {c : Call σ ι ε κ β}
    (step : ∀ u v x, S.rely t u → S.inv u → S.answers c.label x u v →
      c.ready (S.state u) = true → S.state v = (c.answer x (S.state u)).2 →
      S.inv v ∧ ∀ w, S.rely v w → S.inv w → Q (c.answer x (S.state u)).1 w) :
    Safe S (.call c) Q t := by
  intro u v x htu hu hanswer hready hnext
  obtain ⟨kept, post⟩ := step u v x htu hu hanswer hready hnext
  refine ⟨kept, ?_⟩
  cases hr : (c.answer x (S.state u)).1 with
  | ok b => exact fun w hvw hw => hr ▸ post w hvw hw
  | error e => exact fun w hvw hw => hr ▸ post w hvw hw

/-- A method each of whose calls keeps the invariant. -/
theorem Safe.of_calls
    (calls : m.Calls fun c => ∀ u v x, S.inv u → S.answers c.label x u v →
      S.state v = (c.answer x (S.state u)).2 → S.inv v) : Safe S m (fun _ _ => True) t := by
  induction m generalizing t with
  | done b => exact fun _ _ _ => trivial
  | fail e => exact fun _ _ _ => trivial
  | await c k ih =>
    intro u v x htu hu hanswer hready hnext
    exact ⟨calls.1 u v x hu hanswer hnext, ih _ (calls.2 _)⟩
  | either k ih => exact fun b => ih b (calls b)

theorem Safe.bind {f : β → Method σ ι ε κ γ} {P : Except ε γ → τ → Prop}
    (safe : Safe S m (onOk (fun b => Safe S (f b) P) fun e => P (.error e)) t) :
    Safe S (m.bind f) P t := by
  induction m generalizing t with
  | done b => exact Safe.of_later safe
  | fail e => exact safe
  | await c k ih =>
    intro u v x htu hu hanswer hready hnext
    obtain ⟨kept, rest⟩ := safe u v x htu hu hanswer hready hnext
    exact ⟨kept, ih _ rest⟩
  | either k ih => exact fun b => ih b (safe b)

theorem Safe.handle {h : ε → Method σ ι ε κ β}
    (safe : Safe S m (onOk (fun b => Q (.ok b)) fun e => Safe S (h e) Q) t) :
    Safe S (m.handle h) Q t := by
  induction m generalizing t with
  | done b => exact safe
  | fail e => exact Safe.of_later safe
  | await c k ih =>
    intro u v x htu hu hanswer hready hnext
    obtain ⟨kept, rest⟩ := safe u v x htu hu hanswer hready hnext
    exact ⟨kept, ih _ rest⟩
  | either k ih => exact fun b => ih b (safe b)

/-- A fact that nothing disturbs, the method's own calls included, still holds at the end. -/
theorem Safe.frame (passing : ∀ l x u v, S.answers l x u v → S.rely u v) {F : τ → Prop}
    (stable : ∀ t u, S.rely t u → F t → F u) (now : F t) (safe : Safe S m Q t) :
    Safe S m (fun r u => Q r u ∧ F u) t := by
  induction m generalizing t with
  | done b => exact fun u htu hu => ⟨safe u htu hu, stable t u htu now⟩
  | fail e => exact fun u htu hu => ⟨safe u htu hu, stable t u htu now⟩
  | await c k ih =>
    intro u v x htu hu hanswer hready hnext
    obtain ⟨kept, rest⟩ := safe u v x htu hu hanswer hready hnext
    exact ⟨kept, ih _ (stable t v (S.trans htu (passing _ x u v hanswer)) now) rest⟩
  | either k ih => exact fun b => ih b now (safe b)

/-- A loop keeps a stable fact about the part of the list it has gone through. -/
theorem Safe.forM {f : α → Method σ ι ε κ PUnit} {P : Except ε PUnit → τ → Prop}
    (I : List α → τ → Prop) (xs : List α)
    (body : ∀ done a rest, xs = done ++ a :: rest → ∀ t, I done t →
      Safe S (f a) (onOk (fun _ => I (done ++ [a])) fun e => P (.error e)) t)
    (stable : ∀ done t u, S.rely t u → I done t → I done u)
    (finish : ∀ t, S.inv t → I xs t → P (.ok ⟨⟩) t) (start : I [] t) :
    Safe S (xs.forM f) P t := by
  have loop : ∀ rest done t, xs = done ++ rest → I done t → Safe S (rest.forM f) P t := by
    intro rest
    induction rest with
    | nil =>
      intro done t split hdone u htu hu
      obtain rfl : xs = done := by simpa using split
      exact finish u hu (stable _ t u htu hdone)
    | cons a rest ih =>
      intro done t split hdone
      refine Safe.bind (f := fun _ => rest.forM f) ((body done a rest split t hdone).weaken ?_)
      intro r u _ h
      cases r with
      | ok v => exact ih (done ++ [a]) u (by simpa using split) h
      | error e => exact h
  exact loop xs [] t rfl start

/-- Two branches of one method, each of which relies on no more than the other leaves. -/
theorem Safe.par (passing : ∀ l x u v, S.answers l x u v → S.rely u v)
    {p : Method σ ι ε κ β} {q : Method σ ι ε κ γ} {P : Except ε β → τ → Prop}
    {Q : Except ε γ → τ → Prop} {R : Except ε (β × γ) → τ → Prop}
    (both : ∀ b c u, P (.ok b) u → Q (.ok c) u → R (.ok (b, c)) u)
    (left : ∀ e u, P (.error e) u → R (.error e) u)
    (right : ∀ e u, Q (.error e) u → R (.error e) u)
    (hp : Safe S p P t) (hq : Safe S q Q t) : Safe S (Method.par p q) R t := by
  induction p generalizing q t with
  | done b =>
    apply Safe.bind
    have hb : ∀ u, S.rely t u → S.inv u → P (.ok b) u := hp
    have later : ∀ u, S.rely t u → Safe S q
        (onOk (fun c => Safe S (.done (b, c)) R) fun e => R (.error e)) u := by
      clear hp
      induction q generalizing t with
      | done c =>
        intro u htu v huv hv w hvw hw
        have htw := S.trans htu (S.trans huv hvw)
        exact both b c w (hb w htw hw) (hq w htw hw)
      | fail e => exact fun u htu v huv hv => right e v (hq v (S.trans htu huv) hv)
      | await d l ih =>
        intro u htu v w x huv hv hanswer hready hnext
        have htv := S.trans htu huv
        obtain ⟨kept, rest⟩ := hq v w x htv hv hanswer hready hnext
        have htw := S.trans htv (passing _ x v w hanswer)
        exact ⟨kept, ih _ rest (fun z hwz hz => hb z (S.trans htw hwz) hz) _ (S.refl _)⟩
      | either l ih => exact fun u htu side => ih side (hq side) hb u htu
    exact later t (S.refl t)
  | fail e => exact fun u htu hu => left e u (hp u htu hu)
  | await c k ih =>
    -- the left branch waits at `c`; go through what the right branch does meanwhile
    have waiting : Safe S (Method.parRight c (fun a q' => Method.par (k a) q') q) R t := by
      induction q generalizing t with
      | done b =>
        intro u v x htu hu hanswer hready hnext
        obtain ⟨kept, rest⟩ := hp u v x htu hu hanswer hready hnext
        exact ⟨kept, ih _ rest (hq.later (S.trans htu (passing _ x u v hanswer)))⟩
      | fail e => exact fun u htu hu => right e u (hq u htu hu)
      | await d l ihq =>
        rw [Method.parRight]
        intro side
        cases side with
        | true =>
          intro u v x htu hu hanswer hready hnext
          obtain ⟨kept, rest⟩ := hp u v x htu hu hanswer hready hnext
          exact ⟨kept, ih _ rest (hq.later (S.trans htu (passing _ x u v hanswer)))⟩
        | false =>
          intro u v x htu hu hanswer hready hnext
          obtain ⟨kept, rest⟩ := hq u v x htu hu hanswer hready hnext
          exact ⟨kept, ihq _ (hp.later (S.trans htu (passing _ x u v hanswer))) rest⟩
      | either l ihq => exact fun b => ihq b hp (hq b)
    exact waiting
  | either k ih => exact fun b => ih b (hp b) hq

end Rules

/-- Whenever it starts, the method keeps the invariant; of what it returns nothing is said. -/
def Keeping (S : Setting σ ι ε κ τ) (m : Method σ ι ε κ β) : Prop :=
  ∀ t, Safe S m (fun _ _ => True) t

namespace Keeping

variable {S : Setting σ ι ε κ τ} {m : Method σ ι ε κ β}

/-- Each call keeps the invariant by itself. -/
theorem of_calls
    (calls : m.Calls fun c => ∀ u v x, S.inv u → S.answers c.label x u v →
      c.ready (S.state u) = true → S.state v = (c.answer x (S.state u)).2 → S.inv v) :
    Keeping S m := by
  intro t
  induction m generalizing t with
  | done b => exact fun _ _ _ => trivial
  | fail e => exact fun _ _ _ => trivial
  | await c k ih =>
    intro u v x htu hu hanswer hready hnext
    exact ⟨calls.1 u v x hu hanswer hready hnext, ih _ (calls.2 _) v⟩
  | either k ih => exact fun b => ih b (calls b) t

theorem bind {f : β → Method σ ι ε κ γ} (hm : Keeping S m) (hf : ∀ b, Keeping S (f b)) :
    Keeping S (m.bind f) := by
  intro t
  refine Safe.bind ((hm t).weaken fun r u _ _ => ?_)
  cases r with
  | ok b => exact hf b u
  | error e => trivial

theorem handle {h : ε → Method σ ι ε κ β} (hm : Keeping S m) (hh : ∀ e, Keeping S (h e)) :
    Keeping S (m.handle h) := by
  intro t
  refine Safe.handle ((hm t).weaken fun r u _ _ => ?_)
  cases r with
  | ok b => trivial
  | error e => exact hh e u

theorem forM {f : α → Method σ ι ε κ PUnit} (hf : ∀ a, Keeping S (f a)) (xs : List α) :
    Keeping S (xs.forM f) := by
  induction xs with
  | nil => exact fun t _ _ _ => trivial
  | cons x xs ih => exact (hf x).bind fun _ => ih

theorem par {q : Method σ ι ε κ γ} (passing : ∀ l x u v, S.answers l x u v → S.rely u v)
    (hm : Keeping S m) (hq : Keeping S q) : Keeping S (Method.par m q) := by
  intro t
  have nothing : ∀ u, True → True → (fun _ : τ => True) u := fun _ _ _ => trivial
  exact Safe.par passing (fun _ _ => nothing) (fun _ _ h => h) (fun _ _ h => h) (hm t) (hq t)

/-- A method that goes on once another has shown something. -/
theorem after {f : β → Method σ ι ε κ γ} {Q : β → τ → Prop}
    (hm : ∀ t, Safe S m (onOk Q fun _ _ => True) t)
    (hf : ∀ b u, Q b u → Safe S (f b) (fun _ _ => True) u) : Keeping S (m.bind f) := by
  intro t
  refine Safe.bind ((hm t).weaken fun r u _ h => ?_)
  cases r with
  | ok b => exact hf b u h
  | error e => trivial

end Keeping

/-- A method alone, of which each branch relies on what the other can do, by `R`. -/
def alone (allowed : Policy σ ι ε κ) (R : σ → σ → Prop) (refl : ∀ s, R s s)
    (trans : ∀ {s t u}, R s t → R t u → R s u) : Setting σ ι ε κ σ where
  state := id
  rely := R
  inv := fun _ => True
  answers := fun l x s s' => allowed l s x ∧ R s s'
  refl := refl
  trans := trans

theorem wp_of_safe {allowed : Policy σ ι ε κ} {R : σ → σ → Prop} {refl : ∀ s, R s s}
    {trans : ∀ {s t u}, R s t → R t u → R s u} {m : Method σ ι ε κ β}
    {Q : Except ε β → σ → Prop} {s : σ}
    (calls : m.Calls fun c => ∀ x s, allowed c.label s x →
      c.ready s = true ∧ R s (c.answer x s).2)
    (safe : Safe (alone allowed R refl trans) m Q s) : wp allowed m Q s := by
  induction m generalizing s with
  | done b => exact safe s (refl s) trivial
  | fail e => exact safe s (refl s) trivial
  | await c k ih =>
    intro x may
    obtain ⟨ready, moves⟩ := calls.1 x s may
    have rest := (safe s _ x (refl s) trivial ⟨may, moves⟩ ready rfl).2
    exact ih _ (calls.2 _) rest
  | either k ih => exact fun b => ih b (calls b) (safe b)

end GuitarCoach.Async
