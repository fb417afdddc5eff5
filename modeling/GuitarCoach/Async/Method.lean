/- digest: Asynchronous methods as trees of awaited calls, with their monad laws. -/

import Mathlib.Logic.Function.Basic

/-!
A method is what an `async` function does to a shared state `σ`: it ends, throws, or
awaits one atomic call and goes on with the reply. Between two awaits other methods may
run. The environment answers each call with an input of type `ι` or with an error of
type `ε`; a label of type `κ` says what the call is to whoever watches the run.
-/

set_option autoImplicit false
set_option relaxedAutoImplicit false

namespace GuitarCoach.Async

/-- The environment's answer to a call: it takes effect on an input, or throws. -/
inductive Answer (ι ε : Type)
  | took (input : ι)
  | threw (error : ε)

/-- One atomic call. It waits until `ready`; `thrown` is what a failed attempt leaves. -/
structure Call (σ ι ε κ β : Type) where
  label : κ
  ready : σ → Bool := fun _ => true
  run : ι → σ → Except ε β × σ
  thrown : σ → σ := id

section Defs

variable {σ ι ε κ α β γ : Type}

def Call.answer (c : Call σ ι ε κ β) : Answer ι ε → σ → Except ε β × σ
  | .took i, s => c.run i s
  | .threw e, s => (.error e, c.thrown s)

@[simp] theorem Call.answer_took (c : Call σ ι ε κ β) (i : ι) (s : σ) :
    c.answer (.took i) s = c.run i s := rfl

@[simp] theorem Call.answer_threw (c : Call σ ι ε κ β) (e : ε) (s : σ) :
    c.answer (.threw e) s = (.error e, c.thrown s) := rfl

/-- What is left of an asynchronous function. At `either` the scheduler chooses which of
two concurrent branches of the same function moves first. -/
inductive Method (σ ι ε κ α : Type) : Type 1
  | done (value : α)
  | fail (error : ε)
  | await {β : Type} (call : Call σ ι ε κ β) (next : Except ε β → Method σ ι ε κ α)
  | either (next : Bool → Method σ ι ε κ α)

namespace Method

/-- Await one call and rethrow its error. -/
def call (c : Call σ ι ε κ β) : Method σ ι ε κ β :=
  .await c fun
    | .ok b => .done b
    | .error e => .fail e

def bind : Method σ ι ε κ α → (α → Method σ ι ε κ β) → Method σ ι ε κ β
  | .done a, f => f a
  | .fail e, _ => .fail e
  | .await c k, f => .await c fun r => (k r).bind f
  | .either k, f => .either fun b => (k b).bind f

def handle : Method σ ι ε κ α → (ε → Method σ ι ε κ α) → Method σ ι ε κ α
  | .done a, _ => .done a
  | .fail e, h => h e
  | .await c k, h => .await c fun r => (k r).handle h
  | .either k, h => .either fun b => (k b).handle h

instance : Monad (Method σ ι ε κ) where
  pure := .done
  bind := bind

instance : MonadExceptOf ε (Method σ ι ε κ) where
  throw := .fail
  tryCatch := handle

@[simp] theorem pure_eq (a : α) : (pure a : Method σ ι ε κ α) = .done a := rfl
@[simp] theorem throw_eq (e : ε) : (throw e : Method σ ι ε κ α) = .fail e := rfl
@[simp] theorem bind_eq (m : Method σ ι ε κ α) (f : α → Method σ ι ε κ β) :
    m >>= f = m.bind f := rfl
@[simp] theorem tryCatch_eq (m : Method σ ι ε κ α) (h : ε → Method σ ι ε κ α) :
    tryCatch m h = m.handle h := rfl

@[simp] theorem done_bind (a : α) (f : α → Method σ ι ε κ β) : (done a).bind f = f a := rfl
@[simp] theorem fail_bind (e : ε) (f : α → Method σ ι ε κ β) :
    (fail e).bind f = .fail e := rfl

theorem bind_done (m : Method σ ι ε κ α) : m.bind .done = m := by
  induction m with
  | done a => rfl
  | fail e => rfl
  | await c k ih => exact congrArg (Method.await c) (funext ih)
  | either k ih => exact congrArg Method.either (funext ih)

theorem bind_assoc (m : Method σ ι ε κ α) (f : α → Method σ ι ε κ β)
    (g : β → Method σ ι ε κ γ) : (m.bind f).bind g = m.bind fun a => (f a).bind g := by
  induction m with
  | done a => rfl
  | fail e => rfl
  | await c k ih => exact congrArg (Method.await c) (funext ih)
  | either k ih => exact congrArg Method.either (funext ih)

instance : LawfulMonad (Method σ ι ε κ) :=
  LawfulMonad.mk' _ bind_done (fun _ _ => rfl) bind_assoc

/-- The right branch of `Promise.all` takes its turns while the left one awaits `c`. -/
def parRight (c : Call σ ι ε κ γ) (left : Except ε γ → Method σ ι ε κ β → Method σ ι ε κ (α × β)) :
    Method σ ι ε κ β → Method σ ι ε κ (α × β)
  | .done b => .await c fun r => left r (.done b)
  | .fail e => .fail e
  | .await d l => .either fun
      | true => .await c fun r => left r (.await d l)
      | false => .await d fun r => parRight c left (l r)
  | .either l => .either fun b => parRight c left (l b)

/-- `Promise.all` of two methods: their calls interleave, and the first error wins. -/
def par : Method σ ι ε κ α → Method σ ι ε κ β → Method σ ι ε κ (α × β)
  | .done a, q => q.bind fun b => .done (a, b)
  | .fail e, _ => .fail e
  | .await c k, q => parRight c (fun r q' => par (k r) q') q
  | .either k, q => .either fun b => par (k b) q

/-- `Promise.all` of two calls makes them in either order. -/
theorem par_call (c : Call σ ι ε κ α) (d : Call σ ι ε κ β) :
    par (call c) (call d) = .either fun
      | true => (call c).bind fun a => (call d).bind fun b => .done (a, b)
      | false => (call d).bind fun b => (call c).bind fun a => .done (a, b) := by
  simp only [call, par, parRight]
  refine congrArg Method.either (funext fun side => ?_)
  cases side with
  | true =>
    refine congrArg (Method.await c) (funext fun r => ?_)
    cases r <;> rfl
  | false =>
    refine congrArg (Method.await d) (funext fun r => ?_)
    cases r with
    | error e => rfl
    | ok b =>
      refine congrArg (Method.await c) (funext fun r => ?_)
      cases r <;> rfl

/-- The result of a method that has nothing left to await. -/
def result? : Method σ ι ε κ α → Option (Except ε α)
  | .done a => some (.ok a)
  | .fail e => some (.error e)
  | .await _ _ => none
  | .either _ => none

/-- Every call the method can come to make satisfies `P`. -/
def Calls (P : ∀ {β : Type}, Call σ ι ε κ β → Prop) : Method σ ι ε κ α → Prop
  | .done _ => True
  | .fail _ => True
  | .await c k => P c ∧ ∀ r, (k r).Calls P
  | .either k => ∀ b, (k b).Calls P

section Calls

variable {P : ∀ {β : Type}, Call σ ι ε κ β → Prop}

@[simp] theorem calls_done (a : α) : (done a : Method σ ι ε κ α).Calls P := trivial
@[simp] theorem calls_fail (e : ε) : (fail e : Method σ ι ε κ α).Calls P := trivial

theorem calls_call {c : Call σ ι ε κ β} (h : P c) : (call c).Calls P := by
  refine ⟨h, fun r => ?_⟩
  cases r <;> trivial

theorem calls_bind {m : Method σ ι ε κ α} {f : α → Method σ ι ε κ β}
    (hm : m.Calls P) (hf : ∀ a, (f a).Calls P) : (m.bind f).Calls P := by
  induction m with
  | done a => exact hf a
  | fail e => trivial
  | await c k ih => exact ⟨hm.1, fun r => ih r (hm.2 r)⟩
  | either k ih => exact fun b => ih b (hm b)

theorem calls_handle {m : Method σ ι ε κ α} {h : ε → Method σ ι ε κ α}
    (hm : m.Calls P) (hh : ∀ e, (h e).Calls P) : (m.handle h).Calls P := by
  induction m with
  | done a => trivial
  | fail e => exact hh e
  | await c k ih => exact ⟨hm.1, fun r => ih r (hm.2 r)⟩
  | either k ih => exact fun b => ih b (hm b)

theorem Calls.mono {Q : ∀ {β : Type}, Call σ ι ε κ β → Prop} {m : Method σ ι ε κ α}
    (weaker : ∀ {β : Type} {c : Call σ ι ε κ β}, P c → Q c) (hm : m.Calls P) : m.Calls Q := by
  induction m with
  | done a => trivial
  | fail e => trivial
  | await c k ih => exact ⟨weaker hm.1, fun r => ih r (hm.2 r)⟩
  | either k ih => exact fun b => ih b (hm b)

theorem calls_of_forall {m : Method σ ι ε κ α} (all : ∀ {β : Type} (c : Call σ ι ε κ β), P c) :
    m.Calls P := by
  induction m with
  | done a => trivial
  | fail e => trivial
  | await c k ih => exact ⟨all c, ih⟩
  | either k ih => exact ih

theorem calls_forM {f : α → Method σ ι ε κ PUnit} (hf : ∀ a, (f a).Calls P) (xs : List α) :
    (xs.forM f).Calls P := by
  induction xs with
  | nil => trivial
  | cons x xs ih => exact calls_bind (hf x) fun _ => ih

private theorem calls_parRight {c : Call σ ι ε κ γ}
    {left : Except ε γ → Method σ ι ε κ β → Method σ ι ε κ (α × β)} {q : Method σ ι ε κ β}
    (hc : P c) (hleft : ∀ r q, q.Calls P → (left r q).Calls P) (hq : q.Calls P) :
    (parRight c left q).Calls P := by
  induction q with
  | done b => exact ⟨hc, fun r => hleft r _ trivial⟩
  | fail e => trivial
  | await d l ih =>
    rw [parRight]
    intro side
    cases side with
    | true => exact ⟨hc, fun r => hleft r _ hq⟩
    | false => exact ⟨hq.1, fun r => ih r (hq.2 r)⟩
  | either l ih => exact fun b => ih b (hq b)

theorem calls_par {p : Method σ ι ε κ α} {q : Method σ ι ε κ β} (hp : p.Calls P)
    (hq : q.Calls P) : (par p q).Calls P := by
  induction p generalizing q with
  | done a => exact calls_bind hq fun _ => trivial
  | fail e => trivial
  | await c k ih => exact calls_parRight hp.1 (fun r q hq => ih r (hp.2 r) hq) hq
  | either k ih => exact fun b => ih b (hp b) hq

end Calls

end Method

end Defs

end GuitarCoach.Async
