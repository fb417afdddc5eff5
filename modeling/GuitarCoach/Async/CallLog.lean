/- digest: The calls that a request of a run has made so far, with their times and answers. -/

import GuitarCoach.Async.Interleaving

/-!
The log of a request grows with its own calls and with nothing else, so what is read off it
stays true however long the request waits.
-/

set_option autoImplicit false
set_option relaxedAutoImplicit false

namespace GuitarCoach.Async

variable {σ ι ε κ η α β : Type}

theorem Method.call_injective {c d : Call σ ι ε κ β}
    (same : (Method.call c : Method σ ι ε κ β) = .call d) : c = d := by
  injection same

namespace Run

section Made

/-- What request `i` has called before time `t`, the oldest call first. -/
def made (r : Run σ ι ε κ η α) (i : Nat) : Nat → List (Nat × κ × Answer ι ε)
  | 0 => []
  | t + 1 =>
    match r.awaited i t, r.schedule t with
    | some l, .advance j x => if j = i then r.made i t ++ [(t, l, x)] else r.made i t
    | _, _ => r.made i t

variable {r : Run σ ι ε κ η α} {i t u : Nat} {l : κ} {x : Answer ι ε}

theorem made_call (called : r.CallsAt i t l x) : r.made i (t + 1) = r.made i t ++ [(t, l, x)] := by
  obtain ⟨awaits, scheduled⟩ := callsAt_iff.mp called
  rw [made, awaits, scheduled]
  exact if_pos rfl

theorem made_silent (silent : ∀ l x, ¬r.CallsAt i t l x) : r.made i (t + 1) = r.made i t := by
  rw [made]
  split
  · next l j x awaits scheduled =>
    split
    · next own =>
      subst own
      exact absurd (callsAt_iff.mpr ⟨awaits, scheduled⟩) (silent l x)
    · rfl
  · rfl

theorem made_quiet (quiet : r.Quiet i t u) : r.made i u = r.made i t := by
  obtain ⟨later, silent⟩ := quiet
  induction u, later using Nat.le_induction with
  | base => rfl
  | succ u later ih =>
    rw [made_silent (silent u later (Nat.lt_succ_self u))]
    exact ih fun v hv hvu => silent v hv (hvu.trans (Nat.lt_succ_self u))

theorem mem_made {v : Nat} : (v, l, x) ∈ r.made i t ↔ v < t ∧ r.CallsAt i v l x := by
  induction t with
  | zero => simp [made]
  | succ t ih =>
    by_cases silent : ∀ l x, ¬r.CallsAt i t l x
    · rw [made_silent silent, ih]
      constructor
      · exact fun h => ⟨h.1.trans (Nat.lt_succ_self t), h.2⟩
      · rintro ⟨before, called⟩
        refine ⟨(Nat.lt_succ_iff_lt_or_eq.mp before).resolve_right ?_, called⟩
        rintro rfl
        exact silent l x called
    · push Not at silent
      obtain ⟨l', x', called'⟩ := silent
      rw [made_call called', List.mem_append, ih, List.mem_singleton]
      constructor
      · rintro (h | same)
        · exact ⟨h.1.trans (Nat.lt_succ_self t), h.2⟩
        · cases same
          exact ⟨Nat.lt_succ_self v, called'⟩
      · rintro ⟨before, called⟩
        rcases Nat.lt_succ_iff_lt_or_eq.mp before with before | rfl
        · exact .inl ⟨before, called⟩
        · obtain ⟨-, rfl, rfl⟩ := called.unique called'
          exact .inr rfl

/-- A request that is just beginning has made no call. -/
theorem made_begins (begins : r.Begins i t) : r.made i (t + 1) = [] := by
  refine List.eq_nil_iff_forall_not_mem.mpr ?_
  rintro ⟨v, l, x⟩ there
  obtain ⟨before, called⟩ := mem_made.mp there
  exact not_callsAt_of_slot begins.2 v (Nat.le_of_lt_succ before) l x called

/-- A request that has not begun has made no call. -/
theorem made_of_slot (unbegun : r.slot i t = none) : r.made i t = [] := by
  refine List.eq_nil_iff_forall_not_mem.mpr ?_
  rintro ⟨v, l, x⟩ there
  obtain ⟨before, called⟩ := mem_made.mp there
  exact not_callsAt_of_slot unbegun v before.le l x called

/-- One call, from what the request has called before. -/
theorem safe_call {inv : Nat → Prop} {c : Call σ ι ε κ β} {Q : Except ε β → Nat → Prop}
    {log : List (Nat × κ × Answer ι ε)} (now : r.made i t = log)
    (step : ∀ u x, r.CallsAt i u c.label x → r.made i u = log → inv u →
      c.ready (r.state u) = true → r.state (u + 1) = (c.answer x (r.state u)).2 →
      inv (u + 1) ∧ ∀ w, r.made i w = log ++ [(u, c.label, x)] → inv w → u < w →
        Q (c.answer x (r.state u)).1 w) :
    Safe (r.setting i inv) (.call c) Q t := by
  apply Safe.call
  rintro u v x quiet before ⟨called, rfl⟩ ready next
  have called : r.CallsAt i u c.label x := called
  have sofar : r.made i u = log := (made_quiet quiet).trans now
  obtain ⟨kept, post⟩ := step u x called sofar before ready next
  refine ⟨kept, fun w later after => post w ?_ after later.1⟩
  rw [made_quiet later, made_call called, sofar]

end Made

section MadeOf

/-- The calls among them whose label is of one kind. -/
def madeOf (r : Run σ ι ε κ η α) (kind : κ → Bool) (i t : Nat) : List (Nat × κ × Answer ι ε) :=
  (r.made i t).filter fun call => kind call.2.1

variable {r : Run σ ι ε κ η α} {kind : κ → Bool} {i t u : Nat} {l : κ} {x : Answer ι ε}
  {log : List (Nat × κ × Answer ι ε)}

theorem madeOf_call (called : r.CallsAt i t l x) (isOf : kind l = true) :
    r.madeOf kind i (t + 1) = r.madeOf kind i t ++ [(t, l, x)] := by
  have one : [(t, l, x)].filter (fun call => kind call.2.1) = [(t, l, x)] := by simp [isOf]
  rw [madeOf, made_call called, List.filter_append, one]
  rfl

theorem madeOf_other (called : r.CallsAt i t l x) (other : kind l = false) :
    r.madeOf kind i (t + 1) = r.madeOf kind i t := by
  have none : [(t, l, x)].filter (fun call => kind call.2.1) = [] := by simp [other]
  rw [madeOf, made_call called, List.filter_append, none, List.append_nil]
  rfl

theorem madeOf_quiet (quiet : r.Quiet i t u) : r.madeOf kind i u = r.madeOf kind i t := by
  rw [madeOf, made_quiet quiet]
  rfl

theorem mem_madeOf {v : Nat} :
    (v, l, x) ∈ r.madeOf kind i t ↔ (v < t ∧ r.CallsAt i v l x) ∧ kind l = true := by
  rw [madeOf, List.mem_filter, mem_made]

/-- A request that is just beginning has made no call. -/
theorem madeOf_begins (begins : r.Begins i t) : r.madeOf kind i (t + 1) = [] := by
  rw [madeOf, made_begins begins]
  rfl

/-- One call of the kind, from those of the kind before it. -/
theorem safe_callOf {inv : Nat → Prop} {c : Call σ ι ε κ β} {Q : Except ε β → Nat → Prop}
    (now : r.madeOf kind i t = log) (isOf : kind c.label = true)
    (step : ∀ u x, r.CallsAt i u c.label x → r.madeOf kind i u = log → inv u →
      c.ready (r.state u) = true → r.state (u + 1) = (c.answer x (r.state u)).2 →
      inv (u + 1) ∧ ∀ w, r.madeOf kind i w = log ++ [(u, c.label, x)] → inv w →
        Q (c.answer x (r.state u)).1 w) :
    Safe (r.setting i inv) (.call c) Q t := by
  apply Safe.call
  rintro u v x quiet before ⟨called, rfl⟩ ready next
  have called : r.CallsAt i u c.label x := called
  have sofar : r.madeOf kind i u = log := (madeOf_quiet quiet).trans now
  obtain ⟨kept, post⟩ := step u x called sofar before ready next
  refine ⟨kept, fun w later after => post w ?_ after⟩
  rw [madeOf_quiet later, madeOf_call called isOf, sofar]

/-- A method none of whose calls is of the kind. -/
theorem safe_others {inv : Nat → Prop} {m : Method σ ι ε κ β}
    (calls : m.Calls fun c => kind c.label = false ∧ ∀ u x, r.CallsAt i u c.label x → inv u →
      r.state (u + 1) = (c.answer x (r.state u)).2 → inv (u + 1))
    (now : r.madeOf kind i t = log) :
    Safe (r.setting i inv) m (fun _ u => r.madeOf kind i u = log) t := by
  induction m generalizing t with
  | done b => exact fun u quiet _ => (madeOf_quiet quiet).trans now
  | fail e => exact fun u quiet _ => (madeOf_quiet quiet).trans now
  | await c k ih =>
    rintro u v x quiet before ⟨called, rfl⟩ ready next
    obtain ⟨⟨other, keeps⟩, rest⟩ := calls
    refine ⟨keeps u x called before next, ih _ (rest _) ?_⟩
    rw [madeOf_other called other, madeOf_quiet quiet, now]
  | either k ih => exact fun side => ih side (calls side) now

end MadeOf

section Slots

/-- Whatever is left of a request makes only calls that the request makes. -/
theorem calls_of_slot {P : ∀ {β : Type}, Call σ ι ε κ β → Prop} {r : Run σ ι ε κ η α} {i : Nat}
    (calls : (r.requests i).Calls P) (t : Nat) :
    ∀ m, r.slot i t = some m → m.Calls P := by
  induction t with
  | zero => exact fun m unbegun => by cases unbegun
  | succ t ih =>
    intro m hm
    rcases r.slot_cases i t with ⟨same, -⟩ | ⟨-, new⟩ | ⟨k, side, before, new, -⟩ |
      ⟨β, c, k, x, before, -, -, -, new⟩
    · exact ih m (same ▸ hm)
    · cases new.symm.trans hm
      exact calls
    · cases new.symm.trans hm
      exact ih _ before side
    · cases new.symm.trans hm
      exact (ih _ before).2 _

/-- At time `t` request `i` gets this result from a method that is a single call. -/
def Gets (r : Run σ ι ε κ η α) (i t : Nat) (m : Method σ ι ε κ β) (result : Except ε β) : Prop :=
  ∃ c k x, m = .call c ∧ r.slot i t = some (.await c k) ∧ c.ready (r.state t) = true ∧
    r.schedule t = .advance i x ∧ (c.answer x (r.state t)).1 = result

/-- What `Gets` says of the call: its answer and the state it leaves. -/
theorem Gets.answer {r : Run σ ι ε κ η α} {i t : Nat} {c : Call σ ι ε κ β} {result : Except ε β}
    (gets : r.Gets i t (.call c) result) : ∃ x, r.CallsAt i t c.label x ∧
      (c.answer x (r.state t)).1 = result ∧ r.state (t + 1) = (c.answer x (r.state t)).2 := by
  obtain ⟨d, k, x, same, hslot, ready, scheduled, hresult⟩ := gets
  obtain rfl := Method.call_injective same
  have called : r.CallsAt i t c.label x := ⟨β, c, k, hslot, rfl, ready, scheduled⟩
  refine ⟨x, called, hresult, ?_⟩
  rcases r.slot_cases i t with ⟨-, silent⟩ | ⟨⟨begins, -⟩, -⟩ | ⟨k', side, -, -, turns⟩ |
    ⟨γ, c', k', y, hslot', -, scheduled', next, -⟩
  · exact absurd called (silent _ _)
  · cases scheduled.symm.trans begins
  · cases scheduled.symm.trans turns
  · cases scheduled.symm.trans scheduled'
    cases hslot.symm.trans hslot'
    exact next

end Slots

end Run

end GuitarCoach.Async
