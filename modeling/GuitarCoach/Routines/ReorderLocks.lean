/- digest: The lock of reorderTasks over any run: who takes it, who releases it, whom it keeps out. -/

import GuitarCoach.Async.CallLog
import GuitarCoach.Routines.RoutineSpecs

/-!
The lock is kept under the id of the routine as the request spells it. A request that holds the
lock and is in time keeps out all requests with the same spelling; whether it keeps out every
request for the same routine depends on how they spell its id.
-/

set_option autoImplicit false
set_option relaxedAutoImplicit false

namespace GuitarCoach

open Async (Answer Call Run Safe onOk)
open Async.Method (calls_bind calls_call calls_handle)
open Async.Method (pure_eq throw_eq bind_eq tryCatch_eq)
open RoutinesService (reorderLockKey reorderLockTtlMs)

/-- One call of `reorderTasks`. -/
structure ReorderRequest where
  userId : Uuid
  routineId : String
  taskIds : List String

namespace ReorderRequest

def run (q : ReorderRequest) : Promise (List RoutineTask) :=
  RoutinesService.reorderTasks q.userId q.routineId q.taskIds

/-- The routine that the request is about, however its id is spelled. -/
def routine (q : ReorderRequest) : Uuid := .ofText q.routineId

def lockKey (q : ReorderRequest) : String := reorderLockKey q.routineId

end ReorderRequest

section Statements

variable {η : Type} (reorder : Nat → ReorderRequest) (clock : Nat → Instant)
  (r : Run World Input Failure Label η (List RoutineTask))

/-- Reorders that run together. What takes effect at `t` does so at the time `clock t`, each
acquisition draws a token of its own, and nothing else touches the locks. -/
structure ReorderRun : Prop where
  requests : ∀ i, r.requests i = (reorder i).run
  outside : ∀ a w, (r.outside a w).locks = w.locks
  now : ∀ {i t l inp}, r.CallsAt i t l (.took inp) → inp.now = clock t
  fresh : ∀ {i j t u key key' inp inp'}, r.CallsAt i t (.acquireLock key) (.took inp) →
    r.CallsAt j u (.acquireLock key') (.took inp') → inp.uuid 0 = inp'.uuid 0 → t = u

/-- At time `t` request `i` gets the lock of this key. -/
def Acquires (i t : Nat) (key token : String) : Prop :=
  r.Gets i t (Promise.acquireLock key reorderLockTtlMs) (.ok (some token))

/-- At time `t` request `i` calls for a release, which may fail. -/
def Releases (i t : Nat) (key token : String) : Prop :=
  ∃ x, r.CallsAt i t (.releaseLock key token) x

/-- At time `t` request `i`, which got the lock at `a`, has not called for its release. -/
def Holds (i a t : Nat) : Prop :=
  (∃ key token, Acquires r i a key token) ∧ a < t ∧
    ∀ u, a < u → u < t → ∀ key token, ¬Releases r i u key token

/-- Each holder is done with the lock before it expires. -/
def HoldersInTime : Prop :=
  ∀ i a t, Holds r i a t → clock t < clock a + reorderLockTtlMs

/-- What the lock of a routine promises. -/
structure LockProtocol : Prop where
  free : ∀ i t key token, Acquires r i t key token →
    (r.state t).heldLock key (clock t) = none
  spares : ∀ i t key token, Releases r i t key token →
    ∀ key' lock, (r.state t).locks key' = some lock → lock.token ≠ token →
      (r.state (t + 1)).locks key' = some lock
  released : ∀ i a t key token result, Acquires r i a key token → a < t → r.Ended i t result →
    ∃ u, a < u ∧ u < t ∧ Releases r i u key token ∧
      ∀ v, v < t → ∀ key' token', Releases r i v key' token' →
        v = u ∧ key' = key ∧ token' = token
  exclusive : HoldersInTime clock r → ∀ i j a b t, Holds r i a t → Holds r j b t →
    (reorder i).routine = (reorder j).routine → i = j

/-- Nobody gets a lock while a request for the same routine holds one under another spelling
of its id. -/
def OneSpelling : Prop :=
  ∀ i j a t key token, Acquires r i t key token → Holds r j a t →
    (reorder i).routine = (reorder j).routine → (reorder i).routineId = (reorder j).routineId

end Statements

section Runs

variable {η : Type} {reorder : Nat → ReorderRequest} {clock : Nat → Instant}
  {r : Run World Input Failure Label η (List RoutineTask)} {i t : Nat} {key token : String}

/-! ### What one moment does to the locks -/

private def isLockCall : Label → Bool
  | .acquireLock _ => true
  | .releaseLock _ _ => true
  | _ => false

private def lockAt (inp : Input) : Lock := ⟨(inp.uuid 0).text, inp.now + reorderLockTtlMs⟩

/-- An acquisition that finds the lock free sets it, a release spares the locks with other
tokens, and nothing else changes the locks; a release comes after an acquisition of the same
request. -/
private structure LockStep (reorder : Nat → ReorderRequest)
    (r : Run World Input Failure Label η (List RoutineTask)) (t : Nat) : Prop where
  locks : (r.state (t + 1)).locks = (r.state t).locks ∨
    (∃ i inp, r.CallsAt i t (.acquireLock (reorder i).lockKey) (.took inp) ∧
      (r.state t).heldLock (reorder i).lockKey inp.now = none ∧
      (r.state (t + 1)).locks =
        Function.update (r.state t).locks (reorder i).lockKey (some (lockAt inp))) ∨
    ∃ i key token, Releases r i t key token ∧
      ∀ key' lock, (r.state t).locks key' = some lock → lock.token ≠ token →
        (r.state (t + 1)).locks key' = some lock
  owner : ∀ i key token, Releases r i t key token → key = (reorder i).lockKey ∧
    ∃ a inp, a < t ∧ r.CallsAt i a (.acquireLock (reorder i).lockKey) (.took inp) ∧
      token = (inp.uuid 0).text

/-- A call that is no release. -/
private theorem lockStep_of_call {l : Label} {x : Answer Input Failure}
    (called : r.CallsAt i t l x) (other : ∀ key token, l ≠ .releaseLock key token)
    (locks : (r.state (t + 1)).locks = (r.state t).locks ∨
      ∃ inp, l = .acquireLock (reorder i).lockKey ∧ x = .took inp ∧
        (r.state t).heldLock (reorder i).lockKey inp.now = none ∧
        (r.state (t + 1)).locks =
          Function.update (r.state t).locks (reorder i).lockKey (some (lockAt inp))) :
    LockStep reorder r t where
  locks := by
    rcases locks with same | ⟨inp, rfl, rfl, free, set⟩
    · exact .inl same
    · exact .inr (.inl ⟨i, inp, called, free, set⟩)
  owner := by
    rintro j key token ⟨y, released⟩
    exact absurd (called.unique released).2.1 (other key token)

private def LocksKept (reorder : Nat → ReorderRequest)
    (r : Run World Input Failure Label η (List RoutineTask)) (t : Nat) : Prop :=
  ∀ u, u < t → LockStep reorder r u

private theorem LocksKept.next (kept : LocksKept reorder r t) (step : LockStep reorder r t) :
    LocksKept reorder r (t + 1) := by
  intro u hu
  rcases Nat.lt_succ_iff_lt_or_eq.mp hu with before | rfl
  · exact kept u before
  · exact step

/-- A request that got the lock has released it once, and made no other call about a lock. -/
private def Settled (reorder : Nat → ReorderRequest)
    (r : Run World Input Failure Label η (List RoutineTask)) (i t : Nat) : Prop :=
  ∀ a inp, (a, .acquireLock (reorder i).lockKey, .took inp) ∈ r.madeOf isLockCall i t →
    (r.state a).heldLock (reorder i).lockKey inp.now = none →
    ∃ u x, a < u ∧ r.madeOf isLockCall i t =
      [(a, .acquireLock (reorder i).lockKey, .took inp),
        (u, .releaseLock (reorder i).lockKey (inp.uuid 0).text, x)]

private theorem Settled.later {u : Nat} (settled : Settled reorder r i t) (quiet : r.Quiet i t u) :
    Settled reorder r i u := by
  unfold Settled
  rw [Run.madeOf_quiet quiet]
  exact settled

private theorem settled_of_nil (nothing : r.madeOf isLockCall i t = []) :
    Settled reorder r i t := by
  intro a inp there
  rw [nothing] at there
  cases there

/-! ### What each request does -/

section Steps

variable {β : Type} {log : List (Nat × Label × Answer Input Failure)}

private abbrev Plain {β : Type} (c : Call World Input Failure Label β) : Prop :=
  isLockCall c.label = false ∧ ∀ x w, (c.answer x w).2.locks = w.locks

private theorem safe_plain {m : Promise β} (calls : m.Calls Plain)
    (now : r.madeOf isLockCall i t = log) :
    Safe (r.setting i (LocksKept reorder r)) m (fun _ u => r.madeOf isLockCall i u = log) t := by
  refine Run.safe_others (calls.mono fun {β c} plain => ⟨plain.1, ?_⟩) now
  intro u x called kept next
  refine kept.next (lockStep_of_call called ?_ (.inl (by rw [next, plain.2])))
  intro key token isRelease
  have other := plain.1
  rw [isRelease] at other
  cases other

private theorem plain_read {model : Model} {op : Operation} {f : Input → Db → Except Failure β} :
    (Promise.read model op f).Calls Plain := by
  refine calls_call ⟨rfl, fun x w => ?_⟩
  cases x <;> rfl

private theorem plain_write {model : Model} {op : Operation} {touched : Db → RowSet}
    {f : Input → Db → Except Failure (β × Db)} :
    (Promise.write model op touched f).Calls Plain := by
  refine calls_call ⟨rfl, fun x w => ?_⟩
  cases x with
  | took inp =>
    rw [Async.Call.answer_took]
    dsimp only
    cases f inp w.db <;> rfl
  | threw e => rfl

private theorem plain_findById {userId : Uuid} {routineId : String} :
    (RoutinesService.findById userId routineId).Calls Plain := by
  unfold RoutinesService.findById
  rw [bind_eq]
  apply calls_bind plain_read
  intro routine
  cases routine with
  | none => trivial
  | some row => trivial

/-- What a reorder does while it holds the lock is to read and write rows. -/
private theorem plain_body {same : List RoutineTask → Bool} {wrong : Failure}
    {before after : Input → Db → Except Failure (List RoutineTask)} {touched : Db → RowSet}
    {move : Input → Db → Except Failure (Unit × Db)} :
    ((Promise.read .routineTask .findMany before).bind fun existing =>
      if same existing then
        (Promise.write .routineTask .transaction touched move).bind fun _ =>
          Promise.read .routineTask .findMany after
      else .fail wrong).Calls Plain := by
  apply calls_bind plain_read
  intro existing
  split
  · exact calls_bind plain_write fun _ => plain_read
  · trivial

/-- The release of a request that got the lock at `a`. -/
private theorem safe_release {a : Nat} {inp : Input}
    (acquired : r.CallsAt i a (.acquireLock (reorder i).lockKey) (.took inp))
    (now : r.madeOf isLockCall i t = [(a, .acquireLock (reorder i).lockKey, .took inp)]) :
    Safe (r.setting i (LocksKept reorder r))
      ((Promise.releaseLock (reorder i).lockKey (inp.uuid 0).text).handle fun _ => .done ())
      (fun _ u => Settled reorder r i u) t := by
  apply Safe.handle
  have released : Safe (r.setting i (LocksKept reorder r))
      (Promise.releaseLock (reorder i).lockKey (inp.uuid 0).text)
      (fun _ u => Settled reorder r i u) t := by
    apply Run.safe_callOf now rfl
    intro u x called sofar kept _ next
    have there : (a, .acquireLock (reorder i).lockKey, .took inp) ∈ r.madeOf isLockCall i u :=
      sofar ▸ List.mem_singleton_self _
    have before : a < u := (Run.mem_madeOf.mp there).1.1
    have spares : ∀ key lock, (r.state u).locks key = some lock →
        lock.token ≠ (inp.uuid 0).text → (r.state (u + 1)).locks key = some lock := by
      intro key lock stored other
      rw [next]
      cases x with
      | threw e => exact stored
      | took inp' =>
        rw [Call.answer_took]
        dsimp only
        split
        · next own =>
          -- the script deletes a lock with its own token only
          have apart : key ≠ (reorder i).lockKey := by
            rintro rfl
            rw [World.heldLock, stored] at own
            obtain ⟨held, hheld, same⟩ := Option.map_eq_some_iff.mp own
            obtain rfl : lock = held := Option.some.inj (Option.filter_eq_some_iff.mp hheld).1
            exact other same
          show Function.update (r.state u).locks (reorder i).lockKey none key = some lock
          rw [Function.update_of_ne apart]
          exact stored
        · exact stored
    have owner : ∀ j key token, Releases r j u key token → key = (reorder j).lockKey ∧
        ∃ a inp, a < u ∧ r.CallsAt j a (.acquireLock (reorder j).lockKey) (.took inp) ∧
          token = (inp.uuid 0).text := by
      rintro j key token ⟨y, released⟩
      obtain ⟨rfl, same, -⟩ := called.unique released
      cases same
      exact ⟨rfl, a, inp, before, acquired, rfl⟩
    refine ⟨kept.next ⟨.inr (.inr ⟨i, _, _, ⟨x, called⟩, spares⟩), owner⟩, fun w log _ => ?_⟩
    intro a' inp' mem _
    rw [log] at mem ⊢
    simp only [List.singleton_append, List.mem_cons, Prod.mk.injEq, List.not_mem_nil,
      or_false, reduceCtorEq, false_and, and_false, true_and, Answer.took.injEq] at mem
    obtain ⟨rfl, rfl⟩ := mem
    exact ⟨u, x, before, rfl⟩
  refine released.weaken fun result u _ settled => ?_
  cases result with
  | ok value => exact settled
  | error e => exact fun v quiet _ => settled.later quiet

/-- What a request does once it has got the lock. -/
private theorem safe_held {a : Nat} {inp : Input} {body : Promise (List RoutineTask)}
    (plain : body.Calls Plain)
    (acquired : r.CallsAt i a (.acquireLock (reorder i).lockKey) (.took inp))
    (now : r.madeOf isLockCall i t = [(a, .acquireLock (reorder i).lockKey, .took inp)]) :
    Safe (r.setting i (LocksKept reorder r))
      (Promise.withCleanup body ((Promise.releaseLock (reorder i).lockKey
        (inp.uuid 0).text).handle fun _ => .done ()))
      (fun _ u => Settled reorder r i u) t := by
  unfold Promise.withCleanup
  simp only [bind_eq, pure_eq, throw_eq, tryCatch_eq]
  apply Safe.bind
  apply Safe.handle
  refine (safe_plain plain now).weaken fun result u _ log => ?_
  cases result with
  | ok rows =>
    apply Safe.bind
    refine (safe_release acquired log).weaken fun result v _ settled => ?_
    cases result with
    | ok value => exact fun w quiet _ => settled.later quiet
    | error e => exact settled
  | error e =>
    apply Safe.bind
    refine (safe_release acquired log).weaken fun result v _ settled => ?_
    cases result with
    | ok value => exact fun w quiet _ => settled.later quiet
    | error e => exact settled

/-- What a request does from the moment it asks for the lock. -/
private theorem safe_locked {body : String → Promise (List RoutineTask)}
    (now : r.madeOf isLockCall i t = [])
    (held : ∀ a inp w, r.CallsAt i a (.acquireLock (reorder i).lockKey) (.took inp) →
      r.madeOf isLockCall i w = [(a, .acquireLock (reorder i).lockKey, .took inp)] →
      Safe (r.setting i (LocksKept reorder r)) (body (inp.uuid 0).text)
        (fun _ u => Settled reorder r i u) w) :
    Safe (r.setting i (LocksKept reorder r))
      (((Promise.acquireLock (reorder i).lockKey reorderLockTtlMs).handle fun _ =>
        .fail (serviceUnavailable "Reordering is temporarily unavailable")).bind fun lockToken =>
        match lockToken with
        | none => .fail (conflict "Another reorder is already in progress for this routine")
        | some lockToken => body lockToken)
      (fun _ u => Settled reorder r i u) t := by
  apply Safe.bind
  apply Safe.handle
  apply Run.safe_callOf now rfl
  intro u x called sofar kept _ next
  have ungranted : ∀ w, r.madeOf isLockCall i w =
      [] ++ [(u, .acquireLock (reorder i).lockKey, x)] →
      (∀ inp, x = .took inp → (r.state u).heldLock (reorder i).lockKey inp.now ≠ none) →
      Settled reorder r i w := by
    intro w log refused a inp mem free
    rw [log] at mem
    simp only [List.nil_append, List.mem_singleton, Prod.mk.injEq, true_and] at mem
    obtain ⟨rfl, rfl⟩ := mem
    exact absurd free (refused inp rfl)
  cases x with
  | threw e =>
    refine ⟨kept.next (lockStep_of_call called nofun (.inl (by rw [next]; rfl))), fun w log _ => ?_⟩
    intro v quiet _
    exact (ungranted w log nofun).later quiet
  | took inp =>
    rw [Call.answer_took] at next ⊢
    dsimp only at next ⊢
    cases free : (r.state u).heldLock (reorder i).lockKey inp.now with
    | some lock =>
      rw [free] at next
      refine ⟨kept.next (lockStep_of_call called nofun (.inl (by rw [next]))), fun w log _ => ?_⟩
      intro v quiet _
      refine (ungranted w log ?_).later quiet
      intro inp' same
      cases same
      rw [free]
      nofun
    | none =>
      rw [free] at next
      refine ⟨kept.next (lockStep_of_call called nofun
        (.inr ⟨inp, rfl, rfl, free, by rw [next]; rfl⟩)), fun w log _ => ?_⟩
      exact held u inp w called log

/-- The whole request. -/
private theorem safe_request (now : r.madeOf isLockCall i t = []) :
    Safe (r.setting i (LocksKept reorder r)) (reorder i).run (fun _ u => Settled reorder r i u) t := by
  unfold ReorderRequest.run RoutinesService.reorderTasks
  simp only [bind_eq, pure_eq, throw_eq, tryCatch_eq]
  apply Safe.bind
  refine (safe_plain plain_findById now).weaken fun result u _ log => ?_
  cases result with
  | error e => exact settled_of_nil log
  | ok routine =>
    refine safe_locked log fun a inp w acquired log => ?_
    exact safe_held plain_body acquired log

end Steps

/-- Every moment of the run is a step of the locks, and a request that has ended is settled. -/
private theorem locks_kept_through (run : ReorderRun reorder clock r) (t : Nat) : LocksKept reorder r t ∧
    ∀ i result, r.Ended i t result → Settled reorder r i t := by
  have untouched : ∀ {t}, (∀ i l x, ¬r.CallsAt i t l x) →
      (r.state (t + 1)).locks = (r.state t).locks → LockStep reorder r t := by
    refine fun silent same => ⟨.inl same, ?_⟩
    rintro i key token ⟨x, released⟩
    exact absurd released (silent _ _ _)
  have all : ∀ t, LocksKept reorder r t ∧ ∀ i m, r.slot i t = some m →
      Safe (r.setting i (LocksKept reorder r)) m (fun _ u => Settled reorder r i u) t := by
    refine Run.safe nofun ?_ ?_ ?_
    · intro t kept same silent
      exact kept.next (untouched silent (by rw [same]))
    · intro t act kept acts next
      refine kept.next (untouched (fun i l x called => ?_) (by rw [next, run.outside]))
      cases called.schedule.symm.trans acts
    · intro i t begins _ _
      rw [run.requests i]
      exact safe_request (Run.madeOf_begins begins)
  exact ⟨(all t).1, fun i result ended => ended.post (all t).1 ((all t).2 i)⟩

/-- The one call of a request that asks for a lock. -/
private abbrev Asks (q : ReorderRequest) {β : Type} (c : Call World Input Failure Label β) : Prop :=
  ∀ key, c.label = .acquireLock key → key = q.lockKey ∧
    ∃ same : Option String = β, same ▸ Promise.acquireLock key reorderLockTtlMs = .call c

private theorem asks_of_plain {q : ReorderRequest} {β : Type} {m : Promise β}
    (plain : m.Calls Plain) : m.Calls (Asks q) := by
  refine plain.mono fun {β c} plain key asks => ?_
  have other := plain.1
  rw [asks] at other
  cases other

private theorem request_asks (q : ReorderRequest) : q.run.Calls (Asks q) := by
  have release : ∀ token, (Promise.releaseLock q.lockKey token).Calls (Asks q) :=
    fun token => calls_call fun key asks => by cases asks
  unfold ReorderRequest.run RoutinesService.reorderTasks
  simp only [bind_eq, pure_eq, throw_eq, tryCatch_eq]
  apply calls_bind (asks_of_plain plain_findById)
  intro _
  refine calls_bind (calls_handle (calls_call ?_) fun _ => trivial) ?_
  · intro key asks
    cases asks
    exact ⟨rfl, rfl, rfl⟩
  intro lockToken
  cases lockToken with
  | none => trivial
  | some token =>
    have cleanup := calls_handle (release token) fun _ => Async.Method.calls_done ()
    refine calls_bind (calls_handle (asks_of_plain plain_body) fun e => ?_) fun _ => ?_
    · exact calls_bind cleanup fun _ => trivial
    · exact calls_bind cleanup fun _ => trivial

private theorem Holds.earlier {a u : Nat} (holds : Holds r i a t) (after : a < u) (order : u ≤ t) :
    Holds r i a u :=
  ⟨holds.1, after, fun v hav hvu => holds.2.2 v hav (hvu.trans_le order)⟩

section Protocol

variable (run : ReorderRun reorder clock r)

include run

private theorem lockStep (t : Nat) : LockStep reorder r t :=
  (locks_kept_through run (t + 1)).1 t (Nat.lt_succ_self t)

private theorem asks_at {x : Answer Input Failure} (called : r.CallsAt i t (.acquireLock key) x) :
    key = (reorder i).lockKey := by
  obtain ⟨β, c, k, hslot, label, -⟩ := called
  have calls := Run.calls_of_slot (P := Asks (reorder i))
    (by rw [run.requests i]; exact request_asks _) t _ hslot
  exact (calls.1 key label).1

/-- What an acquisition does, and finds. -/
private theorem acquires_cases (acquires : Acquires r i t key token) :
    ∃ inp, key = (reorder i).lockKey ∧ token = (inp.uuid 0).text ∧
      r.CallsAt i t (.acquireLock (reorder i).lockKey) (.took inp) ∧
      (r.state t).heldLock key (clock t) = none ∧
      (r.state (t + 1)).locks key = some ⟨token, clock t + reorderLockTtlMs⟩ := by
  obtain ⟨x, called, result, next⟩ := acquires.answer
  obtain rfl := asks_at run called
  cases x with
  | threw e => cases result
  | took inp =>
    have now := run.now called
    rw [Call.answer_took] at result next
    dsimp only at result next
    cases free : (r.state t).heldLock (reorder i).lockKey inp.now with
    | some lock =>
      rw [free] at result
      cases result
    | none =>
      rw [free] at result next
      cases result
      refine ⟨inp, rfl, rfl, called, now ▸ free, ?_⟩
      rw [next, ← now]
      exact Function.update_self ..

/-- A call that finds the lock free gets it. -/
private theorem acquires_of_free {inp : Input}
    (called : r.CallsAt i t (.acquireLock key) (.took inp))
    (free : (r.state t).heldLock key inp.now = none) :
    Acquires r i t key (inp.uuid 0).text := by
  obtain ⟨β, c, k, hslot, label, ready, scheduled⟩ := called
  have calls := Run.calls_of_slot (P := Asks (reorder i))
    (by rw [run.requests i]; exact request_asks _) t _ hslot
  obtain ⟨-, rfl, same⟩ := calls.1 key label
  refine ⟨c, k, .took inp, same, hslot, ready, scheduled, ?_⟩
  rw [← Async.Method.call_injective same, Call.answer_took]
  dsimp only
  rw [free]

private theorem spares (released : Releases r i t key token) {key' : String} {lock : Lock}
    (stored : (r.state t).locks key' = some lock) (other : lock.token ≠ token) :
    (r.state (t + 1)).locks key' = some lock := by
  rcases (lockStep run t).locks with same | ⟨j, inp, called, -, -⟩ |
    ⟨j, key₁, token₁, ⟨y, called⟩, keeps⟩
  · rw [same]
    exact stored
  · obtain ⟨x, released⟩ := released
    cases (called.unique released).2.1
  · obtain ⟨x, released⟩ := released
    cases (called.unique released).2.1
    exact keeps key' lock stored other

private theorem released {a : Nat} {result : Except Failure (List RoutineTask)}
    (acquires : Acquires r i a key token) (later : a < t) (ended : r.Ended i t result) :
    ∃ u, a < u ∧ u < t ∧ Releases r i u key token ∧
      ∀ v, v < t → ∀ key' token', Releases r i v key' token' →
        v = u ∧ key' = key ∧ token' = token := by
  obtain ⟨inp, rfl, rfl, called, free, -⟩ := acquires_cases run acquires
  rw [← run.now called] at free
  have there : (a, .acquireLock (reorder i).lockKey, .took inp) ∈ r.madeOf isLockCall i t :=
    Run.mem_madeOf.mpr ⟨⟨later, called⟩, rfl⟩
  obtain ⟨u, x, after, log⟩ := (locks_kept_through run t).2 i result ended a inp there free
  have mem : (u, .releaseLock (reorder i).lockKey (inp.uuid 0).text, x) ∈
      r.madeOf isLockCall i t := by
    rw [log]
    exact List.mem_cons_of_mem _ (List.mem_singleton_self _)
  obtain ⟨⟨before, calls⟩, -⟩ := Run.mem_madeOf.mp mem
  refine ⟨u, after, before, ⟨x, calls⟩, ?_⟩
  rintro v hv key' token' ⟨y, again⟩
  have mem' : (v, .releaseLock key' token', y) ∈ r.madeOf isLockCall i t :=
    Run.mem_madeOf.mpr ⟨⟨hv, again⟩, rfl⟩
  rw [log] at mem'
  simp only [List.mem_cons, Prod.mk.injEq, reduceCtorEq, false_and, and_false, false_or,
    Label.releaseLock.injEq, List.not_mem_nil, or_false] at mem'
  exact ⟨mem'.1, mem'.2.1⟩

/-- The lock of a holder that is in time is still its own. -/
private theorem held_lock (inTime : HoldersInTime clock r) {a : Nat}
    (acquires : Acquires r i a key token) (holds : Holds r i a t) :
    (r.state t).locks key = some ⟨token, clock a + reorderLockTtlMs⟩ := by
  obtain ⟨-, after, -⟩ := id holds
  induction t, after using Nat.le_induction with
  | base =>
    obtain ⟨-, -, -, -, -, set⟩ := acquires_cases run acquires
    exact set
  | succ t after ih =>
    have earlier : Holds r i a t := holds.earlier after (Nat.le_succ t)
    have stored := ih earlier
    rcases (lockStep run t).locks with same | ⟨j, inp, called, free, set⟩ |
      ⟨j, key', token', releases, keeps⟩
    · rw [same]
      exact stored
    · -- nobody else gets this lock, which has not expired
      have apart : key ≠ (reorder j).lockKey := by
        rintro rfl
        rw [run.now called, World.heldLock, stored, Option.filter_some, if_pos] at free
        · cases free
        · exact decide_eq_true (inTime i a t earlier)
      rw [set, Function.update_of_ne apart]
      exact stored
    · refine keeps key _ stored ?_
      rintro rfl
      -- a release with this token is one of this request
      obtain ⟨-, b, inp, -, called, htoken⟩ := (lockStep run t).owner j key' _ releases
      obtain ⟨inp', -, htoken', called', -⟩ := acquires_cases run acquires
      obtain rfl := run.fresh called called' (Uuid.text_injective (htoken.symm.trans htoken'))
      obtain rfl := (called.unique called').1
      exact holds.2.2 t after (Nat.lt_succ_self t) key' _ releases

/-- Nobody with the same spelling gets the lock of a holder that is in time. -/
private theorem keeps_out (inTime : HoldersInTime clock r) {j a : Nat} (holds : Holds r i a t)
    (acquires : Acquires r j t key token) :
    (reorder j).routineId ≠ (reorder i).routineId := by
  intro same
  obtain ⟨⟨key', token', mine⟩, -, -⟩ := id holds
  have stored := held_lock run inTime mine holds
  obtain ⟨-, hkey', -⟩ := acquires_cases run mine
  obtain ⟨-, hkey, -, -, free, -⟩ := acquires_cases run acquires
  have one : key = key' := by
    rw [hkey, hkey', ReorderRequest.lockKey, same]
    rfl
  rw [one, World.heldLock, stored, Option.filter_some, if_pos] at free
  · cases free
  · exact decide_eq_true (inTime i a t holds)

end Protocol

/-- The lock keeps its promise exactly when nobody gets it while a request for the same routine
holds the lock of another spelling. -/
theorem reorder_lock_iff (run : ReorderRun reorder clock r) :
    LockProtocol reorder clock r ↔ (HoldersInTime clock r → OneSpelling reorder r) := by
  constructor
  · intro protocol inTime i j a t key token acquires holds routine
    have mine : Holds r i t (t + 1) :=
      ⟨⟨key, token, acquires⟩, Nat.lt_succ_self t, fun u after before => by omega⟩
    obtain ⟨owns, before, unreleased⟩ := holds
    have still : Holds r j a (t + 1) := by
      refine ⟨owns, before.trans (Nat.lt_succ_self t), fun u after hu key' token' releases => ?_⟩
      rcases Nat.lt_succ_iff_lt_or_eq.mp hu with earlier | rfl
      · exact unreleased u after earlier key' token' releases
      · -- this moment is an acquisition
        obtain ⟨x, released⟩ := releases
        obtain ⟨inp, -, -, called, -⟩ := acquires_cases run acquires
        cases (called.unique released).2.1
    rw [protocol.exclusive inTime i j t a (t + 1) mine still routine]
  · intro spelling
    refine ⟨?_, ?_, ?_, ?_⟩
    · intro i t key token acquires
      obtain ⟨-, -, -, -, free, -⟩ := acquires_cases run acquires
      exact free
    · exact fun i t key token releases key' lock stored other => spares run releases stored other
    · exact fun i a t key token result acquires later ended => released run acquires later ended
    · intro inTime i j a b t holds holds' routine
      -- the later of the two has got a lock while the earlier was holding one
      have excluded : ∀ {i j a b}, Holds r i a t → Holds r j b t →
          (reorder i).routine = (reorder j).routine → ¬a < b := by
        intro i j a b holds holds' routine order
        obtain ⟨⟨key, token, acquires⟩, before, -⟩ := holds'
        have held := holds.earlier order before.le
        exact keeps_out run inTime held acquires
          (spelling inTime j i a b key token acquires held routine.symm)
      rcases Nat.lt_trichotomy a b with order | rfl | order
      · exact absurd order (excluded holds holds' routine)
      · obtain ⟨⟨key, token, acquires⟩, -, -⟩ := holds
        obtain ⟨⟨key', token', acquires'⟩, -, -⟩ := holds'
        obtain ⟨inp, -, -, called, -⟩ := acquires_cases run acquires
        obtain ⟨inp', -, -, called', -⟩ := acquires_cases run acquires'
        exact (called.unique called').1
      · exact absurd order (excluded holds' holds routine.symm)

end Runs

section Sample

/-- `alice` has one routine, with one task. -/
private def oneEtude : World :=
  { World.signedUp with
    db := { World.signedUp.db with
      tasks := ⟨[⟨firstId, "Etude", none, none, none, none, none, 0, 0⟩], by decide⟩
      routines := ⟨[⟨thirdId, alice, "Etudes", .active, none, 0, 0⟩], by decide⟩
      routineTasks := ⟨[⟨thirdId, firstId, 4, none, 0, 0⟩], by decide⟩ } }

/-- The first request spells the id of the routine as it is stored, the others in upper case. -/
private def spelled (i : Nat) : ReorderRequest :=
  if i = 0 then ⟨alice, thirdId.text, [firstId.text]⟩
  else ⟨alice, "3F1C9D20-7A4B-4E8F-8C6D-5B4A39281706", [firstId.text]⟩

/-- The first request stops when it has got its lock, and the second gets one too. -/
private def spelledRun : Run World Input Failure Label Empty (List RoutineTask) where
  requests i := (spelled i).run
  outside := nofun
  start := oneEtude
  schedule t :=
    if t = 0 then .begin 0
    else if t < 3 then .advance 0 (.took (.of firstId 0))
    else if t = 3 then .begin 1
    else if t < 6 then .advance 1 (.took (.of secondId 0))
    else .begin 0

private theorem spelledRun_call {i t : Nat} {l : Label} {x : Answer Input Failure}
    (called : spelledRun.CallsAt i t l x) :
    t < 6 ∧ i < 2 ∧ x = .took (.of (if i = 0 then firstId else secondId) 0) := by
  have scheduled : (if t = 0 then Async.Choice.begin 0
    else if t < 3 then .advance 0 (.took (.of firstId 0))
    else if t = 3 then .begin 1
    else if t < 6 then .advance 1 (.took (.of secondId 0))
    else .begin 0 : Async.Choice Input Failure Empty) = .advance i x := called.schedule
  split_ifs at scheduled <;> cases scheduled
  · exact ⟨by omega, by decide, rfl⟩
  · exact ⟨by assumption, by decide, rfl⟩

private theorem spelledRun_lockCall {i t : Nat} {l : Label} {x : Answer Input Failure}
    (called : spelledRun.CallsAt i t l x) (about : isLockCall l = true) : t = 2 + 3 * i := by
  obtain ⟨ht, hi, -⟩ := spelledRun_call called
  have once : ∀ t < 6, ∀ i < 2, (spelledRun.awaited i t).any isLockCall = true →
      t = 2 + 3 * i := by
    decide +kernel
  refine once t ht i hi ?_
  rw [(Run.callsAt_iff.mp called).1]
  exact about

private theorem spelledRun_reorderRun : ReorderRun spelled (fun _ => 0) spelledRun where
  requests _ := rfl
  outside act := act.elim
  now called := by
    obtain ⟨-, -, same⟩ := spelledRun_call called
    cases same
    rfl
  fresh {i j t u key key' inp inp'} called called' same := by
    obtain ⟨-, hi, hinp⟩ := spelledRun_call called
    obtain ⟨-, hj, hinp'⟩ := spelledRun_call called'
    cases hinp
    cases hinp'
    rw [spelledRun_lockCall called rfl, spelledRun_lockCall called' rfl]
    have tokens : ∀ i < 2, ∀ j < 2, (if i = 0 then firstId else secondId) =
        (if j = 0 then firstId else secondId) → 2 + 3 * i = 2 + 3 * j := by
      decide
    exact tokens i hi j hj same

/-- The two requests get a lock each, for one routine. -/
private theorem spelledRun_acquires (i : Nat) (hi : i < 2) :
    ∃ key token, Acquires spelledRun i (2 + 3 * i) key token := by
  have scheduled : ∀ i < 2, spelledRun.schedule (2 + 3 * i) =
      .advance i (.took (.of (if i = 0 then firstId else secondId) 0)) := by
    rintro (_ | _ | i) hi
    · rfl
    · rfl
    · omega
  have asks : ∀ i < 2, spelledRun.awaited i (2 + 3 * i) =
      some (.acquireLock (spelled i).lockKey) := by
    decide +kernel
  have free : ∀ i < 2,
      (spelledRun.state (2 + 3 * i)).heldLock (spelled i).lockKey 0 = none := by
    decide +kernel
  have called := Run.callsAt_iff.mpr ⟨asks i hi, scheduled i hi⟩
  exact ⟨_, _, acquires_of_free spelledRun_reorderRun called (free i hi)⟩

theorem reorder_lock_iff_spelled : LockProtocol spelled (fun _ => 0) spelledRun ↔
    (HoldersInTime (fun _ => 0) spelledRun → OneSpelling spelled spelledRun) :=
  reorder_lock_iff spelledRun_reorderRun

/-- Under two spellings of its id, two requests for one routine hold a lock at once. -/
theorem reorder_locks_overlap : ReorderRun spelled (fun _ => 0) spelledRun ∧
    ¬LockProtocol spelled (fun _ => 0) spelledRun := by
  refine ⟨spelledRun_reorderRun, fun protocol => ?_⟩
  have inTime : HoldersInTime (fun _ => 0) spelledRun := by
    intro i a t _
    show (0 : Instant) < 0 + reorderLockTtlMs
    decide
  have holds : ∀ i, i < 2 → Holds spelledRun i (2 + 3 * i) 6 := by
    intro i hi
    refine ⟨spelledRun_acquires i hi, by omega, ?_⟩
    rintro u after before key token ⟨x, released⟩
    have := spelledRun_lockCall released rfl
    omega
  have same : (0 : Nat) = 1 := protocol.exclusive inTime 0 1 2 5 6 (holds 0 (by decide))
    (holds 1 (by decide)) (by decide)
  cases same

end Sample

end GuitarCoach
