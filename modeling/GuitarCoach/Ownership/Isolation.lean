/- digest: The whole state as one user sees it, and methods that cannot tell it from the whole. -/

import GuitarCoach.Async.EndsAlike
import GuitarCoach.Ownership.SeenBy
import GuitarCoach.Ownership.Writes
import GuitarCoach.Tasks.CachedOwners

/-!
Take away from a state what others have: their rows, and their private tasks in the cache. A method
for a user is isolated when it can do in the whole state just what it can do in what is left.

A cached task of another user is refused after one call, and a missing one after two. So that
both end alike the lookup of a task must not fail; any other call may.
-/

set_option autoImplicit false
set_option relaxedAutoImplicit false

namespace GuitarCoach

open Async (Answer Call EndsAlike Policy onOk)
open Async.Method (Calls bind_eq tryCatch_eq throw_eq pure_eq)
open Relational (Table)

/-- Of the cached tasks a user may see their own and the shared ones. -/
def Entry.visible (userId : Uuid) : {key : CacheKey} → Entry key → Bool
  | .task _, e => visibleTo userId e.value
  | _, _ => true

namespace World

/-- What the user may see of the state. -/
def seenBy (userId : Uuid) (w : World) : World :=
  { w with
    db := w.db.seenBy userId
    cache := fun key => (w.cache key).filter (·.visible userId) }

/-- The state is sound, and no row or cached task of others has an id that is still to be given
out. -/
structure Fair (new : Uuid → Prop) (userId : Uuid) (w : World) : Prop where
  closed : w.db.Closed
  owners : OwnersCached w
  users : ∀ a ∈ w.db.users.rows, new a.id → a.id = userId
  tasks : ∀ a ∈ w.db.tasks.rows, new a.id → visibleTo userId a = true
  routines : ∀ a ∈ w.db.routines.rows, new a.id → a.userId = userId
  practiceSessions : ∀ a ∈ w.db.practiceSessions.rows, new a.id → a.userId = userId
  recordings : ∀ a ∈ w.db.recordings.rows, new a.id → a.userId = userId
  cached : ∀ s, ∀ e ∈ w.cache (.task s), new (.ofText s) → visibleTo userId e.value = true

end World

/-- The ids that are given out are new, and a lookup of a task does not fail. -/
def reserved (new : Uuid → Prop) : Policy World Input Failure Label
  | _, w, .took i => ∀ n, new (i.uuid n) ∧ ¬w.db.HasId (i.uuid n) ∧
      ∀ s, i.uuid n = .ofText s → w.cache (.task s) = none
  | l, _, .threw _ => l ≠ .db .task .findUnique

section Fair

variable {new : Uuid → Prop} {userId : Uuid} {w : World}

theorem World.Fair.hasId (fair : w.Fair new userId) {id : Uuid} (isNew : new id) :
    (w.db.seenBy userId).HasId id ↔ w.db.HasId id := by
  have users : (w.db.seenBy userId).users.has id = w.db.users.has id :=
    Table.has_restrict fun a ha same => decide_eq_true (fair.users a ha (same ▸ isNew))
  have tasks : (w.db.seenBy userId).tasks.has id = w.db.tasks.has id :=
    Table.has_restrict fun a ha same => fair.tasks a ha (same ▸ isNew)
  have routines : (w.db.seenBy userId).routines.has id = w.db.routines.has id :=
    Table.has_restrict fun a ha same => decide_eq_true (fair.routines a ha (same ▸ isNew))
  have practiceSessions :
      (w.db.seenBy userId).practiceSessions.has id = w.db.practiceSessions.has id :=
    Table.has_restrict fun a ha same => decide_eq_true (fair.practiceSessions a ha (same ▸ isNew))
  have recordings : (w.db.seenBy userId).recordings.has id = w.db.recordings.has id :=
    Table.has_restrict fun a ha same => decide_eq_true (fair.recordings a ha (same ▸ isNew))
  unfold Db.HasId
  rw [users, tasks, routines, practiceSessions, recordings]

/-- The same answers may come in both states. -/
theorem World.Fair.reserved_iff (fair : w.Fair new userId) (l : Label) (x : Answer Input Failure) :
    reserved new l w x ↔ reserved new l (w.seenBy userId) x := by
  cases x with
  | threw e => exact Iff.rfl
  | took i =>
    refine forall_congr' fun n => and_congr_right fun isNew => ?_
    refine and_congr (not_congr (fair.hasId isNew).symm) (forall_congr' fun s =>
      imp_congr_right fun same => ?_)
    show w.cache (.task s) = none ↔ (w.cache (.task s)).filter (·.visible userId) = none
    cases there : w.cache (.task s) with
    | none => exact Iff.rfl
    | some e =>
      have seen : e.visible userId = true := fair.cached s e there (same ▸ isNew)
      rw [Option.filter_some_pos seen]

/-- With no open transaction there is nothing to stay clear of. -/
theorem Db.Effect.closed_after {touched : RowSet} {fresh : Uuid → Prop} {actor : Option Uuid}
    {db db' : Db} (effect : Db.Effect touched fresh actor db db') (closed : db.Closed) :
    db'.Closed := by
  have apart : touched.meets {} = false := by simp [RowSet.meets]
  exact (effect.closed apart (fun _ _ => List.not_mem_nil) (.nothing closed)).tables

/-- The rows of others are as they were, and what is new got its id just now. -/
theorem World.Fair.write (fair : w.Fair new userId) {touched : RowSet} {l : Label} {i : Input}
    {db : Db} (may : reserved new l w (.took i))
    (effect : Db.Effect touched (Issued l (.took i)) (some userId) w.db db) :
    World.Fair new userId { w with db } := by
  have kept := effect.sameBut rfl fair.closed
  have part : ∀ v, v ≠ userId → db.partOf v = w.db.partOf v := kept.parts
  have owners : OwnersCached { w with db } := by
    refine fair.owners.moved (fun _ _ he => he) fun row hrow => ?_
    rcases effect.descends.tasks row hrow with issued | ⟨old, hold, same⟩
    · obtain ⟨-, j, n, answered, given⟩ := issued
      cases answered
      exact .inr fun s hs => (may n).2.2 s (given.trans hs)
    · exact .inl ⟨old, hold, same⟩
  exact {
    closed := effect.closed_after fair.closed
    owners
    cached := fair.cached
    users := fun a ha isNew => by
      by_contra other
      have there : a ∈ (db.partOf a.id).user := List.mem_filter.mpr ⟨ha, decide_eq_true rfl⟩
      rw [part a.id other] at there
      exact other (fair.users a (List.mem_filter.mp there).1 isNew)
    tasks := fun a ha isNew => by
      cases owner : a.ownerId with
      | none => rw [visibleTo, owner]; rfl
      | some v =>
        by_cases other : v = userId
        · rw [visibleTo, owner, other]; simp
        · have there : a ∈ (db.partOf v).tasks := List.mem_filter.mpr ⟨ha, decide_eq_true owner⟩
          rw [part v other] at there
          exact fair.tasks a (List.mem_filter.mp there).1 isNew
    routines := fun a ha isNew => by
      by_contra other
      have there : a ∈ (db.partOf a.userId).routines :=
        List.mem_filter.mpr ⟨ha, decide_eq_true rfl⟩
      rw [part a.userId other] at there
      exact other (fair.routines a (List.mem_filter.mp there).1 isNew)
    practiceSessions := fun a ha isNew => by
      by_contra other
      have there : a ∈ (db.partOf a.userId).practiceSessions :=
        List.mem_filter.mpr ⟨ha, decide_eq_true rfl⟩
      rw [part a.userId other] at there
      exact other (fair.practiceSessions a (List.mem_filter.mp there).1 isNew)
    recordings := fun a ha isNew => by
      by_contra other
      have there : a ∈ (db.partOf a.userId).recordings :=
        List.mem_filter.mpr ⟨ha, decide_eq_true rfl⟩
      rw [part a.userId other] at there
      exact other (fair.recordings a (List.mem_filter.mp there).1 isNew) }

/-- A change beside the tables and the cached tasks. -/
theorem World.Fair.beside {v : World} (fair : w.Fair new userId) (db : v.db = w.db)
    (cache : ∀ s, v.cache (.task s) = w.cache (.task s)) : v.Fair new userId := by
  have owners : OwnersCached v := fair.owners.moved (fun s e he => by rwa [← cache s])
    fun row hrow => .inl ⟨row, db ▸ hrow, rfl, rfl⟩
  have cached : ∀ s, ∀ e ∈ v.cache (.task s), new (.ofText s) →
      visibleTo userId e.value = true := by
    intro s e he
    rw [cache s] at he
    exact fair.cached s e he
  refine ⟨db ▸ fair.closed, owners, ?_, ?_, ?_, ?_, ?_, cached⟩
  · exact db ▸ fair.users
  · exact db ▸ fair.tasks
  · exact db ▸ fair.routines
  · exact db ▸ fair.practiceSessions
  · exact db ▸ fair.recordings

end Fair

/-! ### Methods -/

/-- The method can do in the whole state just what it can do in what the user sees of it; what it
leaves is sound, and `Q` holds of it. -/
def Isolated (new : Uuid → Prop) (userId : Uuid) {α : Type} (m : Promise α)
    (Q : Except Failure α → World → Prop) (w : World) : Prop :=
  EndsAlike (reserved new) m m
    (fun r p => p.2 = p.1.seenBy userId ∧ p.1.Fair new userId ∧ Q r p.1) (w, w.seenBy userId)

namespace Isolated

variable {new : Uuid → Prop} {userId : Uuid} {α β : Type} {m : Promise α}
  {Q Q' : Except Failure α → World → Prop} {w : World}

theorem weaken (isolated : Isolated new userId m Q w)
    (weaker : ∀ r v, v.Fair new userId → Q r v → Q' r v) : Isolated new userId m Q' w :=
  EndsAlike.weaken isolated fun r p h => ⟨h.1, h.2.1, weaker r p.1 h.2.1 h.2.2⟩

theorem done {a : α} (fair : w.Fair new userId) (post : Q (.ok a) w) :
    Isolated new userId (.done a) Q w :=
  EndsAlike.done ⟨rfl, fair, post⟩

theorem fail {e : Failure} (fair : w.Fair new userId) (post : Q (.error e) w) :
    Isolated new userId (.fail e) Q w :=
  EndsAlike.fail ⟨rfl, fair, post⟩

theorem bind {f : α → Promise β} {P : Except Failure β → World → Prop}
    (isolated : Isolated new userId m
      (onOk (fun a => Isolated new userId (f a) P) fun e => P (.error e)) w) :
    Isolated new userId (m.bind f) P w := by
  refine EndsAlike.bind (EndsAlike.weaken isolated fun r p h => ?_)
  obtain ⟨v, u⟩ := p
  obtain ⟨(seen : u = v.seenBy userId), fair, post⟩ := h
  subst seen
  cases r with
  | ok a => exact post
  | error e => exact ⟨rfl, fair, post⟩

theorem handle {h : Failure → Promise α}
    (isolated : Isolated new userId m
      (onOk (fun a => Q (.ok a)) fun e => Isolated new userId (h e) Q) w) :
    Isolated new userId (m.handle h) Q w := by
  refine EndsAlike.handle (EndsAlike.weaken isolated fun r p there => ?_)
  obtain ⟨v, u⟩ := p
  obtain ⟨(seen : u = v.seenBy userId), fair, post⟩ := there
  subst seen
  cases r with
  | ok a => exact ⟨rfl, fair, post⟩
  | error e => exact post

/-- Whatever is left of it. -/
theorem loose (isolated : Isolated new userId m Q w) :
    Isolated new userId m (fun _ _ => True) w :=
  isolated.weaken fun _ _ _ _ => trivial

/-- What follows a method that has found `R`. -/
theorem after {f : α → Promise β} {R : α → World → Prop}
    (first : Isolated new userId m (onOk R fun _ _ => True) w)
    (next : ∀ a v, v.Fair new userId → R a v → Isolated new userId (f a) (fun _ _ => True) v) :
    Isolated new userId (m.bind f) (fun _ _ => True) w := by
  refine Isolated.bind (first.weaken fun r v fair post => ?_)
  cases r with
  | ok a => exact next a v fair post
  | error e => trivial

theorem andThen {f : α → Promise β} (first : Isolated new userId m (fun _ _ => True) w)
    (next : ∀ a v, v.Fair new userId → Isolated new userId (f a) (fun _ _ => True) v) :
    Isolated new userId (m.bind f) (fun _ _ => True) w := by
  refine Isolated.after (R := fun _ _ => True) (first.weaken fun r _ _ _ => ?_)
    fun a v fair _ => next a v fair
  cases r <;> trivial

/-- An error that does not get through. -/
theorem swallow {a : α} (isolated : Isolated new userId m (fun _ _ => True) w) :
    Isolated new userId (m.handle fun _ => .done a) (fun _ _ => True) w := by
  refine Isolated.handle (isolated.weaken fun r v fair _ => ?_)
  cases r with
  | ok b => trivial
  | error e =>
    rw [onOk]
    exact Isolated.done fair trivial

/-- An error that is only passed on or exchanged. -/
theorem rethrow {h : Failure → Promise α} (rethrows : ∀ e, ∃ e', h e = .fail e')
    (isolated : Isolated new userId m (fun _ _ => True) w) :
    Isolated new userId (m.handle h) (fun _ _ => True) w := by
  refine Isolated.handle (isolated.weaken fun r v fair _ => ?_)
  cases r with
  | ok a => trivial
  | error e =>
    obtain ⟨e', he⟩ := rethrows e
    rw [onOk, he]
    exact Isolated.fail fair trivial

theorem withCleanup {cleanup : Promise Unit} (isolated : Isolated new userId m (fun _ _ => True) w)
    (cleans : ∀ v, v.Fair new userId → Isolated new userId cleanup (fun _ _ => True) v) :
    Isolated new userId (Promise.withCleanup m cleanup) (fun _ _ => True) w := by
  -- the cleanup, before the result is passed on
  have settled : ∀ {n : Promise α} (v : World), v.Fair new userId →
      (∀ u, u.Fair new userId → Isolated new userId n (fun _ _ => True) u) →
      Isolated new userId (cleanup.bind fun _ => n) (fun _ _ => True) v :=
    fun v fair ends => Isolated.andThen (cleans v fair) fun _ u fair => ends u fair
  unfold Promise.withCleanup
  simp only [bind_eq, tryCatch_eq, throw_eq, pure_eq]
  refine Isolated.after (R := fun _ _ => True)
    (Isolated.handle (isolated.weaken fun r v fair _ => ?_)) fun a v fair _ => settled v fair fun u fair => Isolated.done fair trivial
  cases r with
  | ok a => trivial
  | error e =>
    have failed := settled v fair fun u fair => Isolated.fail (e := e) fair trivial
    exact failed.weaken fun r _ _ _ => by cases r <;> trivial

/-- A statement that reads what the user sees. -/
theorem read {model : Model} {op : Operation} {f : Input → Db → Except Failure α}
    (fair : w.Fair new userId) (same : ∀ i, f i (w.db.seenBy userId) = f i w.db) :
    Isolated new userId (Promise.read model op f)
      (fun r v => v = w ∧ ∀ a, r = .ok a → ∃ i, f i w.db = .ok a) w := by
  refine EndsAlike.call (fair.reserved_iff _) fun x _ => ?_
  cases x with
  | threw e => exact ⟨rfl, rfl, fair, rfl, fun _ ok => by cases ok⟩
  | took i => exact ⟨same i, rfl, fair, rfl, fun a ok => ⟨i, ok⟩⟩

/-- What follows a statement that reads what the user sees. -/
theorem readThen {model : Model} {op : Operation} {f : Input → Db → Except Failure α}
    {k : α → Promise β} {P : Except Failure β → World → Prop} (fair : w.Fair new userId)
    (same : ∀ i, f i (w.db.seenBy userId) = f i w.db) (failed : ∀ e, P (.error e) w)
    (next : ∀ i a, f i w.db = .ok a → Isolated new userId (k a) P w) :
    Isolated new userId ((Promise.read model op f).bind k) P w := by
  refine Isolated.bind ((Isolated.read fair same).weaken fun r v _ h => ?_)
  obtain ⟨rfl, answered⟩ := h
  cases r with
  | error e => exact failed e
  | ok a =>
    obtain ⟨i, answered⟩ := answered a rfl
    exact next i a answered

/-- A statement that writes what the user sees. -/
theorem write {model : Model} {op : Operation} {touched : Db → RowSet}
    {f : Input → Db → Except Failure (α × Db)} (fair : w.Fair new userId)
    (same : ∀ i, reserved new (.db model op) w (.took i) →
      f i (w.db.seenBy userId) = (f i w.db).map fun r => (r.1, r.2.seenBy userId))
    (effect : ∀ i a db, f i w.db = .ok (a, db) →
      Db.Effect (touched w.db) (Issued (.db model op) (.took i)) (some userId) w.db db)
    (post : ∀ i a db, f i w.db = .ok (a, db) → Q (.ok a) { w with db })
    (failed : ∀ e, Q (.error e) w) :
    Isolated new userId (Promise.write model op touched f) Q w := by
  refine EndsAlike.call (fair.reserved_iff _) fun x may => ?_
  cases x with
  | threw e => exact ⟨rfl, rfl, fair, failed e⟩
  | took i =>
    have seen := same i may
    have seen : f i (w.seenBy userId).db = (f i w.db).map fun r => (r.1, r.2.seenBy userId) := seen
    simp only [Call.answer_took]
    rw [seen]
    cases hf : f i w.db with
    | error e => exact ⟨rfl, rfl, fair, failed e⟩
    | ok r =>
      obtain ⟨a, db⟩ := r
      exact ⟨rfl, rfl, fair.write may (effect i a db hf), post i a db hf⟩

/-- A call beside the tables and the cached tasks, or a read of what the user sees. -/
def Passes (new : Uuid → Prop) (userId : Uuid) (db : Db) {β : Type}
    (c : Call World Input Failure Label β) : Prop :=
  ∀ x v, v.Fair new userId → v.db = db →
    c.answer x (v.seenBy userId) = ((c.answer x v).1, (c.answer x v).2.seenBy userId) ∧
      (c.answer x v).2.db = db ∧ ∀ s, (c.answer x v).2.cache (.task s) = v.cache (.task s)

theorem of_calls (fair : w.Fair new userId) (calls : m.Calls (Passes new userId w.db)) :
    Isolated new userId m (fun _ v => v.db = w.db) w := by
  let R : World × World → Prop :=
    fun p => p.2 = p.1.seenBy userId ∧ p.1.Fair new userId ∧ p.1.db = w.db
  refine EndsAlike.of_calls (R := R) (calls.mono fun passes x p related => ?_) ⟨rfl, fair, rfl⟩
  obtain ⟨v, u⟩ := p
  obtain ⟨(seen : u = v.seenBy userId), fair, here⟩ := related
  subst seen
  obtain ⟨answered, db, cache⟩ := passes x v fair here
  have result := congrArg Prod.fst answered
  have after := congrArg Prod.snd answered
  exact ⟨fair.reserved_iff _ x,
    fun _ => ⟨result, after, fair.beside (db.trans here.symm) cache, db⟩⟩

/-- What follows calls that leave the tables as they are. -/
theorem passThen {k : α → Promise β} (fair : w.Fair new userId)
    (calls : m.Calls (Passes new userId w.db))
    (next : ∀ a v, v.Fair new userId → v.db = w.db →
      Isolated new userId (k a) (fun _ _ => True) v) :
    Isolated new userId (m.bind k) (fun _ _ => True) w := by
  refine Isolated.after (R := fun _ v => v.db = w.db)
    ((Isolated.of_calls fair calls).weaken fun r v _ same => ?_) next
  cases r with
  | ok a => exact same
  | error e => trivial

/-- A call beside the tables and the cache. -/
theorem passes_beside {β : Type} {c : Call World Input Failure Label β} {db : Db}
    (beside : ∀ x v, c.answer x (v.seenBy userId) =
      ((c.answer x v).1, (c.answer x v).2.seenBy userId) ∧
        (c.answer x v).2.db = v.db ∧ (c.answer x v).2.cache = v.cache) :
    (Async.Method.call c).Calls (Passes new userId db) := by
  refine Async.Method.calls_call fun x v _ here => ?_
  obtain ⟨alike, sameDb, sameCache⟩ := beside x v
  exact ⟨alike, sameDb.trans here, fun s => congrFun sameCache _⟩

theorem passes_read {model : Model} {op : Operation} {f : Input → Db → Except Failure α} {db : Db}
    (same : db.Closed → ∀ i, f i (db.seenBy userId) = f i db) :
    (Promise.read model op f).Calls (Passes new userId db) := by
  refine Async.Method.calls_call fun x v fair here => ?_
  subst here
  cases x with
  | threw e => exact ⟨rfl, rfl, fun _ => rfl⟩
  | took i => exact ⟨Prod.ext (same fair.closed i) rfl, rfl, fun _ => rfl⟩

end Isolated

end GuitarCoach
