/- digest: A purge among other requests: its transaction deletes what is the user's, and only that. -/

import GuitarCoach.Ownership.Checks

/-!
While a purge is inside its transaction nobody else changes what the transaction has deleted so
far, however many statements of others, other purges among them, come in between. Every id that it deletes was an id of the
user's when the statement saw it, and ids do not change hands.
-/

set_option autoImplicit false
set_option relaxedAutoImplicit false

namespace GuitarCoach

open Async (Answer Call Keeping Run Safe onOk)
open Async.Method (Calls bind_eq tryCatch_eq throw_eq pure_eq)
open Relational (Lasting Table)

namespace Backend

/-- By `t` each of these ids was an id of the user's, or a link of such an id. -/
structure Was (r : Backend) (t : Nat) (userId : Uuid) (gone : RowSet) : Prop where
  users : ∀ k ∈ gone.users, k = userId
  tasks : ∀ k ∈ gone.tasks, ∃ s ≤ t, ∃ a ∈ (r.state s).db.tasks.rows,
    a.id = k ∧ a.ownerId = some userId
  routines : ∀ k ∈ gone.routines, ∃ s ≤ t, ∃ a ∈ (r.state s).db.routines.rows,
    a.id = k ∧ a.userId = userId
  routineTasks : ∀ k ∈ gone.routineTasks, ∃ s ≤ t, ∃ a ∈ (r.state s).db.routines.rows,
    a.id = k.1 ∧ a.userId = userId
  practiceSessions : ∀ k ∈ gone.practiceSessions, ∃ s ≤ t,
    ∃ a ∈ (r.state s).db.practiceSessions.rows, a.id = k ∧ a.userId = userId
  practiceSessionTasks : ∀ k ∈ gone.practiceSessionTasks, ∃ s ≤ t,
    ∃ a ∈ (r.state s).db.practiceSessions.rows, a.id = k.1 ∧ a.userId = userId
  recordings : ∀ k ∈ gone.recordings, ∃ s ≤ t, ∃ a ∈ (r.state s).db.recordings.rows,
    a.id = k ∧ a.userId = userId

variable {r : Backend} {request : Nat → ServiceRequest} {i t u : Nat} {userId : Uuid}
  {gone more : RowSet}

theorem was_nothing : r.Was t userId {} := by
  constructor <;> simp

private theorem later_of {P : Nat → Prop} (later : t ≤ u) : (∃ s ≤ t, P s) → ∃ s ≤ u, P s :=
  fun ⟨s, hs, h⟩ => ⟨s, hs.trans later, h⟩

theorem Was.later (was : r.Was t userId gone) (later : t ≤ u) : r.Was u userId gone where
  users := was.users
  tasks k hk := later_of later (was.tasks k hk)
  routines k hk := later_of later (was.routines k hk)
  routineTasks k hk := later_of later (was.routineTasks k hk)
  practiceSessions k hk := later_of later (was.practiceSessions k hk)
  practiceSessionTasks k hk := later_of later (was.practiceSessionTasks k hk)
  recordings k hk := later_of later (was.recordings k hk)

/-- What a statement selects among the rows that are left. -/
theorem Was.select (was : r.Was t userId gone)
    (selects : UsersService.Selects userId ((r.state t).db.without gone) more) :
    r.Was t userId (gone.union more) where
  users k hk := (List.mem_append.mp hk).elim (was.users k) (selects.users k)
  tasks k hk := (List.mem_append.mp hk).elim (was.tasks k) fun hk => by
    obtain ⟨a, ha, own⟩ := selects.tasks k hk
    exact ⟨t, le_rfl, a, Db.mem_without_tasks ha, own⟩
  routines k hk := (List.mem_append.mp hk).elim (was.routines k) fun hk => by
    obtain ⟨a, ha, own⟩ := selects.routines k hk
    exact ⟨t, le_rfl, a, Db.mem_without_routines ha, own⟩
  routineTasks k hk := (List.mem_append.mp hk).elim (was.routineTasks k) fun hk => by
    obtain ⟨a, ha, own⟩ := selects.routineTasks k hk
    exact ⟨t, le_rfl, a, Db.mem_without_routines ha, own⟩
  practiceSessions k hk := (List.mem_append.mp hk).elim (was.practiceSessions k) fun hk => by
    obtain ⟨a, ha, hid, own⟩ := selects.practiceSessions k hk
    obtain ⟨b, hb, same, user⟩ := Db.mem_without_sessions ha
    exact ⟨t, le_rfl, b, hb, same.trans hid, user.trans own⟩
  practiceSessionTasks k hk := (List.mem_append.mp hk).elim (was.practiceSessionTasks k) fun hk => by
    obtain ⟨a, ha, hid, own⟩ := selects.practiceSessionTasks k hk
    obtain ⟨b, hb, same, user⟩ := Db.mem_without_sessions ha
    exact ⟨t, le_rfl, b, hb, same.trans hid, user.trans own⟩
  recordings k hk := (List.mem_append.mp hk).elim (was.recordings k) fun hk => by
    obtain ⟨a, ha, own⟩ := selects.recordings k hk
    exact ⟨t, le_rfl, a, (Table.mem_deleteWhere.mp ha).1, own⟩

/-- What is there under these ids is the user's. -/
theorem Was.onlyOf (was : r.Was t userId gone) (lasts : r.Lasts request t) :
    (r.state t).db.OnlyOf userId gone where
  users := was.users
  tasks a ha hk := by
    obtain ⟨s, hs, b, hb, hid, own⟩ := was.tasks a.id hk
    have same : b.ownerId = a.ownerId := lasts.tasks s hs b hb a ha hid
    exact same.symm.trans own
  routines a ha hk := by
    obtain ⟨s, hs, b, hb, hid, own⟩ := was.routines a.id hk
    have same : b.userId = a.userId := lasts.routines s hs b hb a ha hid
    exact same.symm.trans own
  routineTasks a ha hk c hc link := by
    obtain ⟨s, hs, b, hb, hid, own⟩ := was.routineTasks a.key hk
    have same : b.userId = c.userId := lasts.routines s hs b hb c hc (hid.trans link.symm)
    exact same.symm.trans own
  practiceSessions a ha hk := by
    obtain ⟨s, hs, b, hb, hid, own⟩ := was.practiceSessions a.id hk
    have same : b.userId = a.userId := lasts.practiceSessions s hs b hb a ha hid
    exact same.symm.trans own
  practiceSessionTasks a ha hk c hc link := by
    obtain ⟨s, hs, b, hb, hid, own⟩ := was.practiceSessionTasks a.key hk
    have same : b.userId = c.userId := lasts.practiceSessions s hs b hb c hc (hid.trans link.symm)
    exact same.symm.trans own
  recordings a ha hk := by
    obtain ⟨s, hs, b, hb, hid, own⟩ := was.recordings a.id hk
    have same : b.userId = a.userId := lasts.recordings s hs b hb a ha hid
    exact same.symm.trans own

/-- Request `i` is inside this transaction, which has deleted rows of the user of which `F`
holds. -/
def Inside (r : Backend) (i tx : Nat) (userId : Uuid) (F : RowSet → Prop) (t : Nat) : Prop :=
  r.Holds (·.tx tx) i t ∧ ∃ gone, (r.state t).tx tx = some gone ∧ r.Was t userId gone ∧ F gone

/-- By `t` the user was there, and then was not. -/
def Purged (r : Backend) (userId : Uuid) (t : Nat) : Prop :=
  ∃ s c, s ≤ c ∧ c ≤ t ∧ (r.state s).db.users.has userId = true ∧
    (r.state c).db.users.has userId = false

theorem Purged.later (purged : r.Purged userId t) (later : t ≤ u) : r.Purged userId u := by
  obtain ⟨s, c, hsc, hct, there, gone⟩ := purged
  exact ⟨s, c, hsc, hct.trans later, there, gone⟩

variable {tx : Nat} {F G : RowSet → Prop}

/-- While request `i` waits, it stays inside. -/
theorem Inside.still (inside : r.Inside i tx userId F t) (lasts : r.Lasts request u)
    (quiet : r.Quiet i t u) : r.Inside i tx userId F u := by
  obtain ⟨holds, gone, opened, was, now⟩ := inside
  obtain ⟨holds, same⟩ := (lasts.disciplined tx).still quiet holds
  exact ⟨holds, gone, same.trans opened, was.later quiet.1, now⟩

theorem Inside.silent (inside : r.Inside i tx userId F t) (same : r.state (t + 1) = r.state t) :
    r.Inside i tx userId F (t + 1) := by
  obtain ⟨holds, gone, opened, was, now⟩ := inside
  refine ⟨holds.next ?_, gone, by rw [same]; exact opened, was.later (Nat.le_succ t), now⟩
  show (r.state (t + 1)).tx tx ≠ none
  rw [same, opened]
  exact nofun

end Backend

/-! ### The calls of a transaction -/

section Calls

variable {request : Nat → ServiceRequest} {r : Backend} {i tx t : Nat} {userId : Uuid}
  {F G : RowSet → Prop}

/-- A call that changes one open transaction, and takes no more than rows off the tables. -/
theorem Backend.Lasts.take (tx : Nat) {gone : RowSet} (lasts : r.Lasts request t)
    (sound : (r.state t).db.ClosedBut gone)
    (db : (r.state (t + 1)).db = (r.state t).db.without gone)
    (others : ∀ other, other ≠ tx → (r.state (t + 1)).tx other = (r.state t).tx other)
    (closed : (r.state (t + 1)).db.ClosedBut (((r.state (t + 1)).tx tx).getD {}))
    (deleted : ∀ gone' ∈ (r.state (t + 1)).tx tx, ∀ k ∈ gone'.practiceSessions,
      (∃ gone ∈ (r.state t).tx tx, k ∈ gone.practiceSessions) ∨
        (r.state t).db.practiceSessions.has k = true)
    {l : Label} {x : Answer Input Failure} (called : r.CallsAt i t l x) (silent : l.object? = none)
    (may : (r.state t).tx tx = none ∨ r.Holds (·.tx tx) i t)
    (allowed : (r.state t).db.Allowed (request i).actor (r.state (t + 1)).db) :
    r.Lasts request (t + 1) := by
  have sound : (r.state (t + 1)).Sound := by
    intro other
    by_cases same : other = tx
    · rw [same]
      exact closed
    · rw [others other same, db]
      exact (lasts.sound other).commit sound
  have moves : (r.state t).Moves (fun _ => False) (r.state (t + 1)) := by
    refine ⟨?_, ?_, fun other gone' here k hk => ?_⟩
    · rw [db]
      exact .without gone
    · rw [db]
      exact fun named a ha => named a (Table.mem_deleteWhere.mp ha).1
    · by_cases same : other = tx
      · subst same
        exact deleted gone' here k hk
      · rw [others other same] at here
        exact .inl ⟨gone', here, hk⟩
  refine lasts.next _ sound moves (fun _ none => none.elim) (fun other => ?_)
    fun j l' x' called' => ?_
  · by_cases same : other = tx
    · subst same
      exact .inr ⟨i, l, x, called, may⟩
    · exact .inl (others other same)
  · obtain ⟨rfl, rfl, -⟩ := called.unique called'
    exact ⟨.silent silent, allowed⟩

/-- A call that changes one open transaction and no table. -/
theorem Backend.Lasts.transact (tx : Nat) (lasts : r.Lasts request t)
    (db : (r.state (t + 1)).db = (r.state t).db)
    (others : ∀ other, other ≠ tx → (r.state (t + 1)).tx other = (r.state t).tx other)
    (closed : (r.state t).db.ClosedBut (((r.state (t + 1)).tx tx).getD {}))
    (deleted : ∀ gone' ∈ (r.state (t + 1)).tx tx, ∀ k ∈ gone'.practiceSessions,
      (∃ gone ∈ (r.state t).tx tx, k ∈ gone.practiceSessions) ∨
        (r.state t).db.practiceSessions.has k = true)
    {l : Label} {x : Answer Input Failure} (called : r.CallsAt i t l x) (silent : l.object? = none)
    (may : (r.state t).tx tx = none ∨ r.Holds (·.tx tx) i t) : r.Lasts request (t + 1) := by
  have none : (r.state (t + 1)).db = (r.state t).db.without {} := by rw [db, Db.without_nothing]
  refine lasts.take tx (.nothing lasts.sound.tables) none others ?_ deleted called silent may ?_
  · rw [db]
    exact closed
  · rw [db]
    exact .same _ _

namespace Promise

theorem safe_begin (request : Nat → ServiceRequest) (userId : Uuid) :
    Safe (r.setting i (r.Lasts request)) begin
      (onOk (fun tx => r.Inside i tx userId fun _ => True) fun _ _ => True) t := by
  refine Safe.call fun u v x quiet lasts answered ready next => ?_
  obtain ⟨called, rfl⟩ := answered
  have lasts : r.Lasts request u := lasts
  have next : r.state (u + 1) = (Call.answer _ x (r.state u)).2 := next
  cases x with
  | threw e =>
    have same : r.state (u + 1) = r.state u := next
    exact ⟨lasts.silent called rfl same, fun _ _ _ => trivial⟩
  | took inp =>
    have next : r.state (u + 1) = (r.state u).withTx (r.state u).nextTx {} := next
    have free : (r.state u).tx (r.state u).nextTx = none := World.tx_nextTx _
    have opened : (r.state (u + 1)).tx (r.state u).nextTx = some {} := by
      rw [next, World.withTx_tx]
    have kept : r.Lasts request (u + 1) := by
      refine lasts.transact (r.state u).nextTx (by rw [next]; rfl)
        (fun other apart => by rw [next, World.withTx_tx_ne apart]) ?_ (fun gone' here k hk => ?_)
        called rfl (.inl free)
      · rw [opened]
        exact .nothing lasts.sound.tables
      · rw [opened] at here
        cases here
        cases hk
    refine ⟨kept, fun w quiet later => ?_⟩
    have inside : r.Inside i (r.state u).nextTx userId (fun _ => True) (u + 1) := by
      refine ⟨Run.holds_taken called free ?_, {}, opened, Backend.was_nothing, trivial⟩
      show (r.state (u + 1)).tx (r.state u).nextTx ≠ none
      rw [opened]
      exact nofun
    exact inside.still later quiet

/-- What a statement of a transaction reads, it reads off the tables less its own deletes. -/
theorem safe_txRead {α : Type} {model : Model} {op : Operation} {f : Input → Db → Except Failure α}
    {Q : α → Nat → Prop} (inside : r.Inside i tx userId F t)
    (found : ∀ inp s gone a u, r.Lasts request s → s ≤ u →
      f inp ((r.state s).db.without gone) = .ok a → Q a u) :
    Safe (r.setting i (r.Lasts request)) (txRead tx model op f)
      (fun res u => r.Inside i tx userId F u ∧ ∀ a, res = .ok a → Q a u) t := by
  refine Safe.call fun u v x quiet lasts answered ready next => ?_
  obtain ⟨called, rfl⟩ := answered
  have lasts : r.Lasts request u := lasts
  have still := inside.still lasts quiet
  have next : r.state (u + 1) = (Call.answer _ x (r.state u)).2 := next
  have same : r.state (u + 1) = r.state u := by
    rw [next]
    cases x <;> rfl
  refine ⟨lasts.silent called rfl same, fun w later lastsLater =>
    ⟨(still.silent same).still lastsLater later, fun a ha => ?_⟩⟩
  cases x with
  | threw e => cases ha
  | took inp =>
    rw [Call.answer_took] at ha
    have view := World.view_eq (r.state u) tx
    refine found inp u (((r.state u).tx tx).getD {}) a w lasts (by have := later.1; omega) ?_
    rw [← view]
    exact ha

/-- A statement that deletes rows of the user which it finds there. -/
theorem safe_txDelete {model : Model} {op : Operation} {rows : Db → Except Failure RowSet}
    (own : ∀ db gone, rows db = .ok gone → UsersService.Selects userId db gone)
    (deletes : ∀ db gone more, F gone → rows db = .ok more → G (gone.union more))
    (inside : r.Inside i tx userId F t) :
    Safe (r.setting i (r.Lasts request)) (txDelete tx model op rows)
      (onOk (fun _ => r.Inside i tx userId G) fun _ => r.Inside i tx userId F) t := by
  refine Safe.call fun u v x quiet lasts answered ready next => ?_
  obtain ⟨called, rfl⟩ := answered
  have lasts : r.Lasts request u := lasts
  have still := inside.still lasts quiet
  have next : r.state (u + 1) = (Call.answer _ x (r.state u)).2 := next
  -- a statement that deletes nothing leaves all as it was
  have unchanged : r.state (u + 1) = r.state u → r.Lasts request (u + 1) ∧
      ∀ w, r.Quiet i (u + 1) w → r.Lasts request w → r.Inside i tx userId F w :=
    fun same => ⟨lasts.silent called rfl same,
      fun w later lastsLater => (still.silent same).still lastsLater later⟩
  obtain ⟨holds, gone, opened, was, now⟩ := still
  have view : (r.state u).view tx = (r.state u).db.without gone := by
    rw [World.view_eq, opened]
    rfl
  cases x with
  | threw e => exact unchanged next
  | took inp =>
    rw [Call.answer_took] at next ⊢
    dsimp only [Run.setting] at next ⊢
    rw [view, opened] at next
    rw [view]
    cases hrows : rows ((r.state u).db.without gone) with
    | error e =>
      rw [hrows] at next
      exact unchanged next
    | ok more =>
      rw [hrows] at next
      dsimp only at next ⊢
      cases unlocked : (r.state u).unlocked (some tx) more with
      | false =>
        rw [unlocked] at next
        exact unchanged next
      | true =>
        rw [unlocked] at next
        simp only [if_true] at next ⊢
        cases hdelete : ((r.state u).db.without gone).delete more with
        | error e =>
          rw [hdelete] at next
          exact unchanged next
        | ok db =>
          rw [hdelete] at next
          have next : r.state (u + 1) = (r.state u).withTx tx (gone.union more) := next
          have selects := own _ _ hrows
          have opened' : (r.state (u + 1)).tx tx = some (gone.union more) := by
            rw [next, World.withTx_tx]
          have kept : r.Lasts request (u + 1) := by
            refine lasts.transact tx (by rw [next]; rfl)
              (fun other apart => by rw [next, World.withTx_tx_ne apart]) ?_
              (fun gone' here k hk => ?_) called rfl (.inr holds)
            · have sound := lasts.sound tx
              rw [opened] at sound
              rw [opened']
              exact sound.deleteMore hdelete
            · rw [opened'] at here
              cases here
              rcases List.mem_append.mp hk with old | new
              · exact .inl ⟨gone, opened, old⟩
              · obtain ⟨a, ha, hid, -⟩ := selects.practiceSessions k new
                obtain ⟨b, hb, same, -⟩ := Db.mem_without_sessions ha
                exact .inr (Table.has_iff.mpr ⟨b, hb, same.trans hid⟩)
          refine ⟨kept, fun w later lastsLater => ?_⟩
          refine Backend.Inside.still ⟨holds.next ?_, _, opened',
            (was.select selects).later (Nat.le_succ u), deletes _ _ _ now hrows⟩ lastsLater later
          show (r.state (u + 1)).tx tx ≠ none
          rw [opened']
          exact nofun

/-- The transaction ends, and the tables stay as they were. -/
private theorem lasts_ended (lasts : r.Lasts request t) {l : Label} {x : Answer Input Failure}
    (called : r.CallsAt i t l x) (silent : l.object? = none) (holds : r.Holds (·.tx tx) i t)
    (next : r.state (t + 1) = (r.state t).withoutTx tx) : r.Lasts request (t + 1) := by
  have ended : (r.state (t + 1)).tx tx = none := by rw [next, World.withoutTx_tx]
  refine lasts.transact tx (by rw [next]; rfl)
    (fun other apart => by rw [next, World.withoutTx_tx_ne apart]) ?_ (fun gone' here => ?_) called
    silent (.inr holds)
  · rw [ended]
    exact .nothing lasts.sound.tables
  · rw [ended] at here
    cases here

theorem safe_rollback (inside : r.Inside i tx userId F t) :
    Safe (r.setting i (r.Lasts request)) (rollback tx) (fun _ _ => True) t := by
  refine Safe.call fun u v x quiet lasts answered ready next => ?_
  obtain ⟨called, rfl⟩ := answered
  have lasts : r.Lasts request u := lasts
  obtain ⟨holds, -⟩ := inside.still lasts quiet
  have after : r.state (u + 1) = (r.state u).withoutTx tx := by
    refine Eq.trans next ?_
    cases x <;> rfl
  exact ⟨lasts_ended lasts called rfl holds after, fun _ _ _ => trivial⟩

/-- With the commit the rows of the user go, and only these. -/
theorem safe_commit (acts : (request i).actor = some userId) (inside : r.Inside i tx userId F t)
    (user : ∀ gone, F gone → userId ∈ gone.users) (there : ∃ s ≤ t,
      (r.state s).db.users.has userId = true) : Safe (r.setting i (r.Lasts request)) (commit tx)
      (onOk (fun _ => r.Purged userId) fun _ _ => True) t := by
  refine Safe.call fun u v x quiet lasts answered ready next => ?_
  obtain ⟨called, rfl⟩ := answered
  have lasts : r.Lasts request u := lasts
  obtain ⟨holds, gone, opened, was, now⟩ := inside.still lasts quiet
  have next : r.state (u + 1) = (Call.answer _ x (r.state u)).2 := next
  have sound : (r.state u).db.ClosedBut gone := by
    have sound := lasts.sound tx
    rwa [opened] at sound
  cases x with
  | threw e => exact ⟨lasts_ended lasts called rfl holds next, fun _ _ _ => trivial⟩
  | took inp =>
    have view : (r.state u).view tx = (r.state u).db.without gone := by
      rw [World.view_eq, opened]
      rfl
    have next : r.state (u + 1) =
        { (r.state u).withoutTx tx with db := (r.state u).view tx } := next
    have db : (r.state (u + 1)).db = (r.state u).db.without gone := by rw [next, ← view]
    have txs : (r.state (u + 1)).txs = ((r.state u).withoutTx tx).txs := by rw [next]
    have ended : (r.state (u + 1)).tx tx = none :=
      (World.tx_congr txs tx).trans World.withoutTx_tx
    have others : ∀ other, other ≠ tx → (r.state (u + 1)).tx other = (r.state u).tx other :=
      fun other apart => (World.tx_congr txs other).trans (World.withoutTx_tx_ne apart)
    refine ⟨?_, fun w later lastsLater => ?_⟩
    · refine lasts.take tx sound db others ?_ (fun gone' here => ?_) called rfl (.inr holds) ?_
      · rw [ended, db]
        exact .nothing sound.view
      · rw [ended] at here
        cases here
      · rw [db, acts]
        refine ⟨fun userId' same => ?_, fun none => by cases none⟩
        cases same
        exact .without sound.tables (was.onlyOf lasts)
    · obtain ⟨s, hs, there⟩ := there
      refine ⟨s, u + 1, by have := quiet.1; omega, later.1, there, ?_⟩
      rw [db, Bool.eq_false_iff]
      exact fun left => (Db.has_without_users.mp left).2 (user gone now)

/-- A transaction that deletes the user, when its body succeeds. -/
theorem safe_transaction (acts : (request i).actor = some userId) {α : Type} {P : α → Prop}
    {body : Nat → Promise α}
    (safe : ∀ tx t, r.Inside i tx userId (fun _ => True) t →
      Safe (r.setting i (r.Lasts request)) (body tx)
        (onOk (fun a u => r.Inside i tx userId (userId ∈ ·.users) u ∧ P a ∧
          ∃ s ≤ u, (r.state s).db.users.has userId = true)
          fun _ => r.Inside i tx userId fun _ => True) t) :
    Safe (r.setting i (r.Lasts request)) (transaction body)
      (onOk (fun a u => r.Purged userId u ∧ P a) fun _ _ => True) t := by
  unfold transaction
  simp only [bind_eq, tryCatch_eq, throw_eq]
  refine Safe.bind ((safe_begin request userId).weaken fun res u _ h => ?_)
  cases res with
  | error e => trivial
  | ok tx =>
    refine Safe.bind (Safe.handle ((safe tx u h).weaken fun res v _ h => ?_))
    cases res with
    | error e =>
      refine Safe.bind ((safe_rollback h).weaken fun res w _ _ => ?_)
      cases res with
      | error e => trivial
      | ok _ => exact fun _ _ _ => trivial
    | ok a =>
      obtain ⟨inside, here, there⟩ := h
      refine Safe.bind ((safe_commit acts inside (fun _ user => user) there).weaken
        fun res w _ h => ?_)
      cases res with
      | error e => trivial
      | ok _ => exact fun x later _ => ⟨h.later later.1, here⟩

end Promise

namespace UsersService

variable {settings : Settings} {text : String}

/-- One delete after the other. -/
private theorem safe_deleteThen {α : Type} {model : Model} {op : Operation} {rows : Db → RowSet}
    {next : Promise α} {Q : Except Failure α → Nat → Prop}
    (own : ∀ db, Selects userId db (rows db)) (inside : r.Inside i tx userId (fun _ => True) t)
    (failed : ∀ e u, r.Inside i tx userId (fun _ => True) u → Q (.error e) u)
    (rest : ∀ u, r.Inside i tx userId (fun _ => True) u →
      Safe (r.setting i (r.Lasts request)) next Q u) :
    Safe (r.setting i (r.Lasts request))
      ((Promise.txDelete tx model op fun db => .ok (rows db)).bind fun _ => next) Q t := by
  refine Safe.bind ((Promise.safe_txDelete (G := fun _ => True)
    (fun db (gone : RowSet) h => ?_) (fun _ _ _ _ _ => trivial) inside).weaken fun res u _ h => ?_)
  · obtain rfl : rows db = gone := Except.ok.inj h
    exact own db
  · cases res with
    | error e => exact failed e u h
    | ok _ => exact rest u h

/-- The rows of a purge: whoever is deleted was there, and is not any more, and what is left to be
deleted from the bucket lies in their folder. -/
theorem safe_purgeRows (acts : (request i).actor = some (.ofText text)) :
    Safe (r.setting i (r.Lasts request)) (purgeRows text)
      (onOk (fun names u => r.Purged (.ofText text) u ∧ ∀ name ∈ names, IsUnder (.ofText text) name)
        fun _ _ => True) t := by
  unfold purgeRows
  refine Promise.safe_transaction acts (P := fun names => ∀ name ∈ names,
    IsUnder (.ofText text) name) fun tx t inside => ?_
  simp only [bind_eq]
  refine Safe.bind ((Promise.safe_txRead (Q := fun found u => ∀ user ∈ found,
    ∃ s ≤ u, (r.state s).db.users.has (.ofText text) = true) inside
    fun inp s gone a u _ hsu hf user found => ?_).weaken fun res u _ h => ?_)
  · obtain rfl := Except.ok.inj hf
    obtain ⟨hrow, hid⟩ := Table.find_eq_some.mp found
    exact ⟨s, hsu, Table.has_iff.mpr ⟨user, (Table.mem_deleteWhere.mp hrow).1, hid⟩⟩
  obtain ⟨inside, found⟩ := h
  cases res with
  | error e => exact inside
  | ok found' =>
    cases found' with
    | none => exact fun v quiet lasts => inside.still lasts quiet
    | some user =>
      obtain ⟨s, hs, there⟩ := found _ rfl user rfl
      have stays : ∀ v, u ≤ v → ∃ s ≤ v, (r.state s).db.users.has (.ofText text) = true :=
        fun v later => ⟨s, hs.trans later, there⟩
      refine Safe.weaken (Run.safe_after le_rfl (Q := onOk
        (fun names v => r.Inside i tx (.ofText text) (.ofText text ∈ ·.users) v ∧
          ∀ name ∈ names, IsUnder (.ofText text) name)
          fun _ => r.Inside i tx (.ofText text) fun _ => True) ?_) fun res v _ h => ?_
      · refine Safe.bind ((Promise.safe_txRead (Q := fun (recordings : List Recording) _ =>
          ∀ a ∈ recordings, IsUnder (.ofText text) a.objectName) inside
          fun inp s gone recordings v lasts _ hf a ha => ?_).weaken fun res v _ h => ?_)
        · obtain rfl := Except.ok.inj hf
          obtain ⟨there, own⟩ := List.mem_filter.mp (Relational.mem_orderBy.mp ha)
          have named := lasts.named s le_rfl a (Table.mem_deleteWhere.mp there).1
          rwa [of_decide_eq_true own] at named
        obtain ⟨inside, named⟩ := h
        cases res with
        | error e => exact inside
        | ok recordings =>
          have names : ∀ name ∈ recordings.map (·.objectName) ++
              (ownAvatarObject text user.image).toList, IsUnder (.ofText text) name := by
            intro name hname
            rcases List.mem_append.mp hname with recorded | photo
            · obtain ⟨a, ha, rfl⟩ := List.mem_map.mp recorded
              exact named _ rfl a ha
            · exact isUnder_of_own (Option.mem_toList.mp photo)
          refine safe_deleteThen (selects_recordingsOf _) inside (fun _ _ => id) fun v inside => ?_
          refine safe_deleteThen (selects_sessionTasksOf _) inside (fun _ _ => id) fun v inside => ?_
          refine safe_deleteThen (selects_sessionsOf _) inside (fun _ _ => id) fun v inside => ?_
          refine safe_deleteThen (selects_routineTasksOf _) inside (fun _ _ => id) fun v inside => ?_
          refine safe_deleteThen (selects_routinesOf _) inside (fun _ _ => id) fun v inside => ?_
          refine safe_deleteThen (selects_tasksOf _) inside (fun _ _ => id) fun v inside => ?_
          -- the user's row goes last
          refine Safe.bind ((Promise.safe_txDelete (G := (.ofText text ∈ ·.users))
            (fun db gone h => ?_) (fun db gone more _ h => ?_) inside).weaken fun res w _ h => ?_)
          · split at h
            · cases h
              exact selects_user _ _
            · cases h
          · split at h
            · cases h
              exact List.mem_append_right _ (List.mem_singleton_self _)
            · cases h
          · cases res with
            | error e => exact h
            | ok _ => exact fun x later lasts => ⟨h.still lasts later, names⟩
      · obtain ⟨h, later⟩ := h
        cases res with
        | error e => exact h
        | ok names => exact ⟨h.1, h.2, stays v later⟩

/-- A call about an object of the user's own changes no table. -/
private theorem lasts_deleteObject (lasts : r.Lasts request t)
    (acts : (request i).actor = some userId) {name : String} (named : IsUnder userId name)
    {x : Answer Input Failure} (called : r.CallsAt i t (.deleteObject name) x)
    {bucket : Finset String} (next : r.state (t + 1) = { r.state t with bucket }) :
    r.Lasts request (t + 1) := by
  refine lasts.same (fun j l x' called' => ?_) (by rw [next]) (by rw [next])
  obtain ⟨rfl, rfl, -⟩ := called.unique called'
  intro object about
  obtain rfl : name = object := Option.some.inj about
  exact ⟨userId, acts, named⟩

/-- The objects go after the commit; whatever happens to them, the user is gone. -/
theorem safe_purge (acts : (request i).actor = some (.ofText text)) :
    Safe (r.setting i (r.Lasts request)) (purge text)
      (onOk (fun _ => r.Purged (.ofText text)) fun _ _ => True) t := by
  refine Safe.bind ((safe_purgeRows acts).weaken fun res u _ h => ?_)
  cases res with
  | error e => trivial
  | ok names =>
    obtain ⟨purged, named⟩ := h
    have deletes : Deletes (r.anytime i (r.Lasts request)) (fun _ _ => True) names := by
      refine ⟨Run.anytime_passing, fun _ _ _ _ _ => trivial, ?_, ?_⟩
      · rintro name hname u v inp lasts ⟨called, rfl⟩ next
        exact ⟨lasts_deleteObject lasts acts (named name hname) called next, trivial⟩
      · rintro name hname u v e lasts ⟨called, rfl⟩ next
        exact ⟨lasts_deleteObject lasts acts (named name hname) called next, trivial⟩
    refine Run.safe_of_anytime ((safe_knowing _ (fun v w later known => known.later later) purged
      (deleteObjects_safe deletes u)).weaken fun res v _ h => ?_)
    cases res with
    | error e => trivial
    | ok _ => exact h.2

end UsersService

end Calls

end GuitarCoach
