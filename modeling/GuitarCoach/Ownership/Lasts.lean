/- digest: What lasts in every run of the backend, and the calls and acts that keep it. -/

import GuitarCoach.Async.Exclusive
import GuitarCoach.Ownership.Writes
import GuitarCoach.Relational.TableRuns

/-!
One invariant for everything: the tables are closed, no row has changed hands, a user who is gone
does not come back, each open transaction belongs to one request, and each request has changed only
what it may change.
-/

set_option autoImplicit false
set_option relaxedAutoImplicit false

namespace GuitarCoach

open Async (Answer Call Keeping Run)
open Async.Method (Calls)
open Relational (Lasting Table)

/-- Whose rows the request is about; nobody's for the staff. -/
def ServiceRequest.actor : ServiceRequest → Option Uuid
  | user userId _ => some userId
  | planner userId _ => some userId
  | coach userId _ _ => some userId
  | uploadAvatar userId _ => some userId
  | getAvatarUrl userId => some userId
  | removeAvatar userId => some userId
  | deleteAccount userId => some userId
  | removeUser id => some (.ofText id)
  | createTask _ => none
  | createTasks _ => none
  | updateTask .. => none
  | removeTask _ => none
  | weeklyCleanup .. => none

/-- What a call for this actor may do to the tables. -/
structure Db.Allowed (actor : Option Uuid) (before after : Db) : Prop where
  user : ∀ userId, actor = some userId → before.SameBut userId after
  staff : actor = none → before.KeptByStaff after

theorem Db.Allowed.same (actor : Option Uuid) (db : Db) : db.Allowed actor db :=
  ⟨fun _ _ => .refl db, fun _ => ⟨db.tasks, db.routines, rfl, rfl⟩⟩

/-! ### What lasts -/

/-- Up to `t` the tables are closed and no row has changed hands; users who went have not come
back; only the holder of an open transaction has changed it; and nobody has changed more than
they may, or asked for an object of others. -/
structure Backend.Lasts (r : Backend) (request : Nat → ServiceRequest) (t : Nat) : Prop where
  sound : (r.state t).Sound
  tasks : Lasting (fun s => (r.state s).db.tasks) Task.ownerId t
  routines : Lasting (fun s => (r.state s).db.routines) Routine.userId t
  practiceSessions :
    Lasting (fun s => (r.state s).db.practiceSessions) PracticeSession.userId t
  recordings : Lasting (fun s => (r.state s).db.recordings) Recording.userId t
  named : ∀ s ≤ t, (r.state s).db.Named
  departed : ∀ s c, s ≤ c → c ≤ t → ∀ u, (r.state s).db.users.has u = true →
    (r.state c).db.users.has u = false → (r.state t).db.users.has u = false
  deleted : ∀ tx, ∀ gone ∈ (r.state t).tx tx, ∀ k ∈ gone.practiceSessions,
    ∃ s ≤ t, (r.state s).db.practiceSessions.has k = true
  disciplined : ∀ tx, r.Disciplined (·.tx tx) t
  confined : ∀ s < t, ∀ i l x, r.CallsAt i s l x → l.Within (request i).actor ∧
    (r.state s).db.Allowed (request i).actor (r.state (s + 1)).db

section Lasts

variable {settings : Settings} {request : Nat → ServiceRequest} {r : Backend} {i t : Nat}
  {actor : Option Uuid}

theorem Backend.Lasts.start (start : r.start = World.empty) : r.Lasts request 0 where
  sound tx := by
    rw [Run.state_zero, start]
    exact .nothing Db.closed_empty
  tasks := .zero
  routines := .zero
  practiceSessions := .zero
  recordings := .zero
  named s hs a ha := by
    obtain rfl : s = 0 := by omega
    rw [Run.state_zero, start] at ha
    cases ha
  departed s c hsc hc u there gone := by
    obtain rfl : c = 0 := by omega
    exact gone
  deleted tx gone opened := by
    rw [Run.state_zero, start] at opened
    cases opened
  disciplined tx := Run.disciplined_zero
  confined s hs := absurd hs (Nat.not_lt_zero s)

/-- The ids of new rows are new ones. -/
theorem Backend.Lasts.next (fresh : Uuid → Prop) (lasts : r.Lasts request t)
    (sound : (r.state (t + 1)).Sound) (moves : (r.state t).Moves fresh (r.state (t + 1)))
    (new : ∀ id, fresh id → ∀ s ≤ t, ¬(r.state s).db.HasId id)
    (disciplined : ∀ tx, (r.state (t + 1)).tx tx = (r.state t).tx tx ∨
      ∃ i l x, r.CallsAt i t l x ∧ ((r.state t).tx tx = none ∨ r.Holds (·.tx tx) i t))
    (confined : ∀ i l x, r.CallsAt i t l x → l.Within (request i).actor ∧
      (r.state t).db.Allowed (request i).actor (r.state (t + 1)).db) : r.Lasts request (t + 1) where
  sound := sound
  tasks := lasts.tasks.next fun b hb => (moves.rows.tasks b hb).imp_left fun issued s hs =>
    Bool.eq_false_iff.mpr fun there => new _ issued s hs (.inr (.inl there))
  routines := lasts.routines.next fun b hb => (moves.rows.routines b hb).imp_left fun issued s hs =>
    Bool.eq_false_iff.mpr fun there => new _ issued s hs (.inr (.inr (.inl there)))
  practiceSessions := lasts.practiceSessions.next fun b hb =>
    (moves.rows.practiceSessions b hb).imp_left fun issued s hs =>
      Bool.eq_false_iff.mpr fun there => new _ issued s hs (.inr (.inr (.inr (.inl there))))
  recordings := lasts.recordings.next fun b hb =>
    (moves.rows.recordings b hb).imp_left fun issued s hs =>
      Bool.eq_false_iff.mpr fun there => new _ issued s hs (.inr (.inr (.inr (.inr there))))
  named s hs := by
    rcases Nat.le_succ_iff.mp hs with before | rfl
    · exact lasts.named s before
    · exact moves.named (lasts.named t le_rfl)
  departed s c hsc hc u there gone := by
    rcases Nat.le_succ_iff.mp hc with before | rfl
    · have absent := lasts.departed s c hsc before u there gone
      refine Bool.eq_false_iff.mpr fun back => ?_
      obtain ⟨b, hb, rfl⟩ := Table.has_iff.mp back
      rcases moves.rows.users b hb with issued | ⟨a, ha, hid⟩
      · exact new _ issued s (hsc.trans before) (.inl there)
      · rw [Table.has_iff.mpr ⟨a, ha, hid⟩] at absent
        cases absent
    · exact gone
  deleted tx gone' opened k hk := by
    rcases moves.deleted tx gone' opened k hk with ⟨gone, opened, hk⟩ | there
    · obtain ⟨s, hs, there⟩ := lasts.deleted tx gone opened k hk
      exact ⟨s, by omega, there⟩
    · exact ⟨t, by omega, there⟩
  disciplined tx := (lasts.disciplined tx).next (disciplined tx)
  confined s hs := by
    rcases Nat.lt_succ_iff_lt_or_eq.mp hs with before | rfl
    · exact lasts.confined s before
    · exact confined

theorem World.tx_congr {w w' : World} (txs : w'.txs = w.txs) (tx : Nat) : w'.tx tx = w.tx tx :=
  congrArg (AList.lookup tx) txs

/-- A moment that does nothing to the tables or to the transactions. -/
theorem Backend.Lasts.same (lasts : r.Lasts request t)
    (within : ∀ i l x, r.CallsAt i t l x → l.Within (request i).actor)
    (db : (r.state (t + 1)).db = (r.state t).db) (txs : (r.state (t + 1)).txs = (r.state t).txs) :
    r.Lasts request (t + 1) := by
  have same := World.tx_congr txs
  refine lasts.next (fun _ => False) (fun tx => ?_) ?_ (fun _ none => none.elim)
    (fun tx => .inl (same tx)) fun i l x called => ⟨within i l x called, ?_⟩
  · rw [db, same tx]
    exact lasts.sound tx
  · exact .beside (db ▸ .refl _) (fun named => db ▸ named) same
  · rw [db]
    exact .same _ _

/-- A call of the database that changes nothing. -/
theorem Backend.Lasts.silent (lasts : r.Lasts request t) {l : Label} {x : Answer Input Failure}
    (called : r.CallsAt i t l x) (silent : l.object? = none)
    (same : r.state (t + 1) = r.state t) : r.Lasts request (t + 1) := by
  refine lasts.same (fun j l' x' called' => ?_) (congrArg World.db same) (congrArg World.txs same)
  obtain ⟨-, rfl, -⟩ := called.unique called'
  exact .silent silent

/-- What a call gives out is new. -/
theorem BackendRun.issued_new (run : BackendRun settings request r) {l : Label}
    {x : Answer Input Failure} (called : r.CallsAt i t l x) (id : Uuid) (issued : Issued l x id) :
    ∀ s ≤ t, ¬(r.state s).db.HasId id := by
  obtain ⟨adds, inp, n, rfl, rfl⟩ := issued
  exact run.rowIds i t l inp called adds n

/-- A call that has an effect of its actor. -/
theorem BackendRun.effect (run : BackendRun settings request r) (lasts : r.Lasts request t)
    {l : Label} {x : Answer Input Failure} (called : r.CallsAt i t l x)
    (within : l.Within (request i).actor) {touched : RowSet}
    (apart : ∀ tx, touched.meets (((r.state t).tx tx).getD {}) = false)
    (effect : Db.Effect touched (Issued l x) (request i).actor (r.state t).db (r.state (t + 1)).db)
    (txs : (r.state (t + 1)).txs = (r.state t).txs) : r.Lasts request (t + 1) := by
  have new := run.issued_new called
  have same := World.tx_congr txs
  have other : ∀ tx id, Issued l x id →
      id ∉ (((r.state t).tx tx).getD {}).practiceSessions := by
    intro tx id issued there
    cases opened : (r.state t).tx tx with
    | none =>
      rw [opened] at there
      cases there
    | some gone =>
      rw [opened] at there
      obtain ⟨s, hs, there⟩ := lasts.deleted tx gone opened id there
      exact new id issued s hs (.inr (.inr (.inr (.inl there))))
  refine lasts.next _ (fun tx => ?_) (.beside effect.descends effect.named same) new
    (fun tx => .inl (same tx)) fun j l' x' called' => ?_
  · rw [same tx]
    exact effect.closed (apart tx) (other tx) (lasts.sound tx)
  · obtain ⟨rfl, rfl, -⟩ := called.unique called'
    exact ⟨within, fun userId byUser => effect.sameBut byUser lasts.sound.tables,
      fun staff => effect.byStaff staff⟩

theorem BackendRun.keeping (run : BackendRun settings request r) (acts : (request i).actor = actor)
    {β : Type} {m : Promise β} (calls : m.Calls (Affects actor)) :
    Keeping (r.anytime i (r.Lasts request)) m := by
  apply Keeping.of_calls
  refine calls.mono fun {β c} affects u v x lasts answered ready next => ?_
  obtain ⟨called, rfl⟩ := answered
  have lasts : r.Lasts request u := lasts
  obtain ⟨within, affects⟩ := affects
  obtain ⟨txs, touched, apart, effect⟩ := affects x _ ready lasts.sound.tables
  rw [← next] at txs effect
  subst acts
  exact run.effect lasts called within apart effect txs

end Lasts

/-! ### The surroundings -/

namespace Db

variable {db : Db} {gone : RowSet}

/-- The sign-ins of users that are there. -/
theorem ClosedBut.withSessions {sessions : Table Session.id} (closed : db.ClosedBut gone)
    (users : ∀ a ∈ sessions.rows, a ∈ db.sessions.rows ∨
      db.users.has a.userId = true ∧ a.userId ∉ gone.users) : { db with sessions }.ClosedBut gone := by
  obtain ⟨⟨intact, owned⟩, ⟨intact', owned'⟩⟩ := closed
  refine ⟨⟨{ intact with sessionUser := fun a ha => ?_ }, { owned with }⟩,
    ⟨{ intact' with sessionUser := fun a ha => ?_ }, { owned' with }⟩⟩
  · rcases users a ha with old | ⟨there, -⟩
    · exact intact.sessionUser a old
    · exact there
  · obtain ⟨ha, stays⟩ := Table.mem_deleteWhere.mp ha
    rcases users a ha with old | ⟨there, left⟩
    · exact intact'.sessionUser a (Table.mem_deleteWhere.mpr ⟨old, stays⟩)
    · exact has_without_users.mpr ⟨there, left⟩

theorem ClosedBut.withAccounts {accounts : Table Account.id} (closed : db.ClosedBut gone)
    (users : ∀ a ∈ accounts.rows, a ∈ db.accounts.rows ∨
      db.users.has a.userId = true ∧ a.userId ∉ gone.users) : { db with accounts }.ClosedBut gone := by
  obtain ⟨⟨intact, owned⟩, ⟨intact', owned'⟩⟩ := closed
  refine ⟨⟨{ intact with accountUser := fun a ha => ?_ }, { owned with }⟩,
    ⟨{ intact' with accountUser := fun a ha => ?_ }, { owned' with }⟩⟩
  · rcases users a ha with old | ⟨there, -⟩
    · exact intact.accountUser a old
    · exact there
  · obtain ⟨ha, stays⟩ := Table.mem_deleteWhere.mp ha
    rcases users a ha with old | ⟨there, left⟩
    · exact intact'.accountUser a (Table.mem_deleteWhere.mpr ⟨old, stays⟩)
    · exact has_without_users.mpr ⟨there, left⟩

end Db

theorem World.keepsUser_of {w : World} {userId : Uuid} (kept : w.keepsUser userId = true) (tx : Nat) :
    w.db.users.has userId = true ∧ userId ∉ ((w.tx tx).getD {}).users := by
  obtain ⟨there, unlocked⟩ := Bool.and_eq_true_iff.mp kept
  exact ⟨there, RowSet.apart_users (World.apart_of_unlocked unlocked tx)
    (List.mem_singleton_self userId)⟩

theorem Surroundings.act_txs (a : Surroundings) (w : World) : (a.act w).txs = w.txs := by
  cases a with
  | signUp user =>
    simp only [act]
    split <;> rfl
  | updateUser id image =>
    simp only [act]
    split <;> rfl
  | removeUser id =>
    simp only [act]
    split
    · split <;> rfl
    · rfl
  | signIn session =>
    simp only [act]
    split
    · rfl
    · split <;> rfl
  | linkAccount account =>
    simp only [act]
    split
    · rfl
    · split <;> rfl
  | _ => rfl

theorem Surroundings.act_recordings (a : Surroundings) (w : World) :
    (a.act w).db.recordings = w.db.recordings := by
  cases a with
  | signUp user =>
    simp only [act]
    split <;> rfl
  | updateUser id image =>
    simp only [act]
    split <;> rfl
  | removeUser id =>
    simp only [act]
    split
    · split
      · next deleted => exact Db.recordings_of_delete deleted rfl
      · rfl
    · rfl
  | signIn session =>
    simp only [act]
    split
    · rfl
    · split <;> rfl
  | linkAccount account =>
    simp only [act]
    split
    · rfl
    · split <;> rfl
  | _ => rfl

/-- An act of the surroundings changes no table that has owners, and only a sign-up adds users. -/
theorem Surroundings.act_moves (a : Surroundings) (w : World) (sound : w.Sound) :
    (a.act w).Sound ∧ w.db.Descends (fun id => ∃ user, a = .signUp user ∧ user.id = id)
      (a.act w).db := by
  have same : w.Sound ∧
      w.db.Descends (fun id => ∃ user, a = .signUp user ∧ user.id = id) w.db := ⟨sound, .refl _⟩
  have there : ∀ x ∈ w.db.users.rows, ∃ y ∈ w.db.users.rows, y.id = x.id :=
    fun x hx => ⟨x, hx, rfl⟩
  cases a with
  | signUp user =>
    simp only [act]
    cases inserted : w.db.users.insert user with
    | none => exact same
    | some users =>
      have rows := (Table.insert_eq_some.mp inserted).2
      refine ⟨fun tx => ?_, { same.2 with users := fun x hx => ?_ }⟩
      · exact Db.ClosedBut.withUsers (sound tx) fun u => Table.has_of_append rows
      · have hx : x ∈ users.rows := hx
        rw [rows] at hx
        rcases List.mem_append.mp hx with old | new
        · exact .inr (there x old)
        · exact .inl ⟨user, rfl, congrArg User.id (List.mem_singleton.mp new).symm⟩
  | updateUser id image =>
    simp only [act]
    split
    · refine ⟨fun tx => ?_, .of_tables (fun x hx => ?_) rfl rfl rfl rfl⟩
      · exact Db.ClosedBut.withUsers (sound tx) fun u there => Table.updateWhere_has.trans there
      · have hx : x ∈ (w.db.users.updateWhere (·.id = id) (fun a => { a with image })
          fun _ => rfl).rows := hx
        obtain ⟨y, hy, rfl | rfl⟩ := Db.Descends.of_update hx
        · exact there x hy
        · exact ⟨y, hy, rfl⟩
    · exact same
  | removeUser id =>
    simp only [act]
    split
    · split
      · next deleted =>
        refine ⟨fun tx => Db.ClosedBut.delete (sound tx) deleted, ?_⟩
        rw [(Db.delete_ok deleted).1]
        exact .without _
      · exact same
    · exact same
  | signIn session =>
    simp only [act]
    cases inserted : w.db.sessions.insert session with
    | none => exact same
    | some sessions =>
      dsimp only
      split
      · next kept =>
        refine ⟨fun tx => Db.ClosedBut.withSessions (sound tx) fun a ha => ?_,
          .of_tables there rfl rfl rfl rfl⟩
        rw [(Table.insert_eq_some.mp inserted).2] at ha
        rcases List.mem_append.mp ha with old | new
        · exact .inl old
        · obtain rfl := List.mem_singleton.mp new
          exact .inr (World.keepsUser_of kept tx)
      · exact same
  | signOut id =>
    refine ⟨fun tx => ?_, .of_tables there rfl rfl rfl rfl⟩
    exact Db.ClosedBut.withSessions (sound tx) fun a ha => .inl (Table.mem_deleteWhere.mp ha).1
  | linkAccount account =>
    simp only [act]
    cases inserted : w.db.accounts.insert account with
    | none => exact same
    | some accounts =>
      dsimp only
      split
      · next kept =>
        refine ⟨fun tx => Db.ClosedBut.withAccounts (sound tx) fun a ha => ?_,
          .of_tables there rfl rfl rfl rfl⟩
        rw [(Table.insert_eq_some.mp inserted).2] at ha
        rcases List.mem_append.mp ha with old | new
        · exact .inl old
        · obtain rfl := List.mem_singleton.mp new
          exact .inr (World.keepsUser_of kept tx)
      · exact same
  | unlinkAccount id =>
    refine ⟨fun tx => ?_, .of_tables there rfl rfl rfl rfl⟩
    exact Db.ClosedBut.withAccounts (sound tx) fun a ha => .inl (Table.mem_deleteWhere.mp ha).1
  | forget key => exact same
  | storeObject name => exact same
  | loseObject name => exact same

theorem BackendRun.outside_lasts {settings : Settings} {request : Nat → ServiceRequest} {r : Backend}
    {t : Nat} (run : BackendRun settings request r) (lasts : r.Lasts request t) {a : Surroundings}
    (acts : r.schedule t = .outside a) (next : r.state (t + 1) = r.outside a (r.state t)) :
    r.Lasts request (t + 1) := by
  rw [run.outside] at next
  have txs : (r.state (t + 1)).txs = (r.state t).txs := by
    rw [next]
    exact a.act_txs _
  have same := World.tx_congr txs
  have moves := a.act_moves (r.state t) lasts.sound
  rw [← next] at moves
  have named : (r.state t).db.Named → (r.state (t + 1)).db.Named := by
    unfold Db.Named
    rw [next, a.act_recordings]
    exact id
  refine lasts.next _ moves.1 (.beside moves.2 named same) (fun id signsUp s hs => ?_)
    (fun tx => .inl (same tx)) fun i l x called => ?_
  · obtain ⟨user, rfl, rfl⟩ := signsUp
    exact run.userIds t user acts s hs
  · cases called.schedule.symm.trans acts

end GuitarCoach
