/- digest: What every run of the backend guarantees its users, and what a purge leaves. -/

import GuitarCoach.Ownership.Interleavings
import GuitarCoach.Users.PurgeAlone

set_option autoImplicit false
set_option relaxedAutoImplicit false

namespace GuitarCoach

open Async (Policy Run wp)
open Relational (Table)

/-! ### A user who is gone -/

def Part.nothing : Part := ⟨[], [], [], [], [], [], [], [], []⟩

namespace Db

variable {db : Db} {userId : Uuid}

/-- Nothing refers to a user who is not there. -/
theorem Closed.partOf_departed (closed : db.Closed) (departed : db.users.has userId = false) :
    db.partOf userId = .nothing := by
  have absent : ∀ u, db.users.has u = true → u ≠ userId := by
    rintro u there rfl
    exact Bool.false_ne_true (departed.symm.trans there)
  have none : ∀ {ρ : Type} {rows : List ρ} (owner : ρ → Uuid),
      (∀ a ∈ rows, db.users.has (owner a) = true) →
        (rows.filter fun a => decide (owner a = userId)) = [] := by
    intro ρ rows owner users
    refine List.filter_eq_nil_iff.mpr fun a ha own => ?_
    exact absent _ (users a ha) (of_decide_eq_true own)
  have intact := closed.intact
  have user := none User.id fun a ha => Table.has_iff.mpr ⟨a, ha, rfl⟩
  have tasks : (db.tasks.rows.filter fun a => decide (a.ownerId = some userId)) = [] := by
    refine List.filter_eq_nil_iff.mpr fun a ha own => ?_
    exact absent _ (intact.taskOwner a ha userId (of_decide_eq_true own)) rfl
  have routineTasks : db.routineTasks.rows.filter (db.ofRoutineOf userId) = [] := by
    refine List.filter_eq_nil_iff.mpr fun a _ own => ?_
    obtain ⟨r, hr, own⟩ := List.any_eq_true.mp own
    rw [Bool.and_eq_true, decide_eq_true_eq, decide_eq_true_eq] at own
    exact absent _ (intact.routineUser r hr) own.2
  have practiceSessionTasks : db.practiceSessionTasks.rows.filter (db.ofSessionOf userId) = [] := by
    refine List.filter_eq_nil_iff.mpr fun a _ own => ?_
    obtain ⟨s, hs, own⟩ := List.any_eq_true.mp own
    rw [Bool.and_eq_true, decide_eq_true_eq, decide_eq_true_eq] at own
    exact absent _ (intact.practiceSessionUser s hs) own.2
  unfold partOf Part.nothing
  rw [user, none _ intact.sessionUser, none _ intact.accountUser, tasks, none _ intact.routineUser,
    routineTasks, none _ intact.practiceSessionUser, practiceSessionTasks,
    none _ intact.recordingUser]

end Db

/-! ### A purge alone -/

namespace UsersService

variable {userId : Uuid} {db db' : Db} {gone : RowSet}

/-- What the statement selects is the user's. -/
theorem Selects.onlyOf (selects : Selects userId db gone) : db.OnlyOf userId gone where
  users := selects.users
  tasks a ha hk := by
    obtain ⟨b, hb, hid, own⟩ := selects.tasks a.id hk
    obtain rfl := Table.eq_of_key hb ha hid
    exact own
  routines a ha hk := by
    obtain ⟨b, hb, hid, own⟩ := selects.routines a.id hk
    obtain rfl := Table.eq_of_key hb ha hid
    exact own
  routineTasks a ha hk r hr link := by
    obtain ⟨b, hb, hid, own⟩ := selects.routineTasks a.key hk
    obtain rfl := Table.eq_of_key hb hr (hid.trans link.symm)
    exact own
  practiceSessions a ha hk := by
    obtain ⟨b, hb, hid, own⟩ := selects.practiceSessions a.id hk
    obtain rfl := Table.eq_of_key hb ha hid
    exact own
  practiceSessionTasks a ha hk s hs link := by
    obtain ⟨b, hb, hid, own⟩ := selects.practiceSessionTasks a.key hk
    obtain rfl := Table.eq_of_key hb hs (hid.trans link.symm)
    exact own
  recordings a ha hk := by
    obtain ⟨b, hb, hid, own⟩ := selects.recordings a.id hk
    obtain rfl := Table.eq_of_key hb ha hid
    exact own

/-- One delete after the other takes only what is the user's. -/
theorem purgeTables_sameBut (closed : db.Closed) (h : purgeTables userId db = .ok db') :
    db'.Closed ∧ db.SameBut userId db' ∧ db'.users.has userId = false := by
  have one : ∀ {a b : Db} {gone : RowSet}, a.Closed ∧ db.SameBut userId a → Selects userId a gone →
      a.delete gone = .ok b → b.Closed ∧ db.SameBut userId b := by
    intro a b gone kept selects deleted
    exact ⟨kept.1.delete deleted, kept.2.trans (.delete kept.1 selects.onlyOf deleted)⟩
  obtain ⟨d₁, h₁, h⟩ := bind_eq_ok h
  obtain ⟨d₂, h₂, h⟩ := bind_eq_ok h
  obtain ⟨d₃, h₃, h⟩ := bind_eq_ok h
  obtain ⟨d₄, h₄, h⟩ := bind_eq_ok h
  obtain ⟨d₅, h₅, h⟩ := bind_eq_ok h
  obtain ⟨d₆, h₆, h⟩ := bind_eq_ok h
  have recordings := one ⟨closed, .refl db⟩ (selects_recordingsOf userId db) h₁
  have sessionTasks := one recordings (selects_sessionTasksOf userId d₁) h₂
  have sessions := one sessionTasks (selects_sessionsOf userId d₂) h₃
  have routineTasks := one sessions (selects_routineTasksOf userId d₃) h₄
  have routines := one routineTasks (selects_routinesOf userId d₄) h₅
  have tasks := one routines (selects_tasksOf userId d₅) h₆
  split at h
  · have user := one tasks (selects_user userId d₆) h
    refine ⟨user.1, user.2, Bool.eq_false_iff.mpr fun left => ?_⟩
    rw [(Db.delete_ok h).1] at left
    exact (Db.has_without_users.mp left).2 (List.mem_singleton_self _)
  · cases h

end UsersService

/-! ### What goes on beside the requests -/

namespace Surroundings

/-- The act is about this user: their row, a sign-in or a linked account of theirs. -/
def concerns (db : Db) (userId : Uuid) : Surroundings → Prop
  | signUp user => user.id = userId
  | updateUser id _ => id = userId
  | removeUser id => id = userId
  | signIn session => session.userId = userId
  | signOut id => ∃ a ∈ db.sessions.rows, a.id = id ∧ a.userId = userId
  | linkAccount account => account.userId = userId
  | unlinkAccount id => ∃ a ∈ db.accounts.rows, a.id = id ∧ a.userId = userId
  | forget _ => False
  | storeObject _ => False
  | loseObject _ => False

variable {w : World} {userId : Uuid}

/-- Better Auth changes nothing of a user whom its act does not concern, and no task. -/
theorem act_apart (a : Surroundings) (closed : w.db.Closed) (apart : ¬a.concerns w.db userId) :
    (a.act w).db.partOf userId = w.db.partOf userId ∧ (a.act w).db.library = w.db.library := by
  have same : w.db.partOf userId = w.db.partOf userId ∧ w.db.library = w.db.library := ⟨rfl, rfl⟩
  cases a with
  | signUp user =>
    simp only [act]
    cases inserted : w.db.users.insert user with
    | none => exact same
    | some users =>
      have rows := (Table.insert_eq_some.mp inserted).2
      have apart : user.id ≠ userId := apart
      exact ⟨congrArg (fun user => { w.db.partOf userId with user })
        (Db.filter_added rows (decide_eq_false apart)), rfl⟩
  | updateUser id image =>
    simp only [act]
    split
    · have kept : (w.db.users.updateWhere (·.id = id) (fun a => { a with image })
          fun _ => rfl).rows.filter (fun a => decide (a.id = userId)) =
            w.db.users.rows.filter fun a => decide (a.id = userId) := by
        refine Db.filter_updated fun a _ hit => ?_
        have other : decide (a.id = userId) = false :=
          decide_eq_false fun mine => apart ((of_decide_eq_true hit).symm.trans mine)
        exact ⟨other, other⟩
      exact ⟨congrArg (fun user => { w.db.partOf userId with user }) kept, rfl⟩
    · exact same
  | removeUser id =>
    simp only [act]
    split
    · split
      · next deleted =>
        have others := Db.SameBut.delete closed (UsersService.selects_user id w.db).onlyOf deleted
        exact ⟨others.parts userId fun mine => apart mine.symm, others.library⟩
      · exact same
    · exact same
  | signIn session =>
    simp only [act]
    cases inserted : w.db.sessions.insert session with
    | none => exact same
    | some sessions =>
      have rows := (Table.insert_eq_some.mp inserted).2
      have apart : session.userId ≠ userId := apart
      dsimp only
      split
      · exact ⟨congrArg (fun sessions => { w.db.partOf userId with sessions })
          (Db.filter_added rows (decide_eq_false apart)), rfl⟩
      · exact same
  | signOut id =>
    refine ⟨congrArg (fun sessions => { w.db.partOf userId with sessions }) ?_, rfl⟩
    exact Db.filter_deleted fun a ha mine =>
      decide_eq_false fun hit => apart ⟨a, ha, hit, of_decide_eq_true mine⟩
  | linkAccount account =>
    simp only [act]
    cases inserted : w.db.accounts.insert account with
    | none => exact same
    | some accounts =>
      have rows := (Table.insert_eq_some.mp inserted).2
      have apart : account.userId ≠ userId := apart
      dsimp only
      split
      · exact ⟨congrArg (fun accounts => { w.db.partOf userId with accounts })
          (Db.filter_added rows (decide_eq_false apart)), rfl⟩
      · exact same
  | unlinkAccount id =>
    refine ⟨congrArg (fun accounts => { w.db.partOf userId with accounts }) ?_, rfl⟩
    exact Db.filter_deleted fun a ha mine =>
      decide_eq_false fun hit => apart ⟨a, ha, hit, of_decide_eq_true mine⟩
  | forget key => exact same
  | storeObject name => exact same
  | loseObject name => exact same

end Surroundings

/-! ### What holds of every run -/

section Runs

variable {settings : Settings} {request : Nat → ServiceRequest} {r : Backend}
  (run : BackendRun settings request r)

include run

/-- In every state that a run reaches, and as each of the open purges sees it, all rows refer to
rows that are there, and only to rows of their own user or to shared tasks. -/
theorem BackendRun.tables_closed (t : Nat) :
    (r.state t).db.Closed ∧ ∀ tx, ((r.state t).view tx).Closed := by
  have sound := (run.lasts t).sound
  refine ⟨sound.tables, fun tx => ?_⟩
  rw [World.view_eq]
  exact (sound tx).view

/-- Rows of two moments that have the same id have the same owner. -/
theorem BackendRun.owners_last {s t : Nat} (later : s ≤ t) :
    (∀ a ∈ (r.state s).db.tasks.rows, ∀ b ∈ (r.state t).db.tasks.rows,
      a.id = b.id → a.ownerId = b.ownerId) ∧
    (∀ a ∈ (r.state s).db.routines.rows, ∀ b ∈ (r.state t).db.routines.rows,
      a.id = b.id → a.userId = b.userId) ∧
    (∀ a ∈ (r.state s).db.practiceSessions.rows, ∀ b ∈ (r.state t).db.practiceSessions.rows,
      a.id = b.id → a.userId = b.userId) ∧
    ∀ a ∈ (r.state s).db.recordings.rows, ∀ b ∈ (r.state t).db.recordings.rows,
      a.id = b.id → a.userId = b.userId :=
  ⟨(run.lasts t).tasks s later, (run.lasts t).routines s later,
    (run.lasts t).practiceSessions s later, (run.lasts t).recordings s later⟩

/-- While only others act, what the tables hold of a user stays as it is, and the library too. -/
theorem BackendRun.undisturbed {s t : Nat} (later : s ≤ t) (userId : Uuid)
    (others : ∀ u, s ≤ u → u < t →
      (∀ i l x, r.CallsAt i u l x → ∃ other, (request i).actor = some other ∧ other ≠ userId) ∧
        ∀ a, r.schedule u = .outside a → ¬a.concerns (r.state u).db userId) :
    (r.state t).db.partOf userId = (r.state s).db.partOf userId ∧
      (r.state t).db.library = (r.state s).db.library := by
  induction later with
  | refl => exact ⟨rfl, rfl⟩
  | @step t later ih =>
    obtain ⟨part, library⟩ := ih fun u before u_lt => others u before (Nat.lt_succ_of_lt u_lt)
    obtain ⟨calls, acts⟩ := others t later (Nat.lt_succ_self t)
    have step : (r.state (t + 1)).db.partOf userId = (r.state t).db.partOf userId ∧
        (r.state (t + 1)).db.library = (r.state t).db.library := by
      rcases r.state_cases t with ⟨same, -, -⟩ | ⟨a, scheduled, next⟩ | ⟨i, l, x, called⟩
      · rw [same]
        exact ⟨rfl, rfl⟩
      · rw [next, run.outside]
        exact a.act_apart (run.lasts t).sound.tables (acts a scheduled)
      · obtain ⟨other, acting, apart⟩ := calls i l x called
        have allowed := ((run.lasts (t + 1)).confined t (Nat.lt_succ_self t) i l x called).2.user
          other acting
        exact ⟨allowed.parts userId apart.symm, allowed.library⟩
    exact ⟨step.1.trans part, step.2.trans library⟩

/-- A call of the staff or of the weekly job changes tasks and when routines were archived, and
nothing else of anybody's. -/
theorem BackendRun.staff_confined {i t : Nat} {l : Label} {x : Async.Answer Input Failure}
    (called : r.CallsAt i t l x) (staff : (request i).actor = none) :
    (r.state t).db.KeptByStaff (r.state (t + 1)).db :=
  ((run.lasts (t + 1)).confined t (Nat.lt_succ_self t) i l x called).2.staff staff

/-- What a call uploads, deletes or signs lies in the folder of the user it is made for, and no call
for another user is ever about the same object. -/
theorem BackendRun.storage_confined {i j s t : Nat} {k l : Label} {x y : Async.Answer Input Failure}
    {name : String}
    (free : ∀ q userId, (request q).actor = some userId → '/' ∉ userId.text.toList)
    (mine : r.CallsAt i s l x) (about : l.object? = some name)
    (theirs : r.CallsAt j t k y) (same : k.object? = some name) :
    ∃ userId, (request i).actor = some userId ∧ (request j).actor = some userId ∧
      IsUnder userId name := by
  obtain ⟨userId, acts, own⟩ :=
    ((run.lasts (s + 1)).confined s (Nat.lt_succ_self s) i l x mine).1 name about
  obtain ⟨other, acts', own'⟩ :=
    ((run.lasts (t + 1)).confined t (Nat.lt_succ_self t) j k y theirs).1 name same
  obtain rfl := own.unique own' (free i userId acts) (free j other acts')
  exact ⟨userId, acts, acts', own⟩

/-- Once a request has deleted an account, the user and all that was theirs are gone for good. -/
theorem BackendRun.purge_final {i s t : Nat} {userId : Uuid} {reply : Reply}
    (ended : r.Ended i s (.ok reply)) (purges : (request i).purges = some userId) (later : s ≤ t) :
    (r.state t).db.partOf userId = .nothing := by
  have safe := run.safe s
  obtain ⟨m, c, before, after, there, gone⟩ :=
    ended.post safe.1 (fun m here => safe.2 i m here) userId purges
  have departed : (r.state t).db.users.has userId = false :=
    (run.lasts t).departed m c before (after.trans later) userId there gone
  exact (run.tables_closed t).1.partOf_departed departed

/-- Whatever has happened before, a purge of a user who is there succeeds when nothing fails and
no other transaction is open; it leaves nothing of the user, and the others all they had. -/
theorem BackendRun.purge_unhindered {t : Nat} {text : String}
    {allowed : Policy World Input Failure Label} (idle : (r.state t).Idle)
    (there : (r.state t).db.users.has (.ofText text) = true)
    (healthy : ¬UsersService.DatabaseFails allowed) :
    wp allowed (UsersService.purge text) (fun res w => res = .ok () ∧ w.Idle ∧
      w.db.partOf (.ofText text) = .nothing ∧ (r.state t).db.SameBut (.ofText text) w.db)
      (r.state t) := by
  have closed := (run.tables_closed t).1
  have tables := UsersService.purgeTables_closed closed there
  refine Async.wp_mono (UsersService.purge_alone closed idle there healthy) fun res w h => ?_
  obtain ⟨ok, db, ended⟩ := h
  obtain ⟨after, others, departed⟩ := UsersService.purgeTables_sameBut closed tables
  rw [← db] at after others departed
  exact ⟨ok, ended, after.partOf_departed departed, others⟩

end Runs

/-! ### In the short run -/

/-- Both deletions of Alice's account are open, and the first has deleted all she had. -/
theorem briefStay_closed : (briefStay.state 44).txs.keys = [1, 2] ∧
    ((briefStay.state 44).view 1).users.has alice = false ∧
    ((briefStay.state 44).view 2).users.has alice = true ∧
    (briefStay.state 44).db.Closed ∧ ∀ tx, ((briefStay.state 44).view tx).Closed := by
  have under : (briefStay.state 44).txs.keys = [1, 2] ∧
      ((briefStay.state 44).view 1).users.has alice = false ∧
      ((briefStay.state 44).view 2).users.has alice = true := by decide +kernel
  exact ⟨under.1, under.2.1, under.2.2, briefStay_run.tables_closed 44⟩

theorem briefStay_owners : ∃ a ∈ (briefStay.state 14).db.routines.rows,
    ∃ b ∈ (briefStay.state 56).db.routines.rows, a.id = b.id ∧ a.userId = b.userId := by
  have there : ∃ a ∈ (briefStay.state 14).db.routines.rows,
      ∃ b ∈ (briefStay.state 56).db.routines.rows, a.id = b.id := by decide +kernel
  obtain ⟨a, ha, b, hb, same⟩ := there
  exact ⟨a, ha, b, hb, same, (briefStay_run.owners_last (by decide : 14 ≤ 56)).2.1 a ha b hb same⟩

/-- While Alice's account is deleted twice and a session of hers is refused, Bob keeps his
routine. -/
theorem briefStay_undisturbed :
    (briefStay.state 56).db.partOf bob = (briefStay.state 37).db.partOf bob := by
  have callers : ∀ n < 44, 25 ≤ n → ∀ c ∈ briefStayCalls[n]?, c.1 = 6 ∨ c.1 = 7 ∨ c.1 = 8 := by
    decide
  refine (briefStay_run.undisturbed (by decide : 37 ≤ 56) bob fun u after before => ?_).1
  refine ⟨fun i l x called => ?_, fun a acts => ?_⟩
  · obtain ⟨-, id, call, -⟩ := briefStay_calls called
    have caller : i = 6 ∨ i = 7 ∨ i = 8 := callers (u - 12) (by omega) (by omega) (i, id) call
    rcases caller with rfl | rfl | rfl
    · exact ⟨alice, rfl, by decide⟩
    · exact ⟨.ofText alice.text, rfl, by decide⟩
    · exact ⟨alice, rfl, by decide⟩
  · have early := briefStay_outside acts
    omega

/-- The admin rewords the task while both deletions are under way. -/
theorem briefStay_confined : (briefStay.state 36).db.KeptByStaff (briefStay.state 37).db :=
  briefStay_run.staff_confined (i := 9) (t := 36) (l := .db .task .update)
    (Run.callsAt_iff.mpr ⟨by decide +kernel, rfl⟩) rfl

theorem briefStay_purged : (briefStay.state 56).db.partOf alice = .nothing := by
  obtain ⟨result, succeeded, ended⟩ := Run.ended_of_passes
    (by decide +kernel : ((briefStay.slot 6 56).bind Async.Method.result?).any
      (·.toOption.isSome) = true)
  cases result with
  | error e => cases succeeded
  | ok reply => exact briefStay_run.purge_final ended rfl (Nat.le_refl 56)

/-- Before the deletions, with a routine, a session and a recording of Alice's in the tables. -/
theorem briefStay_unhindered :
    wp (fun _ _ x => x = .took (.of firstId 0)) (UsersService.purge alice.text)
      (fun res w => res = .ok () ∧ w.Idle ∧ w.db.partOf (.ofText alice.text) = .nothing ∧
        (briefStay.state 29).db.SameBut (.ofText alice.text) w.db) (briefStay.state 29) :=
  briefStay_run.purge_unhindered (by decide +kernel) (by decide +kernel) (by
    rintro ⟨l, w, e, threw, -⟩
    cases threw)

def newPhotoFile : UploadedFile := ⟨"alice.png", "image/png", 3⟩

/-- Alice uploads a photo. -/
def newPhoto : Backend where
  requests _ := (ServiceRequest.uploadAvatar alice newPhotoFile).reply plainSettings
  outside := Surroundings.act
  start := .empty
  schedule t :=
    if t = 0 then .outside (.signUp ⟨alice, none⟩)
    else if t < 12 then (if t = 1 then .begin 0 else .advance 0 (.took (.of firstId 0)))
    else .begin 0

theorem newPhoto_run :
    BackendRun plainSettings (fun _ => .uploadAvatar alice newPhotoFile) newPhoto where
  requests _ := rfl
  outside := rfl
  start := rfl
  rowIds i t l x called adds n s hs := by
    obtain ⟨awaits, scheduled⟩ := Run.callsAt_iff.mp called
    have none : ∀ t < 12, (newPhoto.awaited 0 t).all (fun l => !l.adds) = true := by decide +kernel
    simp only [newPhoto] at scheduled
    split_ifs at scheduled with _ before _
    cases scheduled
    have none := none t before
    rw [awaits] at none
    simp [adds] at none
  userIds t user signsUp s hs := by
    have unknown : ¬(newPhoto.state 0).db.HasId alice := by
      unfold Db.HasId
      decide +kernel
    simp only [newPhoto] at signsUp
    split_ifs at signsUp with first
    cases signsUp
    obtain rfl : s = 0 := by omega
    exact unknown

/-- The photo is uploaded, and later signed. -/
theorem newPhoto_confined : ∃ userId, some alice = some userId ∧ some alice = some userId ∧
    IsUnder userId (AvatarService.objectName alice firstId newPhotoFile) := by
  have uploads : newPhoto.awaited 0 6 =
      some (.uploadObject (AvatarService.objectName alice firstId newPhotoFile)) := by decide +kernel
  have signs : newPhoto.awaited 0 9 =
      some (.signUrl (AvatarService.objectName alice firstId newPhotoFile)) := by decide +kernel
  refine newPhoto_run.storage_confined (i := 0) (j := 0) (s := 6) (t := 9) (fun _ _ acts => ?_)
    (Run.callsAt_iff.mpr ⟨uploads, rfl⟩) rfl (Run.callsAt_iff.mpr ⟨signs, rfl⟩) rfl
  cases acts
  decide

end GuitarCoach
