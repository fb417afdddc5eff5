/- digest: What one statement can do to the tables, for a user or for the staff. -/

import GuitarCoach.Ownership.Folders
import GuitarCoach.Ownership.Parts
import GuitarCoach.WeeklyRoutineCleanup.WeeklyRoutineCleanupService

/-!
Every change of the tables outside a purge is one of the effects below, or one after another. All
that has to be known of a change follows from that: that the tables stay closed, that rows keep
their owners, and that a user changes what is theirs.
-/

set_option autoImplicit false
set_option relaxedAutoImplicit false

namespace GuitarCoach

open Relational (Table)

/-! ### Rows and their owners -/

/-- Every row is from before, with its owner, or its id is new. -/
structure Db.Descends (fresh : Uuid → Prop) (before after : Db) : Prop where
  users : ∀ b ∈ after.users.rows, fresh b.id ∨ ∃ a ∈ before.users.rows, a.id = b.id
  tasks : ∀ b ∈ after.tasks.rows, fresh b.id ∨
    ∃ a ∈ before.tasks.rows, a.id = b.id ∧ a.ownerId = b.ownerId
  routines : ∀ b ∈ after.routines.rows, fresh b.id ∨
    ∃ a ∈ before.routines.rows, a.id = b.id ∧ a.userId = b.userId
  practiceSessions : ∀ b ∈ after.practiceSessions.rows, fresh b.id ∨
    ∃ a ∈ before.practiceSessions.rows, a.id = b.id ∧ a.userId = b.userId
  recordings : ∀ b ∈ after.recordings.rows, fresh b.id ∨
    ∃ a ∈ before.recordings.rows, a.id = b.id ∧ a.userId = b.userId

namespace Db.Descends

variable {fresh : Uuid → Prop} {a b c : Db}

theorem refl (db : Db) : db.Descends fresh db where
  users x hx := .inr ⟨x, hx, rfl⟩
  tasks x hx := .inr ⟨x, hx, rfl, rfl⟩
  routines x hx := .inr ⟨x, hx, rfl, rfl⟩
  practiceSessions x hx := .inr ⟨x, hx, rfl, rfl⟩
  recordings x hx := .inr ⟨x, hx, rfl, rfl⟩

theorem trans (h : a.Descends fresh b) (h' : b.Descends fresh c) : a.Descends fresh c where
  users x hx := by
    rcases h'.users x hx with new | ⟨y, hy, hid⟩
    · exact .inl new
    · rw [← hid]
      exact h.users y hy
  tasks x hx := by
    rcases h'.tasks x hx with new | ⟨y, hy, hid, howner⟩
    · exact .inl new
    · rw [← hid, ← howner]
      exact h.tasks y hy
  routines x hx := by
    rcases h'.routines x hx with new | ⟨y, hy, hid, huser⟩
    · exact .inl new
    · rw [← hid, ← huser]
      exact h.routines y hy
  practiceSessions x hx := by
    rcases h'.practiceSessions x hx with new | ⟨y, hy, hid, huser⟩
    · exact .inl new
    · rw [← hid, ← huser]
      exact h.practiceSessions y hy
  recordings x hx := by
    rcases h'.recordings x hx with new | ⟨y, hy, hid, huser⟩
    · exact .inl new
    · rw [← hid, ← huser]
      exact h.recordings y hy

theorem without (gone : RowSet) : a.Descends fresh (a.without gone) where
  users x hx := .inr ⟨x, (Table.mem_deleteWhere.mp hx).1, rfl⟩
  tasks x hx := .inr ⟨x, (Table.mem_deleteWhere.mp hx).1, rfl, rfl⟩
  routines x hx := .inr ⟨x, (Table.mem_deleteWhere.mp hx).1, rfl, rfl⟩
  practiceSessions _ hx := .inr (mem_without_sessions hx)
  recordings x hx := .inr ⟨x, (Table.mem_deleteWhere.mp hx).1, rfl, rfl⟩

theorem delete {gone : RowSet} (h : a.delete gone = .ok b) : a.Descends fresh b := by
  rw [(Db.delete_ok h).1]
  exact .without gone

theorem of_tables (users : ∀ x ∈ b.users.rows, ∃ y ∈ a.users.rows, y.id = x.id)
    (tasks : b.tasks = a.tasks) (routines : b.routines = a.routines)
    (practiceSessions : b.practiceSessions = a.practiceSessions)
    (recordings : b.recordings = a.recordings) : a.Descends fresh b where
  users x hx := .inr (users x hx)
  tasks x hx := .inr ⟨x, tasks ▸ hx, rfl, rfl⟩
  routines x hx := .inr ⟨x, routines ▸ hx, rfl, rfl⟩
  practiceSessions x hx := .inr ⟨x, practiceSessions ▸ hx, rfl, rfl⟩
  recordings x hx := .inr ⟨x, recordings ▸ hx, rfl, rfl⟩

theorem insertTask {x : Task} (h : a.insertTask x = .ok b) (new : fresh x.id) :
    a.Descends fresh b := by
  obtain ⟨tasks, rfl, rows, -⟩ := Db.insertTask_ok h
  refine { refl a with tasks := fun y hy => ?_ }
  rcases List.mem_append.mp (rows ▸ hy) with hy | hy
  · exact .inr ⟨y, hy, rfl, rfl⟩
  · exact .inl (List.mem_singleton.mp hy ▸ new)

theorem insertRoutine {x : Routine} (h : a.insertRoutine x = .ok b) (new : fresh x.id) :
    a.Descends fresh b := by
  obtain ⟨routines, rfl, rows, -⟩ := Db.insertRoutine_ok h
  refine { refl a with routines := fun y hy => ?_ }
  rcases List.mem_append.mp (rows ▸ hy) with hy | hy
  · exact .inr ⟨y, hy, rfl, rfl⟩
  · exact .inl (List.mem_singleton.mp hy ▸ new)

theorem insertPracticeSession {x : PracticeSession} (h : a.insertPracticeSession x = .ok b)
    (new : fresh x.id) : a.Descends fresh b := by
  obtain ⟨practiceSessions, rfl, rows, -⟩ := Db.insertPracticeSession_ok h
  refine { refl a with practiceSessions := fun y hy => ?_ }
  rcases List.mem_append.mp (rows ▸ hy) with hy | hy
  · exact .inr ⟨y, hy, rfl, rfl⟩
  · exact .inl (List.mem_singleton.mp hy ▸ new)

theorem insertRecording {x : Recording} (h : a.insertRecording x = .ok b) (new : fresh x.id) :
    a.Descends fresh b := by
  obtain ⟨recordings, rfl, rows, -⟩ := Db.insertRecording_ok h
  refine { refl a with recordings := fun y hy => ?_ }
  rcases List.mem_append.mp (rows ▸ hy) with hy | hy
  · exact .inr ⟨y, hy, rfl, rfl⟩
  · exact .inl (List.mem_singleton.mp hy ▸ new)

theorem of_update {ρ : Type} {key : ρ → Uuid} {t : Table key} {p : ρ → Bool} {f : ρ → ρ}
    {same : ∀ x, key (f x) = key x} {x : ρ} (h : x ∈ (t.updateWhere p f same).rows) :
    ∃ y ∈ t.rows, x = y ∨ x = f y := by
  obtain ⟨y, hy, rfl⟩ := List.mem_map.mp h
  refine ⟨y, hy, ?_⟩
  split
  · exact .inr rfl
  · exact .inl rfl

theorem updateTasks {p : Task → Bool} {f : Task → Task} {same : ∀ x, (f x).id = x.id}
    (owner : ∀ x, (f x).ownerId = x.ownerId) :
    a.Descends fresh { a with tasks := a.tasks.updateWhere p f same } := by
  refine { refl a with tasks := fun x hx => .inr ?_ }
  have updated : x ∈ (a.tasks.updateWhere p f same).rows := hx
  obtain ⟨y, hy, rfl | rfl⟩ := of_update updated
  · exact ⟨x, hy, rfl, rfl⟩
  · exact ⟨y, hy, (same y).symm, (owner y).symm⟩

theorem updateRoutines {p : Routine → Bool} {f : Routine → Routine} {same : ∀ x, (f x).id = x.id}
    (user : ∀ x, (f x).userId = x.userId) :
    a.Descends fresh { a with routines := a.routines.updateWhere p f same } := by
  refine { refl a with routines := fun x hx => .inr ?_ }
  have updated : x ∈ (a.routines.updateWhere p f same).rows := hx
  obtain ⟨y, hy, rfl | rfl⟩ := of_update updated
  · exact ⟨x, hy, rfl, rfl⟩
  · exact ⟨y, hy, (same y).symm, (user y).symm⟩

end Db.Descends

/-! ### The effects -/

namespace RowSet

variable {a b : RowSet} {k : Uuid}

theorem apart_users (apart : a.meets b = false) (h : k ∈ a.users) : k ∉ b.users := by
  simp only [meets, Bool.or_eq_false_iff, List.any_eq_false, decide_eq_true_eq] at apart
  exact apart.1.1.1.1.1.1 k h

theorem apart_tasks (apart : a.meets b = false) (h : k ∈ a.tasks) : k ∉ b.tasks := by
  simp only [meets, Bool.or_eq_false_iff, List.any_eq_false, decide_eq_true_eq] at apart
  exact apart.1.1.1.1.1.2 k h

theorem apart_routines (apart : a.meets b = false) (h : k ∈ a.routines) : k ∉ b.routines := by
  simp only [meets, Bool.or_eq_false_iff, List.any_eq_false, decide_eq_true_eq] at apart
  exact apart.1.1.1.1.2 k h

theorem apart_practiceSessions (apart : a.meets b = false) (h : k ∈ a.practiceSessions) :
    k ∉ b.practiceSessions := by
  simp only [meets, Bool.or_eq_false_iff, List.any_eq_false, decide_eq_true_eq] at apart
  exact apart.1.1.2 k h

end RowSet

/-- A routine without its status and the time of its last change. -/
def Routine.lasting (a : Routine) : Routine := { a with status := .active, updatedAt := a.createdAt }

namespace Db

/-- Tables that differ at most in the tasks, and in when a routine was archived. -/
def KeptByStaff (before after : Db) : Prop :=
  ∃ tasks routines, after = { before with tasks, routines } ∧
    routines.rows.map Routine.lasting = before.routines.rows.map Routine.lasting

/-- What a statement that has touched these rows does for an actor, a user or else the staff;
`fresh` are the ids it was given. -/
inductive Effect (touched : RowSet) (fresh : Uuid → Prop) : Option Uuid → Db → Db → Prop
  | same (actor : Option Uuid) (db : Db) : Effect touched fresh actor db db
  | trans {actor : Option Uuid} {a b c : Db} (first : Effect touched fresh actor a b)
      (second : Effect touched fresh actor b c) : Effect touched fresh actor a c
  | addShared {db db' : Db} {a : Task} (added : db.insertTask a = .ok db') (new : fresh a.id)
      (shared : a.ownerId = none) : Effect touched fresh none db db'
  | changeTasks {db : Db} {p : Task → Bool} {f : Task → Task} {same : ∀ a, (f a).id = a.id}
      (owner : ∀ a, (f a).ownerId = a.ownerId) :
      Effect touched fresh none db { db with tasks := db.tasks.updateWhere p f same }
  | deleteTask {db db' : Db} {id : Uuid} (deleted : db.delete { tasks := [id] } = .ok db') :
      Effect touched fresh none db db'
  | archive {db : Db} (p : Routine → Bool) (now : Instant) :
      Effect touched fresh none db { db with
        routines := db.routines.updateWhere p (WeeklyRoutineCleanupService.archive now) fun _ => rfl }
  | addTask {userId : Uuid} {db db' : Db} {a : Task} (added : db.insertTask a = .ok db')
      (new : fresh a.id) (user : userId ∈ touched.users) (own : a.ownerId = some userId) :
      Effect touched fresh (some userId) db db'
  | addRoutine {userId : Uuid} {db db' : Db} {a : Routine} (added : db.insertRoutine a = .ok db')
      (new : fresh a.id) (user : userId ∈ touched.users) (own : a.userId = userId) :
      Effect touched fresh (some userId) db db'
  | changeRoutines {userId : Uuid} {db : Db} {p : Routine → Bool} {f : Routine → Routine}
      {same : ∀ a, (f a).id = a.id} (user : ∀ a, (f a).userId = a.userId)
      (own : ∀ a, p a = true → a.userId = userId) :
      Effect touched fresh (some userId) db
        { db with routines := db.routines.updateWhere p f same }
  | addRoutineTask {userId : Uuid} {db db' : Db} {a : RoutineTask}
      (added : db.insertRoutineTask a = .ok db') (routine : a.routineId ∈ touched.routines)
      (task : a.taskId ∈ touched.tasks)
      (own : ∀ r ∈ db.routines.rows, r.id = a.routineId → r.userId = userId)
      (visible : ∀ t ∈ db.tasks.rows, t.id = a.taskId → visibleTo userId t = true) :
      Effect touched fresh (some userId) db db'
  | changeRoutineTasks {userId : Uuid} {db : Db} {p : RoutineTask → Bool}
      {f : RoutineTask → RoutineTask} {same : ∀ a, (f a).key = a.key}
      (own : ∀ a ∈ db.routineTasks.rows, p a = true →
        ∀ r ∈ db.routines.rows, r.id = a.routineId → r.userId = userId) :
      Effect touched fresh (some userId) db
        { db with routineTasks := db.routineTasks.updateWhere p f same }
  | addSession {userId : Uuid} {db db' : Db} {a : PracticeSession}
      (added : db.insertPracticeSession a = .ok db') (new : fresh a.id)
      (user : userId ∈ touched.users) (routine : ∀ r ∈ a.routineId, r ∈ touched.routines)
      (own : a.userId = userId)
      (ownRoutine : ∀ r ∈ db.routines.rows, a.routineId = some r.id → r.userId = userId) :
      Effect touched fresh (some userId) db db'
  | addSessionTask {userId : Uuid} {db db' : Db} {a : PracticeSessionTask}
      (added : db.insertPracticeSessionTask a = .ok db') (new : fresh a.practiceSessionId)
      (task : a.taskId ∈ touched.tasks)
      (own : ∀ s ∈ db.practiceSessions.rows, s.id = a.practiceSessionId → s.userId = userId)
      (visible : ∀ t ∈ db.tasks.rows, t.id = a.taskId → visibleTo userId t = true) :
      Effect touched fresh (some userId) db db'
  | addRecording {userId : Uuid} {db db' : Db} {a : Recording}
      (added : db.insertRecording a = .ok db') (new : fresh a.id) (user : userId ∈ touched.users)
      (session : a.practiceSessionId ∈ touched.practiceSessions) (own : a.userId = userId)
      (ownSession : ∀ s ∈ db.practiceSessions.rows, s.id = a.practiceSessionId →
        s.userId = userId) (named : IsUnder userId a.objectName) :
      Effect touched fresh (some userId) db db'
  | changeUsers {userId : Uuid} {db : Db} {p : User → Bool} {f : User → User}
      {same : ∀ a, (f a).id = a.id} (own : ∀ a, p a = true → a.id = userId) :
      Effect touched fresh (some userId) db { db with users := db.users.updateWhere p f same }
  | delete {userId : Uuid} {db db' : Db} {gone : RowSet} (deleted : db.delete gone = .ok db')
      (only : db.OnlyOf userId gone) : Effect touched fresh (some userId) db db'

namespace Effect

variable {touched gone : RowSet} {fresh : Uuid → Prop} {actor : Option Uuid} {db db' : Db}

/-- An effect that touches nothing an open transaction has deleted. -/
theorem closed (effect : Effect touched fresh actor db db') (apart : touched.meets gone = false)
    (new : ∀ id, fresh id → id ∉ gone.practiceSessions) (closed : db.ClosedBut gone) :
    db'.ClosedBut gone := by
  induction effect with
  | same => exact closed
  | trans _ _ ih ih' => exact ih' (ih closed)
  | addShared added _ shared => exact closed.insertTask added (by simp [shared])
  | changeTasks owner => exact closed.updateTasks owner
  | deleteTask deleted => exact closed.delete deleted
  | archive p now => exact closed.updateRoutines fun _ => rfl
  | addTask added _ user own =>
    refine closed.insertTask added fun u hu => ?_
    rw [own] at hu
    cases hu
    exact RowSet.apart_users apart user
  | addRoutine added _ user own =>
    exact closed.insertRoutine added (own ▸ RowSet.apart_users apart user)
  | changeRoutines user _ => exact closed.updateRoutines user
  | addRoutineTask added routine task own visible =>
    refine closed.insertRoutineTask added (RowSet.apart_routines apart routine)
      (RowSet.apart_tasks apart task) fun r hr t ht sameRoutine sameTask => ?_
    rw [own r hr sameRoutine]
    exact visible t ht sameTask
  | changeRoutineTasks _ => exact closed.updateRoutineTasks
  | addSession added _ user routine own ownRoutine =>
    refine closed.insertPracticeSession added (own ▸ RowSet.apart_users apart user)
      (fun r hr => RowSet.apart_routines apart (routine r hr)) fun r hr same => ?_
    exact (ownRoutine r hr same).trans own.symm
  | addSessionTask added isNew task own visible =>
    refine closed.insertPracticeSessionTask added (new _ isNew) (RowSet.apart_tasks apart task)
      fun s hs t ht sameSession sameTask => ?_
    rw [own s hs sameSession]
    exact visible t ht sameTask
  | addRecording added _ user session own ownSession _ =>
    refine closed.insertRecording added (own ▸ RowSet.apart_users apart user)
      (RowSet.apart_practiceSessions apart session) fun s hs same => ?_
    exact own.trans (ownSession s hs same).symm
  | changeUsers _ => exact closed.withUsers fun u there => Table.updateWhere_has.trans there
  | delete deleted _ => exact closed.delete deleted

theorem descends (effect : Effect touched fresh actor db db') : db.Descends fresh db' := by
  induction effect with
  | same => exact .refl _
  | trans _ _ ih ih' => exact ih.trans ih'
  | addShared added new _ => exact .insertTask added new
  | changeTasks owner => exact .updateTasks owner
  | deleteTask deleted => exact .delete deleted
  | archive p now => exact .updateRoutines fun _ => rfl
  | addTask added new _ _ => exact .insertTask added new
  | addRoutine added new _ _ => exact .insertRoutine added new
  | changeRoutines user _ => exact .updateRoutines user
  | addRoutineTask added _ _ _ _ =>
    obtain ⟨routineTasks, rfl, -⟩ := insertRoutineTask_ok added
    exact .of_tables (fun x hx => ⟨x, hx, rfl⟩) rfl rfl rfl rfl
  | changeRoutineTasks _ => exact .of_tables (fun x hx => ⟨x, hx, rfl⟩) rfl rfl rfl rfl
  | addSession added new _ _ _ _ => exact .insertPracticeSession added new
  | addSessionTask added _ _ _ _ =>
    obtain ⟨practiceSessionTasks, rfl, -⟩ := insertPracticeSessionTask_ok added
    exact .of_tables (fun x hx => ⟨x, hx, rfl⟩) rfl rfl rfl rfl
  | addRecording added new => exact .insertRecording added new
  | @changeUsers _ _ p f same _ =>
    refine .of_tables (fun x hx => ?_) rfl rfl rfl rfl
    have updated : x ∈ (Table.updateWhere _ p f same).rows := hx
    obtain ⟨y, hy, rfl | rfl⟩ := Descends.of_update updated
    · exact ⟨x, hy, rfl⟩
    · exact ⟨y, hy, (same y).symm⟩
  | delete deleted _ => exact .delete deleted

/-- Recordings stay under the names of their users. -/
theorem named (effect : Effect touched fresh actor db db') (before : db.Named) : db'.Named := by
  have fewer : ∀ {b c : Db} {gone : RowSet}, b.Named → b.delete gone = .ok c → c.Named := by
    intro b c gone named deleted a ha
    rw [(delete_ok deleted).1] at ha
    exact named a (Table.mem_deleteWhere.mp ha).1
  induction effect with
  | same => exact before
  | trans _ _ ih ih' => exact ih' (ih before)
  | addShared added =>
    obtain ⟨tasks, rfl, -⟩ := insertTask_ok added
    exact before
  | changeTasks => exact before
  | deleteTask deleted => exact fewer before deleted
  | archive => exact before
  | addTask added =>
    obtain ⟨tasks, rfl, -⟩ := insertTask_ok added
    exact before
  | addRoutine added =>
    obtain ⟨routines, rfl, -⟩ := insertRoutine_ok added
    exact before
  | changeRoutines => exact before
  | addRoutineTask added =>
    obtain ⟨routineTasks, rfl, -⟩ := insertRoutineTask_ok added
    exact before
  | changeRoutineTasks => exact before
  | addSession added =>
    obtain ⟨practiceSessions, rfl, -⟩ := insertPracticeSession_ok added
    exact before
  | addSessionTask added =>
    obtain ⟨practiceSessionTasks, rfl, -⟩ := insertPracticeSessionTask_ok added
    exact before
  | addRecording added _ _ _ own _ named =>
    obtain ⟨recordings, rfl, rows, -⟩ := insertRecording_ok added
    intro b hb
    have hb : b ∈ recordings.rows := hb
    rw [rows] at hb
    rcases List.mem_append.mp hb with old | new
    · exact before b old
    · rw [List.mem_singleton.mp new, own]
      exact named
  | changeUsers => exact before
  | delete deleted => exact fewer before deleted

/-- A user changes what is theirs. -/
theorem sameBut {userId : Uuid} (effect : Effect touched fresh actor db db')
    (byUser : actor = some userId) (closed : db.Closed) : db.SameBut userId db' := by
  induction effect with
  | same => exact .refl _
  | @trans actor a b c first second ih ih' =>
    have middle := first.closed (RowSet.meets_nothing _) (by simp) (.nothing closed)
    exact (ih byUser closed).trans (ih' byUser middle.tables)
  | addShared => cases byUser
  | changeTasks => cases byUser
  | deleteTask => cases byUser
  | archive => cases byUser
  | addTask added _ _ own => exact .insertTask added (own.trans byUser)
  | addRoutine added _ _ own => exact .insertRoutine added (own.trans (Option.some.inj byUser))
  | changeRoutines user own =>
    exact .updateRoutines user fun a hp => (own a hp).trans (Option.some.inj byUser)
  | addRoutineTask added _ _ own _ =>
    exact .insertRoutineTask added fun r hr same => (own r hr same).trans (Option.some.inj byUser)
  | changeRoutineTasks own =>
    exact .updateRoutineTasks fun a ha hp r hr same =>
      (own a ha hp r hr same).trans (Option.some.inj byUser)
  | addSession added _ _ _ own _ =>
    exact .insertPracticeSession added (own.trans (Option.some.inj byUser))
  | addSessionTask added _ _ own _ =>
    exact .insertPracticeSessionTask added fun s hs same =>
      (own s hs same).trans (Option.some.inj byUser)
  | addRecording added _ _ _ own =>
    exact .insertRecording added (own.trans (Option.some.inj byUser))
  | changeUsers own => exact .updateUsers fun a hp => (own a hp).trans (Option.some.inj byUser)
  | delete deleted only =>
    cases byUser
    exact .delete closed only deleted

/-- The staff changes tasks, and of a routine its status. -/
theorem byStaff (effect : Effect touched fresh actor db db') (staff : actor = none) :
    db.KeptByStaff db' := by
  induction effect with
  | same => exact ⟨_, _, rfl, rfl⟩
  | trans _ _ ih ih' =>
    obtain ⟨tasks, routines, rfl, same⟩ := ih staff
    obtain ⟨tasks', routines', rfl, same'⟩ := ih' staff
    exact ⟨tasks', routines', rfl, same'.trans same⟩
  | addShared added =>
    obtain ⟨tasks, rfl, -⟩ := insertTask_ok added
    exact ⟨tasks, _, rfl, rfl⟩
  | changeTasks => exact ⟨_, _, rfl, rfl⟩
  | @deleteTask db db' id deleted =>
    refine ⟨db.tasks.deleteWhere (·.id ∈ [id]), db.routines, ?_, rfl⟩
    rw [(delete_ok deleted).1]
    simp [without]
  | @archive db p now =>
    refine ⟨db.tasks, _, rfl, (List.map_map ..).trans (List.map_congr_left fun a _ => ?_)⟩
    show Routine.lasting (if p a = true then WeeklyRoutineCleanupService.archive now a else a) = _
    split <;> rfl
  | addTask => cases staff
  | addRoutine => cases staff
  | changeRoutines => cases staff
  | addRoutineTask => cases staff
  | changeRoutineTasks => cases staff
  | addSession => cases staff
  | addSessionTask => cases staff
  | addRecording => cases staff
  | changeUsers => cases staff
  | delete => cases staff

end Effect

end Db

end GuitarCoach
