/- digest: Closed tables stay closed beside open transactions, for each of them and for everybody. -/

import GuitarCoach.Ownership.Closure
import GuitarCoach.Users.Purge

/-!
While a purge is open there are two views of the tables: the rows as they are committed, and the
rows less those the transaction has deleted. A write that touches none of the deleted rows does
the same to both, and so does the commit of another purge.
-/

set_option autoImplicit false
set_option relaxedAutoImplicit false

namespace GuitarCoach

open Relational (Table)

namespace Db

/-- Closed as they are, and closed without the rows of this set. -/
structure ClosedBut (gone : RowSet) (db : Db) : Prop where
  tables : db.Closed
  view : (db.without gone).Closed

variable {gone : RowSet} {db db' : Db}

theorem ClosedBut.nothing (closed : db.Closed) : db.ClosedBut {} :=
  ⟨closed, by rwa [without_nothing]⟩

/-! ### The rows that are left -/

theorem has_without_users {u : Uuid} :
    (db.without gone).users.has u = true ↔ db.users.has u = true ∧ u ∉ gone.users :=
  Table.has_deleteKeys

theorem has_without_tasks {k : Uuid} :
    (db.without gone).tasks.has k = true ↔ db.tasks.has k = true ∧ k ∉ gone.tasks :=
  Table.has_deleteKeys

theorem has_without_routines {k : Uuid} :
    (db.without gone).routines.has k = true ↔ db.routines.has k = true ∧ k ∉ gone.routines :=
  Table.has_deleteKeys

theorem has_without_practiceSessions {k : Uuid} :
    (db.without gone).practiceSessions.has k = true ↔
      db.practiceSessions.has k = true ∧ k ∉ gone.practiceSessions := by
  unfold without
  dsimp only
  rw [Table.updateWhere_has]
  exact Table.has_deleteKeys

theorem mem_without_tasks {a : Task} (h : a ∈ (db.without gone).tasks.rows) : a ∈ db.tasks.rows :=
  (Table.mem_deleteWhere.mp h).1

theorem mem_without_routines {a : Routine} (h : a ∈ (db.without gone).routines.rows) :
    a ∈ db.routines.rows :=
  (Table.mem_deleteWhere.mp h).1

/-- A session that is left was there before, with its id and its user. -/
theorem mem_without_sessions {a : PracticeSession}
    (h : a ∈ (db.without gone).practiceSessions.rows) :
    ∃ b ∈ db.practiceSessions.rows, b.id = a.id ∧ b.userId = a.userId := by
  obtain ⟨b, hb, hid, huser, -⟩ := kept_without.practiceSessions a h
  exact ⟨b, hb, hid, huser⟩

/-! ### Rows that are added to both views -/

section Insert

private theorem all_of_left {o : Option Uuid} {has has' : Uuid → Bool}
    (all : o.all has = true) (left : ∀ u ∈ o, has u = true → has' u = true) :
    o.all has' = true := by
  rw [Option.all_eq_true] at all ⊢
  exact fun u hu => left u hu (all u hu)

/-- The row is new to the view as well, unless it has a key that is deleted there. -/
theorem insertTask_without {a : Task} (h : db.insertTask a = .ok db')
    (owner : ∀ u ∈ a.ownerId, u ∉ gone.users) : db'.without gone = db.without gone ∨
      (db.without gone).insertTask a = .ok (db'.without gone) := by
  obtain ⟨fits, h⟩ := withTexts_eq_ok.mp h
  split at h
  · cases h
  next tasks inserted =>
  split at h
  swap
  · cases h
  next user =>
  cases h
  by_cases goes : a.id ∈ gone.tasks
  · left
    have dropped := Table.deleteWhere_insert_gone
      (p := fun a : Task => decide (a.id ∈ gone.tasks))
      inserted (decide_eq_true goes)
    unfold without
    rw [dropped]
  · right
    have added : (db.without gone).tasks.insert a = some (({ db with tasks }).without gone).tasks :=
      Table.insert_deleteWhere (p := fun a : Task => decide (a.id ∈ gone.tasks)) inserted
        (decide_eq_false goes)
    have there := all_of_left user fun u hu has => has_without_users.mpr ⟨has, owner u hu⟩
    unfold insertTask
    rw [added, withTexts_of_fits fits]
    exact if_pos there

theorem insertRoutine_without {a : Routine} (h : db.insertRoutine a = .ok db')
    (user : a.userId ∉ gone.users) : db'.without gone = db.without gone ∨
      (db.without gone).insertRoutine a = .ok (db'.without gone) := by
  obtain ⟨fits, h⟩ := withTexts_eq_ok.mp h
  split at h
  · cases h
  next routines inserted =>
  split at h
  swap
  · cases h
  next there =>
  cases h
  by_cases goes : a.id ∈ gone.routines
  · left
    have dropped := Table.deleteWhere_insert_gone
      (p := fun a : Routine => decide (a.id ∈ gone.routines))
      inserted (decide_eq_true goes)
    unfold without
    rw [dropped]
  · right
    have added : (db.without gone).routines.insert a =
        some (({ db with routines }).without gone).routines :=
      Table.insert_deleteWhere (p := fun a : Routine => decide (a.id ∈ gone.routines)) inserted
        (decide_eq_false goes)
    unfold insertRoutine
    rw [added, withTexts_of_fits fits]
    exact if_pos (has_without_users.mpr ⟨there, user⟩)

theorem insertRoutineTask_without {a : RoutineTask} (h : db.insertRoutineTask a = .ok db')
    (routine : a.routineId ∉ gone.routines) (task : a.taskId ∉ gone.tasks) :
    db'.without gone = db.without gone ∨
      (db.without gone).insertRoutineTask a = .ok (db'.without gone) := by
  unfold insertRoutineTask at h
  split at h
  · cases h
  next free =>
  split at h
  · cases h
  next routineTasks inserted =>
  split at h
  swap
  · cases h
  next there =>
  cases h
  rw [Bool.and_eq_true] at there
  by_cases goes : a.key ∈ gone.routineTasks
  · left
    have dropped := Table.deleteWhere_insert_gone
      (p := fun a : RoutineTask => decide (a.key ∈ gone.routineTasks))
      inserted (decide_eq_true goes)
    unfold without
    rw [dropped]
  · right
    have added : (db.without gone).routineTasks.insert a =
        some (({ db with routineTasks }).without gone).routineTasks :=
      Table.insert_deleteWhere (p := fun a : RoutineTask => decide (a.key ∈ gone.routineTasks)) inserted
        (decide_eq_false goes)
    have place : ((db.without gone).routineTasks.rows.any fun b =>
        b.routineId = a.routineId && b.position = a.position) = false := by
      rw [Bool.not_eq_true, List.any_eq_false] at free
      exact List.any_eq_false.mpr fun b hb => free b (Table.mem_deleteWhere.mp hb).1
    unfold insertRoutineTask
    rw [place, added]
    refine (if_neg Bool.false_ne_true).trans (if_pos ?_)
    rw [Bool.and_eq_true]
    exact ⟨has_without_routines.mpr ⟨there.1, routine⟩, has_without_tasks.mpr ⟨there.2, task⟩⟩

theorem insertPracticeSession_without {a : PracticeSession}
    (h : db.insertPracticeSession a = .ok db') (user : a.userId ∉ gone.users)
    (routine : ∀ r ∈ a.routineId, r ∉ gone.routines) : db'.without gone = db.without gone ∨
      (db.without gone).insertPracticeSession a = .ok (db'.without gone) := by
  obtain ⟨fits, h⟩ := withTexts_eq_ok.mp h
  split at h
  · cases h
  next practiceSessions inserted =>
  split at h
  swap
  · cases h
  next there =>
  cases h
  rw [Bool.and_eq_true] at there
  by_cases goes : a.id ∈ gone.practiceSessions
  · left
    have dropped := Table.deleteWhere_insert_gone
      (p := fun a : PracticeSession => decide (a.id ∈ gone.practiceSessions))
      inserted (decide_eq_true goes)
    unfold without
    rw [dropped]
  · right
    have kept : (a.routineId.any fun r => decide (r ∈ gone.routines)) = false := by
      cases hr : a.routineId with
      | none => rfl
      | some r => exact decide_eq_false (routine r hr)
    have added : (db.without gone).practiceSessions.insert a =
        some (({ db with practiceSessions }).without gone).practiceSessions := by
      unfold without
      dsimp only
      rw [Table.insert_updateWhere (Table.insert_deleteWhere inserted (decide_eq_false goes)) kept]
    have routines := all_of_left there.2 fun r hr has =>
      has_without_routines.mpr ⟨has, routine r hr⟩
    unfold insertPracticeSession
    rw [added, withTexts_of_fits fits]
    refine if_pos ?_
    rw [Bool.and_eq_true]
    exact ⟨has_without_users.mpr ⟨there.1, user⟩, routines⟩

theorem insertPracticeSessionTask_without {a : PracticeSessionTask}
    (h : db.insertPracticeSessionTask a = .ok db')
    (session : a.practiceSessionId ∉ gone.practiceSessions) (task : a.taskId ∉ gone.tasks) :
    db'.without gone = db.without gone ∨
      (db.without gone).insertPracticeSessionTask a = .ok (db'.without gone) := by
  unfold insertPracticeSessionTask at h
  split at h
  · cases h
  next practiceSessionTasks inserted =>
  split at h
  swap
  · cases h
  next there =>
  cases h
  rw [Bool.and_eq_true] at there
  by_cases goes : a.key ∈ gone.practiceSessionTasks
  · left
    have dropped := Table.deleteWhere_insert_gone
      (p := fun a : PracticeSessionTask => decide (a.key ∈ gone.practiceSessionTasks))
      inserted (decide_eq_true goes)
    unfold without
    rw [dropped]
  · right
    have added : (db.without gone).practiceSessionTasks.insert a =
        some (({ db with practiceSessionTasks }).without gone).practiceSessionTasks :=
      Table.insert_deleteWhere
        (p := fun a : PracticeSessionTask => decide (a.key ∈ gone.practiceSessionTasks)) inserted
        (decide_eq_false goes)
    unfold insertPracticeSessionTask
    rw [added]
    refine if_pos ?_
    rw [Bool.and_eq_true]
    exact ⟨has_without_practiceSessions.mpr ⟨there.1, session⟩,
      has_without_tasks.mpr ⟨there.2, task⟩⟩

theorem insertRecording_without {a : Recording} (h : db.insertRecording a = .ok db')
    (user : a.userId ∉ gone.users) (session : a.practiceSessionId ∉ gone.practiceSessions) :
    db'.without gone = db.without gone ∨
      (db.without gone).insertRecording a = .ok (db'.without gone) := by
  obtain ⟨fits, h⟩ := withTexts_eq_ok.mp h
  split at h
  · cases h
  next recordings inserted =>
  split at h
  swap
  · cases h
  next there =>
  cases h
  rw [Bool.and_eq_true] at there
  by_cases goes : a.id ∈ gone.recordings
  · left
    have dropped := Table.deleteWhere_insert_gone
      (p := fun a : Recording => decide (a.id ∈ gone.recordings))
      inserted (decide_eq_true goes)
    unfold without
    rw [dropped]
  · right
    have added : (db.without gone).recordings.insert a =
        some (({ db with recordings }).without gone).recordings :=
      Table.insert_deleteWhere (p := fun a : Recording => decide (a.id ∈ gone.recordings)) inserted
        (decide_eq_false goes)
    unfold insertRecording
    rw [added, withTexts_of_fits fits]
    refine if_pos ?_
    rw [Bool.and_eq_true]
    exact ⟨has_without_users.mpr ⟨there.1, user⟩,
      has_without_practiceSessions.mpr ⟨there.2, session⟩⟩

/-- A row that is added to the tables is added to the view or leaves it as it was. -/
private theorem ClosedBut.added {insert : Db → Except Failure Db} (closed : db.ClosedBut gone)
    (closes : ∀ {c c' : Db}, c = db ∨ c = db.without gone → c.Closed → insert c = .ok c' →
      c'.Closed)
    (h : insert db = .ok db')
    (view : db'.without gone = db.without gone ∨
      insert (db.without gone) = .ok (db'.without gone)) : db'.ClosedBut gone := by
  refine ⟨closes (.inl rfl) closed.tables h, ?_⟩
  rcases view with same | inserted
  · rw [same]
    exact closed.view
  · exact closes (.inr rfl) closed.view inserted

theorem ClosedBut.insertTask {a : Task} (closed : db.ClosedBut gone)
    (h : db.insertTask a = .ok db') (owner : ∀ u ∈ a.ownerId, u ∉ gone.users) :
    db'.ClosedBut gone :=
  closed.added (fun _ closed inserted => closed.insertTask inserted) h (insertTask_without h owner)

theorem ClosedBut.insertRoutine {a : Routine} (closed : db.ClosedBut gone)
    (h : db.insertRoutine a = .ok db') (user : a.userId ∉ gone.users) : db'.ClosedBut gone :=
  closed.added (fun _ closed inserted => closed.insertRoutine inserted) h
    (insertRoutine_without h user)

theorem ClosedBut.insertRoutineTask {a : RoutineTask} (closed : db.ClosedBut gone)
    (h : db.insertRoutineTask a = .ok db') (routine : a.routineId ∉ gone.routines)
    (task : a.taskId ∉ gone.tasks)
    (visible : ∀ r ∈ db.routines.rows, ∀ t ∈ db.tasks.rows, r.id = a.routineId →
      t.id = a.taskId → visibleTo r.userId t = true) : db'.ClosedBut gone := by
  refine closed.added (fun which closed inserted => closed.insertRoutineTask inserted ?_) h
    (insertRoutineTask_without h routine task)
  rcases which with rfl | rfl
  · exact visible
  · exact fun r hr t ht => visible r (mem_without_routines hr) t (mem_without_tasks ht)

theorem ClosedBut.insertPracticeSession {a : PracticeSession} (closed : db.ClosedBut gone)
    (h : db.insertPracticeSession a = .ok db') (user : a.userId ∉ gone.users)
    (routine : ∀ r ∈ a.routineId, r ∉ gone.routines)
    (own : ∀ r ∈ db.routines.rows, a.routineId = some r.id → r.userId = a.userId) :
    db'.ClosedBut gone := by
  refine closed.added (fun which closed inserted => closed.insertPracticeSession inserted ?_) h
    (insertPracticeSession_without h user routine)
  rcases which with rfl | rfl
  · exact own
  · exact fun r hr => own r (mem_without_routines hr)

theorem ClosedBut.insertPracticeSessionTask {a : PracticeSessionTask}
    (closed : db.ClosedBut gone) (h : db.insertPracticeSessionTask a = .ok db')
    (session : a.practiceSessionId ∉ gone.practiceSessions) (task : a.taskId ∉ gone.tasks)
    (visible : ∀ s ∈ db.practiceSessions.rows, ∀ t ∈ db.tasks.rows,
      s.id = a.practiceSessionId → t.id = a.taskId → visibleTo s.userId t = true) :
    db'.ClosedBut gone := by
  refine closed.added (fun which closed inserted => closed.insertPracticeSessionTask inserted ?_) h
    (insertPracticeSessionTask_without h session task)
  rcases which with rfl | rfl
  · exact visible
  · intro s hs t ht sameSession sameTask
    obtain ⟨b, hb, hid, huser⟩ := mem_without_sessions hs
    rw [← huser]
    exact visible b hb t (mem_without_tasks ht) (hid.trans sameSession) sameTask

theorem ClosedBut.insertRecording {a : Recording} (closed : db.ClosedBut gone)
    (h : db.insertRecording a = .ok db') (user : a.userId ∉ gone.users)
    (session : a.practiceSessionId ∉ gone.practiceSessions)
    (own : ∀ s ∈ db.practiceSessions.rows, s.id = a.practiceSessionId → a.userId = s.userId) :
    db'.ClosedBut gone := by
  refine closed.added (fun which closed inserted => closed.insertRecording inserted ?_) h
    (insertRecording_without h user session)
  rcases which with rfl | rfl
  · exact own
  · intro s hs same
    obtain ⟨b, hb, hid, huser⟩ := mem_without_sessions hs
    rw [← huser]
    exact own b hb (hid.trans same)

end Insert

/-! ### Rows that are changed or deleted in both views -/

section Update

theorem ClosedBut.updateTasks {p : Task → Bool} {f : Task → Task} {same : ∀ a, (f a).id = a.id}
    (closed : db.ClosedBut gone) (owner : ∀ a, (f a).ownerId = a.ownerId) :
    { db with tasks := db.tasks.updateWhere p f same }.ClosedBut gone := by
  refine ⟨closed.tables.updateTasks owner, ?_⟩
  have view : ({ db with tasks := db.tasks.updateWhere p f same } : Db).without gone =
      { db.without gone with tasks := (db.without gone).tasks.updateWhere p f same } := by
    unfold without
    dsimp only
    rw [Table.deleteWhere_updateWhere fun a => by simp only [same]]
  rw [view]
  exact closed.view.updateTasks owner

theorem ClosedBut.updateRoutines {p : Routine → Bool} {f : Routine → Routine}
    {same : ∀ a, (f a).id = a.id} (closed : db.ClosedBut gone)
    (user : ∀ a, (f a).userId = a.userId) :
    { db with routines := db.routines.updateWhere p f same }.ClosedBut gone := by
  refine ⟨closed.tables.updateRoutines user, ?_⟩
  have view : ({ db with routines := db.routines.updateWhere p f same } : Db).without gone =
      { db.without gone with routines := (db.without gone).routines.updateWhere p f same } := by
    unfold without
    dsimp only
    rw [Table.deleteWhere_updateWhere fun a => by simp only [same]]
  rw [view]
  exact closed.view.updateRoutines user

theorem ClosedBut.updateRoutineTasks {p : RoutineTask → Bool} {f : RoutineTask → RoutineTask}
    {same : ∀ a, (f a).key = a.key} (closed : db.ClosedBut gone) :
    { db with routineTasks := db.routineTasks.updateWhere p f same }.ClosedBut gone := by
  refine ⟨closed.tables.updateRoutineTasks, ?_⟩
  have view : ({ db with routineTasks := db.routineTasks.updateWhere p f same } : Db).without gone =
      { db.without gone with
        routineTasks := (db.without gone).routineTasks.updateWhere p f same } := by
    unfold without
    dsimp only
    rw [Table.deleteWhere_updateWhere fun a => by simp only [same]]
  rw [view]
  exact closed.view.updateRoutineTasks

/-- Users may come, and their own columns may change. -/
theorem ClosedBut.withUsers {users : Table User.id} (closed : db.ClosedBut gone)
    (stay : ∀ u, db.users.has u = true → users.has u = true) : { db with users }.ClosedBut gone := by
  refine ⟨closed.tables.withUsers stay, ?_⟩
  have view : ({ db with users } : Db).without gone =
      { db.without gone with users := users.deleteWhere (·.id ∈ gone.users) } := rfl
  rw [view]
  refine closed.view.withUsers fun u there => ?_
  obtain ⟨before, stays⟩ := has_without_users.mp there
  exact Table.has_deleteKeys.mpr ⟨stay u before, stays⟩

theorem without_swap (a b : RowSet) : (db.without a).without b = (db.without b).without a := by
  rw [← without_union, ← without_union]
  unfold without RowSet.union
  simp only [List.mem_append, or_comm]

/-- Where nothing refers to these rows, nothing does once more rows are gone. -/
theorem references_without {more : RowSet} (free : db.references more = false) :
    (db.without gone).references more = false := by
  simp only [references, Bool.or_eq_false_iff, List.any_eq_false] at free ⊢
  obtain ⟨⟨⟨⟨⟨⟨tasks, routines⟩, sessions⟩, recordings⟩, routineTasks⟩, sessionTasks⟩,
    sessionRecordings⟩ := free
  refine ⟨⟨⟨⟨⟨⟨?_, ?_⟩, ?_⟩, ?_⟩, ?_⟩, ?_⟩, ?_⟩
  · exact fun a ha => tasks a (Table.mem_deleteWhere.mp ha).1
  · exact fun a ha => routines a (Table.mem_deleteWhere.mp ha).1
  · intro a ha
    obtain ⟨b, hb, -, huser⟩ := mem_without_sessions ha
    rw [← huser]
    exact sessions b hb
  · exact fun a ha => recordings a (Table.mem_deleteWhere.mp ha).1
  · exact fun a ha => routineTasks a (Table.mem_deleteWhere.mp ha).1
  · exact fun a ha => sessionTasks a (Table.mem_deleteWhere.mp ha).1
  · exact fun a ha => sessionRecordings a (Table.mem_deleteWhere.mp ha).1

theorem ClosedBut.delete {more : RowSet} (closed : db.ClosedBut gone)
    (h : db.delete more = .ok db') : db'.ClosedBut gone := by
  refine ⟨closed.tables.delete h, ?_⟩
  obtain ⟨rfl, free⟩ := delete_ok h
  have view : (db.without gone).delete more = .ok ((db.without gone).without more) := by
    have left : ((db.without more).without gone).references more = false := references_without free
    rw [without_swap] at left
    unfold Db.delete
    rw [left]
    rfl
  rw [without_swap]
  exact closed.view.delete view

/-- What is closed without these rows does not refer to them. -/
theorem Intact.references_without (intact : (db.without gone).Intact) :
    (db.without gone).references gone = false := by
  simp only [references, Bool.or_eq_false_iff, List.any_eq_false, Option.any_eq_true,
    Bool.or_eq_true, decide_eq_true_eq, not_exists, not_and, not_or]
  refine ⟨⟨⟨⟨⟨⟨?_, ?_⟩, ?_⟩, ?_⟩, ?_⟩, ?_⟩, ?_⟩
  · exact fun a ha u hu => (has_without_users.mp (intact.taskOwner a ha u hu)).2
  · exact fun a ha => (has_without_users.mp (intact.routineUser a ha)).2
  · exact fun a ha => (has_without_users.mp (intact.practiceSessionUser a ha)).2
  · exact fun a ha => (has_without_users.mp (intact.recordingUser a ha)).2
  · exact fun a ha => ⟨(has_without_routines.mp (intact.routineTaskRoutine a ha)).2,
      (has_without_tasks.mp (intact.routineTaskTask a ha)).2⟩
  · exact fun a ha => ⟨(has_without_practiceSessions.mp (intact.sessionTaskSession a ha)).2,
      (has_without_tasks.mp (intact.sessionTaskTask a ha)).2⟩
  · exact fun a ha => (has_without_practiceSessions.mp (intact.recordingSession a ha)).2

/-- The transaction deletes more: the others see nothing of it. -/
theorem ClosedBut.deleteMore {more : RowSet} (closed : db.ClosedBut gone)
    (h : (db.without gone).delete more = .ok db') : db.ClosedBut (gone.union more) := by
  refine ⟨closed.tables, ?_⟩
  have deleted := closed.view.delete h
  rw [(delete_ok h).1] at deleted
  rw [without_union]
  exact deleted

/-- Another transaction commits what it has deleted. -/
theorem ClosedBut.commit {more : RowSet} (closed : db.ClosedBut gone) (other : db.ClosedBut more) :
    (db.without more).ClosedBut gone := by
  refine ⟨other.view, ?_⟩
  have free : ((db.without gone).without more).references gone = false :=
    references_without closed.view.intact.references_without
  rw [without_swap] at free
  have deleted : (db.without more).delete gone = .ok ((db.without more).without gone) := by
    unfold Db.delete
    rw [free]
    rfl
  exact other.view.delete deleted

end Update

end Db

end GuitarCoach
