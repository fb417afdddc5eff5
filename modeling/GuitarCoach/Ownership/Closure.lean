/- digest: Rows refer only to rows of their own user, and every kind of write keeps it so. -/

import GuitarCoach.Users.UsersService

set_option autoImplicit false
set_option relaxedAutoImplicit false

namespace GuitarCoach

open Relational (Table)

namespace Db

/-- What refers to a row belongs to whom the row belongs to; a task may also be shared. -/
structure Owned (db : Db) : Prop where
  recording : ∀ a ∈ db.recordings.rows, ∀ s ∈ db.practiceSessions.rows,
    s.id = a.practiceSessionId → a.userId = s.userId
  session : ∀ a ∈ db.practiceSessions.rows, ∀ r ∈ db.routines.rows,
    a.routineId = some r.id → r.userId = a.userId
  routineTask : ∀ a ∈ db.routineTasks.rows, ∀ r ∈ db.routines.rows, ∀ t ∈ db.tasks.rows,
    r.id = a.routineId → t.id = a.taskId → visibleTo r.userId t = true
  sessionTask : ∀ a ∈ db.practiceSessionTasks.rows, ∀ s ∈ db.practiceSessions.rows,
    ∀ t ∈ db.tasks.rows, s.id = a.practiceSessionId → t.id = a.taskId →
      visibleTo s.userId t = true

structure Closed (db : Db) : Prop where
  intact : db.Intact
  owned : db.Owned

theorem closed_empty : Db.empty.Closed := by
  constructor <;> constructor <;> simp [Db.empty]

/-! ### Rows that go, and rows that keep their keys and owners -/

/-- Every row that is left was there before, with the same keys and the same owner. -/
structure Kept (before after : Db) : Prop where
  tasks : ∀ b ∈ after.tasks.rows, ∃ a ∈ before.tasks.rows, a.id = b.id ∧ a.ownerId = b.ownerId
  routines : ∀ b ∈ after.routines.rows, ∃ a ∈ before.routines.rows,
    a.id = b.id ∧ a.userId = b.userId
  routineTasks : ∀ b ∈ after.routineTasks.rows, ∃ a ∈ before.routineTasks.rows, a.key = b.key
  practiceSessions : ∀ b ∈ after.practiceSessions.rows, ∃ a ∈ before.practiceSessions.rows,
    a.id = b.id ∧ a.userId = b.userId ∧ ∀ r ∈ b.routineId, a.routineId = some r
  practiceSessionTasks : ∀ b ∈ after.practiceSessionTasks.rows,
    ∃ a ∈ before.practiceSessionTasks.rows, a.key = b.key
  recordings : ∀ b ∈ after.recordings.rows, b ∈ before.recordings.rows

theorem Owned.kept {before after : Db} (owned : before.Owned) (kept : before.Kept after) :
    after.Owned where
  recording a ha s hs same := by
    obtain ⟨s', hs', hid, huser, -⟩ := kept.practiceSessions s hs
    rw [← huser]
    exact owned.recording a (kept.recordings a ha) s' hs' (hid.trans same)
  session a ha r hr same := by
    obtain ⟨a', ha', -, huser, hroutine⟩ := kept.practiceSessions a ha
    obtain ⟨r', hr', hid, huser'⟩ := kept.routines r hr
    rw [← huser, ← huser']
    exact owned.session a' ha' r' hr' (by rw [hid]; exact hroutine r.id same)
  routineTask a ha r hr t ht sameRoutine sameTask := by
    obtain ⟨a', ha', hkey⟩ := kept.routineTasks a ha
    obtain ⟨r', hr', hid, huser⟩ := kept.routines r hr
    obtain ⟨t', ht', htask, howner⟩ := kept.tasks t ht
    have hroutine : a'.routineId = a.routineId := congrArg Prod.fst hkey
    have htaskId : a'.taskId = a.taskId := congrArg Prod.snd hkey
    have visible := owned.routineTask a' ha' r' hr' t' ht' (by rw [hid, sameRoutine, hroutine])
      (by rw [htask, sameTask, htaskId])
    rwa [visibleTo, howner, huser] at visible
  sessionTask a ha s hs t ht sameSession sameTask := by
    obtain ⟨a', ha', hkey⟩ := kept.practiceSessionTasks a ha
    obtain ⟨s', hs', hid, huser, -⟩ := kept.practiceSessions s hs
    obtain ⟨t', ht', htask, howner⟩ := kept.tasks t ht
    have hsession : a'.practiceSessionId = a.practiceSessionId := congrArg Prod.fst hkey
    have htaskId : a'.taskId = a.taskId := congrArg Prod.snd hkey
    have visible := owned.sessionTask a' ha' s' hs' t' ht' (by rw [hid, sameSession, hsession])
      (by rw [htask, sameTask, htaskId])
    rwa [visibleTo, howner, huser] at visible

section Without

variable {gone : RowSet} {db : Db}

private theorem mem_without_practiceSessions {b : PracticeSession} :
    b ∈ (db.without gone).practiceSessions.rows ↔
      ∃ a ∈ db.practiceSessions.rows, a.id ∉ gone.practiceSessions ∧ forget gone a = b := by
  simp only [rows_without_practiceSessions, List.mem_map, List.mem_filter, decide_eq_true_eq,
    and_assoc]

theorem kept_without : db.Kept (db.without gone) where
  tasks b hb := ⟨b, (Table.mem_deleteWhere.mp hb).1, rfl, rfl⟩
  routines b hb := ⟨b, (Table.mem_deleteWhere.mp hb).1, rfl, rfl⟩
  routineTasks b hb := ⟨b, (Table.mem_deleteWhere.mp hb).1, rfl⟩
  practiceSessions b hb := by
    obtain ⟨a, ha, -, rfl⟩ := mem_without_practiceSessions.mp hb
    exact ⟨a, ha, rfl, rfl, fun r hr => (Option.mem_filter_iff.mp hr).1⟩
  practiceSessionTasks b hb := ⟨b, (Table.mem_deleteWhere.mp hb).1, rfl⟩
  recordings b hb := (Table.mem_deleteWhere.mp hb).1

/-- A row that is left and was referred to is still there. -/
private theorem has_deleteWhere {ρ : Type} {key : ρ → Uuid} {t : Table key} {p : ρ → Bool}
    {k : Uuid} (there : t.has k = true) (stays : ∀ a ∈ t.rows, key a = k → p a = false) :
    (t.deleteWhere p).has k = true := by
  obtain ⟨a, ha, hk⟩ := Table.has_iff.mp there
  exact Table.has_iff.mpr ⟨a, Table.mem_deleteWhere.mpr ⟨ha, stays a ha hk⟩, hk⟩

private theorem has_without_session {k : Uuid} (there : db.practiceSessions.has k = true)
    (stays : k ∉ gone.practiceSessions) : (db.without gone).practiceSessions.has k = true := by
  obtain ⟨a, ha, rfl⟩ := Table.has_iff.mp there
  exact Table.has_iff.mpr ⟨_, mem_without_practiceSessions.mpr ⟨a, ha, stays, rfl⟩, rfl⟩

theorem intact_delete {db' : Db} (intact : db.Intact) (h : db.delete gone = .ok db') :
    db'.Intact := by
  obtain ⟨rfl, free⟩ := delete_ok h
  simp only [references, Bool.or_eq_false_iff, List.any_eq_false, decide_eq_true_eq,
    Option.any_eq_true] at free
  obtain ⟨⟨⟨⟨⟨⟨tasks, routines⟩, sessions⟩, recordings⟩, routineTasks⟩, sessionTasks⟩,
    sessionRecordings⟩ := free
  have kept : db.Kept (db.without gone) := kept_without
  constructor
  case sessionUser =>
    intro a ha
    obtain ⟨ha, stays⟩ := Table.mem_deleteWhere.mp ha
    exact has_deleteWhere (intact.sessionUser a ha) fun u _ hu => by rw [hu]; exact stays
  case accountUser =>
    intro a ha
    obtain ⟨ha, stays⟩ := Table.mem_deleteWhere.mp ha
    exact has_deleteWhere (intact.accountUser a ha) fun u _ hu => by rw [hu]; exact stays
  case taskOwner =>
    intro a ha u hu
    refine has_deleteWhere (intact.taskOwner a (Table.mem_deleteWhere.mp ha).1 u hu)
      fun v _ hv => ?_
    have stays := tasks a ha
    simp_all
  case routineUser =>
    intro a ha
    refine has_deleteWhere (intact.routineUser a (Table.mem_deleteWhere.mp ha).1) fun v _ hv => ?_
    have stays := routines a ha
    simp_all
  case routineTaskRoutine =>
    intro a ha
    refine has_deleteWhere (intact.routineTaskRoutine a (Table.mem_deleteWhere.mp ha).1)
      fun v _ hv => ?_
    have stays := routineTasks a ha
    simp_all
  case routineTaskTask =>
    intro a ha
    refine has_deleteWhere (intact.routineTaskTask a (Table.mem_deleteWhere.mp ha).1)
      fun v _ hv => ?_
    have stays := routineTasks a ha
    simp_all
  case practiceSessionUser =>
    intro a ha
    obtain ⟨b, hb, -, rfl⟩ := mem_without_practiceSessions.mp ha
    refine has_deleteWhere (intact.practiceSessionUser b hb) fun v _ hv => ?_
    have stays := sessions _ ha
    simp_all
  case practiceSessionRoutine =>
    intro a ha r hr
    obtain ⟨b, hb, -, rfl⟩ := mem_without_practiceSessions.mp ha
    obtain ⟨same, stays⟩ := Option.mem_filter_iff.mp hr
    exact has_deleteWhere (intact.practiceSessionRoutine b hb r same) fun v _ hv => by simp_all
  case sessionTaskSession =>
    intro a ha
    refine has_without_session (intact.sessionTaskSession a (Table.mem_deleteWhere.mp ha).1) ?_
    have stays := sessionTasks a ha
    simp_all
  case sessionTaskTask =>
    intro a ha
    refine has_deleteWhere (intact.sessionTaskTask a (Table.mem_deleteWhere.mp ha).1)
      fun v _ hv => ?_
    have stays := sessionTasks a ha
    simp_all
  case recordingUser =>
    intro a ha
    refine has_deleteWhere (intact.recordingUser a (Table.mem_deleteWhere.mp ha).1)
      fun v _ hv => ?_
    have stays := recordings a ha
    simp_all
  case recordingSession =>
    intro a ha
    refine has_without_session (intact.recordingSession a (Table.mem_deleteWhere.mp ha).1) ?_
    have stays := sessionRecordings a ha
    simp_all

theorem Closed.delete {db' : Db} (closed : db.Closed) (h : db.delete gone = .ok db') :
    db'.Closed := by
  refine ⟨intact_delete closed.intact h, ?_⟩
  rw [(delete_ok h).1]
  exact closed.owned.kept kept_without

end Without

/-! ### Rows that are added -/

section Insert

variable {db db' : Db}

theorem Closed.insertTask {a : Task} (closed : db.Closed) (h : db.insertTask a = .ok db') :
    db'.Closed := by
  obtain ⟨tasks, rfl, rows, fresh, owner⟩ := insertTask_ok h
  obtain ⟨intact, owned⟩ := closed
  refine ⟨{ intact with
    taskOwner := fun t ht => ?_
    routineTaskTask := fun b hb => Table.has_of_append rows (intact.routineTaskTask b hb)
    sessionTaskTask := fun b hb => Table.has_of_append rows (intact.sessionTaskTask b hb) },
    { owned with
      routineTask := fun b hb r hr t ht sameRoutine sameTask => ?_
      sessionTask := fun b hb s hs t ht sameSession sameTask => ?_ }⟩
  · rcases List.mem_append.mp (rows ▸ ht) with ht | ht
    · exact intact.taskOwner t ht
    · exact List.mem_singleton.mp ht ▸ owner
  · rcases List.mem_append.mp (rows ▸ ht) with ht | ht
    · exact owned.routineTask b hb r hr t ht sameRoutine sameTask
    · obtain rfl := List.mem_singleton.mp ht
      obtain ⟨u, hu, hid⟩ := Table.has_iff.mp (intact.routineTaskTask b hb)
      exact absurd (List.mem_map.mpr ⟨u, hu, hid.trans sameTask.symm⟩) fresh
  · rcases List.mem_append.mp (rows ▸ ht) with ht | ht
    · exact owned.sessionTask b hb s hs t ht sameSession sameTask
    · obtain rfl := List.mem_singleton.mp ht
      obtain ⟨u, hu, hid⟩ := Table.has_iff.mp (intact.sessionTaskTask b hb)
      exact absurd (List.mem_map.mpr ⟨u, hu, hid.trans sameTask.symm⟩) fresh

theorem Closed.insertRoutine {a : Routine} (closed : db.Closed)
    (h : db.insertRoutine a = .ok db') : db'.Closed := by
  obtain ⟨routines, rfl, rows, fresh, user⟩ := insertRoutine_ok h
  obtain ⟨intact, owned⟩ := closed
  refine ⟨{ intact with
    routineUser := fun r hr => ?_
    routineTaskRoutine := fun b hb => Table.has_of_append rows (intact.routineTaskRoutine b hb)
    practiceSessionRoutine := fun b hb r hr =>
      Table.has_of_append rows (intact.practiceSessionRoutine b hb r hr) },
    { owned with
      session := fun b hb r hr same => ?_
      routineTask := fun b hb r hr t ht sameRoutine sameTask => ?_ }⟩
  · rcases List.mem_append.mp (rows ▸ hr) with hr | hr
    · exact intact.routineUser r hr
    · exact List.mem_singleton.mp hr ▸ user
  · rcases List.mem_append.mp (rows ▸ hr) with hr | hr
    · exact owned.session b hb r hr same
    · obtain rfl := List.mem_singleton.mp hr
      obtain ⟨u, hu, hid⟩ := Table.has_iff.mp (intact.practiceSessionRoutine b hb r.id same)
      exact absurd (List.mem_map.mpr ⟨u, hu, hid⟩) fresh
  · rcases List.mem_append.mp (rows ▸ hr) with hr | hr
    · exact owned.routineTask b hb r hr t ht sameRoutine sameTask
    · obtain rfl := List.mem_singleton.mp hr
      obtain ⟨u, hu, hid⟩ := Table.has_iff.mp (intact.routineTaskRoutine b hb)
      exact absurd (List.mem_map.mpr ⟨u, hu, hid.trans sameRoutine.symm⟩) fresh

theorem Closed.insertRoutineTask {a : RoutineTask} (closed : db.Closed)
    (h : db.insertRoutineTask a = .ok db')
    (visible : ∀ r ∈ db.routines.rows, ∀ t ∈ db.tasks.rows, r.id = a.routineId →
      t.id = a.taskId → visibleTo r.userId t = true) : db'.Closed := by
  obtain ⟨routineTasks, rfl, rows, -, routine, task⟩ := insertRoutineTask_ok h
  obtain ⟨intact, owned⟩ := closed
  refine ⟨{ intact with
    routineTaskRoutine := fun b hb => ?_
    routineTaskTask := fun b hb => ?_ },
    { owned with routineTask := fun b hb => ?_ }⟩
  all_goals rcases List.mem_append.mp (rows ▸ hb) with hb | hb
  · exact intact.routineTaskRoutine b hb
  · exact List.mem_singleton.mp hb ▸ routine
  · exact intact.routineTaskTask b hb
  · exact List.mem_singleton.mp hb ▸ task
  · exact owned.routineTask b hb
  · exact List.mem_singleton.mp hb ▸ visible

theorem Closed.insertPracticeSession {a : PracticeSession} (closed : db.Closed)
    (h : db.insertPracticeSession a = .ok db')
    (own : ∀ r ∈ db.routines.rows, a.routineId = some r.id → r.userId = a.userId) :
    db'.Closed := by
  obtain ⟨practiceSessions, rfl, rows, fresh, user, routine⟩ := insertPracticeSession_ok h
  obtain ⟨intact, owned⟩ := closed
  refine ⟨{ intact with
    practiceSessionUser := fun b hb => ?_
    practiceSessionRoutine := fun b hb => ?_
    sessionTaskSession := fun b hb => Table.has_of_append rows (intact.sessionTaskSession b hb)
    recordingSession := fun b hb => Table.has_of_append rows (intact.recordingSession b hb) },
    { owned with
      recording := fun b hb s hs same => ?_
      session := fun b hb => ?_
      sessionTask := fun b hb s hs t ht sameSession sameTask => ?_ }⟩
  · rcases List.mem_append.mp (rows ▸ hb) with hb | hb
    · exact intact.practiceSessionUser b hb
    · exact List.mem_singleton.mp hb ▸ user
  · rcases List.mem_append.mp (rows ▸ hb) with hb | hb
    · exact intact.practiceSessionRoutine b hb
    · exact List.mem_singleton.mp hb ▸ routine
  · rcases List.mem_append.mp (rows ▸ hs) with hs | hs
    · exact owned.recording b hb s hs same
    · obtain rfl := List.mem_singleton.mp hs
      obtain ⟨u, hu, hid⟩ := Table.has_iff.mp (intact.recordingSession b hb)
      exact absurd (List.mem_map.mpr ⟨u, hu, hid.trans same.symm⟩) fresh
  · rcases List.mem_append.mp (rows ▸ hb) with hb | hb
    · exact owned.session b hb
    · exact List.mem_singleton.mp hb ▸ own
  · rcases List.mem_append.mp (rows ▸ hs) with hs | hs
    · exact owned.sessionTask b hb s hs t ht sameSession sameTask
    · obtain rfl := List.mem_singleton.mp hs
      obtain ⟨u, hu, hid⟩ := Table.has_iff.mp (intact.sessionTaskSession b hb)
      exact absurd (List.mem_map.mpr ⟨u, hu, hid.trans sameSession.symm⟩) fresh

theorem Closed.insertPracticeSessionTask {a : PracticeSessionTask} (closed : db.Closed)
    (h : db.insertPracticeSessionTask a = .ok db')
    (visible : ∀ s ∈ db.practiceSessions.rows, ∀ t ∈ db.tasks.rows,
      s.id = a.practiceSessionId → t.id = a.taskId → visibleTo s.userId t = true) :
    db'.Closed := by
  obtain ⟨practiceSessionTasks, rfl, rows, -, session, task⟩ := insertPracticeSessionTask_ok h
  obtain ⟨intact, owned⟩ := closed
  refine ⟨{ intact with
    sessionTaskSession := fun b hb => ?_
    sessionTaskTask := fun b hb => ?_ },
    { owned with sessionTask := fun b hb => ?_ }⟩
  all_goals rcases List.mem_append.mp (rows ▸ hb) with hb | hb
  · exact intact.sessionTaskSession b hb
  · exact List.mem_singleton.mp hb ▸ session
  · exact intact.sessionTaskTask b hb
  · exact List.mem_singleton.mp hb ▸ task
  · exact owned.sessionTask b hb
  · exact List.mem_singleton.mp hb ▸ visible

theorem Closed.insertRecording {a : Recording} (closed : db.Closed)
    (h : db.insertRecording a = .ok db')
    (own : ∀ s ∈ db.practiceSessions.rows, s.id = a.practiceSessionId → a.userId = s.userId) :
    db'.Closed := by
  obtain ⟨recordings, rfl, rows, -, user, session⟩ := insertRecording_ok h
  obtain ⟨intact, owned⟩ := closed
  refine ⟨{ intact with
    recordingUser := fun b hb => ?_
    recordingSession := fun b hb => ?_ },
    { owned with recording := fun b hb => ?_ }⟩
  all_goals rcases List.mem_append.mp (rows ▸ hb) with hb | hb
  · exact intact.recordingUser b hb
  · exact List.mem_singleton.mp hb ▸ user
  · exact intact.recordingSession b hb
  · exact List.mem_singleton.mp hb ▸ session
  · exact owned.recording b hb
  · exact List.mem_singleton.mp hb ▸ own

end Insert

/-! ### Rows that are changed -/

section Update

variable {db : Db}

private theorem mem_update {ρ κ : Type} {key : ρ → κ} {t : Table key} {p : ρ → Bool} {f : ρ → ρ}
    {same : ∀ a, key (f a) = key a} {b : ρ} (h : b ∈ (t.updateWhere p f same).rows) :
    ∃ a ∈ t.rows, b = a ∨ b = f a := by
  obtain ⟨a, ha, rfl⟩ := List.mem_map.mp h
  refine ⟨a, ha, ?_⟩
  split
  · exact .inr rfl
  · exact .inl rfl

theorem Closed.updateTasks {p : Task → Bool} {f : Task → Task} {same : ∀ a, (f a).id = a.id}
    (closed : db.Closed) (owner : ∀ a, (f a).ownerId = a.ownerId) :
    { db with tasks := db.tasks.updateWhere p f same }.Closed := by
  have kept : ∀ b ∈ (db.tasks.updateWhere p f same).rows,
      ∃ a ∈ db.tasks.rows, a.id = b.id ∧ a.ownerId = b.ownerId := by
    intro b hb
    obtain ⟨a, ha, rfl | rfl⟩ := mem_update hb
    · exact ⟨b, ha, rfl, rfl⟩
    · exact ⟨a, ha, (same a).symm, (owner a).symm⟩
  obtain ⟨intact, owned⟩ := closed
  refine ⟨{ intact with
    taskOwner := fun b hb => ?_
    routineTaskTask := fun a ha => Table.has_updateWhere same (intact.routineTaskTask a ha)
    sessionTaskTask := fun a ha => Table.has_updateWhere same (intact.sessionTaskTask a ha) }, ?_⟩
  · obtain ⟨a, ha, -, howner⟩ := kept b hb
    exact howner ▸ intact.taskOwner a ha
  · exact owned.kept ⟨kept, fun b hb => ⟨b, hb, rfl, rfl⟩, fun b hb => ⟨b, hb, rfl⟩,
      fun b hb => ⟨b, hb, rfl, rfl, fun _ h => h⟩, fun b hb => ⟨b, hb, rfl⟩, fun _ hb => hb⟩

theorem Closed.updateRoutines {p : Routine → Bool} {f : Routine → Routine}
    {same : ∀ a, (f a).id = a.id} (closed : db.Closed) (user : ∀ a, (f a).userId = a.userId) :
    { db with routines := db.routines.updateWhere p f same }.Closed := by
  have kept : ∀ b ∈ (db.routines.updateWhere p f same).rows,
      ∃ a ∈ db.routines.rows, a.id = b.id ∧ a.userId = b.userId := by
    intro b hb
    obtain ⟨a, ha, rfl | rfl⟩ := mem_update hb
    · exact ⟨b, ha, rfl, rfl⟩
    · exact ⟨a, ha, (same a).symm, (user a).symm⟩
  obtain ⟨intact, owned⟩ := closed
  refine ⟨{ intact with
    routineUser := fun b hb => ?_
    routineTaskRoutine := fun a ha => Table.has_updateWhere same (intact.routineTaskRoutine a ha)
    practiceSessionRoutine := fun a ha r hr =>
      Table.has_updateWhere same (intact.practiceSessionRoutine a ha r hr) }, ?_⟩
  · obtain ⟨a, ha, -, huser⟩ := kept b hb
    exact huser ▸ intact.routineUser a ha
  · exact owned.kept ⟨fun b hb => ⟨b, hb, rfl, rfl⟩, kept, fun b hb => ⟨b, hb, rfl⟩,
      fun b hb => ⟨b, hb, rfl, rfl, fun _ h => h⟩, fun b hb => ⟨b, hb, rfl⟩, fun _ hb => hb⟩

theorem Closed.updateRoutineTasks {p : RoutineTask → Bool} {f : RoutineTask → RoutineTask}
    {same : ∀ a, (f a).key = a.key} (closed : db.Closed) :
    { db with routineTasks := db.routineTasks.updateWhere p f same }.Closed := by
  have kept : ∀ b ∈ (db.routineTasks.updateWhere p f same).rows,
      ∃ a ∈ db.routineTasks.rows, a.key = b.key := by
    intro b hb
    obtain ⟨a, ha, rfl | rfl⟩ := mem_update hb
    · exact ⟨b, ha, rfl⟩
    · exact ⟨a, ha, (same a).symm⟩
  obtain ⟨intact, owned⟩ := closed
  refine ⟨{ intact with
    routineTaskRoutine := fun b hb => ?_
    routineTaskTask := fun b hb => ?_ }, ?_⟩
  · obtain ⟨a, ha, hkey⟩ := kept b hb
    have hroutine : a.routineId = b.routineId := congrArg Prod.fst hkey
    exact hroutine ▸ intact.routineTaskRoutine a ha
  · obtain ⟨a, ha, hkey⟩ := kept b hb
    have htask : a.taskId = b.taskId := congrArg Prod.snd hkey
    exact htask ▸ intact.routineTaskTask a ha
  · exact owned.kept ⟨fun b hb => ⟨b, hb, rfl, rfl⟩, fun b hb => ⟨b, hb, rfl, rfl⟩, kept,
      fun b hb => ⟨b, hb, rfl, rfl, fun _ h => h⟩, fun b hb => ⟨b, hb, rfl⟩, fun _ hb => hb⟩

/-- Users may come, and their own columns may change. -/
theorem Closed.withUsers {users : Table User.id} (closed : db.Closed)
    (stay : ∀ u, db.users.has u = true → users.has u = true) : { db with users }.Closed := by
  obtain ⟨intact, owned⟩ := closed
  exact ⟨{ intact with
    sessionUser := fun a ha => stay _ (intact.sessionUser a ha)
    accountUser := fun a ha => stay _ (intact.accountUser a ha)
    taskOwner := fun a ha u hu => stay u (intact.taskOwner a ha u hu)
    routineUser := fun a ha => stay _ (intact.routineUser a ha)
    practiceSessionUser := fun a ha => stay _ (intact.practiceSessionUser a ha)
    recordingUser := fun a ha => stay _ (intact.recordingUser a ha) }, { owned with }⟩

end Update

end Db

end GuitarCoach
