/- digest: The tables as one user sees them, and what statements for that user do to them. -/

import GuitarCoach.Ownership.Parts
import GuitarCoach.Relational.Restrict

/-!
A statement of a service for one user commutes with taking away the rows that the user may not
see: what it reads is the same, what it refuses it refuses with the same error, and what it
writes it writes to the rows that are left.
-/

set_option autoImplicit false
set_option relaxedAutoImplicit false

namespace GuitarCoach

open Relational (Table orderBy)

namespace Db

/-- What the user may see: the shared tasks, what is theirs and the links of it. -/
def seenBy (userId : Uuid) (db : Db) : Db where
  users := db.users.restrict (·.id = userId)
  sessions := db.sessions.restrict (·.userId = userId)
  accounts := db.accounts.restrict (·.userId = userId)
  tasks := db.tasks.restrict (visibleTo userId)
  routines := db.routines.restrict (·.userId = userId)
  routineTasks := db.routineTasks.restrict (db.ofRoutineOf userId)
  practiceSessions := db.practiceSessions.restrict (·.userId = userId)
  practiceSessionTasks := db.practiceSessionTasks.restrict (db.ofSessionOf userId)
  recordings := db.recordings.restrict (·.userId = userId)

/-- A routine of this id is there, and is the user's. -/
def HasRoutine (userId id : Uuid) (db : Db) : Prop :=
  ∃ r ∈ db.routines.rows, r.id = id ∧ r.userId = userId

def HasSession (userId id : Uuid) (db : Db) : Prop :=
  ∃ s ∈ db.practiceSessions.rows, s.id = id ∧ s.userId = userId

variable {db : Db} {userId id : Uuid}

theorem ofRoutineOf_iff {a : RoutineTask} :
    db.ofRoutineOf userId a = true ↔ db.HasRoutine userId a.routineId := by
  simp [ofRoutineOf, HasRoutine]

theorem ofSessionOf_iff {a : PracticeSessionTask} :
    db.ofSessionOf userId a = true ↔ db.HasSession userId a.practiceSessionId := by
  simp [ofSessionOf, HasSession]

/-- What is there under the id of a routine of the user's is the user's. -/
theorem HasRoutine.own (has : db.HasRoutine userId id) :
    ∀ r ∈ db.routines.rows, r.id = id → r.userId = userId := by
  obtain ⟨r, hr, rfl, own⟩ := has
  intro s hs same
  rw [Table.eq_of_key hs hr same]
  exact own

theorem HasSession.own (has : db.HasSession userId id) :
    ∀ s ∈ db.practiceSessions.rows, s.id = id → s.userId = userId := by
  obtain ⟨s, hs, rfl, own⟩ := has
  intro r hr same
  rw [Table.eq_of_key hr hs same]
  exact own

/-! ### Reads -/

section Reads

theorem tasksOfRoutine_seenBy (has : db.HasRoutine userId id) :
    (db.seenBy userId).tasksOfRoutine id = db.tasksOfRoutine id :=
  Table.filter_restrict fun _ _ ofRoutine =>
    ofRoutineOf_iff.mpr (of_decide_eq_true ofRoutine ▸ has)

theorem toRoutineResponse_seenBy {r : Routine} (hr : r ∈ db.routines.rows)
    (own : r.userId = userId) :
    toRoutineResponse (db.seenBy userId) r = toRoutineResponse db r := by
  unfold toRoutineResponse
  rw [tasksOfRoutine_seenBy ⟨r, hr, rfl, own⟩]

/-- The task of a link that is the user's. -/
theorem findTask_seenBy (visible : ∀ t ∈ db.tasks.rows, t.id = id → visibleTo userId t = true) :
    (db.seenBy userId).tasks.find id = db.tasks.find id :=
  Table.find_restrict_of visible

theorem Closed.visible_of_routine (closed : db.Closed) {a : RoutineTask}
    (ha : a ∈ db.routineTasks.rows) (has : db.HasRoutine userId a.routineId) :
    ∀ t ∈ db.tasks.rows, t.id = a.taskId → visibleTo userId t = true := by
  obtain ⟨r, hr, hid, rfl⟩ := has
  exact fun t ht same => closed.owned.routineTask a ha r hr t ht hid same

theorem Closed.visible_of_session (closed : db.Closed) {a : PracticeSessionTask}
    (ha : a ∈ db.practiceSessionTasks.rows) (has : db.HasSession userId a.practiceSessionId) :
    ∀ t ∈ db.tasks.rows, t.id = a.taskId → visibleTo userId t = true := by
  obtain ⟨s, hs, hid, rfl⟩ := has
  exact fun t ht same => closed.owned.sessionTask a ha s hs t ht hid same

theorem withTask_seenBy (closed : db.Closed) {rows : List RoutineTask}
    (own : ∀ a ∈ rows, a ∈ db.routineTasks.rows ∧ db.HasRoutine userId a.routineId) :
    (db.seenBy userId).withTask rows = db.withTask rows := by
  refine List.filterMap_congr fun _ ha => ?_
  obtain ⟨there, has⟩ := own _ ha
  rw [findTask_seenBy (closed.visible_of_routine there has)]

theorem withTask_tasksOfRoutine (closed : db.Closed) (has : db.HasRoutine userId id)
    (rank : Nat → Nat) (le : RoutineTask → RoutineTask → Bool) :
    (db.seenBy userId).withTask (orderBy rank le ((db.seenBy userId).tasksOfRoutine id)) =
      db.withTask (orderBy rank le (db.tasksOfRoutine id)) := by
  rw [tasksOfRoutine_seenBy has]
  refine withTask_seenBy closed fun a ha => ?_
  obtain ⟨there, same⟩ := List.mem_filter.mp (Relational.mem_orderBy.mp ha)
  exact ⟨there, of_decide_eq_true same ▸ has⟩

theorem sessionTasksOf_seenBy (closed : db.Closed) (has : db.HasSession userId id)
    (rank : Nat → Nat) : (db.seenBy userId).sessionTasksOf rank id = db.sessionTasksOf rank id := by
  have links : (db.seenBy userId).practiceSessionTasks.rows.filter
      (fun a => decide (a.practiceSessionId = id)) =
        db.practiceSessionTasks.rows.filter fun a => decide (a.practiceSessionId = id) :=
    Table.filter_restrict fun a _ ofSession =>
      ofSessionOf_iff.mpr (of_decide_eq_true ofSession ▸ has)
  unfold sessionTasksOf
  rw [links]
  refine List.filterMap_congr fun a ha => ?_
  obtain ⟨there, same⟩ := List.mem_filter.mp (Relational.mem_orderBy.mp ha)
  rw [findTask_seenBy (closed.visible_of_session there (of_decide_eq_true same ▸ has))]

theorem withSessionTasks_seenBy (closed : db.Closed) {s : PracticeSession}
    (hs : s ∈ db.practiceSessions.rows) (own : s.userId = userId) (rank : Nat → Nat) :
    (db.seenBy userId).withSessionTasks rank s = db.withSessionTasks rank s := by
  unfold withSessionTasks
  rw [sessionTasksOf_seenBy closed ⟨s, hs, rfl, own⟩]

end Reads

/-! ### Writes -/

section Writes

theorem insertRoutine_seenBy (intact : db.Intact) {a : Routine} (own : a.userId = userId)
    (fresh : db.routines.has a.id = false) :
    (db.seenBy userId).insertRoutine a = (db.insertRoutine a).map (seenBy userId) := by
  have other : ∀ r ∈ db.routines.rows, r.id ≠ a.id := by
    intro r hr same
    rw [Table.has_iff.mpr ⟨r, hr, same⟩] at fresh
    cases fresh
  have inserted : (db.seenBy userId).routines.insert a =
      (db.routines.insert a).map fun t => t.restrict fun r => decide (r.userId = userId) :=
    Table.insert_restrict (decide_eq_true own) fun r hr same => absurd same (other r hr)
  have user : (db.seenBy userId).users.has a.userId = db.users.has a.userId :=
    Table.has_restrict fun u _ same => decide_eq_true (same.trans own)
  unfold insertRoutine
  rw [inserted, user, map_withTexts]
  refine congrArg (withTexts a.texts) ?_
  cases added : db.routines.insert a with
  | none => rfl
  | some routines =>
    have rows := (Table.insert_eq_some.mp added).2
    -- no link refers to an id that was not there
    have links : db.routineTasks.restrict ({ db with routines }.ofRoutineOf userId) =
        db.routineTasks.restrict (db.ofRoutineOf userId) := by
      refine Table.restrict_congr fun b hb => any_added rows ?_
      obtain ⟨r, hr, there⟩ := Table.has_iff.mp (intact.routineTaskRoutine b hb)
      rw [Bool.and_eq_false_iff]
      exact .inl (decide_eq_false fun same => other r hr (there.trans same.symm))
    dsimp only [Option.map_some]
    split
    · unfold seenBy
      rw [Except.map, links]
      rfl
    · rfl

theorem updateRoutines_seenBy {p : Routine → Bool} {f : Routine → Routine}
    {same : ∀ a, (f a).id = a.id} (user : ∀ a, (f a).userId = a.userId) :
    seenBy userId { db with routines := db.routines.updateWhere p f same } =
      { db.seenBy userId with
        routines := (db.seenBy userId).routines.updateWhere p f same } := by
  have links : ({ db with routines := db.routines.updateWhere p f same } : Db).ofRoutineOf userId =
      db.ofRoutineOf userId := by
    funext b
    refine (List.any_map ..).trans (congrArg (List.any _) (funext fun r => ?_))
    rw [Function.comp_apply]
    split
    · rw [same, user]
    · rfl
  unfold seenBy
  rw [links]
  congr 1
  exact Table.restrict_updateWhere fun a => by rw [user]

/-- A link of a routine that is the user's to a task they see. -/
theorem insertRoutineTask_seenBy {a : RoutineTask} (has : db.HasRoutine userId a.routineId)
    (visible : ∀ t ∈ db.tasks.rows, t.id = a.taskId → visibleTo userId t = true) :
    (db.seenBy userId).insertRoutineTask a = (db.insertRoutineTask a).map (seenBy userId) := by
  have place : (db.seenBy userId).routineTasks.rows.any
      (fun b => decide (b.routineId = a.routineId) && decide (b.position = a.position)) =
        db.routineTasks.rows.any
          fun b => decide (b.routineId = a.routineId) && decide (b.position = a.position) := by
    refine Table.any_restrict fun b _ taken => ?_
    rw [Bool.and_eq_true, decide_eq_true_eq] at taken
    exact ofRoutineOf_iff.mpr (taken.1 ▸ has)
  have inserted : (db.seenBy userId).routineTasks.insert a =
      (db.routineTasks.insert a).map fun t => t.restrict (db.ofRoutineOf userId) := by
    refine Table.insert_restrict (ofRoutineOf_iff.mpr has) fun b _ same => ?_
    have routine : b.routineId = a.routineId := congrArg Prod.fst same
    exact ofRoutineOf_iff.mpr (routine ▸ has)
  have routine : (db.seenBy userId).routines.has a.routineId = db.routines.has a.routineId :=
    Table.has_restrict fun r hr same => decide_eq_true (has.own r hr same)
  have task : (db.seenBy userId).tasks.has a.taskId = db.tasks.has a.taskId :=
    Table.has_restrict visible
  unfold insertRoutineTask
  rw [place, inserted, routine, task]
  split
  · rfl
  · cases db.routineTasks.insert a with
    | none => rfl
    | some routineTasks =>
      dsimp only [Option.map_some]
      split <;> rfl

theorem updateRoutineTasks_seenBy {p : RoutineTask → Bool} {f : RoutineTask → RoutineTask}
    {same : ∀ a, (f a).key = a.key} :
    seenBy userId { db with routineTasks := db.routineTasks.updateWhere p f same } =
      { db.seenBy userId with
        routineTasks := (db.seenBy userId).routineTasks.updateWhere p f same } := by
  unfold seenBy
  congr 1
  refine Table.restrict_updateWhere fun a => ?_
  have routine : (f a).routineId = a.routineId := congrArg Prod.fst (same a)
  show db.ofRoutineOf userId (f a) = db.ofRoutineOf userId a
  unfold ofRoutineOf
  rw [routine]

theorem insertPracticeSession_seenBy (intact : db.Intact) {a : PracticeSession}
    (own : a.userId = userId) (fresh : db.practiceSessions.has a.id = false)
    (routine : ∀ k ∈ a.routineId, db.HasRoutine userId k) :
    (db.seenBy userId).insertPracticeSession a =
      (db.insertPracticeSession a).map (seenBy userId) := by
  have other : ∀ s ∈ db.practiceSessions.rows, s.id ≠ a.id := by
    intro s hs same
    rw [Table.has_iff.mpr ⟨s, hs, same⟩] at fresh
    cases fresh
  have inserted : (db.seenBy userId).practiceSessions.insert a =
      (db.practiceSessions.insert a).map fun t => t.restrict fun s => decide (s.userId = userId) :=
    Table.insert_restrict (decide_eq_true own) fun s hs same => absurd same (other s hs)
  have user : (db.seenBy userId).users.has a.userId = db.users.has a.userId :=
    Table.has_restrict fun u _ same => decide_eq_true (same.trans own)
  have routines : a.routineId.all (db.seenBy userId).routines.has =
      a.routineId.all db.routines.has := by
    cases hroutine : a.routineId with
    | none => rfl
    | some k =>
      exact Table.has_restrict fun r hr same => decide_eq_true ((routine k hroutine).own r hr same)
  unfold insertPracticeSession
  rw [inserted, user, routines, map_withTexts]
  refine congrArg (withTexts a.texts) ?_
  cases added : db.practiceSessions.insert a with
  | none => rfl
  | some practiceSessions =>
    have rows := (Table.insert_eq_some.mp added).2
    have links : db.practiceSessionTasks.restrict
        ({ db with practiceSessions }.ofSessionOf userId) =
        db.practiceSessionTasks.restrict (db.ofSessionOf userId) := by
      refine Table.restrict_congr fun b hb => any_added rows ?_
      obtain ⟨s, hs, there⟩ := Table.has_iff.mp (intact.sessionTaskSession b hb)
      rw [Bool.and_eq_false_iff]
      exact .inl (decide_eq_false fun same => other s hs (there.trans same.symm))
    dsimp only [Option.map_some]
    split
    · unfold seenBy
      rw [Except.map, links]
      rfl
    · rfl

theorem insertPracticeSessionTask_seenBy {a : PracticeSessionTask}
    (has : db.HasSession userId a.practiceSessionId)
    (visible : ∀ t ∈ db.tasks.rows, t.id = a.taskId → visibleTo userId t = true) :
    (db.seenBy userId).insertPracticeSessionTask a =
      (db.insertPracticeSessionTask a).map (seenBy userId) := by
  have inserted : (db.seenBy userId).practiceSessionTasks.insert a =
      (db.practiceSessionTasks.insert a).map fun t => t.restrict (db.ofSessionOf userId) := by
    refine Table.insert_restrict (ofSessionOf_iff.mpr has) fun b _ same => ?_
    have session : b.practiceSessionId = a.practiceSessionId := congrArg Prod.fst same
    exact ofSessionOf_iff.mpr (session ▸ has)
  have session : (db.seenBy userId).practiceSessions.has a.practiceSessionId =
      db.practiceSessions.has a.practiceSessionId :=
    Table.has_restrict fun s hs same => decide_eq_true (has.own s hs same)
  have task : (db.seenBy userId).tasks.has a.taskId = db.tasks.has a.taskId :=
    Table.has_restrict visible
  unfold insertPracticeSessionTask
  rw [inserted, session, task]
  cases db.practiceSessionTasks.insert a with
  | none => rfl
  | some practiceSessionTasks =>
    dsimp only [Option.map_some]
    split <;> rfl

theorem insertRecording_seenBy {a : Recording} (own : a.userId = userId)
    (fresh : db.recordings.has a.id = false) (has : db.HasSession userId a.practiceSessionId) :
    (db.seenBy userId).insertRecording a = (db.insertRecording a).map (seenBy userId) := by
  have inserted : (db.seenBy userId).recordings.insert a =
      (db.recordings.insert a).map fun t => t.restrict fun b => decide (b.userId = userId) := by
    refine Table.insert_restrict (decide_eq_true own) fun b hb same => ?_
    rw [Table.has_iff.mpr ⟨b, hb, same⟩] at fresh
    cases fresh
  have user : (db.seenBy userId).users.has a.userId = db.users.has a.userId :=
    Table.has_restrict fun u _ same => decide_eq_true (same.trans own)
  have session : (db.seenBy userId).practiceSessions.has a.practiceSessionId =
      db.practiceSessions.has a.practiceSessionId :=
    Table.has_restrict fun s hs same => decide_eq_true (has.own s hs same)
  unfold insertRecording
  rw [inserted, user, session, map_withTexts]
  refine congrArg (withTexts a.texts) ?_
  cases db.recordings.insert a with
  | none => rfl
  | some recordings =>
    dsimp only [Option.map_some]
    split <;> rfl

section Delete

variable {gone : RowSet}

private theorem seenBy_without : (db.seenBy userId).without gone =
    { users := (db.without gone).users.restrict (·.id = userId)
      sessions := (db.without gone).sessions.restrict (·.userId = userId)
      accounts := (db.without gone).accounts.restrict (·.userId = userId)
      tasks := (db.without gone).tasks.restrict (visibleTo userId)
      routines := (db.without gone).routines.restrict (·.userId = userId)
      routineTasks := (db.without gone).routineTasks.restrict (db.ofRoutineOf userId)
      practiceSessions := (db.without gone).practiceSessions.restrict (·.userId = userId)
      practiceSessionTasks :=
        (db.without gone).practiceSessionTasks.restrict (db.ofSessionOf userId)
      recordings := (db.without gone).recordings.restrict (·.userId = userId) } := by
  have sessions : (db.without gone).practiceSessions.restrict (·.userId = userId) =
      ((db.seenBy userId).without gone).practiceSessions := by
    have stays : ∀ a : PracticeSession,
        decide ({ a with routineId := none }.userId = userId) = decide (a.userId = userId) :=
      fun _ => rfl
    unfold without
    dsimp only
    rw [Table.restrict_updateWhere stays, Table.restrict_deleteWhere]
    rfl
  rw [sessions]
  unfold without
  simp only [Table.restrict_deleteWhere]
  rfl

/-- Whoever may see a row that goes may see the rows that refer to it. -/
theorem references_seenBy (closed : db.Closed) (only : db.OnlyOf userId gone) :
    ((db.seenBy userId).without gone).references gone = (db.without gone).references gone := by
  have users : ∀ k, decide (k ∈ gone.users) = true → k = userId :=
    fun k there => only.users k (of_decide_eq_true there)
  have routineTask : ∀ a ∈ (db.without gone).routineTasks.rows,
      (decide (a.routineId ∈ gone.routines) || decide (a.taskId ∈ gone.tasks)) = true →
        db.ofRoutineOf userId a = true := by
    intro a ha goes
    have ha := (Table.mem_deleteWhere.mp ha).1
    obtain ⟨r, hr, hid⟩ := Table.has_iff.mp (closed.intact.routineTaskRoutine a ha)
    refine ofRoutineOf_iff.mpr ⟨r, hr, hid, ?_⟩
    rcases (Bool.or_eq_true _ _).mp goes with routine | task
    · exact only.routines r hr (hid ▸ of_decide_eq_true routine)
    · obtain ⟨t, ht, same⟩ := Table.has_iff.mp (closed.intact.routineTaskTask a ha)
      have visible := closed.owned.routineTask a ha r hr t ht hid same
      rw [visibleTo, only.tasks t ht (same ▸ of_decide_eq_true task)] at visible
      exact (by simpa using visible : userId = _).symm
  have sessionTask : ∀ a ∈ (db.without gone).practiceSessionTasks.rows,
      (decide (a.practiceSessionId ∈ gone.practiceSessions) || decide (a.taskId ∈ gone.tasks)) =
        true → db.ofSessionOf userId a = true := by
    intro a ha goes
    have ha := (Table.mem_deleteWhere.mp ha).1
    obtain ⟨s, hs, hid⟩ := Table.has_iff.mp (closed.intact.sessionTaskSession a ha)
    refine ofSessionOf_iff.mpr ⟨s, hs, hid, ?_⟩
    rcases (Bool.or_eq_true _ _).mp goes with session | task
    · exact only.practiceSessions s hs (hid ▸ of_decide_eq_true session)
    · obtain ⟨t, ht, same⟩ := Table.has_iff.mp (closed.intact.sessionTaskTask a ha)
      have visible := closed.owned.sessionTask a ha s hs t ht hid same
      rw [visibleTo, only.tasks t ht (same ▸ of_decide_eq_true task)] at visible
      exact (by simpa using visible : userId = _).symm
  have recording : ∀ a ∈ (db.without gone).recordings.rows,
      decide (a.practiceSessionId ∈ gone.practiceSessions) = true →
        decide (a.userId = userId) = true := by
    intro a ha goes
    have ha := (Table.mem_deleteWhere.mp ha).1
    obtain ⟨s, hs, hid⟩ := Table.has_iff.mp (closed.intact.recordingSession a ha)
    rw [closed.owned.recording a ha s hs hid]
    exact decide_eq_true (only.practiceSessions s hs (hid ▸ of_decide_eq_true goes))
  have task : ∀ a ∈ (db.without gone).tasks.rows,
      a.ownerId.any (fun k => decide (k ∈ gone.users)) = true → visibleTo userId a = true := by
    intro a _ goes
    obtain ⟨k, owner, there⟩ := (Option.any_eq_true _ _).mp goes
    rw [visibleTo, owner, users k there]
    simp
  rw [seenBy_without]
  unfold references
  rw [Table.any_restrict task, Table.any_restrict routineTask, Table.any_restrict sessionTask,
    Table.any_restrict recording,
    Table.any_restrict fun a _ goes => decide_eq_true (users _ goes),
    Table.any_restrict fun a _ goes => decide_eq_true (users _ goes),
    Table.any_restrict fun a _ goes => decide_eq_true (users _ goes)]

/-- Rows go from what the user sees as they go. -/
theorem without_seenBy (free : (db.without gone).references gone = false) :
    (db.without gone).seenBy userId = (db.seenBy userId).without gone := by
  simp only [references, Bool.or_eq_false_iff, List.any_eq_false] at free
  obtain ⟨⟨⟨-, routineTasks⟩, sessionTasks⟩, -⟩ := free
  have links : (db.without gone).routineTasks.restrict ((db.without gone).ofRoutineOf userId) =
      (db.without gone).routineTasks.restrict (db.ofRoutineOf userId) := by
    refine Table.restrict_congr fun b hb => ofRoutineOf_without fun r hr same _ goes => ?_
    exact routineTasks b hb (by simp [← same, goes])
  have sessionLinks : (db.without gone).practiceSessionTasks.restrict
      ((db.without gone).ofSessionOf userId) =
        (db.without gone).practiceSessionTasks.restrict (db.ofSessionOf userId) := by
    refine Table.restrict_congr fun b hb => ofSessionOf_without fun s hs same _ goes => ?_
    exact sessionTasks b hb (by simp [← same, goes])
  rw [seenBy_without]
  unfold seenBy
  rw [links, sessionLinks]

theorem delete_seenBy (closed : db.Closed) (only : db.OnlyOf userId gone) :
    (db.seenBy userId).delete gone = (db.delete gone).map (seenBy userId) := by
  unfold delete
  rw [references_seenBy closed only]
  cases free : (db.without gone).references gone with
  | true => rfl
  | false =>
    rw [if_neg Bool.false_ne_true, if_neg Bool.false_ne_true, Except.map, without_seenBy free]

end Delete

end Writes

end Db

end GuitarCoach
