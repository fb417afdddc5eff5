/- digest: What the tables hold of each user, and the writes that leave the parts of others alone. -/

import GuitarCoach.Ownership.OpenTransactions
import GuitarCoach.PracticeSessions.SessionSpecs

set_option autoImplicit false
set_option relaxedAutoImplicit false

namespace GuitarCoach

open Relational (Table)

/-- What the tables hold of one user: their row, the rows that are theirs and the links of these. -/
structure Part where
  user : List User
  sessions : List Session
  accounts : List Account
  tasks : List Task
  routines : List Routine
  routineTasks : List RoutineTask
  practiceSessions : List PracticeSession
  practiceSessionTasks : List PracticeSessionTask
  recordings : List Recording

namespace Db

/-- The routine of a link is the user's. -/
def ofRoutineOf (userId : Uuid) (db : Db) (a : RoutineTask) : Bool :=
  db.routines.rows.any fun r => r.id = a.routineId && r.userId = userId

def ofSessionOf (userId : Uuid) (db : Db) (a : PracticeSessionTask) : Bool :=
  db.practiceSessions.rows.any fun s => s.id = a.practiceSessionId && s.userId = userId

def partOf (userId : Uuid) (db : Db) : Part where
  user := db.users.rows.filter (·.id = userId)
  sessions := db.sessions.rows.filter (·.userId = userId)
  accounts := db.accounts.rows.filter (·.userId = userId)
  tasks := db.tasks.rows.filter (·.ownerId = some userId)
  routines := db.routines.rows.filter (·.userId = userId)
  routineTasks := db.routineTasks.rows.filter (db.ofRoutineOf userId)
  practiceSessions := db.practiceSessions.rows.filter (·.userId = userId)
  practiceSessionTasks := db.practiceSessionTasks.rows.filter (db.ofSessionOf userId)
  recordings := db.recordings.rows.filter (·.userId = userId)

/-- The task library. -/
def library (db : Db) : List Task := db.tasks.rows.filter sharedTask

/-- What belongs to others than the user, or to all, is as it was. -/
structure SameBut (userId : Uuid) (before after : Db) : Prop where
  parts : ∀ v, v ≠ userId → after.partOf v = before.partOf v
  library : after.library = before.library

namespace SameBut

variable {userId : Uuid} {a b c : Db}

theorem refl (db : Db) : db.SameBut userId db := ⟨fun _ _ => rfl, rfl⟩

theorem trans (h : a.SameBut userId b) (h' : b.SameBut userId c) : a.SameBut userId c where
  parts v other := (h'.parts v other).trans (h.parts v other)
  library := h'.library.trans h.library

end SameBut

/-! ### Rows that are selected or not -/

section Rows

variable {ρ κ : Type} {key : ρ → κ} {t u : Table key} {p q : ρ → Bool} {f : ρ → ρ}

theorem filter_added {a : ρ} (rows : u.rows = t.rows ++ [a]) (other : p a = false) :
    u.rows.filter p = t.rows.filter p := by
  have none : [a].filter p = [] := by simp [other]
  rw [rows, List.filter_append, none, List.append_nil]

theorem any_added {a : ρ} (rows : u.rows = t.rows ++ [a]) (other : p a = false) :
    u.rows.any p = t.rows.any p := by
  rw [rows, List.any_append]
  simp [other]

theorem filter_deleted (stays : ∀ a ∈ t.rows, p a = true → q a = false) :
    (t.deleteWhere q).rows.filter p = t.rows.filter p := by
  rw [Table.rows_deleteWhere, List.filter_filter]
  refine List.filter_congr fun a ha => ?_
  cases hp : p a with
  | false => rfl
  | true => simp [stays a ha hp]

theorem any_deleted (stays : ∀ a ∈ t.rows, p a = true → q a = false) :
    (t.deleteWhere q).rows.any p = t.rows.any p := by
  rw [Bool.eq_iff_iff, List.any_eq_true, List.any_eq_true]
  constructor
  · rintro ⟨a, ha, hp⟩
    exact ⟨a, (Table.mem_deleteWhere.mp ha).1, hp⟩
  · rintro ⟨a, ha, hp⟩
    exact ⟨a, Table.mem_deleteWhere.mpr ⟨ha, stays a ha hp⟩, hp⟩

/-- An update of rows that are not selected, before or after. -/
theorem filter_updated {k : ∀ a, key (f a) = key a}
    (other : ∀ a ∈ t.rows, q a = true → p a = false ∧ p (f a) = false) :
    (t.updateWhere q f k).rows.filter p = t.rows.filter p := by
  rw [Table.rows_updateWhere, List.filter_map]
  have pass : t.rows.filter (p ∘ fun a => if q a = true then f a else a) = t.rows.filter p := by
    refine List.filter_congr fun a ha => ?_
    by_cases hq : q a = true
    · simp [hq, other a ha hq]
    · simp [hq]
  rw [pass]
  refine (List.map_congr_left fun a ha => ?_).trans (List.map_id _)
  obtain ⟨ha, hp⟩ := List.mem_filter.mp ha
  refine if_neg fun hq => ?_
  rw [(other a ha hq).1] at hp
  cases hp

end Rows

/-! ### Writes for one user -/

namespace SameBut

variable {userId : Uuid} {db db' : Db}

private theorem not_own {v w : Uuid} (other : v ≠ w) : decide (w = v) = false :=
  decide_eq_false fun same => other same.symm

theorem insertTask {a : Task} (h : db.insertTask a = .ok db') (own : a.ownerId = some userId) :
    db.SameBut userId db' := by
  obtain ⟨tasks, rfl, rows, -⟩ := insertTask_ok h
  constructor
  · intro v other
    have mine : decide (a.ownerId = some v) = false := by
      rw [own]
      exact decide_eq_false fun same => other (Option.some.inj same).symm
    exact congrArg (fun tasks => { db.partOf v with tasks })
      (filter_added (p := fun a => decide (a.ownerId = some v)) rows mine)
  · have mine : sharedTask a = false := by
      unfold sharedTask
      rw [own]
      rfl
    exact filter_added rows mine

theorem insertRoutine {a : Routine} (h : db.insertRoutine a = .ok db') (own : a.userId = userId) :
    db.SameBut userId db' := by
  obtain ⟨routines, rfl, rows, -⟩ := insertRoutine_ok h
  refine ⟨fun v other => ?_, rfl⟩
  have mine : decide (a.userId = v) = false := by
    rw [own]
    exact not_own other
  have links : ({ db with routines } : Db).ofRoutineOf v = db.ofRoutineOf v := by
    funext b
    refine any_added (p := fun r => decide (r.id = b.routineId) && decide (r.userId = v)) rows ?_
    rw [mine, Bool.and_false]
  have kept := filter_added (p := fun a => decide (a.userId = v)) rows mine
  show { db.partOf v with
    routines := routines.rows.filter fun a => decide (a.userId = v)
    routineTasks := db.routineTasks.rows.filter (({ db with routines } : Db).ofRoutineOf v) } = _
  rw [links, kept]
  rfl

/-- A link of a routine of the user. -/
theorem insertRoutineTask {a : RoutineTask} (h : db.insertRoutineTask a = .ok db')
    (own : ∀ r ∈ db.routines.rows, r.id = a.routineId → r.userId = userId) :
    db.SameBut userId db' := by
  obtain ⟨routineTasks, rfl, rows, -⟩ := insertRoutineTask_ok h
  refine ⟨fun v other => ?_, rfl⟩
  have mine : db.ofRoutineOf v a = false := by
    refine List.any_eq_false.mpr fun r hr there => ?_
    rw [Bool.and_eq_true, decide_eq_true_eq, decide_eq_true_eq] at there
    exact other (there.2.symm.trans (own r hr there.1))
  exact congrArg (fun routineTasks => { db.partOf v with routineTasks })
    (filter_added (p := db.ofRoutineOf v) rows mine)

theorem insertPracticeSession {a : PracticeSession} (h : db.insertPracticeSession a = .ok db')
    (own : a.userId = userId) : db.SameBut userId db' := by
  obtain ⟨practiceSessions, rfl, rows, -⟩ := insertPracticeSession_ok h
  refine ⟨fun v other => ?_, rfl⟩
  have mine : decide (a.userId = v) = false := by
    rw [own]
    exact not_own other
  have links : ({ db with practiceSessions } : Db).ofSessionOf v = db.ofSessionOf v := by
    funext b
    refine any_added
      (p := fun s => decide (s.id = b.practiceSessionId) && decide (s.userId = v)) rows ?_
    rw [mine, Bool.and_false]
  have kept := filter_added (p := fun a => decide (a.userId = v)) rows mine
  show { db.partOf v with
    practiceSessions := practiceSessions.rows.filter fun a => decide (a.userId = v)
    practiceSessionTasks := db.practiceSessionTasks.rows.filter
      (({ db with practiceSessions } : Db).ofSessionOf v) } = _
  rw [links, kept]
  rfl

theorem insertPracticeSessionTask {a : PracticeSessionTask}
    (h : db.insertPracticeSessionTask a = .ok db')
    (own : ∀ s ∈ db.practiceSessions.rows, s.id = a.practiceSessionId → s.userId = userId) :
    db.SameBut userId db' := by
  obtain ⟨practiceSessionTasks, rfl, rows, -⟩ := insertPracticeSessionTask_ok h
  refine ⟨fun v other => ?_, rfl⟩
  have mine : db.ofSessionOf v a = false := by
    refine List.any_eq_false.mpr fun s hs there => ?_
    rw [Bool.and_eq_true, decide_eq_true_eq, decide_eq_true_eq] at there
    exact other (there.2.symm.trans (own s hs there.1))
  exact congrArg (fun practiceSessionTasks => { db.partOf v with practiceSessionTasks })
    (filter_added (p := db.ofSessionOf v) rows mine)

theorem insertRecording {a : Recording} (h : db.insertRecording a = .ok db')
    (own : a.userId = userId) : db.SameBut userId db' := by
  obtain ⟨recordings, rfl, rows, -⟩ := insertRecording_ok h
  refine ⟨fun v other => ?_, rfl⟩
  have mine : decide (a.userId = v) = false := by
    rw [own]
    exact not_own other
  exact congrArg (fun recordings => { db.partOf v with recordings })
    (filter_added (p := fun a => decide (a.userId = v)) rows mine)

theorem updateUsers {p : User → Bool} {f : User → User} {same : ∀ a, (f a).id = a.id}
    (own : ∀ a, p a = true → a.id = userId) :
    db.SameBut userId { db with users := db.users.updateWhere p f same } := by
  refine ⟨fun v other => ?_, rfl⟩
  refine congrArg (fun user => { db.partOf v with user })
    (filter_updated (p := fun a => decide (a.id = v)) (k := same) fun a _ hp => ?_)
  rw [same a, own a hp]
  exact ⟨not_own other, not_own other⟩

theorem updateRoutines {p : Routine → Bool} {f : Routine → Routine} {same : ∀ a, (f a).id = a.id}
    (user : ∀ a, (f a).userId = a.userId) (own : ∀ a, p a = true → a.userId = userId) :
    db.SameBut userId { db with routines := db.routines.updateWhere p f same } := by
  refine ⟨fun v other => ?_, rfl⟩
  have links : ({ db with routines := db.routines.updateWhere p f same } : Db).ofRoutineOf v =
      db.ofRoutineOf v := by
    funext b
    refine (List.any_map ..).trans (congrArg db.routines.rows.any (funext fun a => ?_))
    show (decide ((if p a = true then f a else a).id = b.routineId) &&
      decide ((if p a = true then f a else a).userId = v)) = _
    split
    · rw [same a, user a]
    · rfl
  have kept := filter_updated (t := db.routines) (p := fun a => decide (a.userId = v)) (q := p)
    (f := f) (k := same) fun a _ hp => by
      rw [user a, own a hp]
      exact ⟨not_own other, not_own other⟩
  show { db.partOf v with
    routines := (db.routines.updateWhere p f same).rows.filter fun a => decide (a.userId = v)
    routineTasks := db.routineTasks.rows.filter
      (({ db with routines := db.routines.updateWhere p f same } : Db).ofRoutineOf v) } = _
  rw [links, kept]
  rfl

theorem updateRoutineTasks {p : RoutineTask → Bool} {f : RoutineTask → RoutineTask}
    {same : ∀ a, (f a).key = a.key} (own : ∀ a ∈ db.routineTasks.rows, p a = true →
      ∀ r ∈ db.routines.rows, r.id = a.routineId → r.userId = userId) :
    db.SameBut userId { db with routineTasks := db.routineTasks.updateWhere p f same } := by
  refine ⟨fun v other => ?_, rfl⟩
  refine congrArg (fun routineTasks => { db.partOf v with routineTasks })
    (filter_updated (p := db.ofRoutineOf v) (k := same) fun a ha hp => ?_)
  have routine : (f a).routineId = a.routineId := congrArg Prod.fst (same a)
  have mine : db.ofRoutineOf v a = false := by
    refine List.any_eq_false.mpr fun r hr there => ?_
    rw [Bool.and_eq_true, decide_eq_true_eq, decide_eq_true_eq] at there
    exact other (there.2.symm.trans (own a ha hp r hr there.1))
  refine ⟨mine, ?_⟩
  rw [ofRoutineOf, routine]
  exact mine

end SameBut

/-- Rows to delete, all of them the user's or links of these. -/
structure OnlyOf (userId : Uuid) (db : Db) (gone : RowSet) : Prop where
  users : ∀ k ∈ gone.users, k = userId
  tasks : ∀ a ∈ db.tasks.rows, a.id ∈ gone.tasks → a.ownerId = some userId
  routines : ∀ a ∈ db.routines.rows, a.id ∈ gone.routines → a.userId = userId
  routineTasks : ∀ a ∈ db.routineTasks.rows, a.key ∈ gone.routineTasks →
    ∀ r ∈ db.routines.rows, r.id = a.routineId → r.userId = userId
  practiceSessions : ∀ a ∈ db.practiceSessions.rows, a.id ∈ gone.practiceSessions →
    a.userId = userId
  practiceSessionTasks : ∀ a ∈ db.practiceSessionTasks.rows, a.key ∈ gone.practiceSessionTasks →
    ∀ s ∈ db.practiceSessions.rows, s.id = a.practiceSessionId → s.userId = userId
  recordings : ∀ a ∈ db.recordings.rows, a.id ∈ gone.recordings → a.userId = userId

theorem onlyOf_nothing {userId : Uuid} {db : Db} : db.OnlyOf userId {} := by
  constructor <;> simp

/-- A link goes on being the user's while its routine stays. -/
theorem ofRoutineOf_without {v : Uuid} {db : Db} {gone : RowSet} {b : RoutineTask}
    (stays : ∀ r ∈ db.routines.rows, r.id = b.routineId → r.userId = v → r.id ∉ gone.routines) :
    (db.without gone).ofRoutineOf v b = db.ofRoutineOf v b := by
  refine any_deleted (t := db.routines) fun r hr mine => ?_
  rw [Bool.and_eq_true, decide_eq_true_eq, decide_eq_true_eq] at mine
  exact decide_eq_false (stays r hr mine.1 mine.2)

theorem ofSessionOf_without {v : Uuid} {db : Db} {gone : RowSet} {b : PracticeSessionTask}
    (stays : ∀ s ∈ db.practiceSessions.rows, s.id = b.practiceSessionId → s.userId = v →
      s.id ∉ gone.practiceSessions) : (db.without gone).ofSessionOf v b = db.ofSessionOf v b := by
  refine ((List.any_map ..).trans ?_).trans (any_deleted (t := db.practiceSessions)
    (q := fun s => decide (s.id ∈ gone.practiceSessions)) fun s hs mine => ?_)
  · refine congrArg (List.any _) (funext fun s => ?_)
    show (decide ((if _ then _ else s : PracticeSession).id = b.practiceSessionId) &&
      decide ((if _ then _ else s : PracticeSession).userId = v)) = _
    split <;> rfl
  · rw [Bool.and_eq_true, decide_eq_true_eq, decide_eq_true_eq] at mine
    exact decide_eq_false (stays s hs mine.1 mine.2)

/-- The sessions of others keep their routines, which are theirs. -/
theorem SameBut.without {userId : Uuid} {db : Db} {gone : RowSet} (closed : db.Closed)
    (only : db.OnlyOf userId gone) : db.SameBut userId (db.without gone) := by
  constructor
  · intro v other
    have users := filter_deleted (t := db.users) (p := fun a => decide (a.id = v))
      (q := fun a => decide (a.id ∈ gone.users)) fun a _ mine => decide_eq_false fun there =>
        other ((of_decide_eq_true mine).symm.trans (only.users _ there))
    have sessions := filter_deleted (t := db.sessions) (p := fun a => decide (a.userId = v))
      (q := fun a => decide (a.userId ∈ gone.users)) fun a _ mine => decide_eq_false fun there =>
        other ((of_decide_eq_true mine).symm.trans (only.users _ there))
    have accounts := filter_deleted (t := db.accounts) (p := fun a => decide (a.userId = v))
      (q := fun a => decide (a.userId ∈ gone.users)) fun a _ mine => decide_eq_false fun there =>
        other ((of_decide_eq_true mine).symm.trans (only.users _ there))
    have tasks := filter_deleted (t := db.tasks) (p := fun a => decide (a.ownerId = some v))
      (q := fun a => decide (a.id ∈ gone.tasks)) fun a ha mine => decide_eq_false fun there =>
        other (Option.some.inj ((of_decide_eq_true mine).symm.trans (only.tasks a ha there)))
    have routineStays : ∀ a ∈ db.routines.rows, a.userId = v → a.id ∉ gone.routines :=
      fun a ha mine there => other (mine.symm.trans (only.routines a ha there))
    have routines := filter_deleted (t := db.routines) (p := fun a => decide (a.userId = v))
      (q := fun a => decide (a.id ∈ gone.routines)) fun a ha mine =>
        decide_eq_false (routineStays a ha (of_decide_eq_true mine))
    have ofRoutine : (db.without gone).ofRoutineOf v = db.ofRoutineOf v :=
      funext fun b => ofRoutineOf_without fun a ha _ mine => routineStays a ha mine
    have routineTasks := filter_deleted (t := db.routineTasks) (p := db.ofRoutineOf v)
      (q := fun a => decide (a.key ∈ gone.routineTasks)) fun a ha mine =>
        decide_eq_false fun there => by
          obtain ⟨r, hr, mine⟩ := List.any_eq_true.mp mine
          rw [Bool.and_eq_true, decide_eq_true_eq, decide_eq_true_eq] at mine
          exact other (mine.2.symm.trans (only.routineTasks a ha there r hr mine.1))
    have sessionStays : ∀ a ∈ db.practiceSessions.rows, a.userId = v →
        a.id ∉ gone.practiceSessions :=
      fun a ha mine there => other (mine.symm.trans (only.practiceSessions a ha there))
    have practiceSessions : (db.without gone).practiceSessions.rows.filter
        (fun a => decide (a.userId = v)) =
          db.practiceSessions.rows.filter fun a => decide (a.userId = v) := by
      refine (filter_updated (f := fun a : PracticeSession => { a with routineId := none })
        (k := fun _ => rfl) fun a ha forgets => ?_).trans (filter_deleted fun a ha mine =>
        decide_eq_false (sessionStays a ha (of_decide_eq_true mine)))
      have elsewhere : decide (a.userId = v) = false := by
        refine decide_eq_false fun mine => ?_
        have ha := (Table.mem_deleteWhere.mp ha).1
        obtain ⟨k, hk, there⟩ := (Option.any_eq_true _ _).mp forgets
        obtain ⟨r, hr, rfl⟩ := Table.has_iff.mp (closed.intact.practiceSessionRoutine a ha k hk)
        exact routineStays r hr ((closed.owned.session a ha r hr hk).trans mine)
          (of_decide_eq_true there)
      exact ⟨elsewhere, elsewhere⟩
    have ofSession : (db.without gone).ofSessionOf v = db.ofSessionOf v :=
      funext fun b => ofSessionOf_without fun a ha _ mine => sessionStays a ha mine
    have practiceSessionTasks := filter_deleted (t := db.practiceSessionTasks)
      (p := db.ofSessionOf v) (q := fun a => decide (a.key ∈ gone.practiceSessionTasks))
      fun a ha mine => decide_eq_false fun there => by
        obtain ⟨s, hs, mine⟩ := List.any_eq_true.mp mine
        rw [Bool.and_eq_true, decide_eq_true_eq, decide_eq_true_eq] at mine
        exact other (mine.2.symm.trans (only.practiceSessionTasks a ha there s hs mine.1))
    have recordings := filter_deleted (t := db.recordings) (p := fun a => decide (a.userId = v))
      (q := fun a => decide (a.id ∈ gone.recordings)) fun a ha mine =>
        decide_eq_false fun there =>
          other ((of_decide_eq_true mine).symm.trans (only.recordings a ha there))
    unfold partOf
    rw [ofRoutine, ofSession, practiceSessions]
    simp only [Part.mk.injEq]
    exact ⟨users, sessions, accounts, tasks, routines, routineTasks, trivial,
      practiceSessionTasks, recordings⟩
  · refine filter_deleted fun a ha shared => decide_eq_false fun there => ?_
    have owned := only.tasks a ha there
    unfold sharedTask at shared
    rw [owned] at shared
    cases shared

theorem SameBut.delete {userId : Uuid} {db db' : Db} {gone : RowSet} (closed : db.Closed)
    (only : db.OnlyOf userId gone) (h : db.delete gone = .ok db') : db.SameBut userId db' := by
  rw [(delete_ok h).1]
  exact .without closed only

end Db

end GuitarCoach
