/- digest: The tables of the Prisma schema, their foreign keys and what deleting rows does. -/

import GuitarCoach.Relational.Table
import GuitarCoach.Store.Values

set_option autoImplicit false
set_option relaxedAutoImplicit false

namespace GuitarCoach

open Relational (Table)

inductive RoutineStatus
  | active
  | archived
deriving DecidableEq

inductive TaskCategory
  | technique
  | theory
  | repertoire
deriving DecidableEq

inductive TaskDifficulty
  | easy
  | medium
  | hard
deriving DecidableEq

def TaskCategory.text : TaskCategory → String
  | .technique => "technique"
  | .theory => "theory"
  | .repertoire => "repertoire"

def TaskDifficulty.text : TaskDifficulty → String
  | .easy => "easy"
  | .medium => "medium"
  | .hard => "hard"

/-- `ownerId` is null for a task of the shared library, else the one user who sees it. -/
structure Task where
  id : Uuid
  title : String
  category : Option TaskCategory
  difficulty : Option TaskDifficulty
  referenceLink : Option String
  description : Option String
  ownerId : Option Uuid
  createdAt : Instant
  updatedAt : Instant
deriving DecidableEq

def Task.texts (a : Task) : List String :=
  a.title :: (a.referenceLink.toList ++ a.description.toList)

structure User where
  id : Uuid
  image : Option String
deriving DecidableEq

structure Session where
  id : Uuid
  userId : Uuid
deriving DecidableEq

structure Account where
  id : Uuid
  userId : Uuid
deriving DecidableEq

structure Routine where
  id : Uuid
  userId : Uuid
  title : String
  status : RoutineStatus
  notes : Option String
  createdAt : Instant
  updatedAt : Instant
deriving DecidableEq

def Routine.texts (a : Routine) : List String := a.title :: a.notes.toList

structure RoutineTask where
  routineId : Uuid
  taskId : Uuid
  position : Int
  targetDurationMinutes : Option Int
  createdAt : Instant
  updatedAt : Instant
deriving DecidableEq

def RoutineTask.key (a : RoutineTask) : Uuid × Uuid := (a.routineId, a.taskId)

structure PracticeSession where
  id : Uuid
  userId : Uuid
  routineId : Option Uuid
  title : Option String
  notes : Option String
  createdAt : Instant
  updatedAt : Instant
deriving DecidableEq

def PracticeSession.texts (a : PracticeSession) : List String :=
  a.title.toList ++ a.notes.toList

structure PracticeSessionTask where
  practiceSessionId : Uuid
  taskId : Uuid
  durationMinutes : Option Int
  completed : Bool
  createdAt : Instant
  updatedAt : Instant
deriving DecidableEq

def PracticeSessionTask.key (a : PracticeSessionTask) : Uuid × Uuid :=
  (a.practiceSessionId, a.taskId)

structure Recording where
  id : Uuid
  userId : Uuid
  practiceSessionId : Uuid
  objectName : String
  originalFileName : String
  contentType : String
  sizeBytes : Int
  createdAt : Instant
deriving DecidableEq

def Recording.texts (a : Recording) : List String :=
  [a.objectName, a.originalFileName, a.contentType]

structure Db where
  users : Table User.id
  sessions : Table Session.id
  accounts : Table Account.id
  tasks : Table Task.id
  routines : Table Routine.id
  routineTasks : Table RoutineTask.key
  practiceSessions : Table PracticeSession.id
  practiceSessionTasks : Table PracticeSessionTask.key
  recordings : Table Recording.id

namespace Db

def empty : Db :=
  ⟨.empty, .empty, .empty, .empty, .empty, .empty, .empty, .empty, .empty⟩

/-- Every foreign key names a row that is there. -/
structure Intact (db : Db) : Prop where
  sessionUser : ∀ a ∈ db.sessions.rows, db.users.has a.userId
  accountUser : ∀ a ∈ db.accounts.rows, db.users.has a.userId
  taskOwner : ∀ a ∈ db.tasks.rows, ∀ u ∈ a.ownerId, db.users.has u
  routineUser : ∀ a ∈ db.routines.rows, db.users.has a.userId
  routineTaskRoutine : ∀ a ∈ db.routineTasks.rows, db.routines.has a.routineId
  routineTaskTask : ∀ a ∈ db.routineTasks.rows, db.tasks.has a.taskId
  practiceSessionUser : ∀ a ∈ db.practiceSessions.rows, db.users.has a.userId
  practiceSessionRoutine : ∀ a ∈ db.practiceSessions.rows, ∀ r ∈ a.routineId, db.routines.has r
  sessionTaskSession : ∀ a ∈ db.practiceSessionTasks.rows,
    db.practiceSessions.has a.practiceSessionId
  sessionTaskTask : ∀ a ∈ db.practiceSessionTasks.rows, db.tasks.has a.taskId
  recordingUser : ∀ a ∈ db.recordings.rows, db.users.has a.userId
  recordingSession : ∀ a ∈ db.recordings.rows, db.practiceSessions.has a.practiceSessionId

end Db

/-- A set of rows, by table and key. -/
structure RowSet where
  users : List Uuid := []
  tasks : List Uuid := []
  routines : List Uuid := []
  routineTasks : List (Uuid × Uuid) := []
  practiceSessions : List Uuid := []
  practiceSessionTasks : List (Uuid × Uuid) := []
  recordings : List Uuid := []
deriving DecidableEq

namespace RowSet

def union (a b : RowSet) : RowSet where
  users := a.users ++ b.users
  tasks := a.tasks ++ b.tasks
  routines := a.routines ++ b.routines
  routineTasks := a.routineTasks ++ b.routineTasks
  practiceSessions := a.practiceSessions ++ b.practiceSessions
  practiceSessionTasks := a.practiceSessionTasks ++ b.practiceSessionTasks
  recordings := a.recordings ++ b.recordings

def meets (a b : RowSet) : Bool :=
  a.users.any (· ∈ b.users) || a.tasks.any (· ∈ b.tasks) || a.routines.any (· ∈ b.routines) ||
    a.routineTasks.any (· ∈ b.routineTasks) ||
    a.practiceSessions.any (· ∈ b.practiceSessions) ||
    a.practiceSessionTasks.any (· ∈ b.practiceSessionTasks) ||
    a.recordings.any (· ∈ b.recordings)

end RowSet

namespace Db

/-- The tables once these rows are deleted: the sessions and accounts of a deleted user go
with it (CASCADE), a practice session forgets a deleted routine (SET NULL). -/
def without (gone : RowSet) (db : Db) : Db where
  users := db.users.deleteWhere (·.id ∈ gone.users)
  sessions := db.sessions.deleteWhere (·.userId ∈ gone.users)
  accounts := db.accounts.deleteWhere (·.userId ∈ gone.users)
  tasks := db.tasks.deleteWhere (·.id ∈ gone.tasks)
  routines := db.routines.deleteWhere (·.id ∈ gone.routines)
  routineTasks := db.routineTasks.deleteWhere (·.key ∈ gone.routineTasks)
  practiceSessions := (db.practiceSessions.deleteWhere (·.id ∈ gone.practiceSessions)).updateWhere
    (fun a => a.routineId.any (· ∈ gone.routines)) (fun a => { a with routineId := none })
    fun _ => rfl
  practiceSessionTasks := db.practiceSessionTasks.deleteWhere (·.key ∈ gone.practiceSessionTasks)
  recordings := db.recordings.deleteWhere (·.id ∈ gone.recordings)

/-- Some row still has a RESTRICT reference to one of these rows. -/
def references (gone : RowSet) (db : Db) : Bool :=
  db.tasks.rows.any (fun a => a.ownerId.any (· ∈ gone.users)) ||
    db.routines.rows.any (·.userId ∈ gone.users) ||
    db.practiceSessions.rows.any (·.userId ∈ gone.users) ||
    db.recordings.rows.any (·.userId ∈ gone.users) ||
    db.routineTasks.rows.any (fun a => a.routineId ∈ gone.routines || a.taskId ∈ gone.tasks) ||
    db.practiceSessionTasks.rows.any (fun a =>
      a.practiceSessionId ∈ gone.practiceSessions || a.taskId ∈ gone.tasks) ||
    db.recordings.rows.any (·.practiceSessionId ∈ gone.practiceSessions)

/-- Delete rows, or refuse because a row that would stay references one of them. -/
def delete (gone : RowSet) (db : Db) : Except Failure Db :=
  if (db.without gone).references gone then .error .restrictViolation else .ok (db.without gone)

/-- A session without the routines that go. -/
def forget (gone : RowSet) (a : PracticeSession) : PracticeSession :=
  { a with routineId := a.routineId.filter (· ∉ gone.routines) }

theorem rows_without_practiceSessions (gone : RowSet) (db : Db) :
    (db.without gone).practiceSessions.rows =
      (db.practiceSessions.rows.filter (·.id ∉ gone.practiceSessions)).map (forget gone) := by
  simp only [without, Table.rows_updateWhere, Table.rows_deleteWhere, ← decide_not]
  refine List.map_congr_left fun a _ => ?_
  obtain ⟨id, userId, routineId, title, notes, createdAt, updatedAt⟩ := a
  cases routineId with
  | none => simp [forget]
  | some r => by_cases hr : r ∈ gone.routines <;> simp [forget, Option.filter, hr]

theorem delete_ok {gone : RowSet} {db db' : Db} (h : db.delete gone = .ok db') :
    db' = db.without gone ∧ (db.without gone).references gone = false := by
  unfold delete at h
  split at h
  · cases h
  · next free => exact ⟨(Except.ok.inj h).symm, by simpa using free⟩

theorem recordings_of_delete {gone : RowSet} {db db' : Db}
    (h : db.delete gone = .ok db') (none : gone.recordings = []) :
    db'.recordings = db.recordings := by
  rw [(delete_ok h).1]
  simp [without, none]

theorem tasks_of_delete {gone : RowSet} {db db' : Db} (h : db.delete gone = .ok db')
    (none : gone.tasks = []) : db'.tasks = db.tasks := by
  rw [(delete_ok h).1]
  simp [without, none]

theorem users_of_delete {gone : RowSet} {db db' : Db} (h : db.delete gone = .ok db')
    (none : gone.users = []) : db'.users = db.users := by
  rw [(delete_ok h).1]
  simp [without, none]

end Db

/-- PostgreSQL reads the texts of a statement before it runs it. -/
def withTexts {α : Type} (texts : List String) (statement : Except Failure α) :
    Except Failure α :=
  if texts.all fitsText then statement else .error .invalidText

section WithTexts

variable {α β : Type} {texts : List String} {statement : Except Failure α} {a : α} {e : Failure}

theorem withTexts_of_fits (fits : texts.all fitsText = true) :
    withTexts texts statement = statement := if_pos fits

theorem withTexts_of_not_fits (unfit : texts.all fitsText = false) :
    withTexts texts statement = .error .invalidText := if_neg (by rw [unfit]; decide)

theorem withTexts_eq_ok :
    withTexts texts statement = .ok a ↔ texts.all fitsText = true ∧ statement = .ok a := by
  cases fits : texts.all fitsText with
  | true => simp [withTexts_of_fits fits]
  | false => simp [withTexts_of_not_fits fits]

theorem withTexts_eq_error (h : withTexts texts statement = .error e) :
    (texts.all fitsText = false ∧ e = .invalidText) ∨ statement = .error e := by
  cases fits : texts.all fitsText with
  | true => exact .inr (by rwa [withTexts_of_fits fits] at h)
  | false =>
    rw [withTexts_of_not_fits fits] at h
    exact .inl ⟨rfl, (Except.error.inj h).symm⟩

theorem map_withTexts (f : α → β) :
    (withTexts texts statement).map f = withTexts texts (statement.map f) := by
  cases fits : texts.all fitsText with
  | true => rw [withTexts_of_fits fits, withTexts_of_fits fits]
  | false =>
    rw [withTexts_of_not_fits fits, withTexts_of_not_fits fits]
    rfl

end WithTexts

/-- What a sequence of checks and updates that succeeds has gone through. -/
theorem bind_eq_ok {ε α β : Type} {x : Except ε α} {f : α → Except ε β} {b : β}
    (h : (x >>= f) = .ok b) : ∃ a, x = .ok a ∧ f a = .ok b := by
  cases x with
  | error e => cases h
  | ok a => exact ⟨a, rfl, h⟩

/-- What each step of a checked loop keeps, a loop that succeeds has kept. -/
theorem foldlM_keeps {ε α β : Type} {f : β → α → Except ε β} {R : β → β → Prop}
    (refl : ∀ b, R b b) (trans : ∀ {a b c}, R a b → R b c → R a c) {l : List α}
    (step : ∀ a ∈ l, ∀ b b', f b a = .ok b' → R b b') {b b' : β}
    (h : l.foldlM f b = .ok b') : R b b' := by
  induction l generalizing b with
  | nil =>
    cases h
    exact refl _
  | cons a l ih =>
    obtain ⟨c, hc, h⟩ := bind_eq_ok h
    exact trans (step a List.mem_cons_self b c hc)
      (ih (fun x hx => step x (List.mem_cons_of_mem a hx)) h)

end GuitarCoach
