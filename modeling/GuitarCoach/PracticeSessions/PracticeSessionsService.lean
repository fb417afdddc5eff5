/- digest: PracticeSessionsService: logged sessions, their tasks and statistics. -/

import GuitarCoach.Routines.RoutinesService

set_option autoImplicit false
set_option relaxedAutoImplicit false

namespace GuitarCoach

open Async (Method)
open Relational (Table orderBy window totalPages)

structure CreatePracticeSessionTaskDto where
  taskId : String
  durationMinutes : Field Int
  completed : Field Bool

structure CreatePracticeSessionDto where
  title : Field String
  notes : Field String
  routineId : Field String
  tasks : Field (List CreatePracticeSessionTaskDto)

structure FindPracticeSessionsQueryDto where
  page : Option Nat
  limit : Option Nat
  pageMin : ∀ p ∈ page, 1 ≤ p := by simp
  limitRange : ∀ l ∈ limit, 1 ≤ l ∧ l ≤ 100 := by simp

/-- `select: { id: true, title: true }`. -/
structure TitleSummary where
  id : Uuid
  title : String
deriving DecidableEq

structure SessionTaskWithTask where
  sessionTask : PracticeSessionTask
  task : TitleSummary
deriving DecidableEq

structure PracticeSessionResponseDto where
  session : PracticeSession
  sessionTasks : List SessionTaskWithTask
deriving DecidableEq

/-- A session with its `RECENT_INCLUDE`. -/
structure RecentSession where
  session : PracticeSession
  routine : Option TitleSummary
  sessionTasks : List SessionTaskWithTask
deriving DecidableEq

structure TaskStat where
  taskId : Uuid
  title : String
  timesPracticedRecently : Nat
  totalMinutesPracticedRecently : Int
  lastPracticedAt : Option Instant
  timesPracticedAllTime : Nat
deriving DecidableEq

def newestSessionFirst (a b : PracticeSession) : Bool := b.createdAt ≤ a.createdAt

def newestSessionTaskFirst (a b : PracticeSessionTask) : Bool := b.createdAt ≤ a.createdAt

/-- The columns of a new session, once Prisma has accepted the call. -/
def CreatePracticeSessionDto.row (dto : CreatePracticeSessionDto) (userId : Uuid) (i : Input) :
    PracticeSession where
  id := i.uuid 0
  userId := userId
  routineId := dto.routineId.toOption.map Uuid.ofText
  title := dto.title.toOption
  notes := dto.notes.toOption
  createdAt := i.now
  updatedAt := i.now

def CreatePracticeSessionTaskDto.row (dto : CreatePracticeSessionTaskDto) (sessionId : Uuid)
    (i : Input) : PracticeSessionTask where
  practiceSessionId := sessionId
  taskId := .ofText dto.taskId
  durationMinutes := dto.durationMinutes.toOption
  completed := dto.completed.toOption.getD false
  createdAt := i.now
  updatedAt := i.now

namespace Db

def insertPracticeSession (a : PracticeSession) (db : Db) : Except Failure Db :=
  withTexts a.texts <|
    match db.practiceSessions.insert a with
    | none => .error (.prisma .P2002)
    | some practiceSessions =>
      if db.users.has a.userId && a.routineId.all db.routines.has then
        .ok { db with practiceSessions }
      else .error (.prisma .P2003)

theorem insertPracticeSession_ok {a : PracticeSession} {db db' : Db}
    (h : db.insertPracticeSession a = .ok db') :
    ∃ practiceSessions, db' = { db with practiceSessions } ∧
      practiceSessions.rows = db.practiceSessions.rows ++ [a] ∧
      a.id ∉ db.practiceSessions.rows.map PracticeSession.id ∧ db.users.has a.userId ∧
      ∀ r ∈ a.routineId, db.routines.has r := by
  obtain ⟨-, h⟩ := withTexts_eq_ok.mp h
  split at h
  · cases h
  · next practiceSessions inserted =>
    obtain ⟨fresh, rows⟩ := Table.insert_eq_some.mp inserted
    split at h
    · next keys =>
      rw [Bool.and_eq_true] at keys
      exact ⟨practiceSessions, (Except.ok.inj h).symm, rows, fresh, keys.1,
        by simpa [Option.all_eq_true] using keys.2⟩
    · cases h

def insertPracticeSessionTask (a : PracticeSessionTask) (db : Db) : Except Failure Db :=
  match db.practiceSessionTasks.insert a with
  | none => .error (.prisma .P2002)
  | some practiceSessionTasks =>
    if db.practiceSessions.has a.practiceSessionId && db.tasks.has a.taskId then
      .ok { db with practiceSessionTasks }
    else .error (.prisma .P2003)

theorem insertPracticeSessionTask_ok {a : PracticeSessionTask} {db db' : Db}
    (h : db.insertPracticeSessionTask a = .ok db') :
    ∃ practiceSessionTasks, db' = { db with practiceSessionTasks } ∧
      practiceSessionTasks.rows = db.practiceSessionTasks.rows ++ [a] ∧
      a.key ∉ db.practiceSessionTasks.rows.map PracticeSessionTask.key ∧
      db.practiceSessions.has a.practiceSessionId ∧ db.tasks.has a.taskId := by
  unfold insertPracticeSessionTask at h
  split at h
  · cases h
  · next practiceSessionTasks inserted =>
    obtain ⟨fresh, rows⟩ := Table.insert_eq_some.mp inserted
    split at h
    · next keys =>
      rw [Bool.and_eq_true] at keys
      exact ⟨practiceSessionTasks, (Except.ok.inj h).symm, rows, fresh, keys.1, keys.2⟩
    · cases h

/-- `include` of the tasks of a session, each with its title. -/
def sessionTasksOf (db : Db) (rank : Nat → Nat) (sessionId : Uuid) : List SessionTaskWithTask :=
  (orderBy rank (fun _ _ => true)
    (db.practiceSessionTasks.rows.filter (·.practiceSessionId = sessionId))).filterMap fun a =>
      (db.tasks.find a.taskId).map fun task => ⟨a, task.id, task.title⟩

def withSessionTasks (db : Db) (rank : Nat → Nat) (a : PracticeSession) :
    PracticeSessionResponseDto :=
  ⟨a, db.sessionTasksOf rank a.id⟩

/-- `where: { practiceSession: { userId } }`. -/
def inSessionOf (db : Db) (userId : Uuid) (sessionId : Uuid) : Bool :=
  db.practiceSessions.rows.any fun a => a.id = sessionId && a.userId = userId

end Db

namespace PracticeSessionsService

open Promise

def defaultPage : Nat := 1
def defaultLimit : Nat := 20

def sessionNotFound (id : String) : Failure :=
  notFound ("Practice session with id \"" ++ id ++ "\" not found")

def tasksNotFound : Failure := notFound "One or more tasks were not found"

/-- `practiceSession.create` with its nested rows, all or none of them. -/
def createRows (userId : Uuid) (dto : CreatePracticeSessionDto) (i : Input) (db : Db) :
    Except Failure (PracticeSessionResponseDto × Db) := do
  let tasks := dto.tasks.toOption.getD []
  let session := dto.row userId i
  if tasks.any (·.completed = .null) then throw .invalidInvocation
  if tasks.any fun a => a.durationMinutes.toOption.any fun n => !fitsInt4 n then
    throw .valueOutOfRange
  let db ← db.insertPracticeSession session
  let db ← tasks.foldlM (fun db a => db.insertPracticeSessionTask (a.row session.id i)) db
  return (db.withSessionTasks i.rank session, db)

def create (userId : Uuid) (dto : CreatePracticeSessionDto) :
    Promise PracticeSessionResponseDto := do
  -- a routine of another user reads as missing
  match dto.routineId with
  | .value routineId => let _ ← RoutinesService.findById userId routineId
  | _ => pure ()
  let taskIds := (dto.tasks.toOption.getD []).map (·.taskId)
  if taskIds ≠ [] then RoutinesService.assertTasksVisible userId taskIds
  tryCatch
    (write .practiceSession .create
      (fun _ => {
        users := [userId]
        routines := (dto.routineId.toOption.map Uuid.ofText).toList
        tasks := taskIds.map Uuid.ofText })
      (createRows userId dto))
    fun
      | .prisma .P2003 => throw tasksNotFound
      | e => throw e

def findPage (userId : Uuid) (page limit : Nat) (rank : Nat → Nat) (db : Db) :
    List PracticeSession :=
  window (skipOf page limit) limit
    (orderBy rank newestSessionFirst (db.practiceSessions.rows.filter (·.userId = userId)))

def findAll (userId : Uuid) (query : FindPracticeSessionsQueryDto) :
    Promise (Paginated PracticeSessionResponseDto) := do
  let page := query.page.getD defaultPage
  let limit := query.limit.getD defaultLimit
  let (data, total) ← Method.par
    (read .practiceSession .findMany fun i db =>
      withSkip page limit ((findPage userId page limit i.rank db).map (db.withSessionTasks i.rank)))
    (read .practiceSession .count fun _ db =>
      .ok (db.practiceSessions.rows.filter (·.userId = userId)).length)
  return ⟨data, ⟨total, page, limit, totalPages total limit⟩⟩

/-- `where: { id, userId }`. -/
def owned (userId : Uuid) (id : String) (a : PracticeSession) : Bool :=
  a.id = Uuid.ofText id && a.userId = userId

def findById (userId : Uuid) (id : String) : Promise PracticeSessionResponseDto := do
  let session ← read .practiceSession .findFirst fun i db =>
    .ok ((db.practiceSessions.rows.find? (owned userId id)).map (db.withSessionTasks i.rank))
  match session with
  | some session => return session
  | none => throw (sessionNotFound id)

/-- `where: { userId, title }`. -/
def titled (userId : Uuid) (title : String) (db : Db) : List Uuid :=
  (db.practiceSessions.rows.filter fun a => a.userId = userId && a.title = some title).map (·.id)

/-- The rows of `where: { practiceSession: { userId, title } }`, and the sessions. -/
def titledRecordings (userId : Uuid) (title : String) (db : Db) : RowSet :=
  { recordings := (db.recordings.rows.filter fun a =>
      a.practiceSessionId ∈ titled userId title db).map (·.id) }

def titledSessionTasks (userId : Uuid) (title : String) (db : Db) : RowSet :=
  { practiceSessionTasks := (db.practiceSessionTasks.rows.filter fun a =>
      a.practiceSessionId ∈ titled userId title db).map (·.key) }

def titledSessions (userId : Uuid) (title : String) (db : Db) : RowSet :=
  { practiceSessions := titled userId title db }

/-- The transaction of `deleteByTitle`. -/
def deleteRows (userId : Uuid) (title : String) (db : Db) : Except Failure (Nat × Db) :=
  withTexts [title] do
    let count := (titled userId title db).length
    let db ← db.delete (titledRecordings userId title db)
    let db ← db.delete (titledSessionTasks userId title db)
    let db ← db.delete (titledSessions userId title db)
    return (count, db)

def deleteByTitle (userId : Uuid) (title : String) : Promise Nat :=
  write .practiceSession .transaction
    (fun db => (titledRecordings userId title db).union
      ((titledSessionTasks userId title db).union (titledSessions userId title db)))
    fun _ db => deleteRows userId title db

def findRecent (userId : Uuid) (days : Nat) : Promise (List RecentSession) :=
  read .practiceSession .findMany fun i db =>
    let recent := db.practiceSessions.rows.filter fun a =>
      a.userId = userId && daysBefore i.now days ≤ a.createdAt
    .ok ((orderBy i.rank newestSessionFirst recent).map fun a =>
      ⟨a, (a.routineId.bind db.routines.find).map fun r => ⟨r.id, r.title⟩,
        db.sessionTasksOf i.rank a.id⟩)

/-- One round of the loop of `getTaskStats`: `stat` of the row's task, counted up. -/
def TaskStat.count (cutoff : Instant) (row : PracticeSessionTask) (stat : TaskStat) : TaskStat :=
  let stat := { stat with
    timesPracticedAllTime := stat.timesPracticedAllTime + 1
    lastPracticedAt := stat.lastPracticedAt.or (some row.createdAt) }
  if cutoff ≤ row.createdAt then
    { stat with
      timesPracticedRecently := stat.timesPracticedRecently + 1
      totalMinutesPracticedRecently :=
        stat.totalMinutesPracticedRecently + row.durationMinutes.getD 0 }
  else stat

/-- The map `byTask`, in the order of insertion. -/
def tally (cutoff : Instant) (byTask : List TaskStat) (row : SessionTaskWithTask) :
    List TaskStat :=
  if byTask.any (·.taskId = row.sessionTask.taskId) then
    byTask.map fun stat =>
      if stat.taskId = row.sessionTask.taskId then TaskStat.count cutoff row.sessionTask stat
      else stat
  else
    byTask ++ [TaskStat.count cutoff row.sessionTask
      ⟨row.sessionTask.taskId, row.task.title, 0, 0, none, 0⟩]

def getTaskStats (userId : Uuid) (days : Nat) : Promise (List TaskStat) :=
  read .practiceSessionTask .findMany fun i db =>
    let rows := orderBy i.rank newestSessionTaskFirst
      (db.practiceSessionTasks.rows.filter fun a => db.inSessionOf userId a.practiceSessionId)
    let rows := rows.filterMap fun a =>
      (db.tasks.find a.taskId).map fun task => (⟨a, task.id, task.title⟩ : SessionTaskWithTask)
    .ok (rows.foldl (tally (daysBefore i.now days)) [])

end PracticeSessionsService

end GuitarCoach
