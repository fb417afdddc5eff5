/- digest: RoutinesService: routines, the tasks linked to them and their order. -/

import GuitarCoach.Tasks.TasksService

set_option autoImplicit false
set_option relaxedAutoImplicit false

namespace GuitarCoach

open Async (Method)
open Relational (Table orderBy window totalPages)

structure CreateRoutineDto where
  title : String
  status : Field RoutineStatus
  notes : Field String

/-- `PartialType(CreateRoutineDto)`. -/
structure UpdateRoutineDto where
  title : Field String
  status : Field RoutineStatus
  notes : Field String

structure FindRoutinesQueryDto where
  page : Option Nat
  limit : Option Nat
  status : Option RoutineStatus
  pageMin : ∀ p ∈ page, 1 ≤ p := by simp
  limitRange : ∀ l ∈ limit, 1 ≤ l ∧ l ≤ 100 := by simp

structure AddRoutineTaskDto where
  taskId : String
  position : Field Int
  targetDurationMinutes : Field Int

structure UpdateRoutineTaskDto where
  position : Field Int
  targetDurationMinutes : Field Int

/-- A routine with the two figures its card shows. -/
structure RoutineResponseDto where
  routine : Routine
  taskCount : Nat
  totalTargetDurationMinutes : Int
deriving DecidableEq

structure RoutineTaskWithTask where
  routineTask : RoutineTask
  task : Task
deriving DecidableEq

structure RoutineWithTasks where
  routine : Routine
  routineTasks : List RoutineTaskWithTask
deriving DecidableEq

/-- The integers an `int4` column holds. -/
def fitsInt4 (n : Int) : Bool := -2147483648 ≤ n && n ≤ 2147483647

def newestRoutineFirst (a b : Routine) : Bool := b.createdAt ≤ a.createdAt

/-- `orderBy: { position: 'asc' }`. -/
def byPosition (a b : RoutineTask) : Bool := a.position ≤ b.position

/-- `orderBy: { position: 'desc' }`. -/
def lastPositionFirst (a b : RoutineTask) : Bool := b.position ≤ a.position

namespace Db

def insertRoutine (a : Routine) (db : Db) : Except Failure Db :=
  withTexts a.texts <|
    match db.routines.insert a with
    | none => .error (.prisma .P2002)
    | some routines =>
      if db.users.has a.userId then .ok { db with routines } else .error (.prisma .P2003)

theorem insertRoutine_ok {a : Routine} {db db' : Db} (h : db.insertRoutine a = .ok db') :
    ∃ routines, db' = { db with routines } ∧ routines.rows = db.routines.rows ++ [a] ∧
      a.id ∉ db.routines.rows.map Routine.id ∧ db.users.has a.userId := by
  obtain ⟨-, h⟩ := withTexts_eq_ok.mp h
  split at h
  · cases h
  · next routines inserted =>
    obtain ⟨fresh, rows⟩ := Table.insert_eq_some.mp inserted
    split at h
    · next user => exact ⟨routines, (Except.ok.inj h).symm, rows, fresh, user⟩
    · cases h

/-- The primary key and `unique(routineId, position)` first, then the foreign keys. -/
def insertRoutineTask (a : RoutineTask) (db : Db) : Except Failure Db :=
  if db.routineTasks.rows.any fun b => b.routineId = a.routineId && b.position = a.position then
    .error (.prisma .P2002)
  else
    match db.routineTasks.insert a with
    | none => .error (.prisma .P2002)
    | some routineTasks =>
      if db.routines.has a.routineId && db.tasks.has a.taskId then .ok { db with routineTasks }
      else .error (.prisma .P2003)

theorem insertRoutineTask_ok {a : RoutineTask} {db db' : Db}
    (h : db.insertRoutineTask a = .ok db') :
    ∃ routineTasks, db' = { db with routineTasks } ∧
      routineTasks.rows = db.routineTasks.rows ++ [a] ∧
      a.key ∉ db.routineTasks.rows.map RoutineTask.key ∧
      db.routines.has a.routineId ∧ db.tasks.has a.taskId := by
  unfold insertRoutineTask at h
  split at h
  · cases h
  · split at h
    · cases h
    · next routineTasks inserted =>
      obtain ⟨fresh, rows⟩ := Table.insert_eq_some.mp inserted
      split at h
      · next keys =>
        rw [Bool.and_eq_true] at keys
        exact ⟨routineTasks, (Except.ok.inj h).symm, rows, fresh, keys.1, keys.2⟩
      · cases h

/-- The routine tasks of a routine. -/
def tasksOfRoutine (routineId : Uuid) (db : Db) : List RoutineTask :=
  db.routineTasks.rows.filter (·.routineId = routineId)

/-- `include: { task: true }`. -/
def withTask (db : Db) (rows : List RoutineTask) : List RoutineTaskWithTask :=
  rows.filterMap fun a => (db.tasks.find a.taskId).map fun task => ⟨a, task⟩

end Db

/-- `toRoutineResponse`, with the `ROUTINE_TASK_TOTALS` it is given. -/
def toRoutineResponse (db : Db) (routine : Routine) : RoutineResponseDto where
  routine := routine
  taskCount := (db.tasksOfRoutine routine.id).length
  totalTargetDurationMinutes :=
    ((db.tasksOfRoutine routine.id).map fun a => a.targetDurationMinutes.getD 0).sum

def CreateRoutineDto.row (dto : CreateRoutineDto) (userId : Uuid) (i : Input) :
    Except Failure Routine :=
  match dto.status with
  | .null => .error .invalidInvocation
  | .absent => .ok ⟨i.uuid 0, userId, dto.title, .active, dto.notes.toOption, i.now, i.now⟩
  | .value status => .ok ⟨i.uuid 0, userId, dto.title, status, dto.notes.toOption, i.now, i.now⟩

/-- Prisma refuses `null` for the two required columns. -/
def UpdateRoutineDto.valid (dto : UpdateRoutineDto) : Bool :=
  dto.title ≠ .null && dto.status ≠ .null

/-- The texts of the columns that an update sets. -/
def UpdateRoutineDto.texts (dto : UpdateRoutineDto) : List String :=
  dto.title.toOption.toList ++ dto.notes.toOption.toList

def UpdateRoutineDto.apply (dto : UpdateRoutineDto) (now : Instant) (a : Routine) : Routine :=
  { a with
    title := (dto.title.update (some a.title)).getD a.title
    status := (dto.status.update (some a.status)).getD a.status
    notes := dto.notes.update a.notes
    updatedAt := now }

def UpdateRoutineTaskDto.apply (dto : UpdateRoutineTaskDto) (now : Instant) (a : RoutineTask) :
    RoutineTask :=
  { a with
    position := (dto.position.update (some a.position)).getD a.position
    targetDurationMinutes := dto.targetDurationMinutes.update a.targetDurationMinutes
    updatedAt := now }

namespace RoutinesService

open Promise

def defaultPage : Nat := 1
def defaultLimit : Nat := 20

def routineNotFound (id : String) : Failure :=
  notFound ("Routine with id \"" ++ id ++ "\" not found")

/-- Publishing the event neither fails the request nor touches the shared state. -/
def create (userId : Uuid) (dto : CreateRoutineDto) : Promise RoutineResponseDto := do
  let routine ← write .routine .create (fun _ => { users := [userId] }) fun i db => do
    let row ← dto.row userId i
    let db ← db.insertRoutine row
    return (row, db)
  return ⟨routine, 0, 0⟩

/-- The `where` of `findAll`. -/
def selects (userId : Uuid) (query : FindRoutinesQueryDto) (a : Routine) : Bool :=
  a.userId = userId && query.status.all (a.status = ·)

def findPage (userId : Uuid) (query : FindRoutinesQueryDto) (page limit : Nat)
    (rank : Nat → Nat) (db : Db) : List Routine :=
  window (skipOf page limit) limit
    (orderBy rank newestRoutineFirst (db.routines.rows.filter (selects userId query)))

def findAll (userId : Uuid) (query : FindRoutinesQueryDto) :
    Promise (Paginated RoutineResponseDto) := do
  let page := query.page.getD defaultPage
  let limit := query.limit.getD defaultLimit
  let (data, total) ← Method.par
    (read .routine .findMany fun i db =>
      withSkip page limit
        ((findPage userId query page limit i.rank db).map (toRoutineResponse db)))
    (read .routine .count fun _ db =>
      .ok (db.routines.rows.filter (selects userId query)).length)
  return ⟨data, ⟨total, page, limit, totalPages total limit⟩⟩

/-- `where: { id, userId }`. -/
def owned (userId : Uuid) (id : String) (a : Routine) : Bool :=
  a.id = Uuid.ofText id && a.userId = userId

def findById (userId : Uuid) (id : String) : Promise RoutineResponseDto := do
  let routine ← read .routine .findFirst fun _ db =>
    .ok ((db.routines.rows.find? (owned userId id)).map (toRoutineResponse db))
  match routine with
  | some routine => return routine
  | none => throw (routineNotFound id)

def findRecent (userId : Uuid) (days : Nat) : Promise (List RoutineWithTasks) :=
  read .routine .findMany fun i db =>
    let recent := db.routines.rows.filter fun a =>
      a.userId = userId && daysBefore i.now days ≤ a.createdAt
    .ok ((orderBy i.rank newestRoutineFirst recent).map fun a =>
      ⟨a, db.withTask (orderBy i.rank byPosition (db.tasksOfRoutine a.id))⟩)

def update (userId : Uuid) (id : String) (dto : UpdateRoutineDto) :
    Promise RoutineResponseDto := do
  let count ← write .routine .updateMany (fun _ => { routines := [.ofText id] }) fun i db =>
    if dto.valid then
      withTexts dto.texts <|
        .ok ((db.routines.rows.filter (owned userId id)).length,
          { db with
            routines := db.routines.updateWhere (owned userId id) (dto.apply i.now) fun _ => rfl })
    else .error .invalidInvocation
  if count = 0 then throw (routineNotFound id)
  read .routine .findUniqueOrThrow fun _ db =>
    match db.routines.find (Uuid.ofText id) with
    | some routine => .ok (toRoutineResponse db routine)
    | none => .error (.prisma .P2025)

def hasTasks (id : String) : Failure :=
  conflict ("Routine with id \"" ++ id ++ "\" has tasks assigned and cannot be deleted")

/-- The transaction of `remove`. -/
def removeRow (userId : Uuid) (id : String) (db : Db) : Except Failure Db :=
  if db.routineTasks.rows.any (·.routineId = Uuid.ofText id) then
    .error (if db.routines.rows.any (owned userId id) then hasTasks id else routineNotFound id)
  else if db.routines.rows.any (owned userId id) then db.delete { routines := [.ofText id] }
  else .error (routineNotFound id)

def remove (userId : Uuid) (id : String) : Promise Unit :=
  tryCatch
    (write .routine .transaction (fun _ => { routines := [.ofText id] }) fun _ db => do
      let db ← removeRow userId id db
      return ((), db))
    fun
      | .prisma .P2003 => throw (hasTasks id)
      | e => throw e

def findTasks (userId : Uuid) (routineId : String) : Promise (List RoutineTaskWithTask) := do
  let _ ← findById userId routineId
  read .routineTask .findMany fun i db =>
    .ok (db.withTask (orderBy i.rank byPosition (db.tasksOfRoutine (.ofText routineId))))

/-- Another user's private task reads as missing. -/
def assertTasksVisible (userId : Uuid) (taskIds : List String) : Promise Unit := do
  let unique := taskIds.dedup
  let visible ← read .task .count fun _ db =>
    .ok (db.tasks.rows.filter fun a =>
      a.id ∈ unique.map Uuid.ofText && visibleTo userId a).length
  if visible ≠ unique.length then throw (notFound "One or more tasks were not found")

def nextPosition (routineId : String) : Promise Int := do
  let last ← read .routineTask .findFirst fun i db =>
    .ok (orderBy i.rank lastPositionFirst (db.tasksOfRoutine (.ofText routineId))).head?
  return (last.elim 0 (·.position)) + 1

/-- `routineTask.create`. -/
def addRow (routineId : String) (dto : AddRoutineTaskDto) (position : Int) (i : Input) (db : Db) :
    Except Failure (RoutineTask × Db) := do
  let row : RoutineTask :=
    ⟨.ofText routineId, .ofText dto.taskId, position, dto.targetDurationMinutes.toOption,
      i.now, i.now⟩
  if fitsInt4 position && row.targetDurationMinutes.all fitsInt4 then
    let db ← db.insertRoutineTask row
    return (row, db)
  else throw .valueOutOfRange

def addTask (userId : Uuid) (routineId : String) (dto : AddRoutineTaskDto) :
    Promise RoutineTask := do
  let _ ← findById userId routineId
  assertTasksVisible userId [dto.taskId]
  let position ← match dto.position with
    | .value position => pure position
    | _ => nextPosition routineId
  tryCatch
    (write .routineTask .create
      (fun _ => { routines := [.ofText routineId], tasks := [.ofText dto.taskId] })
      (addRow routineId dto position))
    fun
      | .prisma .P2002 =>
        throw (conflict "Task is already assigned to this routine, or its position is taken")
      | .prisma .P2003 => throw (TasksService.taskNotFound dto.taskId)
      | e => throw e

/-- `routineTask.update` by the primary key; positions are checked statement by statement. -/
def updateRow (routineId taskId : String) (dto : UpdateRoutineTaskDto) (i : Input) (db : Db) :
    Except Failure (RoutineTask × Db) :=
  if dto.position = .null then .error .invalidInvocation
  else if (dto.position.toOption.all fitsInt4 && dto.targetDurationMinutes.toOption.all fitsInt4)
      = false then .error .valueOutOfRange
  else
    match db.routineTasks.find (.ofText routineId, .ofText taskId) with
    | none => .error (.prisma .P2025)
    | some row =>
      let row' := dto.apply i.now row
      if db.routineTasks.rows.any fun b =>
          b.key ≠ row.key && b.routineId = row.routineId && b.position = row'.position then
        .error (.prisma .P2002)
      else
        .ok (row', { db with
          routineTasks := db.routineTasks.updateWhere (·.key = row.key) (dto.apply i.now)
            fun _ => rfl })

def notAssigned (routineId taskId : String) : Failure :=
  notFound ("Task \"" ++ taskId ++ "\" is not assigned to routine \"" ++ routineId ++ "\"")

def updateTask (userId : Uuid) (routineId taskId : String) (dto : UpdateRoutineTaskDto) :
    Promise RoutineTask := do
  let _ ← findById userId routineId
  tryCatch
    (write .routineTask .update
      (fun _ => { routineTasks := [(.ofText routineId, .ofText taskId)] })
      (updateRow routineId taskId dto))
    fun
      | .prisma .P2025 => throw (notAssigned routineId taskId)
      | .prisma .P2002 =>
        throw (conflict "Another task in this routine already has that position")
      | e => throw e

/-- `routineTask.delete`. -/
def removeTaskRow (routineId taskId : String) (db : Db) : Except Failure Db :=
  let key := (Uuid.ofText routineId, Uuid.ofText taskId)
  if db.routineTasks.has key then db.delete { routineTasks := [key] }
  else .error (.prisma .P2025)

def removeTask (userId : Uuid) (routineId taskId : String) : Promise Unit := do
  let _ ← findById userId routineId
  tryCatch
    (write .routineTask .delete
      (fun _ => { routineTasks := [(.ofText routineId, .ofText taskId)] }) fun _ db => do
        let db ← removeTaskRow routineId taskId db
        return ((), db))
    fun
      | .prisma .P2025 => throw (notAssigned routineId taskId)
      | e => throw e

def reorderLockTtlMs : Nat := 5000

def reorderLockKey (routineId : String) : String := "lock:routine:" ++ routineId ++ ":reorder"

/-- `isSameSet`; the rows give the ids in their stored spelling. -/
def isSameSet (taskIds : List String) (existing : List RoutineTask) : Bool :=
  taskIds.length = existing.length && taskIds.dedup.length = taskIds.length &&
    taskIds.all (· ∈ existing.map (·.taskId.text))

/-- The position updates of a reorder: all to negative placeholders, then to their places. -/
def reorderUpdates (taskIds : List String) : List (String × Int) :=
  (taskIds.mapIdx fun index taskId => (taskId, -(index + 1 : Int))) ++
    taskIds.mapIdx fun index taskId => (taskId, (index + 1 : Int))

/-- The transaction of `reorderTasks`. -/
def reorderRows (routineId : String) (taskIds : List String) (i : Input) (db : Db) :
    Except Failure Db :=
  (reorderUpdates taskIds).foldlM
    (fun db (taskId, position) => do
      let (_, db) ← updateRow routineId taskId ⟨.value position, .absent⟩ i db
      return db)
    db

def reorderTasks (userId : Uuid) (routineId : String) (taskIds : List String) :
    Promise (List RoutineTask) := do
  let _ ← findById userId routineId
  let lockKey := reorderLockKey routineId
  let lockToken ← tryCatch (acquireLock lockKey reorderLockTtlMs) fun _ =>
    throw (serviceUnavailable "Reordering is temporarily unavailable")
  match lockToken with
  | none => throw (conflict "Another reorder is already in progress for this routine")
  | some lockToken =>
    withCleanup
      (do
        let existing ← read .routineTask .findMany fun i db =>
          .ok (orderBy i.rank (fun _ _ => true) (db.tasksOfRoutine (.ofText routineId)))
        if isSameSet taskIds existing then
          write .routineTask .transaction
            (fun db => { routineTasks := (db.tasksOfRoutine (.ofText routineId)).map (·.key) })
            fun i db => do
              let db ← reorderRows routineId taskIds i db
              return ((), db)
          read .routineTask .findMany fun i db =>
            .ok (orderBy i.rank byPosition (db.tasksOfRoutine (.ofText routineId)))
        else
          throw (badRequest ("taskIds must include every task currently assigned to this " ++
            "routine exactly once")))
      (tryCatch (releaseLock lockKey lockToken) fun _ => return ())

end RoutinesService

end GuitarCoach
