/- digest: TasksService: the shared library, private tasks and the two caches over them. -/

import GuitarCoach.Relational.Paging
import GuitarCoach.Store.World

set_option autoImplicit false
set_option relaxedAutoImplicit false

namespace GuitarCoach

open Async (Method)
open Relational (Table orderBy window totalPages)

structure CreateTaskDto where
  title : String
  category : Field TaskCategory
  difficulty : Field TaskDifficulty
  referenceLink : Field String
  description : Field String

structure UpdateTaskDto where
  title : Option String
  category : Field TaskCategory
  difficulty : Field TaskDifficulty
  referenceLink : Field String
  description : Option String

structure FindTasksQueryDto where
  page : Option Nat
  limit : Option Nat
  category : Option TaskCategory
  difficulty : Option TaskDifficulty
  q : Option String
  pageMin : ∀ p ∈ page, 1 ≤ p := by simp
  limitRange : ∀ l ∈ limit, 1 ≤ l ∧ l ≤ 100 := by simp

/-- The two notions of lower case that a search meets: JavaScript's `toLowerCase` in the
cache key, and the database's under `ILIKE`. -/
structure Letters where
  toLowerCase : String → String
  lower : String → String

/-- SQL `LIKE` with the backslash as escape character. -/
def like : List Char → List Char → Bool
  | [], t => t.isEmpty
  | '%' :: p, t => t.tails.any fun s => like p s
  | '_' :: p, t =>
      match t with
      | [] => false
      | _ :: t => like p t
  | '\\' :: c :: p, t =>
      match t with
      | [] => false
      | d :: t => c == d && like p t
  | c :: p, t =>
      match t with
      | [] => false
      | d :: t => c == d && like p t

def escapeLike (value : String) : String :=
  String.ofList (value.toList.flatMap fun c =>
    if c = '\\' ∨ c = '%' ∨ c = '_' then ['\\', c] else [c])

/-- Prisma's case-insensitive `contains`. -/
def contains (letters : Letters) (search title : String) : Bool :=
  like (letters.lower ("%" ++ search ++ "%")).toList (letters.lower title).toList

def hexDigit (n : Nat) : Char :=
  if n < 10 then Char.ofNat (48 + n) else Char.ofNat (55 + n)

def encodeURIComponent (s : String) : String :=
  String.ofList (s.toList.flatMap fun c =>
    if c.isAlphanum ∨ c ∈ "-_.!~*'()".toList then [c]
    else (String.utf8EncodeChar c).flatMap fun b =>
      ['%', hexDigit (b.toNat / 16), hexDigit (b.toNat % 16)])

/-- `visibleTo(userId)`. -/
def visibleTo (userId : Uuid) (a : Task) : Bool := a.ownerId = none || a.ownerId = some userId

/-- `SHARED_TASKS`. -/
def sharedTask (a : Task) : Bool := a.ownerId = none

/-- `orderBy: { createdAt: 'desc' }`. -/
def newestTaskFirst (a b : Task) : Bool := b.createdAt ≤ a.createdAt

namespace Db

def insertTask (a : Task) (db : Db) : Except Failure Db :=
  withTexts a.texts <|
    match db.tasks.insert a with
    | none => .error (.prisma .P2002)
    | some tasks =>
      if a.ownerId.all db.users.has then .ok { db with tasks } else .error (.prisma .P2003)

theorem insertTask_ok {a : Task} {db db' : Db} (h : db.insertTask a = .ok db') :
    ∃ tasks, db' = { db with tasks } ∧ tasks.rows = db.tasks.rows ++ [a] ∧
      a.id ∉ db.tasks.rows.map Task.id ∧ ∀ u ∈ a.ownerId, db.users.has u := by
  obtain ⟨-, h⟩ := withTexts_eq_ok.mp h
  split at h
  · cases h
  · next tasks inserted =>
    obtain ⟨fresh, rows⟩ := Table.insert_eq_some.mp inserted
    split at h
    · next owner =>
      exact ⟨tasks, (Except.ok.inj h).symm, rows, fresh, by simpa [Option.all_eq_true] using owner⟩
    · cases h

end Db

/-- The row that `task.create` adds for a DTO, as the `n`-th of its transaction. -/
def CreateTaskDto.row (dto : CreateTaskDto) (i : Input) (n : Nat) : Task where
  id := i.uuid n
  title := dto.title
  category := dto.category.toOption
  difficulty := dto.difficulty.toOption
  referenceLink := dto.referenceLink.toOption
  description := dto.description.toOption
  ownerId := none
  createdAt := i.clock n
  updatedAt := i.clock n

/-- The texts of the columns that an update sets. -/
def UpdateTaskDto.texts (dto : UpdateTaskDto) : List String :=
  dto.title.toList ++ (dto.referenceLink.toOption.toList ++ dto.description.toList)

def UpdateTaskDto.apply (dto : UpdateTaskDto) (now : Instant) (a : Task) : Task :=
  { a with
    title := dto.title.getD a.title
    category := dto.category.update a.category
    difficulty := dto.difficulty.update a.difficulty
    referenceLink := dto.referenceLink.update a.referenceLink
    description := dto.description.or a.description
    updatedAt := now }

namespace TasksService

open Promise

def defaultPage : Nat := 1
def defaultLimit : Nat := 20

def taskNotFound (id : String) : Failure := notFound ("Task with id \"" ++ id ++ "\" not found")

/-- A cache that fails reads as a miss. -/
def safeCacheGet (key : CacheKey) : Promise (Option key.Value) :=
  tryCatch (cacheGet key) fun _ => return none

def safeCacheSet (key : CacheKey) (value : key.Value) (expires : Bool) : Promise Unit :=
  tryCatch (cacheSet key value expires) fun _ => return ()

def safeCacheDel (key : CacheKey) : Promise Unit :=
  tryCatch (cacheDel key) fun _ => return ()

def listVersion : Promise Nat := do
  let version ← safeCacheGet .taskListVersion
  return version.getD 0

def bumpListCacheVersion : Promise Unit := do
  let version ← listVersion
  safeCacheSet .taskListVersion (version + 1 : Nat) false

abbrev listCacheKey (letters : Letters) (version page limit : Nat) (query : FindTasksQueryDto) :
    CacheKey :=
  .taskList version page limit query.category query.difficulty
    (query.q.elim "" fun q => encodeURIComponent (letters.toLowerCase q))

def create (dto : CreateTaskDto) : Promise Task := do
  let task ← write .task .create (fun _ => {}) fun i db => do
    let db ← db.insertTask (dto.row i 0)
    return (dto.row i 0, db)
  bumpListCacheVersion
  return task

def createMany (dtos : List CreateTaskDto) : Promise (List Task) := do
  let tasks ← write .task .transaction (fun _ => {}) fun i db => do
    let rows := dtos.mapIdx fun n dto => dto.row i n
    let db ← rows.foldlM (fun db a => db.insertTask a) db
    return (rows, db)
  bumpListCacheVersion
  return tasks

/-- The `where` of `findAll`. -/
def selects (letters : Letters) (query : FindTasksQueryDto) (a : Task) : Bool :=
  sharedTask a && query.category.all (a.category = some ·) &&
    query.difficulty.all (a.difficulty = some ·) &&
    query.q.all fun q => contains letters (escapeLike q) a.title

def findPage (letters : Letters) (query : FindTasksQueryDto) (page limit : Nat)
    (rank : Nat → Nat) (db : Db) : List Task :=
  window (skipOf page limit) limit
    (orderBy rank newestTaskFirst (db.tasks.rows.filter (selects letters query)))

def countAll (letters : Letters) (query : FindTasksQueryDto) (db : Db) : Nat :=
  (db.tasks.rows.filter (selects letters query)).length

/-- The two queries of a page that is not in the cache. -/
def queryPage (letters : Letters) (query : FindTasksQueryDto) (page limit : Nat) :
    Promise (Paginated Task) := do
  let (data, total) ← Method.par
    (read .task .findMany fun i db =>
      withTexts query.q.toList (withSkip page limit (findPage letters query page limit i.rank db)))
    (read .task .count fun _ db => withTexts query.q.toList (.ok (countAll letters query db)))
  return ⟨data, ⟨total, page, limit, totalPages total limit⟩⟩

def findAll (letters : Letters) (query : FindTasksQueryDto) : Promise (Paginated Task) := do
  let page := query.page.getD defaultPage
  let limit := query.limit.getD defaultLimit
  let version ← listVersion
  let cacheKey := listCacheKey letters version page limit query
  match ← safeCacheGet cacheKey with
  | some cached => return cached
  | none =>
    let result ← queryPage letters query page limit
    safeCacheSet cacheKey result true
    return result

def findAllUnpaginated : Promise (List Task) :=
  read .task .findMany fun i db =>
    .ok (orderBy i.rank newestTaskFirst (db.tasks.rows.filter sharedTask))

/-- The task under an id, from the cache or else from the table. -/
def cachedTask (id : String) : Promise (Option Task) := do
  let cacheKey := CacheKey.task id
  match ← safeCacheGet cacheKey with
  | some task => return some task
  | none =>
    match ← read .task .findUnique fun _ db => .ok (db.tasks.find (Uuid.ofText id)) with
    | some task =>
      safeCacheSet cacheKey task true
      return some task
    | none => return none

/-- `userId` is left out only on admin and internal paths. -/
def findById (id : String) (userId : Option Uuid) : Promise Task := do
  match ← cachedTask id with
  | some task =>
    -- checked after the cache, which is keyed by id alone
    if userId.any fun u => task.ownerId.any (· ≠ u) then throw (taskNotFound id)
    else return task
  | none => throw (taskNotFound id)

def createPrivate (userId : Uuid) (title : String) (description : Option String) :
    Promise Task :=
  write .task .create (fun _ => { users := [userId] }) fun i db => do
    let row : Task := ⟨i.uuid 0, title, none, none, none, description, some userId, i.now, i.now⟩
    let db ← db.insertTask row
    return (row, db)

/-- `task.update`. -/
def updateRow (id : String) (dto : UpdateTaskDto) (i : Input) (db : Db) :
    Except Failure (Task × Db) :=
  withTexts dto.texts <|
    match db.tasks.find (Uuid.ofText id) with
    | none => .error (.prisma .P2025)
    | some task =>
      .ok (dto.apply i.now task,
        { db with
          tasks := db.tasks.updateWhere (·.id = task.id) (dto.apply i.now) fun _ => rfl })

def update (id : String) (dto : UpdateTaskDto) : Promise Task :=
  tryCatch
    (do
      let task ← write .task .update (fun _ => { tasks := [.ofText id] }) (updateRow id dto)
      let _ ← Method.par (safeCacheDel (.task id)) bumpListCacheVersion
      return task)
    fun
      | .prisma .P2025 => throw (taskNotFound id)
      | e => throw e

def inUse (id : String) : Failure :=
  conflict ("Task with id \"" ++ id ++
    "\" is used by a routine or a logged practice session and cannot be deleted")

/-- The transaction of `remove`. -/
def removeRow (id : String) (db : Db) : Except Failure Db :=
  let taskId := Uuid.ofText id
  if db.routineTasks.rows.any (·.taskId = taskId) ||
      db.practiceSessionTasks.rows.any (·.taskId = taskId) then .error (inUse id)
  else if db.tasks.has taskId then db.delete { tasks := [taskId] }
  else .error (taskNotFound id)

def remove (id : String) : Promise Unit := do
  tryCatch
    (write .task .transaction (fun _ => { tasks := [.ofText id] }) fun _ db => do
      let db ← removeRow id db
      return ((), db))
    fun
      | .prisma .P2003 => throw (inUse id)
      | e => throw e
  let _ ← Method.par (safeCacheDel (.task id)) bumpListCacheVersion

end TasksService

end GuitarCoach
