/- digest: When the cache of single tasks is transparent, over any history of calls. -/

import GuitarCoach.Async.History
import GuitarCoach.Tasks.TaskSpecs
import GuitarCoach.Users.Purge

/-!
The service is compared with the same service without a cache. A task that is cached under
one spelling of its id is forgotten by an update or a removal under that spelling only, and
the delete of an account forgets none of the tasks it deletes.
-/

set_option autoImplicit false
set_option relaxedAutoImplicit false

namespace GuitarCoach

open Async (Answer Cue Ends History Method Policy Served wp onOk wp_bind wp_handle wp_done wp_fail
  wp_ends)
open Async.Method (pure_eq throw_eq bind_eq tryCatch_eq calls_call calls_bind calls_handle)
open Relational (Table)

/-- The cache never fails; the other calls can fail, but not with an HTTP exception. -/
def cacheUp : Policy World Input Failure Label
  | .cacheGet _, _, .threw _ => False
  | .cacheSet _, _, .threw _ => False
  | .cacheDel _, _, .threw _ => False
  | _, _, .threw (.http ..) => False
  | _, _, _ => True

/-- The calls that write tasks or read one of them. -/
inductive TaskCall
  | create (dto : CreateTaskDto)
  | createMany (dtos : List CreateTaskDto)
  | createPrivate (userId : Uuid) (title : String) (description : Option String)
  | update (id : String) (dto : UpdateTaskDto)
  | remove (id : String)
  | findById (id : String) (userId : Option Uuid)
  | purge (userId : String)

namespace TaskCall

abbrev Result : TaskCall → Type
  | create _ => Task
  | createMany _ => List Task
  | createPrivate .. => Task
  | update .. => Task
  | remove _ => Unit
  | findById .. => Task
  | purge _ => Unit

def run : (q : TaskCall) → Promise q.Result
  | create dto => TasksService.create dto
  | createMany dtos => TasksService.createMany dtos
  | createPrivate userId title description =>
      TasksService.createPrivate userId title description
  | update id dto => TasksService.update id dto
  | remove id => TasksService.remove id
  | findById id userId => TasksService.findById id userId
  | purge userId => UsersService.purge userId

end TaskCall

/-! ### The service without a cache -/

namespace Uncached

open Promise
open TasksService (taskNotFound updateRow removeRow inUse)

def create (dto : CreateTaskDto) : Promise Task :=
  write .task .create (fun _ => {}) fun i db => do
    let db ← db.insertTask (dto.row i 0)
    return (dto.row i 0, db)

def createMany (dtos : List CreateTaskDto) : Promise (List Task) :=
  write .task .transaction (fun _ => {}) fun i db => do
    let rows := dtos.mapIdx fun n dto => dto.row i n
    let db ← rows.foldlM (fun db a => db.insertTask a) db
    return (rows, db)

def update (id : String) (dto : UpdateTaskDto) : Promise Task :=
  tryCatch (write .task .update (fun _ => { tasks := [.ofText id] }) (updateRow id dto))
    fun
      | .prisma .P2025 => throw (taskNotFound id)
      | e => throw e

def remove (id : String) : Promise Unit :=
  tryCatch
    (write .task .transaction (fun _ => { tasks := [.ofText id] }) fun _ db => do
      let db ← removeRow id db
      return ((), db))
    fun
      | .prisma .P2003 => throw (inUse id)
      | e => throw e

def findById (id : String) (userId : Option Uuid) : Promise Task := do
  match ← read .task .findUnique fun _ db => .ok (db.tasks.find (Uuid.ofText id)) with
  | some task =>
    if userId.any fun u => task.ownerId.any (· ≠ u) then throw (taskNotFound id)
    else return task
  | none => throw (taskNotFound id)

end Uncached

def TaskCall.runUncached : (q : TaskCall) → Promise q.Result
  | create dto => Uncached.create dto
  | createMany dtos => Uncached.createMany dtos
  | createPrivate userId title description =>
      TasksService.createPrivate userId title description
  | update id dto => Uncached.update id dto
  | remove id => Uncached.remove id
  | findById id userId => Uncached.findById id userId
  | purge userId => UsersService.purge userId

/-- The same state with nothing in the cache. -/
def World.uncached (w : World) : World := { w with cache := fun _ => none }

/-- Between two calls entries of the cache may expire, and what is stored besides the tasks
may change. -/
structure Elsewhere (w w' : World) : Prop where
  idle : w'.Idle
  tasks : w'.db.tasks = w.db.tasks
  cache : ∀ key, w'.cache key = w.cache key ∨
    w'.cache key = none ∧ ∀ e ∈ w.cache key, e.expires = true

/-- A history that is served with the cache, and whose calls that succeed meet the condition,
could have been served without a cache. -/
def Transparent (condition : World → TaskCall → Prop) (start : World) : Prop :=
  ∀ calls w, History TaskCall.run (fun _ : Unit => cacheUp) Elsewhere start calls w →
    (∀ c ∈ calls, (∃ a, c.result = .ok a) → condition c.before c.request) →
    History TaskCall.runUncached (fun _ : Unit => cacheUp) Elsewhere start.uncached
      (calls.map (Served.through World.uncached)) w.uncached

/-- The call does not leave a cached task behind that it has changed: an update or a removal
finds none under another spelling of its id, and the delete of an account none of its own. -/
def TaskCall.Spares (w : World) : TaskCall → Prop
  | update id _ => ∀ s, s ≠ id → Uuid.ofText s = .ofText id → w.cache (.task s) = none
  | remove id => ∀ s, s ≠ id → Uuid.ofText s = .ofText id → w.cache (.task s) = none
  | purge userId => ∀ s, ∀ e ∈ w.cache (.task s), e.value.ownerId ≠ some (.ofText userId)
  | _ => True

/-- Every cached task is the row that its id stands for. -/
structure Coherent (w : World) : Prop where
  idle : w.Idle
  current : ∀ s, ∀ e ∈ w.cache (.task s), w.db.tasks.find (.ofText s) = some e.value

namespace Coherent

variable {w : World}

/-- What stays cached still has its row. -/
theorem changed (coherent : Coherent w) {db : Db} {cache : Cache}
    (stays : ∀ s, ∀ e ∈ cache (.task s), e ∈ w.cache (.task s) ∧
      (e.value ∈ w.db.tasks.rows → e.value.id = .ofText s → e.value ∈ db.tasks.rows)) :
    Coherent { w with db, cache } := by
  refine ⟨coherent.idle, ?_⟩
  intro s e he
  obtain ⟨cached, kept⟩ := stays s e he
  obtain ⟨hrow, hid⟩ := Table.find_eq_some.mp (coherent.current s e cached)
  exact Table.find_eq_some.mpr ⟨kept hrow hid, hid⟩

/-- Rows are added, and the version of the lists is another one. -/
theorem grown (coherent : Coherent w) {db : Db} {rows : List Task} {version : Option (Entry .taskListVersion)}
    (more : db.tasks.rows = w.db.tasks.rows ++ rows) :
    Coherent { w with db, cache := Function.update w.cache .taskListVersion version } := by
  apply coherent.changed
  intro s e he
  rw [Function.update_of_ne (CacheKey.task_ne_listVersion s)] at he
  exact ⟨he, fun hrow _ => more ▸ List.mem_append_left rows hrow⟩

/-- The row of a task changes, which is cached under the spelling of the request at most. -/
theorem invalidated (coherent : Coherent w) {db : Db} {id : String}
    {version : Option (Entry .taskListVersion)}
    (spares : ∀ s, s ≠ id → Uuid.ofText s = .ofText id → w.cache (.task s) = none)
    (others : ∀ a ∈ w.db.tasks.rows, a.id ≠ .ofText id → a ∈ db.tasks.rows) :
    Coherent { w with
      db
      cache := Function.update (Function.update w.cache .taskListVersion version) (.task id) none } := by
  apply coherent.changed
  intro s e he
  by_cases same : s = id
  · subst same
    rw [Function.update_self] at he
    cases he
  · have apart : CacheKey.task s ≠ .task id := fun h => same (CacheKey.task.inj h)
    rw [Function.update_of_ne apart, Function.update_of_ne (CacheKey.task_ne_listVersion s)] at he
    refine ⟨he, fun hrow hid => others _ hrow fun renamed => ?_⟩
    have forgotten := spares s same (hid.symm.trans renamed)
    rw [forgotten] at he
    cases he

/-- A row is cached as it is read. -/
theorem cached (coherent : Coherent w) {id : String} {task : Task} {expires : Bool}
    (found : w.db.tasks.find (.ofText id) = some task) :
    Coherent { w with cache := Function.update w.cache (.task id) (some ⟨task, expires⟩) } := by
  refine ⟨coherent.idle, ?_⟩
  intro s e he
  dsimp only at he
  by_cases same : s = id
  · subst same
    rw [Function.update_self] at he
    cases he
    exact found
  · have apart : CacheKey.task s ≠ .task id := fun h => same (CacheKey.task.inj h)
    rw [Function.update_of_ne apart] at he
    exact coherent.current s e he

/-- Entries expire. -/
theorem elsewhere (coherent : Coherent w) {w' : World} (moves : Elsewhere w w') : Coherent w' := by
  refine ⟨moves.idle, ?_⟩
  intro s e he
  rw [moves.tasks]
  rcases moves.cache (.task s) with same | ⟨gone, -⟩
  · exact coherent.current s e (same ▸ he)
  · rw [gone] at he
    cases he

end Coherent

theorem Elsewhere.uncached {w w' : World} (moves : Elsewhere w w') :
    Elsewhere w.uncached w'.uncached where
  idle := moves.idle
  tasks := moves.tasks
  cache _ := .inl rfl

/-! ### One call -/

/-- The call keeps the cache coherent, and ends as it can without a cache. -/
def Simulates {α : Type} (m : Promise α) (w : World) (r : Except Failure α) (v : World) : Prop :=
  Coherent v ∧ Ends cacheUp m w.uncached r v.uncached

section Calls

variable {w : World}

private theorem cacheUp_steady {l : Label} {s t : World} {x : Answer Input Failure}
    (may : cacheUp l s x) : cacheUp l t x := by
  unfold cacheUp at may ⊢
  split at may <;> simp_all

private theorem bump_wp {Q : Except Failure Unit → World → Prop}
    (bumped : ∀ version, Q (.ok ()) { w with
      cache := Function.update w.cache .taskListVersion version }) :
    wp cacheUp TasksService.bumpListCacheVersion Q w :=
  TasksService.wp_bumpListCacheVersion (fun _ _ _ => bumped _) fun _ he => he.elim

private theorem invalidate_wp {id : String} {Q : Except Failure (Unit × Unit) → World → Prop}
    (done : ∀ version, Q (.ok ((), ())) { w with
      cache := Function.update (Function.update w.cache .taskListVersion version) (.task id) none }) :
    wp cacheUp (Method.par (TasksService.safeCacheDel (.task id))
      TasksService.bumpListCacheVersion) Q w := by
  apply TasksService.wp_invalidate (P := fun t => ∃ version,
    t = { w with cache := Function.update w.cache .taskListVersion version })
  · exact fun _ _ _ _ => cacheUp_steady
  · exact bump_wp fun version => ⟨version, rfl⟩
  · rintro - ⟨version, rfl⟩
    exact done version
  · exact fun _ _ _ he => he.elim

/-- A statement ends as it does without a cache. -/
private theorem write_wp {α : Type} {model : Model} {op : Operation} {touched : Db → RowSet}
    {f : Input → Db → Except Failure (α × Db)} {Q : Except Failure α → World → Prop}
    (took : ∀ i a db, f i w.db = .ok (a, db) →
      Ends cacheUp (Promise.write model op touched f) w.uncached (.ok a)
        ({ w with db } : World).uncached → Q (.ok a) { w with db })
    (failed : ∀ e, Ends cacheUp (Promise.write model op touched f) w.uncached (.error e) w.uncached →
      Q (.error e) w) : wp cacheUp (Promise.write model op touched f) Q w := by
  apply Promise.wp_write
  · intro i a db may row
    exact took i a db row (Promise.ends_write (w := w.uncached) (cacheUp_steady may) row)
  · intro i e may row
    exact failed e (Promise.ends_write_refused (w := w.uncached) (cacheUp_steady may) row)
  · intro e may
    exact failed e (Promise.ends_write_threw (cacheUp_steady may))

theorem create_simulates (coherent : Coherent w) (dto : CreateTaskDto) :
    wp cacheUp (TasksService.create dto) (Simulates (Uncached.create dto) w) w := by
  unfold TasksService.create
  simp only [bind_eq, pure_eq, wp_bind, wp_done]
  apply write_wp
  · intro i a db row ends
    obtain ⟨db', inserted, row⟩ := bind_eq_ok row
    cases row
    apply bump_wp
    intro version
    exact ⟨coherent.grown (Db.insertTask_grown inserted).tasks, ends⟩
  · intro e ends
    exact ⟨coherent, ends⟩

theorem createMany_simulates (coherent : Coherent w) (dtos : List CreateTaskDto) :
    wp cacheUp (TasksService.createMany dtos) (Simulates (Uncached.createMany dtos) w) w := by
  unfold TasksService.createMany
  simp only [bind_eq, pure_eq, wp_bind, wp_done]
  apply write_wp
  · intro i a db row ends
    obtain ⟨db', inserted, row⟩ := bind_eq_ok row
    cases row
    have more := foldlM_keeps (R := fun c d : Db => ∃ rows, d.tasks.rows = c.tasks.rows ++ rows)
      (fun _ => ⟨[], by simp⟩)
      (fun h h' => by
        obtain ⟨rows, h⟩ := h
        obtain ⟨rows', h'⟩ := h'
        exact ⟨rows ++ rows', by rw [h', h, List.append_assoc]⟩)
      (fun a _ c d step => ⟨[a], (Db.insertTask_grown step).tasks⟩) inserted
    obtain ⟨rows, more⟩ := more
    apply bump_wp
    intro version
    exact ⟨coherent.grown more, ends⟩
  · intro e ends
    exact ⟨coherent, ends⟩

theorem createPrivate_simulates (coherent : Coherent w) (userId : Uuid) (title : String)
    (description : Option String) :
    wp cacheUp (TasksService.createPrivate userId title description)
      (Simulates (TasksService.createPrivate userId title description) w) w := by
  unfold TasksService.createPrivate
  apply write_wp
  · intro i a db row ends
    obtain ⟨db', inserted, row⟩ := bind_eq_ok row
    cases row
    refine ⟨coherent.changed fun s e he => ⟨he, fun hrow _ => ?_⟩, ends⟩
    rw [(Db.insertTask_grown inserted).tasks]
    exact List.mem_append_left _ hrow
  · intro e ends
    exact ⟨coherent, ends⟩

theorem update_simulates (coherent : Coherent w) (id : String) (dto : UpdateTaskDto) :
    wp cacheUp (TasksService.update id dto) (fun r v =>
      ((∃ a, r = .ok a) → (TaskCall.update id dto).Spares w) →
        Simulates (Uncached.update id dto) w r v) w := by
  unfold TasksService.update
  simp only [bind_eq, pure_eq, tryCatch_eq, throw_eq, wp_bind, wp_handle, wp_done]
  apply write_wp
  · intro i a db row ends
    apply invalidate_wp
    intro version spares
    refine ⟨coherent.invalidated (spares ⟨a, rfl⟩) fun b hb other => ?_, ends.handle_ok⟩
    obtain ⟨task, found, -, rfl⟩ := TasksService.updateRow_ok row
    obtain ⟨-, hid⟩ := Table.find_eq_some.mp found
    have apart : b.id ≠ task.id := hid ▸ other
    exact List.mem_map.mpr ⟨b, hb, by simp [apart]⟩
  · intro e ends
    -- the handler only rethrows
    cases e with
    | prisma code => cases code <;> exact fun _ => ⟨coherent, ends.handle_error (.fail _ _)⟩
    | _ => exact fun _ => ⟨coherent, ends.handle_error (.fail _ _)⟩

theorem remove_simulates (coherent : Coherent w) (id : String) :
    wp cacheUp (TasksService.remove id) (fun r v =>
      ((∃ a, r = .ok a) → (TaskCall.remove id).Spares w) →
        Simulates (Uncached.remove id) w r v) w := by
  unfold TasksService.remove
  simp only [bind_eq, pure_eq, tryCatch_eq, throw_eq, wp_bind, wp_handle, wp_done]
  apply write_wp
  · intro i a db row ends
    apply invalidate_wp
    intro version spares
    refine ⟨coherent.invalidated (spares ⟨(), trivial⟩) fun b hb other => ?_, ends.handle_ok⟩
    obtain ⟨db', removed, row⟩ := bind_eq_ok row
    cases row
    rw [TasksService.removeRow_ok removed]
    exact Table.mem_deleteWhere.mpr ⟨hb, by simpa using other⟩
  · intro e ends
    cases e with
    | prisma code => cases code <;> exact fun _ => ⟨coherent, ends.handle_error (.fail _ _)⟩
    | _ => exact fun _ => ⟨coherent, ends.handle_error (.fail _ _)⟩

theorem findById_simulates (coherent : Coherent w) (id : String) (userId : Option Uuid) :
    wp cacheUp (TasksService.findById id userId) (Simulates (Uncached.findById id userId) w) w := by
  have row : ∀ found, w.db.tasks.find (.ofText id) = found → Ends cacheUp
      (Promise.read .task .findUnique fun _ db => .ok (db.tasks.find (.ofText id))) w.uncached
      (.ok found) w.uncached := by
    rintro - rfl
    have reads : cacheUp (.db .task .findUnique) w.uncached (.took (.of alice 0)) := trivial
    exact Promise.ends_read reads
  -- the row that is found is judged alike, from wherever it comes
  have judged : ∀ task v, Coherent v → v.uncached = w.uncached →
      w.db.tasks.find (.ofText id) = some task →
      wp cacheUp (if userId.any fun u => task.ownerId.any (· ≠ u) then
          .fail (TasksService.taskNotFound id) else .done task)
        (Simulates (Uncached.findById id userId) w) v := by
    intro task v hv same found
    have ends : ∀ r, Ends cacheUp (if userId.any fun u => task.ownerId.any (· ≠ u) then
        Method.fail (TasksService.taskNotFound id) else .done task) w.uncached r w.uncached →
        Simulates (Uncached.findById id userId) w r v := by
      intro r rest
      refine ⟨hv, ?_⟩
      rw [same]
      exact (row _ found).bind rest
    split
    · next other => exact ends _ (by rw [if_pos other]; exact .fail _ _)
    · next visible => exact ends _ (by rw [if_neg visible]; exact .done _ _)
  unfold TasksService.findById TasksService.cachedTask
  simp only [bind_eq, pure_eq, throw_eq, wp_bind]
  apply TasksService.wp_safeCacheGet
  · cases hit : w.cache (.task id) with
    | some e => exact fun _ _ => judged _ w coherent rfl (coherent.current id e hit)
    | none =>
      intro _ _
      dsimp only [onOk, Option.map_none]
      rw [wp_bind]
      apply Promise.wp_read
      · intro i may
        cases found : w.db.tasks.find (.ofText id) with
        | some task =>
          dsimp only [onOk]
          rw [wp_bind]
          apply TasksService.wp_safeCacheSet
          · exact fun _ _ => judged task _ (coherent.cached found) rfl found
          · exact fun _ he => he.elim
        | none => exact ⟨coherent, (row none found).bind (.fail _ _)⟩
      · intro e may
        exact ⟨coherent, .bind_error (Promise.ends_read_threw (cacheUp_steady may))⟩
  · intro e he
    exact he.elim

theorem purge_simulates (coherent : Coherent w) {userId : String} {r : Except Failure Unit}
    {v : World} (spares : (∃ a, r = .ok a) → (TaskCall.purge userId).Spares w)
    (ends : Ends cacheUp (UsersService.purge userId) w r v) :
    Simulates (UsersService.purge userId) w r v := by
  constructor
  · have kept : wp cacheUp (UsersService.purge userId) (fun r v =>
        ((∃ a, r = .ok a) → (TaskCall.purge userId).Spares w) → Coherent v) w := by
      apply UsersService.purge_wp coherent.idle
      · intro user rank db bucket _ tables _ _ spares
        have still : Coherent { w with db } := coherent.changed fun s e he => ⟨he, fun hrow _ => by
          rw [UsersService.purgeTables_tasks tables]
          exact Table.mem_deleteWhere.mpr ⟨hrow, by simpa using spares ⟨(), rfl⟩ s e he⟩⟩
        exact ⟨coherent.idle, still.current⟩
      · exact fun _ _ _ => coherent
      · exact fun _ _ _ => coherent
    exact wp_ends kept ends spares
  · -- no call of the purge touches the cache
    refine ends.commute (fun l s x may => cacheUp_steady may) (UsersService.purge_calls
      (calls_call ?_) (fun tx => calls_call ?_) (fun tx => calls_call ?_) (fun tx model op f => calls_call ?_)
      (fun tx model op rows => calls_call ?_) (fun name => calls_call ?_) userId)
    case refine_5 =>
      rintro (i | e) s
      · have view : s.uncached.view tx = s.view tx := rfl
        have unlocked : s.uncached.unlocked = s.unlocked := rfl
        simp only [Async.Call.answer_took, view, unlocked]
        cases rows (s.view tx) with
        | error e => rfl
        | ok gone =>
          dsimp only
          cases s.unlocked (some tx) gone with
          | false => rfl
          | true => cases (s.view tx).delete gone <;> rfl
      · rfl
    all_goals
      rintro (i | e) s
      · rfl
      · rfl

/-- One call that does not leave a cached task behind which it has changed. -/
theorem serves (coherent : Coherent w) (q : TaskCall) {r : Except Failure q.Result} {v : World}
    (spares : (∃ a, r = .ok a) → q.Spares w) (ends : Ends cacheUp q.run w r v) :
    Simulates q.runUncached w r v := by
  cases q with
  | create dto => exact wp_ends (create_simulates coherent dto) ends
  | createMany dtos => exact wp_ends (createMany_simulates coherent dtos) ends
  | createPrivate userId title description =>
    exact wp_ends (createPrivate_simulates coherent userId title description) ends
  | update id dto => exact wp_ends (update_simulates coherent id dto) ends spares
  | remove id => exact wp_ends (remove_simulates coherent id) ends spares
  | findById id userId => exact wp_ends (findById_simulates coherent id userId) ends
  | purge userId => exact purge_simulates coherent spares ends

end Calls

/-- Unless a call that succeeds leaves a cached task behind which it has changed, every call
of a history ends as the service without a cache could have ended it. -/
theorem transparent_of_spares {start : World} (coherent : Coherent start) :
    Transparent TaskCall.Spares start := by
  intro calls w history spares
  refine (History.refines World.uncached Coherent
    (fun c => (∃ a, c.result = .ok a) → c.request.Spares c.before) ?_ ?_ coherent history spares).2
  · intro c coherent meets ends
    exact serves coherent c.request meets ends
  · intro s s' coherent moves
    exact ⟨coherent.elsewhere moves, moves.uncached⟩

/-- Without a cache a task that is found is a row. -/
theorem row_of_uncached {id : String} {userId : Option Uuid} {w v : World} {task : Task}
    (ends : Ends cacheUp (Uncached.findById id userId) w (.ok task) v) :
    w.db.tasks.find (.ofText id) = some task := by
  have found : wp cacheUp (Uncached.findById id userId)
      (onOk (fun task _ => w.db.tasks.find (.ofText id) = some task) fun _ _ => True) w := by
    unfold Uncached.findById
    simp only [bind_eq, pure_eq, throw_eq, wp_bind]
    apply Promise.wp_read
    · intro i _
      cases found : w.db.tasks.find (.ofText id) with
      | none => trivial
      | some row =>
        dsimp only [onOk]
        split
        · trivial
        · rfl
    · exact fun _ _ => trivial
  exact wp_ends found ends

section Sample

private def metronome : CreateTaskDto := ⟨"Metronome", .absent, .absent, .absent, .absent⟩

private def slower : UpdateTaskDto := ⟨some "Slow metronome", .absent, .absent, .absent, none⟩

/-- `firstId` as a client may spell it. -/
private def firstSpelled : String := "7D5E8C31-2B9A-4D6F-B1E0-9C8B7A695847"

private def sampleCue : Cue Input Failure := took (.of firstId 0)

/-- The cues of an update: the database, the two steps of the bump, the delete of the key. -/
private def updateCues : List (Cue Input Failure) :=
  [sampleCue, .side false, sampleCue, .side false, sampleCue, sampleCue]

/-- The task as it is created, and as it is changed. -/
private def metronomeRow : Task := metronome.row (.of firstId 0) 0

private def slowerRow : Task := slower.apply 0 metronomeRow

private def ownRow : Task := { metronomeRow with ownerId := some alice }

private theorem sample_ends {q : TaskCall} {cues : List (Cue Input Failure)} {w : World}
    {a : q.Result} (all : ∀ cue ∈ cues, cue = sampleCue ∨ ∃ b, cue = .side b)
    (run : (Async.exec q.run cues w).bind (fun end_ => end_.1.toOption) = some a) :
    Ends cacheUp q.run w (.ok a) (Async.after q.run cues w) := by
  refine Async.ends_after_ok (fun x hx l s => ?_) run
  rcases all _ hx with same | ⟨b, side⟩
  · obtain rfl : x = .took (.of firstId 0) := by simpa [sampleCue, took] using same
    cases l <;> trivial
  · cases side

private theorem replicate_cues (n : Nat) :
    ∀ cue ∈ List.replicate n sampleCue, cue = sampleCue ∨ ∃ b, cue = .side b :=
  fun _ h => .inl (List.eq_of_mem_replicate h)

private theorem update_cues : ∀ cue ∈ updateCues, cue = sampleCue ∨ ∃ b, cue = .side b := by
  simp [updateCues]

private def served (q : TaskCall) (a : q.Result) (cues : List (Cue Input Failure)) (w : World) :
    Served World Failure Unit TaskCall.Result :=
  ⟨(), q, .ok a, w, Async.after q.run cues w⟩

/-- The task is created. -/
private def creates : Served World Failure Unit TaskCall.Result :=
  served (.create metronome) metronomeRow (List.replicate 3 sampleCue) World.signedUp

private theorem creates_history :
    History TaskCall.run (fun _ : Unit => cacheUp) Elsewhere World.signedUp [creates]
      creates.after :=
  .serve () _ _ .idle (sample_ends (replicate_cues 3) (by decide +kernel))

/-- It is changed under another spelling, and read. -/
private def changes : Served World Failure Unit TaskCall.Result :=
  served (.update firstSpelled slower) slowerRow updateCues creates.after

private def reads : Served World Failure Unit TaskCall.Result :=
  served (.findById firstId.text none) slowerRow (List.replicate 3 sampleCue) changes.after

private theorem reads_history :
    History TaskCall.run (fun _ : Unit => cacheUp) Elsewhere World.signedUp
      [creates, changes, reads] reads.after :=
  .serve () _ _ (.serve () _ _ creates_history (sample_ends update_cues (by decide +kernel)))
    (sample_ends (replicate_cues 3) (by decide +kernel))

theorem transparent_for_fresh_task :
    History TaskCall.runUncached (fun _ : Unit => cacheUp) Elsewhere World.signedUp.uncached
      ([creates, changes, reads].map (Served.through World.uncached)) reads.after.uncached := by
  have coherent : Coherent World.signedUp := ⟨rfl, fun s e he => by cases he⟩
  refine transparent_of_spares coherent _ _ reads_history ?_
  have spares : changes.request.Spares changes.before := fun s _ _ => rfl
  simp only [List.mem_cons, List.not_mem_nil, or_false, forall_eq_or_imp, forall_eq]
  exact ⟨fun _ => trivial, fun _ => spares, fun _ => trivial⟩

/-- It is read, changed under another spelling, and read again. -/
private def readsFirst : Served World Failure Unit TaskCall.Result :=
  served (.findById firstId.text none) metronomeRow (List.replicate 3 sampleCue) creates.after

private def changesThen : Served World Failure Unit TaskCall.Result :=
  served (.update firstSpelled slower) slowerRow updateCues readsFirst.after

private def readsStale : Served World Failure Unit TaskCall.Result :=
  served (.findById firstId.text none) metronomeRow [sampleCue] changesThen.after

/-- A private task is created and read, its owner is deleted, and it is read again. -/
private def createsOwn : Served World Failure Unit TaskCall.Result :=
  served (.createPrivate alice "Metronome" none) ownRow [sampleCue] World.signedUp

private def readsOwn : Served World Failure Unit TaskCall.Result :=
  served (.findById firstId.text none) ownRow (List.replicate 3 sampleCue) createsOwn.after

private def purges : Served World Failure Unit TaskCall.Result :=
  served (.purge alice.text) () (List.replicate 11 sampleCue) readsOwn.after

private def readsDeleted : Served World Failure Unit TaskCall.Result :=
  served (.findById firstId.text none) ownRow [sampleCue] purges.after

/-- A task that is read, changed under another spelling of its id and read again is returned as
it was before; and without any update or removal, a private task is returned after the account
of its owner was deleted. -/
theorem stale_task_returned :
    ¬Transparent (fun _ _ => True) World.signedUp ∧
      ¬Transparent (fun _ q => ∀ id, (∀ dto, q ≠ .update id dto) ∧ q ≠ .remove id)
        World.signedUp := by
  constructor
  · intro claim
    have history : History TaskCall.run (fun _ : Unit => cacheUp) Elsewhere World.signedUp
        [creates, readsFirst, changesThen, readsStale] readsStale.after :=
      .serve () _ _ (.serve () _ _ (.serve () _ _ creates_history
        (sample_ends (replicate_cues 3) (by decide +kernel)))
        (sample_ends update_cues (by decide +kernel)))
        (sample_ends (replicate_cues 1) (by decide +kernel))
    have ends := (claim _ _ history fun _ _ _ => trivial).ends
      (readsStale.through World.uncached) (by simp)
    have row := row_of_uncached ends
    revert row
    decide +kernel
  · intro claim
    have history : History TaskCall.run (fun _ : Unit => cacheUp) Elsewhere World.signedUp
        [createsOwn, readsOwn, purges, readsDeleted] readsDeleted.after :=
      .serve () _ _ (.serve () _ _ (.serve () _ _ (.serve () _ _ .idle
        (sample_ends (replicate_cues 1) (by decide +kernel)))
        (sample_ends (replicate_cues 3) (by decide +kernel)))
        (sample_ends (replicate_cues 11) (by decide +kernel)))
        (sample_ends (replicate_cues 1) (by decide +kernel))
    have calls : ∀ c ∈ [createsOwn, readsOwn, purges, readsDeleted], (∃ a, c.result = .ok a) →
        ∀ id, (∀ dto, c.request ≠ .update id dto) ∧ c.request ≠ .remove id := by
      simp only [List.mem_cons, List.not_mem_nil, or_false, forall_eq_or_imp, forall_eq]
      exact ⟨fun _ _ => ⟨nofun, nofun⟩, fun _ _ => ⟨nofun, nofun⟩, fun _ _ => ⟨nofun, nofun⟩,
        fun _ _ => ⟨nofun, nofun⟩⟩
    have ends := (claim _ _ history calls).ends (readsDeleted.through World.uncached) (by simp)
    have row := row_of_uncached ends
    revert row
    decide +kernel

end Sample

end GuitarCoach
