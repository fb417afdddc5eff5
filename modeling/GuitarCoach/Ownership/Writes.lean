/- digest: The calls that need no memory, and what each of them does to the tables. -/

import GuitarCoach.Backend
import GuitarCoach.Ownership.Effects

/-!
Most writes do what they do whatever the method has seen before. Those that rely on a check that is
by then in the past, and the statements of a purge, are left to the runs they are part of.
-/

set_option autoImplicit false
set_option relaxedAutoImplicit false

namespace GuitarCoach

open Async (Answer Call)
open Async.Method (Calls calls_call calls_bind calls_handle calls_forM calls_par bind_eq pure_eq
  throw_eq tryCatch_eq)
open Relational (Table)

/-- What one call does to the rows and to what the open transactions have deleted. -/
structure World.Moves (fresh : Uuid → Prop) (w w' : World) : Prop where
  rows : w.db.Descends fresh w'.db
  named : w.db.Named → w'.db.Named
  deleted : ∀ tx, ∀ gone' ∈ w'.tx tx, ∀ k ∈ gone'.practiceSessions,
    (∃ gone ∈ w.tx tx, k ∈ gone.practiceSessions) ∨ w.db.practiceSessions.has k

theorem World.Moves.beside {fresh : Uuid → Prop} {w w' : World}
    (rows : w.db.Descends fresh w'.db) (named : w.db.Named → w'.db.Named)
    (txs : ∀ tx, w'.tx tx = w.tx tx) : w.Moves fresh w' :=
  ⟨rows, named, fun tx gone' opened _ hk => .inl ⟨gone', txs tx ▸ opened, hk⟩⟩

/-- Closed for everybody, the open transactions included. -/
def World.Sound (w : World) : Prop := ∀ tx, w.db.ClosedBut ((w.tx tx).getD {})

theorem World.Sound.tables {w : World} (sound : w.Sound) : w.db.Closed := (sound 0).tables

/-- With this answer the id was given out, to a call that adds rows. -/
def Issued (l : Label) (x : Answer Input Failure) (id : Uuid) : Prop :=
  l.adds = true ∧ ∃ i n, x = .took i ∧ i.uuid n = id

/-- The call is about no object of others, and on closed tables, outside a transaction of its own,
it has an effect of this actor. -/
def Affects (actor : Option Uuid) {β : Type} (c : Call World Input Failure Label β) : Prop :=
  c.label.Within actor ∧ ∀ x w, c.ready w = true → w.db.Closed → (c.answer x w).2.txs = w.txs ∧
    ∃ touched : RowSet, (∀ tx, touched.meets ((w.tx tx).getD {}) = false) ∧
      Db.Effect touched (Issued c.label x) actor w.db (c.answer x w).2.db

/-! ### The calls -/

namespace Promise

variable {α β : Type} {actor : Option Uuid}

theorem affects_of_same {c : Call World Input Failure Label β} (within : c.label.Within actor)
    (same : ∀ x w, (c.answer x w).2.db = w.db ∧ (c.answer x w).2.txs = w.txs) :
    Affects actor c := by
  refine ⟨within, fun x w _ _ => ?_⟩
  obtain ⟨db, txs⟩ := same x w
  refine ⟨txs, {}, fun tx => by simp [RowSet.meets], ?_⟩
  rw [db]
  exact .same actor w.db

theorem affects_read (model : Model) (op : Operation) (f : Input → Db → Except Failure α) :
    (read model op f).Calls (Affects actor) := by
  refine calls_call (affects_of_same (.silent rfl) fun x w => ?_)
  cases x with
  | took i => exact ⟨rfl, rfl⟩
  | threw e => exact ⟨rfl, rfl⟩

theorem affects_write {model : Model} {op : Operation} {touched : Db → RowSet}
    {f : Input → Db → Except Failure (α × Db)}
    (effect : ∀ i db a db', db.Closed → f i db = .ok (a, db') →
      Db.Effect (touched db) (Issued (.db model op) (.took i)) actor db db') :
    (write model op touched f).Calls (Affects actor) := by
  refine calls_call ⟨.silent rfl, fun x w ready closed => ?_⟩
  -- a write that is not waiting touches nothing that an open transaction has deleted
  have apart := World.apart_of_unlocked ready
  cases x with
  | threw e => exact ⟨rfl, touched w.db, apart, .same actor w.db⟩
  | took i =>
    rw [Call.answer_took]
    dsimp only
    cases hf : f i w.db with
    | error e => exact ⟨rfl, touched w.db, apart, .same actor w.db⟩
    | ok r => exact ⟨rfl, touched w.db, apart, effect i _ r.1 r.2 closed hf⟩

theorem affects_cacheGet (key : CacheKey) : (cacheGet key).Calls (Affects actor) := by
  refine calls_call (affects_of_same (.silent rfl) fun x w => ?_)
  cases x <;> exact ⟨rfl, rfl⟩

theorem affects_cacheSet (key : CacheKey) (value : key.Value) (expires : Bool) :
    (cacheSet key value expires).Calls (Affects actor) := by
  refine calls_call (affects_of_same (.silent rfl) fun x w => ?_)
  cases x <;> exact ⟨rfl, rfl⟩

theorem affects_cacheDel (key : CacheKey) : (cacheDel key).Calls (Affects actor) := by
  refine calls_call (affects_of_same (.silent rfl) fun x w => ?_)
  cases x <;> exact ⟨rfl, rfl⟩

theorem affects_acquireLock (key : String) (ttlMs : Nat) :
    (acquireLock key ttlMs).Calls (Affects actor) := by
  refine calls_call (affects_of_same (.silent rfl) fun x w => ?_)
  cases x with
  | threw e => exact ⟨rfl, rfl⟩
  | took i =>
    rw [Call.answer_took]
    dsimp only
    cases w.heldLock key i.now <;> exact ⟨rfl, rfl⟩

theorem affects_releaseLock (key token : String) : (releaseLock key token).Calls (Affects actor) := by
  refine calls_call (affects_of_same (.silent rfl) fun x w => ?_)
  cases x with
  | threw e => exact ⟨rfl, rfl⟩
  | took i =>
    rw [Call.answer_took]
    dsimp only
    split <;> exact ⟨rfl, rfl⟩

theorem affects_randomUUID : randomUUID.Calls (Affects actor) := by
  refine calls_call (affects_of_same (.silent rfl) fun x w => ?_)
  cases x <;> exact ⟨rfl, rfl⟩

theorem affects_responsesParse (request : ProviderRequest) :
    (responsesParse request).Calls (Affects actor) := by
  refine calls_call (affects_of_same (.silent rfl) fun x w => ?_)
  cases x <;> exact ⟨rfl, rfl⟩

theorem affects_withCleanup {body : Promise α} {cleanup : Promise Unit}
    (hbody : body.Calls (Affects actor))
    (hcleanup : cleanup.Calls (Affects actor)) : (withCleanup body cleanup).Calls (Affects actor) := by
  unfold withCleanup
  rw [bind_eq, tryCatch_eq]
  apply calls_bind
  · exact calls_handle hbody fun e => calls_bind hcleanup fun _ => trivial
  · exact fun result => calls_bind hcleanup fun _ => trivial

end Promise

/-! ### The methods that need no memory -/

namespace TasksService

open Promise

variable {actor : Option Uuid}

theorem affects_safeCacheGet (key : CacheKey) : (safeCacheGet key).Calls (Affects actor) :=
  calls_handle (affects_cacheGet key) fun _ => trivial

theorem affects_safeCacheSet (key : CacheKey) (value : key.Value) (expires : Bool) :
    (safeCacheSet key value expires).Calls (Affects actor) :=
  calls_handle (affects_cacheSet key value expires) fun _ => trivial

theorem affects_safeCacheDel (key : CacheKey) : (safeCacheDel key).Calls (Affects actor) :=
  calls_handle (affects_cacheDel key) fun _ => trivial

theorem affects_listVersion : listVersion.Calls (Affects actor) :=
  calls_bind (affects_safeCacheGet _) fun _ => trivial

theorem affects_bumpListCacheVersion : bumpListCacheVersion.Calls (Affects actor) :=
  calls_bind affects_listVersion fun _ => affects_safeCacheSet _ _ _

theorem affects_create (dto : CreateTaskDto) : (create dto).Calls (Affects none) := by
  apply calls_bind
  · refine affects_write fun i db a db' _ h => ?_
    obtain ⟨db'', added, h⟩ := bind_eq_ok h
    cases h
    exact .addShared added ⟨rfl, i, 0, rfl, rfl⟩ rfl
  · exact fun task => calls_bind affects_bumpListCacheVersion fun _ => trivial

theorem affects_createMany (dtos : List CreateTaskDto) :
    (createMany dtos).Calls (Affects none) := by
  apply calls_bind
  · refine affects_write fun i db a db' _ h => ?_
    obtain ⟨db'', added, h⟩ := bind_eq_ok h
    cases h
    refine foldlM_keeps (.same none) .trans (fun x hx b b' h => ?_) added
    obtain ⟨n, hn, rfl⟩ := List.mem_mapIdx.mp hx
    exact .addShared h ⟨rfl, i, n, rfl, rfl⟩ rfl
  · exact fun tasks => calls_bind affects_bumpListCacheVersion fun _ => trivial

theorem affects_createPrivate (userId : Uuid) (title : String) (description : Option String) :
    (createPrivate userId title description).Calls (Affects (some userId)) := by
  refine affects_write fun i db a db' _ h => ?_
  obtain ⟨db'', added, h⟩ := bind_eq_ok h
  cases h
  exact .addTask added ⟨rfl, i, 0, rfl, rfl⟩ (List.mem_singleton_self _) rfl

theorem affects_queryPage (letters : Letters) (query : FindTasksQueryDto) (page limit : Nat) :
    (queryPage letters query page limit).Calls (Affects actor) :=
  calls_bind (calls_par (affects_read _ _ _) (affects_read _ _ _)) fun _ => trivial

theorem affects_findAll (letters : Letters) (query : FindTasksQueryDto) :
    (findAll letters query).Calls (Affects actor) := by
  apply calls_bind affects_listVersion
  intro version
  apply calls_bind (affects_safeCacheGet _)
  intro cached
  cases cached with
  | some page => trivial
  | none =>
    exact calls_bind (affects_queryPage _ _ _ _) fun _ =>
      calls_bind (affects_safeCacheSet _ _ _) fun _ => trivial

theorem affects_cachedTask (id : String) : (cachedTask id).Calls (Affects actor) := by
  apply calls_bind (affects_safeCacheGet _)
  intro cached
  cases cached with
  | some task => trivial
  | none =>
    apply calls_bind (affects_read _ _ _)
    intro found
    cases found with
    | some task => exact calls_bind (affects_safeCacheSet _ _ _) fun _ => trivial
    | none => trivial

theorem affects_findById (id : String) (userId : Option Uuid) :
    (findById id userId).Calls (Affects actor) := by
  apply calls_bind (affects_cachedTask id)
  intro found
  cases found with
  | none => trivial
  | some task =>
    dsimp only
    split
    · trivial
    · trivial

theorem affects_update (id : String) (dto : UpdateTaskDto) :
    (update id dto).Calls (Affects none) := by
  apply calls_handle
  · apply calls_bind
    · refine affects_write fun i db a db' _ h => ?_
      obtain ⟨old, -, -, rfl⟩ := updateRow_ok h
      exact .changeTasks fun _ => rfl
    · intro task
      exact calls_bind (calls_par (affects_safeCacheDel _) affects_bumpListCacheVersion)
        fun _ => trivial
  · intro e
    split
    · trivial
    · trivial

theorem removeRow_delete {id : String} {db db' : Db} (h : removeRow id db = .ok db') :
    db.delete { tasks := [.ofText id] } = .ok db' := by
  unfold removeRow at h
  dsimp only at h
  split at h
  · cases h
  · split at h
    · exact h
    · cases h

theorem affects_remove (id : String) : (remove id).Calls (Affects none) := by
  apply calls_bind
  · apply calls_handle
    · refine affects_write fun i db a db' _ h => ?_
      obtain ⟨db'', removed, h⟩ := bind_eq_ok h
      cases h
      exact .deleteTask (removeRow_delete removed)
    · intro e
      split
      · trivial
      · trivial
  · intro done
    exact calls_bind (calls_par (affects_safeCacheDel _) affects_bumpListCacheVersion)
      fun _ => trivial

end TasksService

namespace RoutinesService

open Promise

variable {actor : Option Uuid}

theorem row_owner {dto : CreateRoutineDto} {userId : Uuid} {i : Input} {a : Routine}
    (h : dto.row userId i = .ok a) : a.userId = userId ∧ a.id = i.uuid 0 := by
  unfold CreateRoutineDto.row at h
  split at h
  · cases h
  · cases h
    exact ⟨rfl, rfl⟩
  · cases h
    exact ⟨rfl, rfl⟩

theorem affects_create (userId : Uuid) (dto : CreateRoutineDto) :
    (create userId dto).Calls (Affects (some userId)) := by
  refine calls_bind (affects_write fun i db a db' _ h => ?_) fun _ => trivial
  obtain ⟨row, hrow, h⟩ := bind_eq_ok h
  obtain ⟨db'', added, h⟩ := bind_eq_ok h
  cases h
  obtain ⟨own, hid⟩ := row_owner hrow
  exact .addRoutine added ⟨rfl, i, 0, rfl, hid.symm⟩ (List.mem_singleton_self _) own

theorem affects_findAll (userId : Uuid) (query : FindRoutinesQueryDto) :
    (findAll userId query).Calls (Affects actor) :=
  calls_bind (calls_par (affects_read _ _ _) (affects_read _ _ _)) fun _ => trivial

theorem affects_findById (userId : Uuid) (id : String) :
    (findById userId id).Calls (Affects actor) := by
  unfold findById
  rw [bind_eq]
  apply calls_bind (affects_read _ _ _)
  intro found
  cases found with
  | some routine => trivial
  | none => trivial

theorem affects_findRecent (userId : Uuid) (days : Nat) :
    (findRecent userId days).Calls (Affects actor) :=
  affects_read _ _ _

theorem owned_user {userId : Uuid} {id : String} {a : Routine} (own : owned userId id a = true) :
    a.userId = userId := by
  unfold owned at own
  rw [Bool.and_eq_true, decide_eq_true_eq, decide_eq_true_eq] at own
  exact own.2

theorem affects_update (userId : Uuid) (id : String) (dto : UpdateRoutineDto) :
    (update userId id dto).Calls (Affects (some userId)) := by
  apply calls_bind
  · refine affects_write fun i db a db' _ h => ?_
    split at h
    · obtain ⟨-, h⟩ := withTexts_eq_ok.mp h
      cases h
      exact .changeRoutines (fun _ => rfl) fun _ own => owned_user own
    · cases h
  · intro count
    dsimp only
    split
    · trivial
    · exact affects_read _ _ _

theorem removeRow_ok {userId : Uuid} {id : String} {db db' : Db}
    (h : removeRow userId id db = .ok db') :
    db.delete { routines := [.ofText id] } = .ok db' ∧
      ∃ a ∈ db.routines.rows, a.id = .ofText id ∧ a.userId = userId := by
  unfold removeRow at h
  split at h
  · cases h
  · split at h
    · next there =>
      obtain ⟨a, ha, own⟩ := List.any_eq_true.mp there
      unfold owned at own
      rw [Bool.and_eq_true, decide_eq_true_eq, decide_eq_true_eq] at own
      exact ⟨h, a, ha, own⟩
    · cases h

theorem affects_remove (userId : Uuid) (id : String) :
    (remove userId id).Calls (Affects (some userId)) := by
  apply calls_handle
  · refine affects_write fun i db a db' _ h => ?_
    obtain ⟨db'', removed, h⟩ := bind_eq_ok h
    cases h
    obtain ⟨deleted, b, hb, hid, own⟩ := removeRow_ok removed
    refine .delete deleted { Db.onlyOf_nothing with routines := fun a ha there => ?_ }
    rw [Table.eq_of_key ha hb ((List.mem_singleton.mp there).trans hid.symm)]
    exact own
  · intro e
    split
    · trivial
    · trivial

theorem affects_findTasks (userId : Uuid) (routineId : String) :
    (findTasks userId routineId).Calls (Affects actor) :=
  calls_bind (affects_findById _ _) fun _ => affects_read _ _ _

theorem affects_assertTasksVisible (userId : Uuid) (taskIds : List String) :
    (assertTasksVisible userId taskIds).Calls (Affects actor) := by
  unfold assertTasksVisible
  rw [bind_eq]
  apply calls_bind (affects_read _ _ _)
  intro visible
  split
  · trivial
  · trivial

theorem affects_nextPosition (routineId : String) :
    (nextPosition routineId).Calls (Affects actor) :=
  calls_bind (affects_read _ _ _) fun _ => trivial

end RoutinesService

namespace PracticeSessionsService

open Promise

variable {actor : Option Uuid}

theorem affects_findAll (userId : Uuid) (query : FindPracticeSessionsQueryDto) :
    (findAll userId query).Calls (Affects actor) :=
  calls_bind (calls_par (affects_read _ _ _) (affects_read _ _ _)) fun _ => trivial

theorem affects_findById (userId : Uuid) (id : String) :
    (findById userId id).Calls (Affects actor) := by
  unfold findById
  rw [bind_eq]
  apply calls_bind (affects_read _ _ _)
  intro found
  cases found with
  | some session => trivial
  | none => trivial

/-- The sessions of a title are the user's. -/
theorem titled_user {userId : Uuid} {title : String} {db : Db} {a : PracticeSession}
    (ha : a ∈ db.practiceSessions.rows) (there : a.id ∈ titled userId title db) :
    a.userId = userId := by
  obtain ⟨b, hb, hid⟩ := List.mem_map.mp there
  obtain ⟨hb, own⟩ := List.mem_filter.mp hb
  rw [Bool.and_eq_true, decide_eq_true_eq] at own
  rw [← Table.eq_of_key hb ha hid]
  exact own.1

/-- The recordings of a session are of the user of the session. -/
theorem titledRecordings_own {userId : Uuid} {db : Db} (closed : db.Closed) (title : String) :
    db.OnlyOf userId (titledRecordings userId title db) := by
  refine { Db.onlyOf_nothing with recordings := fun a ha there => ?_ }
  obtain ⟨b, hb, hid⟩ := List.mem_map.mp there
  obtain ⟨hb, selected⟩ := List.mem_filter.mp hb
  obtain rfl := Table.eq_of_key hb ha hid
  obtain ⟨s, hs, hsession⟩ := Table.has_iff.mp (closed.intact.recordingSession b ha)
  rw [closed.owned.recording b ha s hs hsession]
  exact titled_user hs (hsession ▸ of_decide_eq_true selected)

theorem titledSessionTasks_own {userId : Uuid} {db : Db} (title : String) :
    db.OnlyOf userId (titledSessionTasks userId title db) := by
  refine { Db.onlyOf_nothing with practiceSessionTasks := fun a ha there s hs same => ?_ }
  obtain ⟨b, hb, hkey⟩ := List.mem_map.mp there
  obtain ⟨hb, selected⟩ := List.mem_filter.mp hb
  obtain rfl := Table.eq_of_key hb ha hkey
  exact titled_user hs (same ▸ of_decide_eq_true selected)

theorem titledSessions_own {userId : Uuid} {db : Db} (title : String) :
    db.OnlyOf userId (titledSessions userId title db) :=
  { Db.onlyOf_nothing with practiceSessions := fun _ ha there => titled_user ha there }

theorem deleteRows_effect {userId : Uuid} {title : String} {touched : RowSet} {fresh : Uuid → Prop}
    {db db' : Db} {count : Nat} (closed : db.Closed)
    (h : deleteRows userId title db = .ok (count, db')) :
    Db.Effect touched fresh (some userId) db db' := by
  obtain ⟨d₁, d₂, h₁, h₂, h₃⟩ := deleteRows_ok h
  have recordings : db.OnlyOf userId (titledRecordings userId title db) :=
    titledRecordings_own closed title
  exact .trans (.delete h₁ recordings)
    (.trans (.delete h₂ (titledSessionTasks_own title)) (.delete h₃ (titledSessions_own title)))

theorem affects_deleteByTitle (userId : Uuid) (title : String) :
    (deleteByTitle userId title).Calls (Affects (some userId)) :=
  affects_write fun _ _ _ _ closed h => deleteRows_effect closed h

theorem affects_findRecent (userId : Uuid) (days : Nat) :
    (findRecent userId days).Calls (Affects actor) :=
  affects_read _ _ _

theorem affects_getTaskStats (userId : Uuid) (days : Nat) :
    (getTaskStats userId days).Calls (Affects actor) :=
  affects_read _ _ _

end PracticeSessionsService

namespace GcpStorageService

open Promise

variable {actor : Option Uuid} {name : String}

private theorem affects_storage {β : Type} {c : Call World Input Failure Label β}
    (within : c.label.Within actor)
    (same : ∀ x w, (c.answer x w).2.db = w.db ∧ (c.answer x w).2.txs = w.txs) :
    (Async.Method.call c).Calls (Affects actor) :=
  calls_call (affects_of_same within same)

private theorem within_own {userId : Uuid} {l : Label} (about : l.object? = some name)
    (own : IsUnder userId name) : l.Within (some userId) := by
  intro name' about'
  cases about.symm.trans about'
  exact ⟨userId, rfl, own⟩

variable {userId : Uuid}

theorem affects_uploadObject (own : IsUnder userId name) :
    (uploadObject name).Calls (Affects (some userId)) := by
  apply calls_bind
  · exact affects_storage (.silent rfl) fun x w => by cases x <;> exact ⟨rfl, rfl⟩
  · intro made
    apply affects_withCleanup
    · apply calls_bind
      · exact affects_storage (.silent rfl) fun x w => by cases x <;> exact ⟨rfl, rfl⟩
      · intro written
        exact affects_storage (within_own rfl own) fun x w => by cases x <;> exact ⟨rfl, rfl⟩
    · exact affects_storage (.silent rfl) fun x w => by cases x <;> exact ⟨rfl, rfl⟩

theorem affects_getSignedDownloadUrl (own : IsUnder userId name) (seconds : Nat) :
    (getSignedDownloadUrl name seconds).Calls (Affects (some userId)) :=
  affects_storage (within_own rfl own) fun x w => by cases x <;> exact ⟨rfl, rfl⟩

theorem affects_deleteObject (own : IsUnder userId name) :
    (deleteObject name).Calls (Affects (some userId)) :=
  affects_storage (within_own rfl own) fun x w => by cases x <;> exact ⟨rfl, rfl⟩

end GcpStorageService

namespace RecordingsService

open Promise GcpStorageService

variable {actor : Option Uuid}

theorem affects_findAllForSession (userId : Uuid) (practiceSessionId : String) :
    (findAllForSession userId practiceSessionId).Calls (Affects actor) :=
  calls_bind (PracticeSessionsService.affects_findById _ _) fun _ => affects_read _ _ _

end RecordingsService

namespace AvatarService

open Promise GcpStorageService

variable {actor : Option Uuid}

theorem affects_currentImage (userId : Uuid) : (currentImage userId).Calls (Affects actor) := by
  unfold currentImage
  rw [bind_eq]
  apply calls_bind (affects_read _ _ _)
  intro found
  cases found with
  | some user => trivial
  | none => trivial

theorem affects_deleteQuietly {userId : Uuid} {name : String} (own : IsUnder userId name) :
    (deleteQuietly name).Calls (Affects (some userId)) :=
  calls_handle (affects_deleteObject own) fun _ => trivial

/-- The user's own photo. -/
theorem isUnder_own {userId : Uuid} {image : Option String} {name : String}
    (own : ownAvatarObject userId.text image = some name) : IsUnder userId name := by
  have under := isUnder_of_own own
  rwa [Uuid.ofText_text] at under

theorem affects_swapImage (userId : Uuid) (previous image : Option String) :
    (swapImage userId previous image).Calls (Affects (some userId)) := by
  refine affects_write fun i db a db' _ h => ?_
  cases h
  refine .changeUsers fun a held => ?_
  rw [Bool.and_eq_true, decide_eq_true_eq] at held
  exact held.1

theorem affects_upload (seconds : Nat) (userId : Uuid) (file : UploadedFile) :
    (upload seconds userId file).Calls (Affects (some userId)) := by
  apply calls_bind (affects_currentImage userId)
  intro previous
  apply calls_bind affects_randomUUID
  intro uuid
  have own := isUnder_avatar userId uuid file
  apply calls_bind (affects_uploadObject own)
  intro uploaded
  apply calls_bind
  · apply calls_handle (affects_swapImage _ _ _)
    exact fun e => calls_bind (affects_deleteQuietly own) fun _ => trivial
  · intro count
    dsimp only
    split
    · exact calls_bind (affects_deleteQuietly own) fun _ => trivial
    · cases hname : ownAvatarObject userId.text previous with
      | some name => exact calls_bind (affects_deleteQuietly (isUnder_own hname)) fun _ =>
          affects_getSignedDownloadUrl own _
      | none => exact affects_getSignedDownloadUrl own _

theorem affects_getUrl (seconds : Nat) (userId : Uuid) :
    (getUrl seconds userId).Calls (Affects (some userId)) := by
  apply calls_bind (affects_currentImage userId)
  intro image
  cases hname : ownAvatarObject userId.text image with
  | some name => exact affects_getSignedDownloadUrl (isUnder_own hname) _
  | none => trivial

theorem affects_remove (userId : Uuid) : (remove userId).Calls (Affects (some userId)) := by
  apply calls_bind (affects_currentImage userId)
  intro image
  cases image with
  | none => trivial
  | some image =>
    apply calls_bind (affects_swapImage _ _ _)
    intro count
    cases hname : ownAvatarObject userId.text (some image) with
    | some name => exact affects_deleteQuietly (isUnder_own hname)
    | none => trivial

end AvatarService

theorem WeeklyRoutineCleanupService.affects_run (settings : CleanupSettings) (now : Instant) :
    (run settings now).Calls (Affects none) := by
  unfold run
  cases resolveWeekStart settings now with
  | error e => trivial
  | ok weekStart =>
    refine calls_bind (Promise.affects_write fun i db a db' _ h => ?_) fun _ => trivial
    cases h
    exact .archive _ i.now

namespace AiRoutineCoach

variable {actor : Option Uuid}

theorem affects_getUserTasks (category : Option TaskCategory) :
    (getUserTasks category).Calls (Affects actor) :=
  calls_bind (Promise.affects_read _ _ _) fun _ => trivial

theorem affects_getRecentRoutines (userId : Uuid) (days : Nat) :
    (getRecentRoutines userId days).Calls (Affects actor) :=
  calls_bind (RoutinesService.affects_findRecent _ _) fun _ => trivial

theorem affects_getRecentPracticeSessions (userId : Uuid) (days : Nat) :
    (getRecentPracticeSessions userId days).Calls (Affects actor) :=
  calls_bind (PracticeSessionsService.affects_findRecent _ _) fun _ => trivial

end AiRoutineCoach

end GuitarCoach
