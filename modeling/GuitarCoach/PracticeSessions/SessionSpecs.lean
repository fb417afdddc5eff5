/- digest: What the methods of the session and recording services do, one specification each. -/

import GuitarCoach.PracticeSessions.RecordingsService
import GuitarCoach.Routines.RoutineSpecs

set_option autoImplicit false
set_option relaxedAutoImplicit false

namespace GuitarCoach

open Async (Policy wp onOk wp_bind wp_handle wp_done wp_fail)
open Async.Method (pure_eq throw_eq bind_eq tryCatch_eq)

/-- A delete of an object, or of a local file, can throw. -/
def StorageFails (allowed : Policy World Input Failure Label) : Prop :=
  ∃ l w e, allowed l w (.threw e) ∧ (l = .rm ∨ ∃ name, l = .deleteObject name)

section Specs

variable {allowed : Policy World Input Failure Label} {w : World}

namespace GcpStorageService

theorem wp_uploadObject {name : String} {Q : Except Failure Unit → World → Prop}
    (uploaded : Q (.ok ()) { w with bucket := insert name w.bucket })
    (failed : ∀ e, Q (.error e) w)
    (leaked : StorageFails allowed → ∀ e, Q (.error e) { w with bucket := insert name w.bucket }) :
    wp allowed (uploadObject name) Q w := by
  unfold uploadObject Promise.withCleanup
  simp only [bind_eq, pure_eq, tryCatch_eq, throw_eq, wp_bind, wp_handle, wp_done, wp_fail]
  -- whatever fails before the upload, or in it, the bucket is as it was
  have before : ∀ e, wp allowed rm (onOk (fun _ => Q (.error e)) fun e' => Q (.error e')) w :=
    fun e => Promise.wp_call (fun _ _ => failed e) fun e' _ => failed e'
  refine Promise.wp_call (fun _ _ => ?_) fun e _ => failed e
  dsimp only [onOk]
  refine Promise.wp_call (fun _ _ => ?_) fun e _ => before e
  dsimp only [onOk]
  refine Promise.wp_call (fun _ _ => ?_) fun e _ => before e
  dsimp only [onOk]
  exact Promise.wp_call (fun _ _ => uploaded) fun e he => leaked ⟨_, _, e, he, .inl rfl⟩ e

theorem wp_deleteObject {name : String} {Q : Except Failure Unit → World → Prop}
    (deleted : Q (.ok ()) { w with bucket := w.bucket.erase name })
    (failed : StorageFails allowed → ∀ e, Q (.error e) w) :
    wp allowed (deleteObject name) Q w :=
  Promise.wp_call (fun _ _ => deleted) fun e he => failed ⟨_, _, e, he, .inr ⟨name, rfl⟩⟩ e

end GcpStorageService

namespace PracticeSessionsService

theorem wp_findById {userId : Uuid} {id : String}
    {Q : Except Failure PracticeSessionResponseDto → World → Prop}
    (found : ∀ row ∈ w.db.practiceSessions.rows, owned userId id row = true → ∀ rank,
      Q (.ok (w.db.withSessionTasks rank row)) w)
    (failed : ∀ e, Q (.error e) w) : wp allowed (findById userId id) Q w := by
  unfold findById
  simp only [bind_eq, wp_bind]
  refine Promise.wp_read (fun i _ => ?_) fun e _ => failed e
  cases hf : w.db.practiceSessions.rows.find? (owned userId id) with
  | none => exact failed _
  | some row => exact found row (List.mem_of_find?_eq_some hf) (List.find?_some hf) i.rank

/-- What is checked before a session is saved. -/
structure Checked (userId : Uuid) (dto : CreatePracticeSessionDto) (db : Db) : Prop where
  routine : ∀ routineId, dto.routineId = .value routineId →
    ∃ row ∈ db.routines.rows, RoutinesService.owned userId routineId row = true
  tasks : ∀ task ∈ dto.tasks.toOption.getD [],
    ∃ row ∈ db.tasks.rows, row.id = .ofText task.taskId ∧ visibleTo userId row = true

theorem wp_create {userId : Uuid} {dto : CreatePracticeSessionDto}
    {Q : Except Failure PracticeSessionResponseDto → World → Prop}
    (created : ∀ i response db, Checked userId dto w.db →
      createRows userId dto i w.db = .ok (response, db) → Q (.ok response) { w with db })
    (failed : ∀ e, Q (.error e) w) : wp allowed (create userId dto) Q w := by
  -- the write, once the checks have passed
  have save : ∀ {touched : Db → RowSet} (rethrow : Failure → Promise PracticeSessionResponseDto),
      (∀ e, ∃ e', rethrow e = .fail e') → Checked userId dto w.db →
      wp allowed (Async.Method.handle
        (Promise.write .practiceSession .create touched (createRows userId dto)) rethrow) Q w := by
    intro touched rethrow rethrows checked
    rw [wp_handle]
    have fails : ∀ e, wp allowed (rethrow e) Q w := by
      intro e
      obtain ⟨e', he⟩ := rethrows e
      rw [he]
      exact failed e'
    exact Promise.wp_write (fun i a db _ h => created i a db checked h) (fun _ e _ _ => fails e)
      fun e _ => fails e
  -- the check of the tasks, once that of the routine has passed
  have rest : ∀ m : Promise PracticeSessionResponseDto,
      (Checked userId dto w.db → wp allowed m Q w) → (∀ routineId, dto.routineId = .value routineId →
        ∃ row ∈ w.db.routines.rows, RoutinesService.owned userId routineId row = true) →
      wp allowed (if (dto.tasks.toOption.getD []).map (·.taskId) ≠ [] then
          (RoutinesService.assertTasksVisible userId
            ((dto.tasks.toOption.getD []).map (·.taskId))).bind fun _ => m
        else m) Q w := by
    intro m checked routine
    rw [Async.wp_ite]
    refine ⟨fun _ => ?_, fun none => ?_⟩
    · rw [wp_bind]
      refine RoutinesService.wp_assertTasksVisible (fun visible => ?_) fun e => failed e
      exact checked ⟨routine, fun task htask => visible _ (List.mem_map_of_mem htask)⟩
    · refine checked ⟨routine, fun task htask => ?_⟩
      rw [List.map_eq_nil_iff.mp (not_not.mp none)] at htask
      cases htask
  unfold create
  simp only [bind_eq, tryCatch_eq, throw_eq]
  split
  · next routineId hroutine =>
    rw [wp_bind]
    refine RoutinesService.wp_findById (fun row hrow howned => ?_) fun e => failed e
    refine rest _ (save _ fun e => ?_) fun id hid => ?_
    · split <;> exact ⟨_, rfl⟩
    obtain rfl : routineId = id := by simpa [hroutine] using hid
    exact ⟨row, hrow, howned⟩
  · next other =>
    refine rest _ (save _ fun e => ?_) fun id hid => absurd hid (other id)
    split <;> exact ⟨_, rfl⟩

/-- The session is added first, then its tasks one by one. -/
theorem createRows_ok {userId : Uuid} {dto : CreatePracticeSessionDto} {i : Input} {db db' : Db}
    {response : PracticeSessionResponseDto}
    (h : createRows userId dto i db = .ok (response, db')) :
    ∃ middle, db.insertPracticeSession (dto.row userId i) = .ok middle ∧
      (dto.tasks.toOption.getD []).foldlM
        (fun db a => db.insertPracticeSessionTask (a.row (dto.row userId i).id i)) middle =
          .ok db' := by
  unfold createRows at h
  simp only at h
  split at h
  · cases h
  · rw [ite_eq_iff] at h
    rcases h with ⟨-, h⟩ | ⟨-, h⟩
    · cases h
    · obtain ⟨middle, hsession, h⟩ := bind_eq_ok h
      obtain ⟨db'', htasks, h⟩ := bind_eq_ok h
      cases h
      exact ⟨middle, hsession, htasks⟩

/-- The three deletes of `deleteByTitle`. -/
theorem deleteRows_ok {userId : Uuid} {title : String} {db db' : Db} {count : Nat}
    (h : deleteRows userId title db = .ok (count, db')) :
    ∃ d₁ d₂, db.delete (titledRecordings userId title db) = .ok d₁ ∧
      d₁.delete (titledSessionTasks userId title d₁) = .ok d₂ ∧
        d₂.delete (titledSessions userId title d₂) = .ok db' := by
  obtain ⟨-, h⟩ := withTexts_eq_ok.mp h
  obtain ⟨d₁, h₁, h⟩ := bind_eq_ok h
  obtain ⟨d₂, h₂, h⟩ := bind_eq_ok h
  obtain ⟨d₃, h₃, h⟩ := bind_eq_ok h
  cases h
  exact ⟨d₁, d₂, h₁, h₂, h₃⟩

theorem wp_deleteByTitle {userId : Uuid} {title : String} {Q : Except Failure Nat → World → Prop}
    (deleted : ∀ count db, deleteRows userId title w.db = .ok (count, db) →
      Q (.ok count) { w with db })
    (failed : ∀ e, Q (.error e) w) : wp allowed (deleteByTitle userId title) Q w :=
  Promise.wp_write (fun _ count db _ h => deleted count db h) (fun _ e _ _ => failed e)
    fun e _ => failed e

end PracticeSessionsService

namespace RecordingsService

open GcpStorageService

theorem wp_findOwnedRecording {userId : Uuid} {id : String}
    {Q : Except Failure Recording → World → Prop}
    (found : ∀ row ∈ w.db.recordings.rows, owned userId id row = true → Q (.ok row) w)
    (failed : ∀ e, Q (.error e) w) : wp allowed (findOwnedRecording userId id) Q w := by
  unfold findOwnedRecording
  simp only [bind_eq, wp_bind]
  refine Promise.wp_read (fun i _ => ?_) fun e _ => failed e
  cases hf : w.db.recordings.rows.find? (owned userId id) with
  | none => exact failed _
  | some row => exact found row (List.mem_of_find?_eq_some hf) (List.find?_some hf)

theorem createRow_ok {userId : Uuid} {sessionId name : String} {file : UploadedFile} {i : Input}
    {db db' : Db} {row : Recording}
    (h : createRow userId sessionId name file i db = .ok (row, db')) :
    row = ⟨i.uuid 0, userId, .ofText sessionId, name, file.originalname, file.mimetype,
        file.size, i.now⟩ ∧ db.insertRecording row = .ok db' := by
  unfold createRow at h
  simp only at h
  rw [ite_eq_iff] at h
  rcases h with ⟨-, h⟩ | ⟨-, h⟩
  · obtain ⟨db'', hdb, h⟩ := bind_eq_ok h
    cases h
    exact ⟨rfl, hdb⟩
  · cases h

/-- An upload that fails removes the object it has uploaded. -/
theorem wp_upload {userId : Uuid} {sessionId : String} {file : UploadedFile}
    {Q : Except Failure Recording → World → Prop}
    (created : ∀ (session : PracticeSession) i uuid row db, session ∈ w.db.practiceSessions.rows →
      PracticeSessionsService.owned userId sessionId session = true →
      createRow userId sessionId (objectName userId sessionId uuid file) file i w.db =
        .ok (row, db) →
      Q (.ok row) { w with db, bucket := insert row.objectName w.bucket })
    (failed : ∀ e bucket, StorageFails allowed ∨ bucket ⊆ w.bucket →
      Q (.error e) { w with bucket }) : wp allowed (upload userId sessionId file) Q w := by
  have same : ∀ e, Q (.error e) w := fun e => failed e w.bucket (.inr (Finset.Subset.refl _))
  unfold upload
  simp only [bind_eq, tryCatch_eq, throw_eq, pure_eq, wp_bind, wp_handle]
  refine PracticeSessionsService.wp_findById (fun session hsession howned _ => ?_) same
  dsimp only [onOk]
  refine Promise.wp_call (fun i _ => ?_) fun e _ => same e
  dsimp only [onOk]
  refine wp_uploadObject ?_ same fun leaks e => failed e _ (.inl leaks)
  dsimp only [onOk]
  refine Promise.wp_write (fun j row db _ h => ?_) (fun _ e _ _ => ?_) fun e _ => ?_
  · have hname : row.objectName = objectName userId sessionId (i.uuid 0) file := by
      rw [(createRow_ok h).1]
    have result := created session j (i.uuid 0) row db hsession howned h
    rwa [hname] at result
  all_goals
    refine wp_deleteObject ?_ fun leaks _ => failed e _ (.inl leaks)
    exact failed e _ (.inr (Finset.erase_insert_subset _ _))

/-- The object goes before its row. -/
theorem wp_remove {userId : Uuid} {id : String} {Q : Except Failure Unit → World → Prop}
    (removed : ∀ row ∈ w.db.recordings.rows, ∀ db, removeRow row.id w.db = .ok db →
      Q (.ok ()) { w with db, bucket := w.bucket.erase row.objectName })
    (failed : ∀ e bucket, bucket ⊆ w.bucket → Q (.error e) { w with bucket }) :
    wp allowed (remove userId id) Q w := by
  have same : ∀ e, Q (.error e) w := fun e => failed e w.bucket (Finset.Subset.refl _)
  unfold remove
  simp only [bind_eq, wp_bind]
  refine wp_findOwnedRecording (fun row hrow _ => ?_) same
  dsimp only [onOk]
  refine wp_deleteObject ?_ fun _ e => same e
  dsimp only [onOk]
  refine Promise.wp_write (fun j _ db _ h => ?_)
    (fun _ e _ _ => failed e _ (Finset.erase_subset _ _))
    fun e _ => failed e _ (Finset.erase_subset _ _)
  obtain ⟨db', hdb, h⟩ := bind_eq_ok h
  cases h
  exact removed row hrow db hdb

end RecordingsService

end Specs

end GuitarCoach
