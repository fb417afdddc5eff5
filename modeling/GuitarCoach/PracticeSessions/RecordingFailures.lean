/- digest: What uploads and removes of recordings leave behind, whichever of their steps fail. -/

import GuitarCoach.Async.History
import GuitarCoach.PracticeSessions.SessionSpecs

set_option autoImplicit false
set_option relaxedAutoImplicit false

namespace GuitarCoach.RecordingsService

open Async (Answer Cue Ends History Policy Served states wp onOk wp_bind wp_handle wp_done wp_fail wp_ends)
open Async.Method (pure_eq throw_eq bind_eq tryCatch_eq)
open Relational (Table)
open GcpStorageService

/-- The steps of an upload or of a remove that can fail. -/
inductive Step
  | findSession
  | mkdtemp
  | writeFile
  | bucketUpload
  | rm
  | createRow
  | deleteObject
  | findRow
  | deleteRow
deriving DecidableEq

/-- The step that a call is, in an upload or a remove. -/
def step? : Label → Option Step
  | .db .practiceSession .findFirst => some .findSession
  | .mkdtemp => some .mkdtemp
  | .writeFile => some .writeFile
  | .uploadObject _ => some .bucketUpload
  | .rm => some .rm
  | .db .recording .create => some .createRow
  | .deleteObject _ => some .deleteObject
  | .db .recording .findFirst => some .findRow
  | .db .recording .delete => some .deleteRow
  | _ => none

/-- The steps that fail in one request, with what they throw: no exception of the API. -/
structure Faults where
  thrown : Step → Option Failure
  foreign : ∀ s status message, thrown s ≠ some (.http status message)

namespace Faults

def Fails (faults : Faults) (s : Step) : Prop := faults.thrown s ≠ none

/-- The object is in the bucket when it comes to the clean-up of the temporary file. -/
structure Stores (faults : Faults) : Prop where
  findSession : ¬faults.Fails .findSession
  mkdtemp : ¬faults.Fails .mkdtemp
  writeFile : ¬faults.Fails .writeFile
  bucketUpload : ¬faults.Fails .bucketUpload

/-- The `deleteObject` that compensates for a row that is not created fails. -/
structure CompensationFails (faults : Faults) : Prop where
  stores : faults.Stores
  rm : ¬faults.Fails .rm
  deleteObject : faults.Fails .deleteObject

/-- No step of a remove fails. -/
structure Spares (faults : Faults) : Prop where
  findRow : ¬faults.Fails .findRow
  deleteObject : ¬faults.Fails .deleteObject
  deleteRow : ¬faults.Fails .deleteRow

end Faults

/-- No object and no row has a name with this id. -/
def NewName (w : World) (uuid : Uuid) : Prop :=
  ∀ userId sessionId file, objectName userId sessionId uuid file ∉ w.bucket ∧
    ∀ row ∈ w.db.recordings.rows, row.objectName ≠ objectName userId sessionId uuid file

/-- Exactly these steps fail, and ids are generated only once. -/
def failing (faults : Faults) : Policy World Input Failure Label
  | l, w, .took i =>
      (step? l).bind faults.thrown = none ∧ (l = .randomUUID → NewName w (i.uuid 0))
  | l, _, .threw e => (step? l).bind faults.thrown = some e

/-- The clean-up of the temporary file fails when the object is in the bucket already. -/
structure LosesObject (faults : Faults) (userId : Uuid) (sessionId : String) (db : Db) : Prop where
  session : ∃ row ∈ db.practiceSessions.rows,
    PracticeSessionsService.owned userId sessionId row = true
  stores : faults.Stores
  rm : faults.Fails .rm

/-- What one upload does. -/
inductive UploadEffect (faults : Faults) (userId : Uuid) (sessionId : String) (w : World) :
    Except Failure Recording → World → Prop
  | created (row : Recording) (db : Db) (new : row.objectName ∉ w.bucket)
      (other : ∀ a ∈ w.db.recordings.rows, a.objectName ≠ row.objectName)
      (rows : db.recordings.rows = w.db.recordings.rows ++ [row])
      (rm : ¬faults.Fails .rm) :
      UploadEffect faults userId sessionId w (.ok row)
        { w with db, bucket := insert row.objectName w.bucket }
  | nothing (e : Failure) (kept : ¬LosesObject faults userId sessionId w.db) :
      UploadEffect faults userId sessionId w (.error e) w
  | uncompensated (e : Failure) (name : String) (new : name ∉ w.bucket)
      (failed : faults.CompensationFails) :
      UploadEffect faults userId sessionId w (.error e)
        { w with bucket := insert name w.bucket }
  | lost (e : Failure) (name : String) (new : name ∉ w.bucket)
      (loses : LosesObject faults userId sessionId w.db) :
      UploadEffect faults userId sessionId w (.error e)
        { w with bucket := insert name w.bucket }

/-- What one remove does. -/
inductive RemoveEffect (faults : Faults) (userId : Uuid) (id : String) (w : World) :
    Except Failure Unit → World → Prop
  | removed (row : Recording) (db : Db) (here : row ∈ w.db.recordings.rows)
      (own : owned userId id row = true)
      (rows : db.recordings.rows = w.db.recordings.rows.filter (·.id ≠ row.id)) :
      RemoveEffect faults userId id w (.ok ())
        { w with db, bucket := w.bucket.erase row.objectName }
  | notFound (none : ∀ row ∈ w.db.recordings.rows, owned userId id row = false) :
      RemoveEffect faults userId id w (.error (recordingNotFound id)) w
  | failed (e : Failure) (foreign : e ≠ recordingNotFound id) (fails : ¬faults.Spares) :
      RemoveEffect faults userId id w (.error e) w
  | rowKept (row : Recording) (e : Failure) (here : row ∈ w.db.recordings.rows)
      (own : owned userId id row = true) (foreign : e ≠ recordingNotFound id)
      (findRow : ¬faults.Fails .findRow) (deleteObject : ¬faults.Fails .deleteObject)
      (deleteRow : faults.Fails .deleteRow) :
      RemoveEffect faults userId id w (.error e)
        { w with bucket := w.bucket.erase row.objectName }

section Specs

variable {faults : Faults} {w : World}

private theorem Faults.of_thrown {s : Step} {e : Failure} (thrown : faults.thrown s = some e) :
    faults.Fails s := by
  intro none
  rw [thrown] at none
  cases none

private theorem not_fails {s : Step} (took : faults.thrown s = none) : ¬faults.Fails s :=
  fun fails => fails took

private theorem foreign_error {s : Step} {e : Failure} {id : String}
    (thrown : faults.thrown s = some e) : e ≠ recordingNotFound id := by
  rintro rfl
  exact faults.foreign s _ _ thrown

/-- What is done with an object that is not in the bucket yet. -/
theorem failing_uploadObject {name : String} {Q : Except Failure Unit → World → Prop}
    (uploaded : ¬faults.Fails .mkdtemp → ¬faults.Fails .writeFile →
      ¬faults.Fails .bucketUpload → ¬faults.Fails .rm →
        Q (.ok ()) { w with bucket := insert name w.bucket })
    (failed : ∀ e, faults.Fails .mkdtemp ∨ faults.Fails .writeFile ∨
      faults.Fails .bucketUpload → Q (.error e) w)
    (lost : ∀ e, ¬faults.Fails .mkdtemp → ¬faults.Fails .writeFile →
      ¬faults.Fails .bucketUpload → faults.Fails .rm →
        Q (.error e) { w with bucket := insert name w.bucket }) :
    wp (failing faults) (uploadObject name) Q w := by
  unfold uploadObject Promise.withCleanup
  simp only [bind_eq, pure_eq, tryCatch_eq, throw_eq, wp_bind, wp_handle, wp_done, wp_fail]
  have cleaned : ∀ e, faults.Fails .mkdtemp ∨ faults.Fails .writeFile ∨
      faults.Fails .bucketUpload →
        wp (failing faults) rm (onOk (fun _ => Q (.error e)) fun e' => Q (.error e')) w :=
    fun e why => Promise.wp_call (fun _ _ => failed e why) fun e' _ => failed e' why
  refine Promise.wp_call (fun _ tempDir => ?_) fun e thrown =>
    failed e (.inl (Faults.of_thrown thrown))
  dsimp only [onOk]
  refine Promise.wp_call (fun _ written => ?_) fun e thrown =>
    cleaned e (.inr (.inl (Faults.of_thrown thrown)))
  dsimp only [onOk]
  refine Promise.wp_call (fun _ stored => ?_) fun e thrown =>
    cleaned e (.inr (.inr (Faults.of_thrown thrown)))
  dsimp only [onOk]
  have mkdtemp := not_fails tempDir.1
  have writeFile := not_fails written.1
  have bucketUpload := not_fails stored.1
  exact Promise.wp_call (fun _ cleaned => uploaded mkdtemp writeFile bucketUpload
      (not_fails cleaned.1))
    fun e thrown => lost e mkdtemp writeFile bucketUpload (Faults.of_thrown thrown)

theorem failing_upload {userId : Uuid} {sessionId : String} {file : UploadedFile} :
    wp (failing faults) (upload userId sessionId file)
      (UploadEffect faults userId sessionId w) w := by
  unfold upload PracticeSessionsService.findById
  simp only [bind_eq, tryCatch_eq, throw_eq, pure_eq, wp_bind, wp_handle]
  refine Promise.wp_read (fun i took => ?_) fun e thrown =>
    .nothing e fun loses => loses.stores.findSession (Faults.of_thrown thrown)
  have findSession := not_fails took.1
  cases hf : w.db.practiceSessions.rows.find? (PracticeSessionsService.owned userId sessionId) with
  | none =>
    refine .nothing _ fun loses => ?_
    obtain ⟨row, hrow, own⟩ := loses.session
    exact List.find?_eq_none.mp hf row hrow own
  | some session =>
  have found : ∃ row ∈ w.db.practiceSessions.rows,
      PracticeSessionsService.owned userId sessionId row = true :=
    ⟨session, List.mem_of_find?_eq_some hf, List.find?_some hf⟩
  dsimp only [onOk, Option.map_some, wp_done]
  refine Promise.wp_call (fun i new => ?_) fun e thrown => by cases thrown
  have new := new.2 rfl userId sessionId file
  dsimp only [onOk]
  apply failing_uploadObject
  · intro mkdtemp writeFile bucketUpload rm
    have kept : ¬LosesObject faults userId sessionId w.db := fun loses => rm loses.rm
    have stores : faults.Stores := ⟨findSession, mkdtemp, writeFile, bucketUpload⟩
    -- the row is not created, and the delete of its object takes effect or not
    have compensated : ∀ e bucket, bucket = insert (objectName userId sessionId (i.uuid 0) file)
        w.bucket → wp (failing faults) (deleteObject (objectName userId sessionId (i.uuid 0) file))
        (onOk (fun _ => UploadEffect faults userId sessionId w (.error e)) fun _ =>
          UploadEffect faults userId sessionId w (.error e)) { w with bucket } := by
      rintro e bucket rfl
      refine Promise.wp_call (fun _ _ => ?_) fun _ thrown => ?_
      · dsimp only [onOk]
        rw [Finset.erase_insert new.1]
        exact .nothing e kept
      · exact .uncompensated e _ new.1 ⟨stores, rm, Faults.of_thrown thrown⟩
    dsimp only [onOk]
    refine Promise.wp_write (fun j row db _ created => ?_) (fun _ e _ _ => compensated e _ rfl)
      fun e _ => compensated e _ rfl
    obtain ⟨hrow, inserted⟩ := createRow_ok created
    obtain ⟨recordings, rfl, rows, -⟩ := Db.insertRecording_ok inserted
    have name : row.objectName = objectName userId sessionId (i.uuid 0) file := by rw [hrow]
    rw [← name] at new ⊢
    exact .created row _ new.1 new.2 rows rm
  · intro e fails
    refine .nothing e fun loses => ?_
    rcases fails with mkdtemp | writeFile | bucketUpload
    · exact loses.stores.mkdtemp mkdtemp
    · exact loses.stores.writeFile writeFile
    · exact loses.stores.bucketUpload bucketUpload
  · intro e mkdtemp writeFile bucketUpload rm
    exact .lost e _ new.1 ⟨found, ⟨findSession, mkdtemp, writeFile, bucketUpload⟩, rm⟩

/-- A row that is there can be deleted: nothing refers to a recording. -/
theorem removeRow_eq {id : Uuid} {db : Db} (here : db.recordings.has id = true) :
    removeRow id db = .ok (db.without { recordings := [id] }) := by
  have free : (db.without { recordings := [id] }).references { recordings := [id] } = false := by
    simp [Db.references]
  unfold removeRow Db.delete
  rw [if_pos here, free]
  rfl

theorem failing_remove {userId : Uuid} {id : String} :
    wp (failing faults) (remove userId id) (RemoveEffect faults userId id w) w := by
  unfold remove findOwnedRecording
  simp only [bind_eq, throw_eq, pure_eq, wp_bind]
  refine Promise.wp_read (fun i took => ?_) fun e thrown =>
    .failed e (foreign_error thrown) fun spares => spares.findRow (Faults.of_thrown thrown)
  have findRow := not_fails took.1
  cases hf : w.db.recordings.rows.find? (owned userId id) with
  | none =>
    refine .notFound fun row hrow => ?_
    have other := List.find?_eq_none.mp hf row hrow
    simpa using other
  | some row =>
  have here := List.mem_of_find?_eq_some hf
  have own := List.find?_some hf
  dsimp only [onOk, wp_done]
  refine Promise.wp_call (fun _ erased => ?_) fun e thrown =>
    .failed e (foreign_error thrown) fun spares => spares.deleteObject (Faults.of_thrown thrown)
  have deleteObject := not_fails erased.1
  have deleted : removeRow row.id w.db = .ok (w.db.without { recordings := [row.id] }) :=
    removeRow_eq (Table.has_iff.mpr ⟨row, here, rfl⟩)
  dsimp only [onOk]
  refine Promise.wp_write (fun j _ db _ written => ?_) (fun _ e _ written => ?_) fun e thrown =>
    .rowKept row e here own (foreign_error thrown) findRow deleteObject (Faults.of_thrown thrown)
  · rw [deleted] at written
    cases written
    refine .removed row _ here own ?_
    simp [Db.without]
  · rw [deleted] at written
    cases written

end Specs

/-! ### Runs -/

inductive RecordingCall
  | upload (userId : Uuid) (practiceSessionId : String) (file : UploadedFile)
  | remove (userId : Uuid) (id : String)

/-- An upload answers with its row, a remove with nothing. -/
def RecordingCall.run : RecordingCall → Promise (Option Recording)
  | upload userId practiceSessionId file => do
    return some (← RecordingsService.upload userId practiceSessionId file)
  | remove userId id => do
    let _ ← RecordingsService.remove userId id
    return none

abbrev ServedCall := Served World Failure Faults fun _ : RecordingCall => Option Recording

/-- What else the backend does leaves recordings and objects alone. -/
structure Apart (w w' : World) : Prop where
  recordings : w'.db.recordings.rows = w.db.recordings.rows
  bucket : w'.bucket = w.bucket

/-- Uploads and removes one at a time, each with steps of its own that fail. -/
abbrev Runs (start : World) (calls : List ServedCall) (w : World) : Prop :=
  History RecordingCall.run failing Apart start calls w

/-- Every row has an object of its own. -/
structure Sound (w : World) : Prop where
  stored : ∀ row ∈ w.db.recordings.rows, row.objectName ∈ w.bucket
  distinct : ∀ a ∈ w.db.recordings.rows, ∀ b ∈ w.db.recordings.rows,
    a.objectName = b.objectName → a = b

/-- The call is a remove of the row that fails when the object is gone and the row is not. -/
structure KeepsRow (c : ServedCall) (row : Recording) : Prop where
  request : ∃ id, c.request = .remove row.userId id ∧ owned row.userId id row = true
  here : row ∈ c.before.db.recordings.rows
  findRow : ¬c.mode.Fails .findRow
  deleteObject : ¬c.mode.Fails .deleteObject
  deleteRow : c.mode.Fails .deleteRow

/-- The call is no upload whose clean-up fails when the object is in the bucket already. -/
def KeepsObject (c : ServedCall) : Prop :=
  ∀ userId sessionId file, c.request = .upload userId sessionId file →
    ¬LosesObject c.mode userId sessionId c.before.db

/-- Failures leave little behind, and what they leave can be removed. -/
structure Bounded (start : World) (calls : List ServedCall) (w : World) : Prop where
  named : ∀ row ∈ w.db.recordings.rows, ∃ v ∈ start :: states calls, row.objectName ∈ v.bucket
  upload : ∀ c ∈ calls, ∀ userId sessionId file e, c.request = .upload userId sessionId file →
    c.result = .error e → c.after.db = c.before.db ∧
      ∀ o ∈ c.after.bucket, o ∉ c.before.bucket → c.mode.CompensationFails
  gone : ∀ row ∈ w.db.recordings.rows, row.objectName ∉ w.bucket → ∃ c ∈ calls, KeepsRow c row
  retry : ∀ row ∈ w.db.recordings.rows, ∀ id, owned row.userId id row = true →
    ∀ retries w', Runs w retries w' → (∀ c ∈ retries, c.request = .remove row.userId id) →
      (∀ c ∈ retries, row ∈ c.before.db.recordings.rows →
        c.result ≠ .error (recordingNotFound id)) ∧
      ((∃ c ∈ retries, c.mode.Spares) → row ∉ w'.db.recordings.rows)

section Runs

variable {start w w' : World} {calls : List ServedCall} {faults : Faults}

/-! ### The calls of a run -/

private theorem upload_served {userId : Uuid} {sessionId : String} {file : UploadedFile}
    {result : Except Failure (Option Recording)}
    (ends : Ends (failing faults) (RecordingCall.upload userId sessionId file).run w result w') :
    ∃ r, result = Except.map some r ∧ UploadEffect faults userId sessionId w r w' := by
  refine wp_ends (Q := fun result w' => ∃ r, result = Except.map some r ∧
    UploadEffect faults userId sessionId w r w') ?_ ends
  unfold RecordingCall.run
  simp only [bind_eq, pure_eq, wp_bind, wp_done]
  refine Async.wp_mono failing_upload fun r v effect => ?_
  cases r with
  | ok row => exact ⟨.ok row, rfl, effect⟩
  | error e => exact ⟨.error e, rfl, effect⟩

private theorem remove_served {userId : Uuid} {id : String}
    {result : Except Failure (Option Recording)}
    (ends : Ends (failing faults) (RecordingCall.remove userId id).run w result w') :
    ∃ r, result = Except.map (fun _ => none) r ∧ RemoveEffect faults userId id w r w' := by
  refine wp_ends (Q := fun result w' => ∃ r, result = Except.map (fun _ => none) r ∧
    RemoveEffect faults userId id w r w') ?_ ends
  unfold RecordingCall.run
  simp only [bind_eq, pure_eq, wp_bind, wp_done]
  refine Async.wp_mono failing_remove fun r v effect => ?_
  cases r with
  | ok row => exact ⟨.ok row, rfl, effect⟩
  | error e => exact ⟨.error e, rfl, effect⟩

private theorem owner_of_owned {userId : Uuid} {id : String} {row : Recording}
    (own : owned userId id row = true) : row.userId = userId := by
  simp only [owned, Bool.and_eq_true, decide_eq_true_eq] at own
  exact own.2

/-- What a run keeps: every row has a name of its own, was stored, and its object is there
unless a remove has kept the row. -/
private structure Accounted (start : World) (calls : List ServedCall) (w : World) : Prop where
  distinct : ∀ a ∈ w.db.recordings.rows, ∀ b ∈ w.db.recordings.rows,
    a.objectName = b.objectName → a = b
  named : ∀ row ∈ w.db.recordings.rows, ∃ v ∈ start :: states calls, row.objectName ∈ v.bucket
  gone : ∀ row ∈ w.db.recordings.rows, row.objectName ∉ w.bucket → ∃ c ∈ calls, KeepsRow c row

namespace Accounted

/-- A call that adds no row, and takes no object from a row it keeps but in a way that counts. -/
private theorem fewer {c : ServedCall} (accounted : Accounted start calls c.before)
    (rows : c.after.db.recordings.rows ⊆ c.before.db.recordings.rows)
    (objects : ∀ row ∈ c.after.db.recordings.rows, row.objectName ∈ c.before.bucket →
      row.objectName ∉ c.after.bucket → KeepsRow c row) :
    Accounted start (calls ++ [c]) c.after where
  distinct a ha b hb := accounted.distinct a (rows ha) b (rows hb)
  named row hrow := by
    obtain ⟨v, hv, stored⟩ := accounted.named row (rows hrow)
    refine ⟨v, ?_, stored⟩
    rw [states, List.flatMap_append, ← List.cons_append]
    exact List.mem_append_left _ hv
  gone row hrow missing := by
    by_cases before : row.objectName ∈ c.before.bucket
    · exact ⟨c, List.mem_append_right _ (List.mem_singleton_self c), objects row hrow before missing⟩
    · obtain ⟨d, hd, keeps⟩ := accounted.gone row (rows hrow) before
      exact ⟨d, List.mem_append_left _ hd, keeps⟩

/-- An upload that adds its row. -/
private theorem more {c : ServedCall} {row : Recording} (accounted : Accounted start calls c.before)
    (rows : c.after.db.recordings.rows = c.before.db.recordings.rows ++ [row])
    (bucket : c.after.bucket = insert row.objectName c.before.bucket)
    (other : ∀ a ∈ c.before.db.recordings.rows, a.objectName ≠ row.objectName) :
    Accounted start (calls ++ [c]) c.after := by
  have cases : ∀ a ∈ c.after.db.recordings.rows, a ∈ c.before.db.recordings.rows ∨ a = row := by
    intro a ha
    rw [rows] at ha
    exact (List.mem_append.mp ha).imp_right List.mem_singleton.mp
  refine ⟨fun a ha b hb same => ?_, fun a ha => ?_, fun a ha missing => ?_⟩
  · rcases cases a ha with olda | rfl
    · rcases cases b hb with oldb | rfl
      · exact accounted.distinct a olda b oldb same
      · exact absurd same (other a olda)
    · rcases cases b hb with oldb | rfl
      · exact absurd same.symm (other b oldb)
      · rfl
  · have last : c.after ∈ states (calls ++ [c]) := by simp [states]
    rcases cases a ha with old | rfl
    · obtain ⟨v, hv, stored⟩ := accounted.named a old
      refine ⟨v, ?_, stored⟩
      rw [states, List.flatMap_append, ← List.cons_append]
      exact List.mem_append_left _ hv
    · exact ⟨c.after, List.mem_cons_of_mem _ last, bucket ▸ Finset.mem_insert_self _ _⟩
  · rw [bucket] at missing
    rcases cases a ha with old | rfl
    · obtain ⟨d, hd, keeps⟩ := accounted.gone a old fun here =>
        missing (Finset.mem_insert_of_mem here)
      exact ⟨d, List.mem_append_left _ hd, keeps⟩
    · exact absurd (Finset.mem_insert_self _ _) missing

private theorem uploaded {userId : Uuid} {sessionId : String} {r : Except Failure Recording}
    (accounted : Accounted start calls w) (effect : UploadEffect faults userId sessionId w r w')
    (request : RecordingCall) (result : Except Failure (Option Recording)) :
    Accounted start (calls ++ [⟨faults, request, result, w, w'⟩]) w' := by
  cases effect with
  | created row db new other rows rm =>
    exact accounted.more (c := ⟨faults, request, result, w, _⟩) rows rfl other
  | nothing e kept =>
    exact accounted.fewer (c := ⟨faults, request, result, w, _⟩) (List.Subset.refl _)
      fun _ _ here missing => absurd here missing
  | uncompensated e name new failed =>
    exact accounted.fewer (c := ⟨faults, request, result, w, _⟩) (List.Subset.refl _)
      fun _ _ here missing => absurd (Finset.mem_insert_of_mem here) missing
  | lost e name new loses =>
    exact accounted.fewer (c := ⟨faults, request, result, w, _⟩) (List.Subset.refl _)
      fun _ _ here missing => absurd (Finset.mem_insert_of_mem here) missing

private theorem removed {userId : Uuid} {id : String} {r : Except Failure Unit}
    (accounted : Accounted start calls w) (effect : RemoveEffect faults userId id w r w')
    (result : Except Failure (Option Recording)) :
    Accounted start (calls ++ [⟨faults, .remove userId id, result, w, w'⟩]) w' := by
  cases effect with
  | removed row db here own rows =>
    refine accounted.fewer (c := ⟨faults, _, result, w, _⟩) (fun a ha => ?_)
      fun a ha stored missing => ?_
    · dsimp only at ha
      rw [rows] at ha
      exact List.mem_of_mem_filter ha
    · -- the object that is gone is that of the row that is gone
      dsimp only at ha stored missing
      rw [rows] at ha
      obtain ⟨ha, other⟩ := List.mem_filter.mp ha
      have same : a.objectName = row.objectName := by
        by_contra differ
        exact missing (Finset.mem_erase.mpr ⟨differ, stored⟩)
      rw [accounted.distinct a ha row here same] at other
      simp at other
  | notFound none =>
    exact accounted.fewer (c := ⟨faults, _, result, w, _⟩) (List.Subset.refl _)
      fun _ _ here missing => absurd here missing
  | failed e foreign fails =>
    exact accounted.fewer (c := ⟨faults, _, result, w, _⟩) (List.Subset.refl _)
      fun _ _ here missing => absurd here missing
  | rowKept row e here own foreign findRow deleteObject deleteRow =>
    refine accounted.fewer (c := ⟨faults, _, result, w, _⟩) (List.Subset.refl _)
      fun a ha stored missing => ?_
    dsimp only at ha stored missing
    have same : a.objectName = row.objectName := by
      by_contra differ
      exact missing (Finset.mem_erase.mpr ⟨differ, stored⟩)
    obtain rfl := accounted.distinct a ha row here same
    obtain rfl := owner_of_owned own
    exact ⟨⟨id, rfl, own⟩, ha, findRow, deleteObject, deleteRow⟩

end Accounted

private theorem accounted_of_runs (runs : Runs start calls w) (sound : Sound start) :
    Accounted start calls w := by
  induction runs with
  | idle =>
    exact ⟨sound.distinct, fun row hrow => ⟨start, List.mem_cons_self, sound.stored row hrow⟩,
      fun row hrow missing => absurd (sound.stored row hrow) missing⟩
  | serve faults request result sofar ends ih =>
    cases request with
    | upload userId sessionId file =>
      obtain ⟨r, -, effect⟩ := upload_served ends
      exact ih.uploaded effect _ _
    | remove userId id =>
      obtain ⟨r, -, effect⟩ := remove_served ends
      exact ih.removed effect _
  | pause sofar apart ih =>
    refine ⟨?_, ?_, ?_⟩
    · rw [apart.recordings]
      exact ih.distinct
    · rw [apart.recordings]
      exact ih.named
    · rw [apart.recordings, apart.bucket]
      exact ih.gone

/-! ### Retries -/

private theorem remove_of_owned {userId : Uuid} {id : String} {r : Except Failure Unit}
    {row : Recording} (here : row ∈ w.db.recordings.rows) (own : owned userId id row = true)
    (effect : RemoveEffect faults userId id w r w') :
    r ≠ .error (recordingNotFound id) ∧ (faults.Spares → row ∉ w'.db.recordings.rows) := by
  cases effect with
  | removed found db here' own' rows =>
    refine ⟨nofun, fun _ there => ?_⟩
    dsimp only at there
    rw [rows] at there
    have same : row.id = found.id := by
      simp only [owned, Bool.and_eq_true, decide_eq_true_eq] at own own'
      rw [own.1, own'.1]
    simp [same] at there
  | notFound none => exact absurd own (by simp [none row here])
  | failed e foreign fails =>
    exact ⟨fun same => foreign (Except.error.inj same), fun spares => absurd spares fails⟩
  | rowKept found e here' own' foreign findRow deleteObject deleteRow =>
    exact ⟨fun same => foreign (Except.error.inj same), fun spares => absurd deleteRow spares.deleteRow⟩

private theorem remove_adds_nothing {userId : Uuid} {id : String} {r : Except Failure Unit}
    (effect : RemoveEffect faults userId id w r w') :
    w'.db.recordings.rows ⊆ w.db.recordings.rows := by
  cases effect with
  | removed row db here own rows =>
    intro a ha
    dsimp only at ha
    rw [rows] at ha
    exact List.mem_of_mem_filter ha
  | notFound none => exact List.Subset.refl _
  | failed e foreign fails => exact List.Subset.refl _
  | rowKept row e here own foreign findRow deleteObject deleteRow => exact List.Subset.refl _

/-- A remove none of whose steps fails deletes the row, however many removes fail before. -/
private theorem row_gone {userId : Uuid} {id : String} {row : Recording}
    (own : owned userId id row = true) (runs : Runs start calls w)
    (removes : ∀ c ∈ calls, c.request = .remove userId id) :
    (∃ c ∈ calls, c.mode.Spares) → row ∉ w.db.recordings.rows := by
  induction runs with
  | idle => simp
  | @serve past s s' faults request result sofar ends ih =>
    rintro ⟨c, hc, spares⟩ there
    have same : request = .remove userId id :=
      removes _ (List.mem_append_right _ (List.mem_singleton_self _))
    subst same
    obtain ⟨r, -, effect⟩ := remove_served ends
    have before := remove_adds_nothing effect there
    rcases List.mem_append.mp hc with earlier | last
    · exact ih (fun c hc => removes c (List.mem_append_left _ hc)) ⟨c, earlier, spares⟩ before
    · rw [List.mem_singleton.mp last] at spares
      exact (remove_of_owned before own effect).2 spares there
  | pause sofar apart ih =>
    rw [apart.recordings]
    exact ih removes

private theorem retried {row : Recording} {id : String} (own : owned row.userId id row = true)
    {retries : List ServedCall} (runs : Runs w retries w')
    (removes : ∀ c ∈ retries, c.request = .remove row.userId id) :
    (∀ c ∈ retries, row ∈ c.before.db.recordings.rows →
      c.result ≠ .error (recordingNotFound id)) ∧
    ((∃ c ∈ retries, c.mode.Spares) → row ∉ w'.db.recordings.rows) := by
  refine ⟨fun c hc here same => ?_, row_gone own runs removes⟩
  have ends := runs.ends c hc
  rw [removes c hc] at ends
  obtain ⟨r, result, effect⟩ := remove_served ends
  refine (remove_of_owned here own effect).1 ?_
  rw [result] at same
  cases r with
  | ok _ => cases same
  | error e => exact congrArg Except.error (Except.error.inj same)

/-! ### What a failed upload leaves behind -/

private theorem upload_failed {userId : Uuid} {sessionId : String} {e : Failure}
    (effect : UploadEffect faults userId sessionId w (.error e) w') : w'.db = w.db ∧
      ((∀ o ∈ w'.bucket, o ∉ w.bucket → faults.CompensationFails) ↔
        ¬LosesObject faults userId sessionId w.db) := by
  cases effect with
  | nothing e kept => exact ⟨rfl, iff_of_true (fun o here new => absurd here new) kept⟩
  | uncompensated e name new failed =>
    exact ⟨rfl, iff_of_true (fun _ _ _ => failed) fun loses => failed.rm loses.rm⟩
  | lost e name new loses =>
    refine ⟨rfl, iff_of_false (fun bounded => ?_) (not_not.mpr loses)⟩
    exact (bounded name (Finset.mem_insert_self _ _) new).rm loses.rm

private theorem upload_ok {userId : Uuid} {sessionId : String} {row : Recording}
    (effect : UploadEffect faults userId sessionId w (.ok row) w') :
    ¬LosesObject faults userId sessionId w.db := by
  cases effect with
  | created row db new other rows rm => exact fun loses => rm loses.rm

/-- Failures are bounded exactly in the runs in which no clean-up of a temporary file fails when
the object is in the bucket already. -/
theorem failures_bounded_iff (runs : Runs start calls w) (sound : Sound start) :
    Bounded start calls w ↔ ∀ c ∈ calls, KeepsObject c := by
  have accounted := accounted_of_runs runs sound
  constructor
  · rintro bounded c hc userId sessionId file request
    have ends := runs.ends c hc
    rw [request] at ends
    obtain ⟨r, result, effect⟩ := upload_served ends
    cases r with
    | ok row => exact upload_ok effect
    | error e =>
      have left := bounded.upload c hc userId sessionId file e request result
      exact (upload_failed effect).2.mp left.2
  · intro keeps
    refine ⟨accounted.named, fun c hc userId sessionId file e request failed => ?_, accounted.gone,
      fun row _ id own retries w' again removes => retried own again removes⟩
    have ends := runs.ends c hc
    rw [request] at ends
    obtain ⟨r, result, effect⟩ := upload_served ends
    rw [failed] at result
    cases r with
    | ok row => cases result
    | error e' =>
      have upload := upload_failed effect
      exact ⟨upload.1, upload.2.mpr (keeps c hc userId sessionId file request)⟩

end Runs

section Sample

private def practised : World :=
  { World.signedUp with
    db := { World.signedUp.db with
      practiceSessions := ⟨[⟨firstId, alice, none, none, none, 0, 0⟩], by decide⟩ } }

private def audio : UploadedFile := ⟨"take.mp3", "audio/mpeg", 3⟩

/-- Only the clean-up of the temporary file fails. -/
private def rmFails : Faults where
  thrown s := if s = .rm then some (.unexpected "EBUSY") else none
  foreign s status message same := by
    split at same
    · cases same
    · cases same

private def rmFailsBy : Label → World → Answer Input Failure → Bool
  | l, w, .took _ => ((step? l).bind rmFails.thrown).isNone &&
      (w.bucket = ∅ && w.db.recordings.rows = [] || l ≠ .randomUUID)
  | l, _, .threw (.unexpected "EBUSY") => step? l = some .rm
  | _, _, .threw _ => false

private theorem rmFailsBy_sound (l : Label) (w : World) (x : Answer Input Failure)
    (permitted : rmFailsBy l w x = true) : failing rmFails l w x := by
  unfold rmFailsBy at permitted
  split at permitted
  · next i =>
    simp only [Bool.and_eq_true, Option.isNone_iff_eq_none, Bool.or_eq_true, decide_eq_true_eq]
      at permitted
    refine ⟨permitted.1, fun here => ?_⟩
    obtain ⟨bucket, rows⟩ := permitted.2.resolve_right fun apart => apart here
    intro userId sessionId file
    rw [bucket, rows]
    exact ⟨Finset.notMem_empty _, nofun⟩
  · rw [decide_eq_true_eq] at permitted
    show (step? l).bind rmFails.thrown = some _
    rw [permitted]
    rfl
  · cases permitted

private def takeUpload : RecordingCall := .upload alice firstId.text audio

private def takeCues : List (Cue Input Failure) :=
  List.replicate 5 (took (.of secondId 0)) ++ [threw (.unexpected "EBUSY")]

private def kept : World := Async.after takeUpload.run takeCues practised

private def isError (r : Except Failure (Option Recording)) : Bool := !r.isOk

private theorem take_ends : ∃ r, isError r = true ∧
    Ends (failing rmFails) takeUpload.run practised r kept :=
  Async.ends_after_passes rmFailsBy_sound (by decide +kernel) (by decide +kernel)

private theorem take_runs {r : Except Failure (Option Recording)}
    (ends : Ends (failing rmFails) takeUpload.run practised r kept) :
    Runs practised [⟨rmFails, takeUpload, r, practised, kept⟩] kept := by
  have runs : Runs practised ([] ++ [⟨rmFails, takeUpload, r, practised, kept⟩]) kept := by
    apply History.serve
    · exact .idle
    · exact ends
  exact runs

private theorem practised_sound : Sound practised :=
  ⟨fun _ there => absurd there List.not_mem_nil, fun _ there => absurd there List.not_mem_nil⟩

theorem failures_bounded_iff_take : ∃ r, isError r = true ∧
    (Bounded practised [⟨rmFails, takeUpload, r, practised, kept⟩] kept ↔
      ∀ c ∈ [⟨rmFails, takeUpload, r, practised, kept⟩], KeepsObject c) := by
  obtain ⟨r, fails, ends⟩ := take_ends
  exact ⟨r, fails, failures_bounded_iff (take_runs ends) practised_sound⟩

/-- An upload whose temporary file cannot be removed leaves its object behind. -/
theorem failures_not_bounded :
    ¬∀ start calls w, Runs start calls w → Sound start → Bounded start calls w := by
  intro claim
  obtain ⟨r, fails, ends⟩ := take_ends
  cases r with
  | ok _ => cases fails
  | error e =>
    have bounded := claim _ _ _ (take_runs ends) practised_sound
    have left := (bounded.upload _ (List.mem_singleton_self _) alice firstId.text audio e rfl rfl).2
    have stored : objectName alice firstId.text secondId audio ∈ kept.bucket := by decide +kernel
    have failed := left _ stored (Finset.notMem_empty _)
    exact failed.rm nofun

end Sample

end GuitarCoach.RecordingsService
