/- digest: GcpStorageService and RecordingsService: a bucket object for every recording row. -/

import GuitarCoach.PracticeSessions.PracticeSessionsService

set_option autoImplicit false
set_option relaxedAutoImplicit false

namespace GuitarCoach

open Relational (Table orderBy)

/-- What the services read of `Express.Multer.File`. -/
structure UploadedFile where
  originalname : String
  mimetype : String
  size : Int

/-- A signed URL, by the object it opens and the time it expires. -/
structure SignedUrl where
  objectName : String
  expires : Instant
deriving DecidableEq

namespace GcpStorageService

open Promise

def mkdtemp : Promise Unit := .call { label := .mkdtemp, run := fun _ w => (.ok (), w) }

def writeFile : Promise Unit := .call { label := .writeFile, run := fun _ w => (.ok (), w) }

def rm : Promise Unit := .call { label := .rm, run := fun _ w => (.ok (), w) }

/-- `bucket.upload`. -/
def bucketUpload (objectName : String) : Promise Unit :=
  .call {
    label := .uploadObject objectName
    run := fun _ w => (.ok (), { w with bucket := insert objectName w.bucket }) }

def uploadObject (objectName : String) : Promise Unit := do
  mkdtemp
  withCleanup (do writeFile; bucketUpload objectName) rm

def getSignedDownloadUrl (objectName : String) (expiresInSeconds : Nat) : Promise SignedUrl :=
  .call {
    label := .signUrl objectName
    run := fun i w => (.ok ⟨objectName, i.now + expiresInSeconds * 1000⟩, w) }

/-- An object that is not there counts as deleted. -/
def deleteObject (objectName : String) : Promise Unit :=
  .call {
    label := .deleteObject objectName
    run := fun _ w => (.ok (), { w with bucket := w.bucket.erase objectName }) }

end GcpStorageService

namespace Db

def insertRecording (a : Recording) (db : Db) : Except Failure Db :=
  withTexts a.texts <|
    match db.recordings.insert a with
    | none => .error (.prisma .P2002)
    | some recordings =>
      if db.users.has a.userId && db.practiceSessions.has a.practiceSessionId then
        .ok { db with recordings }
      else .error (.prisma .P2003)

theorem insertRecording_ok {a : Recording} {db db' : Db} (h : db.insertRecording a = .ok db') :
    ∃ recordings, db' = { db with recordings } ∧
      recordings.rows = db.recordings.rows ++ [a] ∧
      a.id ∉ db.recordings.rows.map Recording.id ∧ db.users.has a.userId ∧
      db.practiceSessions.has a.practiceSessionId := by
  obtain ⟨-, h⟩ := withTexts_eq_ok.mp h
  split at h
  · cases h
  · next recordings inserted =>
    obtain ⟨fresh, rows⟩ := Table.insert_eq_some.mp inserted
    split at h
    · next keys =>
      rw [Bool.and_eq_true] at keys
      exact ⟨recordings, (Except.ok.inj h).symm, rows, fresh, keys.1, keys.2⟩
    · cases h

end Db

namespace RecordingsService

open Promise GcpStorageService

def recordingNotFound (id : String) : Failure :=
  notFound ("Recording with id \"" ++ id ++ "\" not found")

def newestRecordingFirst (a b : Recording) : Bool := b.createdAt ≤ a.createdAt

def sanitizeFileName (fileName : String) : String :=
  String.ofList ((fileName.toList.map fun c => if c = '/' ∨ c = '\\' then '_' else c).dropWhile
    (· = '.'))

def objectName (userId : Uuid) (practiceSessionId : String) (uuid : Uuid) (file : UploadedFile) :
    String :=
  "users/" ++ userId.text ++ "/practice-sessions/" ++ practiceSessionId ++ "/" ++ uuid.text ++
    "-" ++ sanitizeFileName file.originalname

/-- `recording.create`. -/
def createRow (userId : Uuid) (practiceSessionId : String) (name : String) (file : UploadedFile)
    (i : Input) (db : Db) : Except Failure (Recording × Db) := do
  let row : Recording :=
    ⟨i.uuid 0, userId, .ofText practiceSessionId, name, file.originalname, file.mimetype,
      file.size, i.now⟩
  if fitsInt4 file.size then
    let db ← db.insertRecording row
    return (row, db)
  else throw .valueOutOfRange

def upload (userId : Uuid) (practiceSessionId : String) (file : UploadedFile) :
    Promise Recording := do
  let _ ← PracticeSessionsService.findById userId practiceSessionId
  let uuid ← randomUUID
  let name := objectName userId practiceSessionId uuid file
  uploadObject name
  tryCatch
    (write .recording .create
      (fun _ => { users := [userId], practiceSessions := [.ofText practiceSessionId] })
      (createRow userId practiceSessionId name file))
    fun e => do
      tryCatch (deleteObject name) fun _ => return ()
      throw e

def findAllForSession (userId : Uuid) (practiceSessionId : String) :
    Promise (List Recording) := do
  let _ ← PracticeSessionsService.findById userId practiceSessionId
  read .recording .findMany fun i db =>
    .ok (orderBy i.rank newestRecordingFirst
      (db.recordings.rows.filter (·.practiceSessionId = .ofText practiceSessionId)))

/-- `where: { id, userId }`. -/
def owned (userId : Uuid) (id : String) (a : Recording) : Bool :=
  a.id = Uuid.ofText id && a.userId = userId

def findOwnedRecording (userId : Uuid) (id : String) : Promise Recording := do
  let recording ← read .recording .findFirst fun _ db =>
    .ok (db.recordings.rows.find? (owned userId id))
  match recording with
  | some recording => return recording
  | none => throw (recordingNotFound id)

def getDownloadUrl (expiresInSeconds : Nat) (userId : Uuid) (id : String) :
    Promise SignedUrl := do
  let recording ← findOwnedRecording userId id
  getSignedDownloadUrl recording.objectName expiresInSeconds

/-- `recording.delete`. -/
def removeRow (id : Uuid) (db : Db) : Except Failure Db :=
  if db.recordings.has id then db.delete { recordings := [id] } else .error (.prisma .P2025)

def remove (userId : Uuid) (id : String) : Promise Unit := do
  let recording ← findOwnedRecording userId id
  deleteObject recording.objectName
  write .recording .delete (fun _ => { recordings := [recording.id] }) fun _ db => do
    let db ← removeRow recording.id db
    return ((), db)

end RecordingsService

end GuitarCoach
