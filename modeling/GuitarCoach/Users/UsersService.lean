/- digest: AvatarService and UsersService.purge: profile photos and account deletion. -/

import GuitarCoach.PracticeSessions.RecordingsService

set_option autoImplicit false
set_option relaxedAutoImplicit false

namespace GuitarCoach

open Relational (orderBy window totalPages)

/-- Only an object under the user's avatar prefix is theirs. -/
def ownAvatarObject (userId : String) (image : Option String) : Option String :=
  image.filter fun s => ("users/" ++ userId ++ "/avatar/").toList.isPrefixOf s.toList

namespace AvatarService

open Promise GcpStorageService

/-- `AVATAR_EXTENSIONS[mimetype]`; the file filter lets no other type through. -/
def extension (mimetype : String) : String :=
  if mimetype = "image/jpeg" then "jpg"
  else if mimetype = "image/png" then "png"
  else if mimetype = "image/webp" then "webp"
  else "undefined"

def objectName (userId uuid : Uuid) (file : UploadedFile) : String :=
  "users/" ++ userId.text ++ "/avatar/" ++ uuid.text ++ "." ++ extension file.mimetype

def noAvatar : Failure := notFound "No profile photo is set"

def currentImage (userId : Uuid) : Promise (Option String) := do
  let user ← read .user .findUnique fun _ db => .ok (db.users.find userId)
  match user with
  | some user => return user.image
  | none => throw (notFound ("User \"" ++ userId.text ++ "\" not found"))

def deleteQuietly (name : String) : Promise Unit :=
  tryCatch (deleteObject name) fun _ => return ()

/-- `user.updateMany({ where: { id, image: previous }, data: { image } })`. -/
def swapImage (userId : Uuid) (previous image : Option String) : Promise Nat :=
  write .user .updateMany (fun _ => { users := [userId] }) fun _ db =>
    let held := fun a : User => decide (a.id = userId) && decide (a.image = previous)
    .ok ((db.users.rows.filter held).length,
      { db with users := db.users.updateWhere held (fun a => { a with image }) fun _ => rfl })

def upload (expiresInSeconds : Nat) (userId : Uuid) (file : UploadedFile) :
    Promise SignedUrl := do
  let previous ← currentImage userId
  let uuid ← randomUUID
  let name := objectName userId uuid file
  uploadObject name
  -- a concurrent upload that won the race would have its object orphaned otherwise
  let count ← tryCatch (swapImage userId previous (some name)) fun e => do
    deleteQuietly name
    throw e
  if count = 0 then
    deleteQuietly name
    throw (conflict "Your profile photo changed while uploading. Try again.")
  match ownAvatarObject userId.text previous with
  | some previousObject => deleteQuietly previousObject
  | none => pure ()
  getSignedDownloadUrl name expiresInSeconds

def getUrl (expiresInSeconds : Nat) (userId : Uuid) : Promise SignedUrl := do
  match ownAvatarObject userId.text (← currentImage userId) with
  | some name => getSignedDownloadUrl name expiresInSeconds
  | none => throw noAvatar

def remove (userId : Uuid) : Promise Unit := do
  match ← currentImage userId with
  | none => throw noAvatar
  | some image =>
    let _ ← swapImage userId (some image) none
    match ownAvatarObject userId.text (some image) with
    | some name => deleteQuietly name
    | none => pure ()

end AvatarService

namespace UsersService

open Promise GcpStorageService

def gcsDeleteConcurrency : Nat := 5

/-- What `purge` deletes by its seven statements, each as its `where` selects it. -/
def recordingsOf (userId : Uuid) (db : Db) : RowSet :=
  { recordings := (db.recordings.rows.filter (·.userId = userId)).map (·.id) }

def sessionTasksOf (userId : Uuid) (db : Db) : RowSet :=
  { practiceSessionTasks := (db.practiceSessionTasks.rows.filter fun a =>
      db.practiceSessions.rows.any fun s => s.id = a.practiceSessionId && s.userId = userId).map
        (·.key) }

def sessionsOf (userId : Uuid) (db : Db) : RowSet :=
  { practiceSessions := (db.practiceSessions.rows.filter (·.userId = userId)).map (·.id) }

def routineTasksOf (userId : Uuid) (db : Db) : RowSet :=
  { routineTasks := (db.routineTasks.rows.filter fun a =>
      db.routines.rows.any fun r => r.id = a.routineId && r.userId = userId).map (·.key) }

def routinesOf (userId : Uuid) (db : Db) : RowSet :=
  { routines := (db.routines.rows.filter (·.userId = userId)).map (·.id) }

def tasksOf (userId : Uuid) (db : Db) : RowSet :=
  { tasks := (db.tasks.rows.filter (·.ownerId = some userId)).map (·.id) }

def purgeRows (userId : String) : Promise (List String) :=
  let id := Uuid.ofText userId
  transaction fun tx => do
    let user ← txRead tx .user .findUnique fun _ db => .ok (db.users.find id)
    match user with
    | none => throw (notFound ("User with id \"" ++ userId ++ "\" not found"))
    | some user =>
      let recordings ← txRead tx .recording .findMany fun i db =>
        .ok (orderBy i.rank (fun _ _ => true) (db.recordings.rows.filter (·.userId = id)))
      txDelete tx .recording .deleteMany fun db => .ok (recordingsOf id db)
      txDelete tx .practiceSessionTask .deleteMany fun db => .ok (sessionTasksOf id db)
      txDelete tx .practiceSession .deleteMany fun db => .ok (sessionsOf id db)
      txDelete tx .routineTask .deleteMany fun db => .ok (routineTasksOf id db)
      txDelete tx .routine .deleteMany fun db => .ok (routinesOf id db)
      txDelete tx .task .deleteMany fun db => .ok (tasksOf id db)
      txDelete tx .user .delete fun db =>
        if db.users.has id then .ok { users := [id] } else .error (.prisma .P2025)
      return recordings.map (·.objectName) ++ (ownAvatarObject userId user.image).toList

def deleteObjects (objectNames : List String) : Promise Unit :=
  (List.range (totalPages objectNames.length gcsDeleteConcurrency)).forM fun k =>
    allSettled ((window (k * gcsDeleteConcurrency) gcsDeleteConcurrency objectNames).map
      deleteObject)

/-- Storage objects go only after the commit. -/
def purge (userId : String) : Promise Unit := do
  let objectNames ← purgeRows userId
  deleteObjects objectNames

/-- An admin deletes the user of a path parameter. -/
def remove (id : String) : Promise Unit := purge id

def deleteAccount (userId : Uuid) : Promise Unit := purge userId.text

end UsersService

end GuitarCoach
