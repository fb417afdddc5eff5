/- digest: When every object in the bucket is named by a row, over any run of requests. -/

import GuitarCoach.Users.AvatarSpecs
import GuitarCoach.Users.Purge

set_option autoImplicit false
set_option relaxedAutoImplicit false

namespace GuitarCoach

open Async (Cue Ends Policy wp onOk wp_bind wp_done wp_ends)
open Async.Method (pure_eq bind_eq)
open Relational (Table)

/-- The calls of the database and the uploads can fail, without effect; what deletes an object
or a local file succeeds. -/
def deletesSucceed : Policy World Input Failure Label
  | .deleteObject _, _, .threw _ => False
  | .rm, _, .threw _ => False
  | _, _, _ => True

/-- The requests that write rows with objects, or delete them. -/
inductive FileRequest
  | createSession (userId : Uuid) (dto : CreatePracticeSessionDto)
  | deleteSessionsByTitle (userId : Uuid) (title : String)
  | uploadRecording (userId : Uuid) (practiceSessionId : String) (file : UploadedFile)
  | removeRecording (userId : Uuid) (id : String)
  | uploadAvatar (expiresInSeconds : Nat) (userId : Uuid) (file : UploadedFile)
  | removeAvatar (userId : Uuid)
  | removeUser (id : String)
  | deleteAccount (userId : Uuid)

def FileRequest.run : FileRequest → Promise Unit
  | createSession userId dto => do
    let _ ← PracticeSessionsService.create userId dto
  | deleteSessionsByTitle userId title => do
    let _ ← PracticeSessionsService.deleteByTitle userId title
  | uploadRecording userId practiceSessionId file => do
    let _ ← RecordingsService.upload userId practiceSessionId file
  | removeRecording userId id => RecordingsService.remove userId id
  | uploadAvatar expiresInSeconds userId file => do
    let _ ← AvatarService.upload expiresInSeconds userId file
  | removeAvatar userId => AvatarService.remove userId
  | removeUser id => UsersService.remove id
  | deleteAccount userId => UsersService.deleteAccount userId

/-- A recording or the image of a user names the object. -/
def Db.names (db : Db) (o : String) : Prop :=
  (∃ a ∈ db.recordings.rows, a.objectName = o) ∨ ∃ u ∈ db.users.rows, u.image = some o

def NoOrphans (w : World) : Prop := ∀ o ∈ w.bucket, w.db.names o

/-- The request does not meet one of the two paths that forget an object: the delete by title
does not look at the objects of the recordings it deletes, and the delete of a user finds the
image only under the id as it was spelled. -/
def FileRequest.Spares (w : World) : FileRequest → Prop
  | deleteSessionsByTitle userId title =>
      ∀ a ∈ w.db.recordings.rows,
        a.practiceSessionId ∈ PracticeSessionsService.titled userId title w.db →
        a.objectName ∈ w.bucket →
          (∃ b ∈ w.db.recordings.rows, b.objectName = a.objectName ∧
            b.practiceSessionId ∉ PracticeSessionsService.titled userId title w.db) ∨
          ∃ u ∈ w.db.users.rows, u.image = some a.objectName
  | removeUser id =>
      (Uuid.ofText id).text = id ∨ ∀ u ∈ w.db.users.rows, u.id = .ofText id →
        ∀ o ∈ u.image, o ∈ w.bucket →
          (∃ a ∈ w.db.recordings.rows, a.objectName = o) ∨
            ∃ v ∈ w.db.users.rows, v.id ≠ u.id ∧ v.image = some o
  | _ => True

/-- Requests one after the other from nothing stored; users sign up without an image, and
whatever else the backend does leaves users, recordings and objects alone. -/
inductive Reached (condition : World → FileRequest → Prop) : World → Prop
  | start : Reached condition World.empty
  | signUp {w : World} {users : Table User.id} (id : Uuid) (sofar : Reached condition w)
      (added : w.db.users.insert ⟨id, none⟩ = some users) :
      Reached condition { w with db := { w.db with users } }
  | elsewhere {w w' : World} (sofar : Reached condition w) (idle : w'.Idle)
      (users : w'.db.users = w.db.users) (recordings : w'.db.recordings = w.db.recordings)
      (bucket : w'.bucket = w.bucket) : Reached condition w'
  | request {w w' : World} {r : Except Failure Unit} (q : FileRequest)
      (sofar : Reached condition w) (ends : Ends deletesSucceed q.run w r w')
      (meets : r = .ok () → condition w q) : Reached condition w'

/-- What every request keeps. -/
structure Tidy (w : World) : Prop where
  idle : w.Idle
  images : ∀ u ∈ w.db.users.rows, ∀ o ∈ u.image, ownAvatarObject u.id.text u.image = some o
  named : NoOrphans w

private theorem no_failing_delete : ¬StorageFails deletesSucceed := by
  rintro ⟨l, w, e, fails, rfl | ⟨name, rfl⟩⟩
  · exact fails
  · exact fails

private theorem deletes_take (name : String) (w : World) (e : Failure) :
    ¬deletesSucceed (.deleteObject name) w (.threw e) := id

namespace Tidy

variable {w : World}

theorem empty : Tidy World.empty where
  idle := rfl
  images := by simp [World.empty, Db.empty]
  named := by simp [NoOrphans, World.empty]

/-- Fewer objects and the same rows. -/
theorem fewer {w' : World} (tidy : Tidy w) (idle : w'.Idle)
    (users : w'.db.users = w.db.users) (recordings : w'.db.recordings = w.db.recordings)
    (bucket : w'.bucket ⊆ w.bucket) : Tidy w' where
  idle := idle
  images := users ▸ tidy.images
  named o ho := by
    unfold Db.names
    rw [users, recordings]
    exact tidy.named o (bucket ho)

theorem signUp {users : Table User.id} {id : Uuid} (tidy : Tidy w)
    (added : w.db.users.insert ⟨id, none⟩ = some users) :
    Tidy { w with db := { w.db with users } } := by
  have rows := (Table.insert_eq_some.mp added).2
  refine ⟨tidy.idle, fun u hu => ?_, fun o ho => ?_⟩
  · rcases List.mem_append.mp (rows ▸ hu) with hu | hu
    · exact tidy.images u hu
    · rw [List.mem_singleton.mp hu]
      simp
  · rcases tidy.named o ho with recording | ⟨u, hu, himage⟩
    · exact .inl recording
    · exact .inr ⟨u, rows ▸ List.mem_append_left _ hu, himage⟩

/-- A row is added with its object. -/
theorem recorded {row : Recording} {db : Db} (tidy : Tidy w)
    (inserted : w.db.insertRecording row = .ok db) :
    Tidy { w with db, bucket := insert row.objectName w.bucket } := by
  obtain ⟨recordings, rfl, rows, -, -, -⟩ := Db.insertRecording_ok inserted
  refine ⟨tidy.idle, tidy.images, fun o ho => ?_⟩
  rcases Finset.mem_insert.mp ho with rfl | ho
  · exact .inl ⟨row, rows ▸ List.mem_append_right _ (List.mem_singleton_self row), rfl⟩
  · rcases tidy.named o ho with ⟨a, ha, hname⟩ | image
    · exact .inl ⟨a, rows ▸ List.mem_append_left _ ha, hname⟩
    · exact .inr image

/-- A row is deleted after its object. -/
theorem unrecorded {row : Recording} {db : Db} (tidy : Tidy w)
    (hrow : row ∈ w.db.recordings.rows)
    (removed : RecordingsService.removeRow row.id w.db = .ok db) :
    Tidy { w with db, bucket := w.bucket.erase row.objectName } := by
  unfold RecordingsService.removeRow at removed
  split at removed
  swap
  · cases removed
  obtain ⟨rfl, -⟩ := Db.delete_ok removed
  refine ⟨tidy.idle, fun u hu => tidy.images u (Table.mem_deleteWhere.mp hu).1, fun o ho => ?_⟩
  obtain ⟨hne, ho⟩ := Finset.mem_erase.mp ho
  rcases tidy.named o ho with ⟨a, ha, rfl⟩ | ⟨u, hu, himage⟩
  · refine .inl ⟨a, Table.mem_deleteWhere.mpr ⟨ha, ?_⟩, rfl⟩
    have other : a.id ≠ row.id := fun same => hne (by rw [Table.eq_of_key ha hrow same])
    simpa using other
  · exact .inr ⟨u, Table.mem_deleteWhere.mpr ⟨hu, by simp⟩, himage⟩

/-- The image of a user is replaced, and the object of the one before is gone. -/
theorem setImage {user : User} {image : Option String} {bucket : Finset String} (tidy : Tidy w)
    (found : w.db.users.find user.id = some user)
    (own : ∀ o ∈ image, ownAvatarObject user.id.text image = some o)
    (sub : ∀ o ∈ bucket, image = some o ∨ o ∈ w.bucket)
    (gone : ∀ o ∈ ownAvatarObject user.id.text user.image, o ∉ bucket) :
    Tidy { w with db := w.db.setImage user.id image, bucket } := by
  obtain ⟨huser, -⟩ := Table.find_eq_some.mp found
  refine ⟨tidy.idle, fun u hu => ?_, fun o ho => ?_⟩
  · obtain ⟨v, hv, rfl⟩ := List.mem_map.mp hu
    split
    · next same =>
      rw [decide_eq_true_iff] at same
      rw [← same] at own
      exact own
    · exact tidy.images v hv
  · rcases sub o ho with rfl | hw
    · exact .inr ⟨_, List.mem_map.mpr ⟨user, huser, rfl⟩, by simp⟩
    · rcases tidy.named o hw with recording | ⟨v, hv, himage⟩
      · exact .inl recording
      · by_cases same : v.id = user.id
        · obtain rfl := Table.eq_of_key hv huser same
          exact absurd ho (gone o (tidy.images v hv o himage))
        · exact .inr ⟨v, List.mem_map.mpr ⟨v, hv, by simp [same]⟩, himage⟩

/-- The rows of a user go, and their objects with them. -/
theorem purged {userId : String} {user : User} {rank : Nat → Nat} {db : Db}
    {bucket : Finset String} (tidy : Tidy w)
    (found : w.db.users.find (.ofText userId) = some user)
    (tables : UsersService.purgeTables (.ofText userId) w.db = .ok db) (sub : bucket ⊆ w.bucket)
    (gone : ∀ o ∈ UsersService.purgeObjects userId user rank w.db, o ∉ bucket)
    (captured : ∀ o ∈ user.image, o ∈ w.bucket → ownAvatarObject userId user.image = some o ∨
      (∃ a ∈ w.db.recordings.rows, a.objectName = o) ∨
        ∃ v ∈ w.db.users.rows, v.id ≠ user.id ∧ v.image = some o) :
    Tidy { w with db, bucket } := by
  obtain ⟨users, recordings⟩ := UsersService.purgeTables_ok tables
  obtain ⟨huser, hid⟩ := Table.find_eq_some.mp found
  -- an object that is left and named by a recording is not one of this user's
  have kept : ∀ a ∈ w.db.recordings.rows, a.objectName ∈ bucket → db.names a.objectName := by
    intro a ha ho
    refine .inl ⟨a, ?_, rfl⟩
    rw [recordings, Table.mem_deleteWhere, decide_eq_false_iff_not]
    refine ⟨ha, fun mine => gone _ (List.mem_append_left _ ?_) ho⟩
    simp only [List.mem_map, Relational.mem_orderBy, List.mem_filter]
    exact ⟨a, ⟨ha, decide_eq_true mine⟩, rfl⟩
  have keptImage : ∀ v ∈ w.db.users.rows, v.id ≠ user.id → ∀ o, v.image = some o → db.names o := by
    intro v hv other o himage
    refine .inr ⟨v, ?_, himage⟩
    rw [users, Table.mem_deleteWhere, decide_eq_false_iff_not]
    exact ⟨hv, hid ▸ other⟩
  refine ⟨tidy.idle, fun u hu => ?_, fun o ho => ?_⟩
  · have hu' : u ∈ (w.db.users.deleteWhere (·.id = .ofText userId)).rows := users ▸ hu
    exact tidy.images u (Table.mem_deleteWhere.mp hu').1
  · rcases tidy.named o (sub ho) with ⟨a, ha, rfl⟩ | ⟨v, hv, himage⟩
    · exact kept a ha ho
    · by_cases same : v.id = user.id
      · obtain rfl := Table.eq_of_key hv huser same
        rcases captured o himage (sub ho) with own | ⟨a, ha, rfl⟩ | ⟨u, hu, other, himage'⟩
        · exact absurd ho (gone o (List.mem_append_right _ (by simp [own])))
        · exact kept a ha ho
        · exact keptImage u hu other o himage'
      · exact keptImage v hv same o himage

/-- The recordings of the sessions with a title go, and none of them had an object left. -/
theorem titledDeleted {userId : Uuid} {title : String} {count : Nat} {db : Db} (tidy : Tidy w)
    (deleted : PracticeSessionsService.deleteRows userId title w.db = .ok (count, db))
    (spares : (FileRequest.deleteSessionsByTitle userId title).Spares w) :
    Tidy { w with db } := by
  obtain ⟨d₁, d₂, h₁, h₂, h₃⟩ := PracticeSessionsService.deleteRows_ok deleted
  have users : db.users = w.db.users := by
    rw [Db.users_of_delete h₃ rfl, Db.users_of_delete h₂ rfl, Db.users_of_delete h₁ rfl]
  have recordings : ∀ a ∈ w.db.recordings.rows,
      a.practiceSessionId ∉ PracticeSessionsService.titled userId title w.db →
        a ∈ db.recordings.rows := by
    intro a ha other
    rw [Db.recordings_of_delete h₃ rfl, Db.recordings_of_delete h₂ rfl, (Db.delete_ok h₁).1]
    refine Table.mem_deleteWhere.mpr ⟨ha, decide_eq_false fun hid => other ?_⟩
    obtain ⟨b, hb, same⟩ := List.mem_map.mp hid
    obtain ⟨hb, titled⟩ := List.mem_filter.mp hb
    rw [← Table.eq_of_key hb ha same]
    exact of_decide_eq_true titled
  refine ⟨tidy.idle, users ▸ tidy.images, fun o ho => ?_⟩
  rcases tidy.named o ho with ⟨a, ha, rfl⟩ | ⟨u, hu, himage⟩
  · by_cases titled : a.practiceSessionId ∈ PracticeSessionsService.titled userId title w.db
    · rcases spares a ha titled ho with ⟨b, hb, hname, other⟩ | ⟨u, hu, himage⟩
      · exact .inl ⟨b, recordings b hb other, hname⟩
      · exact .inr ⟨u, users ▸ hu, himage⟩
    · exact .inl ⟨a, recordings a ha titled, rfl⟩
  · exact .inr ⟨u, users ▸ hu, himage⟩

/-- One request, unless it meets a path that forgets an object. -/
theorem request (tidy : Tidy w) (q : FileRequest) :
    wp deletesSucceed q.run (fun r v => (r = .ok () → q.Spares w) → Tidy v) w := by
  have fewer : ∀ bucket, StorageFails deletesSucceed ∨ bucket ⊆ w.bucket →
      Tidy { w with bucket } := fun bucket sub =>
    tidy.fewer tidy.idle rfl rfl (sub.resolve_left no_failing_delete)
  have purge : ∀ userId : String, (∀ user, w.db.users.find (.ofText userId) = some user →
      ∀ o ∈ user.image, o ∈ w.bucket → (FileRequest.removeUser userId).Spares w →
        ownAvatarObject userId user.image = some o ∨
          (∃ a ∈ w.db.recordings.rows, a.objectName = o) ∨
            ∃ v ∈ w.db.users.rows, v.id ≠ user.id ∧ v.image = some o) →
      wp deletesSucceed (UsersService.purge userId)
        (fun r v => (r = .ok () → (FileRequest.removeUser userId).Spares w) → Tidy v) w := by
    intro userId captured
    refine UsersService.purge_wp tidy.idle (fun user rank db bucket found tables sub gone spares => ?_)
      (fun _ _ _ => tidy) fun _ _ _ => tidy
    exact tidy.purged found tables sub (gone deletes_take) fun o ho hw =>
      captured user found o ho hw (spares rfl)
  cases q with
  | createSession userId dto =>
    simp only [FileRequest.run, bind_eq, pure_eq, wp_bind, wp_done]
    refine PracticeSessionsService.wp_create (fun i response db _ created _ => ?_)
      fun _ _ => tidy
    obtain ⟨middle, session, tasks⟩ := PracticeSessionsService.createRows_ok created
    obtain ⟨_, rfl, -⟩ := Db.insertPracticeSession_ok session
    have same := foldlM_keeps
      (R := fun a b : Db => b.users = a.users ∧ b.recordings = a.recordings)
      (fun _ => ⟨rfl, rfl⟩) (fun h h' => ⟨h'.1.trans h.1, h'.2.trans h.2⟩)
      (fun task _ a b inserted => by
        obtain ⟨_, rfl, -⟩ := Db.insertPracticeSessionTask_ok inserted
        exact ⟨rfl, rfl⟩) tasks
    exact tidy.fewer tidy.idle same.1 same.2 (Finset.Subset.refl _)
  | deleteSessionsByTitle userId title =>
    simp only [FileRequest.run, bind_eq, pure_eq, wp_bind, wp_done]
    exact PracticeSessionsService.wp_deleteByTitle
      (fun count db deleted spares => tidy.titledDeleted deleted (spares trivial)) fun _ _ => tidy
  | uploadRecording userId practiceSessionId file =>
    simp only [FileRequest.run, bind_eq, pure_eq, wp_bind, wp_done]
    refine RecordingsService.wp_upload (fun _ i uuid row db _ _ created _ => ?_)
      fun _ bucket sub _ => fewer bucket sub
    exact tidy.recorded (RecordingsService.createRow_ok created).2
  | removeRecording userId id =>
    exact RecordingsService.wp_remove (fun row hrow db removed _ => tidy.unrecorded hrow removed)
      fun _ bucket sub _ => fewer bucket (.inr sub)
  | uploadAvatar expiresInSeconds userId file =>
    simp only [FileRequest.run, bind_eq, pure_eq, wp_bind, wp_done]
    refine AvatarService.wp_upload (fun user uuid r bucket found sub gone => ?_)
      fun _ bucket sub _ => fewer bucket sub
    obtain ⟨-, rfl⟩ := Table.find_eq_some.mp found
    have set := @setImage _ user (some (AvatarService.objectName user.id uuid file)) _ tidy found
      (fun o ho => by rw [ownAvatar_objectName, ← Option.mem_def.mp ho])
      (fun o ho => (Finset.mem_insert.mp (sub ho)).imp (fun same => congrArg some same.symm) id)
      (gone no_failing_delete)
    cases r with
    | ok _ => exact fun _ => set
    | error _ => exact fun _ => set
  | removeAvatar userId =>
    refine AvatarService.wp_remove (fun user image bucket found _ sub gone _ => ?_)
      fun _ _ => tidy
    obtain ⟨-, rfl⟩ := Table.find_eq_some.mp found
    exact tidy.setImage found (by simp) (fun o ho => .inr (sub ho)) (gone no_failing_delete)
  | removeUser id =>
    refine purge id fun user found o ho hw spares => ?_
    obtain ⟨huser, hid⟩ := Table.find_eq_some.mp found
    rcases spares with spelled | others
    · refine .inl ?_
      rw [← spelled, ← hid]
      exact tidy.images user huser o ho
    · exact .inr (others user huser hid o ho hw)
  | deleteAccount userId =>
    refine Async.wp_mono (purge userId.text fun user found o ho _ _ => ?_) fun r v h _ =>
      h fun _ => .inl (by rw [Uuid.ofText_text])
    obtain ⟨huser, hid⟩ := Table.find_eq_some.mp found
    rw [Uuid.ofText_text] at hid
    exact .inl (hid ▸ tidy.images user huser o ho)

end Tidy

/-- In every run whose requests meet neither of the two paths that forget an object, every
object in the bucket is named by a row. -/
theorem no_orphans {w : World} (reached : Reached FileRequest.Spares w) : NoOrphans w := by
  have tidy : Tidy w := by
    induction reached with
    | start => exact Tidy.empty
    | signUp id sofar added ih => exact ih.signUp added
    | elsewhere sofar idle users recordings bucket ih =>
      exact ih.fewer idle users recordings (bucket ▸ Finset.Subset.refl _)
    | request q sofar ends meets ih => exact wp_ends (ih.request q) ends meets
  exact tidy.named

section Sample

private def warmUp : CreatePracticeSessionDto := ⟨.value "Warm-up", .absent, .absent, .absent⟩

private def take : UploadedFile := ⟨"take.mp3", "audio/mpeg", 1000⟩

private def photo : UploadedFile := ⟨"me.png", "image/png", 1000⟩

/-- A request whose calls all take effect. -/
private def done (q : FileRequest) (calls : Nat) (uuid : Uuid) (w : World) : World :=
  Async.after q.run (List.replicate calls (took (.of uuid 0))) w

private theorem done_ends {q : FileRequest} {calls : Nat} {uuid : Uuid} {w : World}
    (run : ((Async.exec q.run (List.replicate calls (took (.of uuid 0))) w).bind fun end_ =>
      end_.1.toOption) = some ()) :
    Ends deletesSucceed q.run w (.ok ()) (done q calls uuid w) := by
  refine Async.ends_after_ok (fun x hx l v => ?_) run
  obtain rfl : x = .took (.of uuid 0) := by simpa [took] using List.eq_of_mem_replicate hx
  cases l <;> trivial

private def logged : World := done (.createSession alice warmUp) 1 firstId World.signedUp

private def recorded : World := done (.uploadRecording alice firstId.text take) 7 secondId logged

private theorem signedUp_reached (condition : World → FileRequest → Prop) :
    Reached condition World.signedUp :=
  .signUp alice .start rfl

private theorem recorded_reached {condition : World → FileRequest → Prop}
    (creates : condition World.signedUp (.createSession alice warmUp))
    (uploads : condition logged (.uploadRecording alice firstId.text take)) :
    Reached condition recorded :=
  .request _ (.request _ (signedUp_reached condition) (done_ends (by decide +kernel))
    fun _ => creates) (done_ends (by decide +kernel)) fun _ => uploads

theorem no_orphans_recorded : NoOrphans recorded :=
  no_orphans (recorded_reached trivial trivial)

private def deletedByTitle : World := done (.deleteSessionsByTitle alice "Warm-up") 1 alice recorded

private def pictured : World := done (.uploadAvatar 900 alice photo) 8 secondId World.signedUp

/-- The id of `alice` as an admin may spell it in a path. -/
private def spelling : String := "0B0E7A52-3C1D-4F6E-9A8B-1D2C3E4F5A6B"

private def removed : World := done (.removeUser spelling) 11 alice pictured

instance (db : Db) (o : String) : Decidable (db.names o) :=
  inferInstanceAs (Decidable (_ ∨ _))

/-- A delete by title forgets the object of a recording, and so does, with the image, the
delete of a user under another spelling of the id. -/
theorem orphans_left :
    (¬∀ w, Reached (fun _ _ => True) w → NoOrphans w) ∧
      ¬∀ w, Reached (fun _ q => ∀ userId title, q ≠ .deleteSessionsByTitle userId title) w →
        NoOrphans w := by
  constructor
  · intro claim
    have reached : Reached (fun _ _ => True) deletedByTitle :=
      .request _ (recorded_reached trivial trivial) (done_ends (by decide +kernel)) fun _ => trivial
    have named := claim deletedByTitle reached
      (RecordingsService.objectName alice firstId.text secondId take) (by decide +kernel)
    revert named
    decide +kernel
  · intro claim
    have uploaded : Reached (fun _ q => ∀ userId title, q ≠ .deleteSessionsByTitle userId title)
        pictured :=
      .request _ (signedUp_reached _) (done_ends (by decide +kernel)) fun _ _ _ => nofun
    have reached : Reached (fun _ q => ∀ userId title, q ≠ .deleteSessionsByTitle userId title)
        removed :=
      .request _ uploaded (done_ends (by decide +kernel)) fun _ _ _ => nofun
    have named := claim removed reached (AvatarService.objectName alice secondId photo)
      (by decide +kernel)
    revert named
    decide +kernel

end Sample

end GuitarCoach
