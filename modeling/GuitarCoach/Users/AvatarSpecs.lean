/- digest: What the methods of AvatarService do to the users and to the bucket. -/

import GuitarCoach.PracticeSessions.SessionSpecs
import GuitarCoach.Users.UsersService

set_option autoImplicit false
set_option relaxedAutoImplicit false

namespace GuitarCoach

open Async (Policy wp onOk wp_bind wp_handle wp_done wp_fail)
open Async.Method (pure_eq throw_eq bind_eq tryCatch_eq)
open Relational (Table)

theorem User.id_withImage (image : Option String) (a : User) : ({ a with image } : User).id = a.id :=
  rfl

/-- The users once the one with this id has this image. -/
def Db.setImage (userId : Uuid) (image : Option String) (db : Db) : Db :=
  { db with
    users := db.users.updateWhere (·.id = userId) (fun a => { a with image })
      (User.id_withImage image) }

theorem ownAvatar_objectName (userId uuid : Uuid) (file : UploadedFile) :
    ownAvatarObject userId.text (some (AvatarService.objectName userId uuid file)) =
      some (AvatarService.objectName userId uuid file) := by
  simp [ownAvatarObject, AvatarService.objectName, Option.filter]

namespace AvatarService

open GcpStorageService

section Specs

variable {allowed : Policy World Input Failure Label} {w : World} {userId : Uuid}

theorem wp_currentImage {Q : Except Failure (Option String) → World → Prop}
    (found : ∀ user, w.db.users.find userId = some user → Q (.ok user.image) w)
    (failed : ∀ e, Q (.error e) w) : wp allowed (currentImage userId) Q w := by
  unfold currentImage
  simp only [bind_eq, wp_bind]
  refine Promise.wp_read (fun i _ => ?_) fun e _ => failed e
  cases hf : w.db.users.find userId with
  | none => exact failed _
  | some user => exact found user hf

/-- An image that is still the one read before is replaced. -/
theorem wp_swapImage {user : User} {image : Option String} {Q : Except Failure Nat → World → Prop}
    (found : w.db.users.find userId = some user)
    (swapped : Q (.ok 1) { w with db := w.db.setImage userId image })
    (failed : ∀ e, Q (.error e) w) : wp allowed (swapImage userId user.image image) Q w := by
  refine Promise.wp_write (fun i count db _ h => ?_) (fun _ e _ _ => failed e) fun e _ => failed e
  obtain ⟨huser, hid⟩ := Table.find_eq_some.mp found
  have held : ∀ a ∈ w.db.users.rows,
      (decide (a.id = userId) && decide (a.image = user.image)) = decide (a.id = userId) := by
    intro a ha
    by_cases same : a.id = userId
    · simp [Table.eq_of_key ha huser (same.trans hid.symm)]
    · simp [same]
  cases h
  rw [List.filter_congr held, Table.filter_of_find found, Table.updateWhere_congr held]
  exact swapped

theorem wp_deleteQuietly {name : String} {Q : Except Failure Unit → World → Prop}
    (deleted : Q (.ok ()) { w with bucket := w.bucket.erase name })
    (failed : StorageFails allowed → Q (.ok ()) w) :
    wp allowed (deleteQuietly name) Q w := by
  unfold deleteQuietly
  simp only [pure_eq, tryCatch_eq, wp_handle]
  exact wp_deleteObject deleted fun fails _ => failed fails

/-- An upload that fails before the image is replaced removes what it has uploaded; one that
has replaced it removes the object of the image before. -/
theorem wp_upload {expiresInSeconds : Nat} {file : UploadedFile}
    {Q : Except Failure SignedUrl → World → Prop}
    (swapped : ∀ user uuid r bucket, w.db.users.find userId = some user →
      bucket ⊆ insert (objectName userId uuid file) w.bucket →
      (¬StorageFails allowed → ∀ o ∈ ownAvatarObject userId.text user.image, o ∉ bucket) →
      Q r { w with db := w.db.setImage userId (some (objectName userId uuid file)), bucket })
    (failed : ∀ e bucket, StorageFails allowed ∨ bucket ⊆ w.bucket →
      Q (.error e) { w with bucket }) :
    wp allowed (upload expiresInSeconds userId file) Q w := by
  have same : ∀ e, Q (.error e) w := fun e => failed e w.bucket (.inr (Finset.Subset.refl _))
  unfold upload
  simp only [bind_eq, tryCatch_eq, throw_eq, wp_bind, wp_handle]
  refine wp_currentImage (fun user found => ?_) same
  dsimp only [onOk]
  refine Promise.wp_call (fun i _ => ?_) fun e _ => same e
  dsimp only [onOk]
  refine wp_uploadObject ?_ same fun leaks e => failed e _ (.inl leaks)
  dsimp only [onOk]
  refine wp_swapImage found ?_ fun e => ?_
  swap
  · refine wp_deleteQuietly ?_ fun leaks => failed e _ (.inl leaks)
    exact failed e _ (.inr (Finset.erase_insert_subset _ _))
  dsimp only [onOk]
  rw [if_neg Nat.one_ne_zero]
  -- signing the URL changes nothing any more
  have sign : ∀ bucket, bucket ⊆ insert (objectName userId (i.uuid 0) file) w.bucket →
      (¬StorageFails allowed → ∀ o ∈ ownAvatarObject userId.text user.image, o ∉ bucket) →
      wp allowed (getSignedDownloadUrl (objectName userId (i.uuid 0) file) expiresInSeconds) Q
        { w with db := w.db.setImage userId (some (objectName userId (i.uuid 0) file)), bucket } :=
    fun bucket sub gone => Promise.wp_call
      (fun _ _ => swapped user (i.uuid 0) _ bucket found sub gone)
      fun e _ => swapped user (i.uuid 0) _ bucket found sub gone
  split
  · next previous own =>
    rw [wp_bind]
    refine wp_deleteQuietly ?_ fun leaks => ?_
    · refine sign _ (Finset.erase_subset _ _) fun _ o ho => ?_
      obtain rfl : previous = o := Option.some.inj (own.symm.trans ho)
      exact Finset.notMem_erase _ _
    · exact sign _ (Finset.Subset.refl _) fun none => absurd leaks none
  · next none =>
    refine sign _ (Finset.Subset.refl _) fun _ o ho => ?_
    cases none.symm.trans ho

theorem wp_remove {Q : Except Failure Unit → World → Prop}
    (removed : ∀ user image bucket, w.db.users.find userId = some user →
      user.image = some image → bucket ⊆ w.bucket →
      (¬StorageFails allowed → ∀ o ∈ ownAvatarObject userId.text user.image, o ∉ bucket) →
      Q (.ok ()) { w with db := w.db.setImage userId none, bucket })
    (failed : ∀ e, Q (.error e) w) : wp allowed (remove userId) Q w := by
  unfold remove
  simp only [bind_eq, throw_eq, pure_eq, wp_bind]
  refine wp_currentImage (fun user found => ?_) failed
  dsimp only [onOk]
  split
  · exact failed _
  · next image himage =>
    rw [← himage, wp_bind]
    refine wp_swapImage found ?_ failed
    dsimp only [onOk]
    split
    · next name own =>
      refine wp_deleteQuietly ?_ fun leaks => ?_
      · refine removed user image _ found himage (Finset.erase_subset _ _) fun _ o ho => ?_
        obtain rfl : name = o := Option.some.inj (own.symm.trans ho)
        exact Finset.notMem_erase _ _
      · exact removed user image _ found himage (Finset.Subset.refl _)
          fun none => absurd leaks none
    · next none =>
      refine removed user image _ found himage (Finset.Subset.refl _) fun _ o ho => ?_
      cases none.symm.trans ho

end Specs

end AvatarService

end GuitarCoach
