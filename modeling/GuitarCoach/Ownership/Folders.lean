/- digest: The folder of a user in the bucket: which object names lie in it, and that folders differ. -/

import GuitarCoach.Ecma.Codes
import GuitarCoach.Users.UsersService

set_option autoImplicit false
set_option relaxedAutoImplicit false

namespace GuitarCoach

/-- The object lies in the folder of the user, however the folder spells the id. -/
def IsUnder (userId : Uuid) (name : String) : Prop :=
  ∃ spelling rest, Uuid.ofText spelling = userId ∧ name = "users/" ++ spelling ++ "/" ++ rest

/-- What a recording is stored as lies in the folder of its user. -/
def Db.Named (db : Db) : Prop := ∀ a ∈ db.recordings.rows, IsUnder a.userId a.objectName

/-- The object that a call is about. -/
def Label.object? : Label → Option String
  | uploadObject name => some name
  | deleteObject name => some name
  | signUrl name => some name
  | _ => none

/-- A call about no object, or about one in the folder of the actor. -/
def Label.Within (actor : Option Uuid) (l : Label) : Prop :=
  ∀ name ∈ l.object?, ∃ userId ∈ actor, IsUnder userId name

theorem Label.Within.silent {actor : Option Uuid} {l : Label} (silent : l.object? = none) :
    l.Within actor := by
  intro name about
  rw [silent] at about
  cases about

section Names

variable {userId other : Uuid} {name : String}

theorem isUnder_recording (userId : Uuid) (practiceSessionId : String) (uuid : Uuid)
    (file : UploadedFile) :
    IsUnder userId (RecordingsService.objectName userId practiceSessionId uuid file) := by
  refine ⟨userId.text, "practice-sessions/" ++ practiceSessionId ++ "/" ++ uuid.text ++ "-" ++
    RecordingsService.sanitizeFileName file.originalname, Uuid.ofText_text userId, ?_⟩
  apply String.ext
  simp [RecordingsService.objectName]

theorem isUnder_avatar (userId uuid : Uuid) (file : UploadedFile) :
    IsUnder userId (AvatarService.objectName userId uuid file) := by
  refine ⟨userId.text, "avatar/" ++ uuid.text ++ "." ++ AvatarService.extension file.mimetype,
    Uuid.ofText_text userId, ?_⟩
  apply String.ext
  simp [AvatarService.objectName]

/-- An image may name anything; what is taken for the user's own photo is in their folder. -/
theorem isUnder_of_own {text : String} {image : Option String}
    (own : ownAvatarObject text image = some name) : IsUnder (.ofText text) name := by
  obtain ⟨-, starts⟩ := Option.filter_eq_some_iff.mp own
  obtain ⟨rest, split⟩ := List.isPrefixOf_iff_prefix.mp starts
  refine ⟨text, "avatar/" ++ String.ofList rest, rfl, ?_⟩
  apply String.ext
  rw [← split]
  simp

/-- The folders of different users have no object in common. -/
theorem IsUnder.unique (mine : IsUnder userId name) (theirs : IsUnder other name)
    (free : '/' ∉ userId.text.toList) (free' : '/' ∉ other.text.toList) : userId = other := by
  obtain ⟨spelling, rest, rfl, split⟩ := mine
  obtain ⟨spelling', rest', rfl, split'⟩ := theirs
  have unslashed : ∀ s : String, '/' ∉ (Uuid.ofText s).text.toList → '/' ∉ s.toList := by
    intro s free slash
    have lower : '/' ∈ s.toList.map Char.toLower := List.mem_map.mpr ⟨'/', slash, rfl⟩
    exact free (by simpa [Uuid.ofText, lowerHex] using lower)
  have same := congrArg String.toList (split.symm.trans split')
  simp only [String.toList_append, List.append_assoc] at same
  have parts : spelling.toList ++ '/' :: rest.toList = spelling'.toList ++ '/' :: rest'.toList :=
    List.append_cancel_left same
  have spelled := (Ecma.segment_cancel (unslashed _ free) (unslashed _ free') parts).1
  rw [String.ext spelled]

end Names

end GuitarCoach
