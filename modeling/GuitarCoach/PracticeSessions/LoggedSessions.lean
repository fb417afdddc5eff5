/- digest: Logging a session on a healthy database: what is saved, and when a raw error escapes. -/

import GuitarCoach.PracticeSessions.SessionSpecs
import GuitarCoach.Routines.RoutineEndpoints

set_option autoImplicit false
set_option relaxedAutoImplicit false

namespace GuitarCoach.PracticeSessionsService

open Async (Cue Ends wp onOk wp_bind wp_handle wp_ite wp_done wp_fail wp_ends)
open Async.Method (pure_eq throw_eq bind_eq tryCatch_eq)
open Relational (Table)
open RoutinesService (AllVisible Owns healthy_assertTasksVisible)

/-- The tasks a request lists. -/
def listed (dto : CreatePracticeSessionDto) : List CreatePracticeSessionTaskDto :=
  dto.tasks.toOption.getD []

/-- One session with exactly the listed tasks was added, and nothing else changed. -/
structure Logged (userId : Uuid) (dto : CreatePracticeSessionDto) (before after : Db) : Prop where
  saved : ∃ i : Input,
    after.practiceSessions.rows = before.practiceSessions.rows ++ [dto.row userId i] ∧
      after.practiceSessionTasks.rows =
        before.practiceSessionTasks.rows ++ (listed dto).map (·.row (dto.row userId i).id i)
  others : after = { before with
    practiceSessions := after.practiceSessions
    practiceSessionTasks := after.practiceSessionTasks }

/-- The request logged its session, or was answered with a 4xx exception and saved nothing. -/
def Total (userId : Uuid) (dto : CreatePracticeSessionDto)
    (r : Except Failure PracticeSessionResponseDto) (before after : Db) : Prop :=
  (∃ response, r = .ok response) ∧ Logged userId dto before after ∨
    (∃ e, r = .error e ∧ e.isClientError = true) ∧ after = before

/-- The request passes the checks that are made before anything is written. -/
structure Passes (userId : Uuid) (dto : CreatePracticeSessionDto) (db : Db) : Prop where
  routine : ∀ routineId, dto.routineId = .value routineId → Owns userId routineId db
  tasks : AllVisible userId ((listed dto).map (·.taskId)) db

/-- The columns take the texts of the session and the values of the listed tasks, and no two of
these are one task. -/
structure Storable (dto : CreatePracticeSessionDto) : Prop where
  title : dto.title.toOption.all fitsText = true
  notes : dto.notes.toOption.all fitsText = true
  completed : ∀ a ∈ listed dto, a.completed ≠ .null
  fits : ∀ a ∈ listed dto, a.durationMinutes.toOption.all fitsInt4 = true
  distinct : ((listed dto).map fun a => Uuid.ofText a.taskId).Nodup

section Rows

variable {userId : Uuid} {dto : CreatePracticeSessionDto} {i : Input} {db : Db}

end Rows

section Sample

private def scales : Task := ⟨firstId, "Scales", none, none, none, none, none, 0, 0⟩

private def library : World :=
  { World.signedUp with
    db := { World.signedUp.db with tasks := ⟨[scales], by decide⟩ } }

/-- A session in which the task is listed so many times. -/
private def practised (times : Nat) : CreatePracticeSessionDto :=
  ⟨.absent, .absent, .absent, .value (List.replicate times ⟨firstId.text, .value 10, .absent⟩)⟩

private def cues : List (Cue Input Failure) := List.replicate 2 (took (.of secondId 0))

private def isRaw : Except Failure PracticeSessionResponseDto → Bool
  | .ok _ => false
  | .error e => !e.isClientError

private def once : PracticeSessionResponseDto :=
  ⟨(practised 1).row alice (.of secondId 0),
    [⟨⟨secondId, firstId, some 10, false, 0, 0⟩, firstId, "Scales"⟩]⟩

private theorem twice_ends : ∃ r, isRaw r = true ∧ Ends healthy (create alice (practised 2))
    library r (Async.after (create alice (practised 2)) cues library) :=
  Async.ends_after_passes healthyBy_sound (by decide +kernel) (by decide +kernel)

end Sample

end GuitarCoach.PracticeSessionsService
