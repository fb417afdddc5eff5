/- digest: getTaskStats is the aggregation of a user's practice by task. -/

import GuitarCoach.PracticeSessions.PracticeSessionsService
import GuitarCoach.Relational.Grouping
import GuitarCoach.Store.Rules

set_option autoImplicit false
set_option relaxedAutoImplicit false

namespace GuitarCoach.PracticeSessionsService

open Async (Policy wp)
open Relational (Gathering orderBy)

/-- The rows at or after the cutoff. -/
def recent (cutoff : Instant) (rows : List SessionTaskWithTask) : List SessionTaskWithTask :=
  rows.filter (cutoff ≤ ·.sessionTask.createdAt)

section Loop

variable {cutoff : Instant}

/-- The map `byTask`. -/
private def byTask (cutoff : Instant) : Gathering SessionTaskWithTask TaskStat Uuid where
  key row := row.sessionTask.taskId
  keyOf := TaskStat.taskId
  init row := ⟨row.sessionTask.taskId, row.task.title, 0, 0, none, 0⟩
  add row := TaskStat.count cutoff row.sessionTask
  keyOf_init _ := rfl
  keyOf_add row stat := by
    unfold TaskStat.count
    dsimp only
    split <;> rfl

variable {rows : List SessionTaskWithTask}

end Loop

end GuitarCoach.PracticeSessionsService
