/- digest: WeeklyRoutineCleanupService: the job that archives the routines of past weeks. -/

import GuitarCoach.Routines.RoutinesService
import GuitarCoach.WeeklyRoutineCleanup.WeekBoundary

set_option autoImplicit false
set_option relaxedAutoImplicit false

namespace GuitarCoach

/-- The environment of the job. `parseDate` is what `new Date(text)` reads, when it is a date. -/
structure CleanupSettings where
  timeZone : TimeZone
  override : Option String
  parseDate : String → Option Instant

def resolveWeekStart (settings : CleanupSettings) (now : Instant) : Except Failure Instant :=
  match settings.override with
  | none => getCurrentWeekStart now settings.timeZone
  | some override =>
    match settings.parseDate override with
    | none => .error (.unexpected ("Invalid CLEANUP_WEEK_START value: \"" ++ override ++ "\""))
    | some parsed => .ok parsed

structure WeeklyRoutineCleanupResult where
  weekStart : Instant
  archivedCount : Nat
deriving DecidableEq

namespace WeeklyRoutineCleanupService

open Promise

/-- `where: { status: active, createdAt: { lt: weekStart } }`. -/
def stale (weekStart : Instant) (a : Routine) : Bool :=
  a.status = .active && a.createdAt < weekStart

/-- `data: { status: archived }`. -/
def archive (now : Instant) (a : Routine) : Routine :=
  { a with status := .archived, updatedAt := now }

/-- The job, started at `now`. -/
def run (settings : CleanupSettings) (now : Instant) : Promise WeeklyRoutineCleanupResult := do
  match resolveWeekStart settings now with
  | .error e => throw e
  | .ok weekStart =>
    let archivedCount ← write .routine .updateMany
      (fun db => { routines := (db.routines.rows.filter (stale weekStart)).map (·.id) }) fun i db =>
        .ok ((db.routines.rows.filter (stale weekStart)).length,
          { db with
            routines := db.routines.updateWhere (stale weekStart) (archive i.now) fun _ => rfl })
    return ⟨weekStart, archivedCount⟩

end WeeklyRoutineCleanupService

end GuitarCoach
