import GuitarCoach.Async.Interleaving
import GuitarCoach.Users.UsersService
import GuitarCoach.Ai.PlannerRuns
import GuitarCoach.Ai.CoachRuns
import GuitarCoach.Pages
import GuitarCoach.Ownership.Closure
import GuitarCoach.PracticeSessions.SessionSpecs
import GuitarCoach.Requests
import GuitarCoach.Users.AvatarSpecs
import GuitarCoach.Users.Orphans
import GuitarCoach.Async.History
import GuitarCoach.Tasks.SingleTaskCache
import GuitarCoach.Tasks.ListVersions
import GuitarCoach.Routines.Positions
import GuitarCoach.Routines.ReorderAlone
import GuitarCoach.Routines.ReorderLocks
import GuitarCoach.Routines.ReorderRuns
import GuitarCoach.Auth.RateLimitWindows
import GuitarCoach.Ai.PlanOwnership
import GuitarCoach.Ai.SavedArguments
import GuitarCoach.Observability.Redaction
import GuitarCoach.Observability.StructuredLogger
import GuitarCoach.Observability.SensitiveKeys
import GuitarCoach.Observability.CredentialedUrls
import GuitarCoach.Observability.ObjectGraphs
import GuitarCoach.Calendar.Civil
import GuitarCoach.WeeklyRoutineCleanup.WeekBoundary
import GuitarCoach.Routines.RoutineEndpoints
import GuitarCoach.PracticeSessions.LoggedSessions
import GuitarCoach.Ai.CreateRoutineTool
import GuitarCoach.Ai.PartialRoutines
import GuitarCoach.PracticeSessions.RecordingFailures
import GuitarCoach.Auth.RetryAfter
import GuitarCoach.PracticeSessions.TaskStats
import GuitarCoach.Tasks.TitleSearch
import GuitarCoach.Observability.CycleGuard
import GuitarCoach.Routines.RoutineCreatedConsumer
import GuitarCoach.Ai.PlanConfirmation
import GuitarCoach.Ai.TaskDrafts
import GuitarCoach.Ecma.Codes
import GuitarCoach.Ecma.Numbers
import GuitarCoach.Tasks.CacheKeys
import GuitarCoach.Routines.ConcurrentAppends
import GuitarCoach.Async.CallLog
import GuitarCoach.Async.SwapRegister
import GuitarCoach.Users.AvatarSwaps
import GuitarCoach.Users.PurgeAlone
import GuitarCoach.Relational.TableRuns
import GuitarCoach.Async.Exclusive
import GuitarCoach.Ai.CoachTools
import GuitarCoach.WeeklyRoutineCleanup.WeeklyRoutineCleanupService
import GuitarCoach.Backend
import GuitarCoach.Ownership.OpenTransactions
import GuitarCoach.Ownership.Parts
import GuitarCoach.Ownership.Effects
import GuitarCoach.Ownership.Writes
import GuitarCoach.Ownership.Lasts
import GuitarCoach.Ownership.Checks
import GuitarCoach.Ownership.Purges
import GuitarCoach.Ownership.Interleavings
import GuitarCoach.Ownership.Runs
import GuitarCoach.Async.EndsAlike
import GuitarCoach.Relational.Restrict
import GuitarCoach.Ownership.SeenBy
import GuitarCoach.Ownership.Isolation
import GuitarCoach.Ownership.Statements
import GuitarCoach.Ownership.HiddenTasks
import GuitarCoach.Ownership.OthersUnseen
