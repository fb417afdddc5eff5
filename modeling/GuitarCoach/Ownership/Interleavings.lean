/- digest: Any interleaving of requests keeps the tables closed and everybody to what is theirs. -/

import GuitarCoach.Ownership.Purges

/-!
A request that links a task, logs a session or adds a recording writes after its checks, and by
then others have written too. What it has checked still holds of the ids: a row that had an owner
keeps it as long as it is there, and its id is never given to another row.
-/

set_option autoImplicit false
set_option relaxedAutoImplicit false

namespace GuitarCoach

open Async (Answer Call Keeping Run Safe onOk)
open Async.Method (Calls bind_eq tryCatch_eq throw_eq pure_eq)
open Relational (Lasting Table)

section Requests

variable {settings : Settings} {request : Nat → ServiceRequest} {r : Backend} {i t : Nat}
  {userId : Uuid}

theorem UserRequest.keeping_run (run : BackendRun settings request r)
    (acts : (request i).actor = some userId) (q : UserRequest) :
    Keeping (r.anytime i (r.Lasts request)) (q.run settings userId) := by
  cases q with
  | findTasks query => exact run.keeping acts (TasksService.affects_findAll _ _)
  | findTask id => exact run.keeping acts (TasksService.affects_findById _ _)
  | createRoutine dto => exact run.keeping acts (RoutinesService.affects_create _ _)
  | findRoutines query => exact run.keeping acts (RoutinesService.affects_findAll _ _)
  | findRoutine id => exact run.keeping acts (RoutinesService.affects_findById _ _)
  | findRecentRoutines days => exact run.keeping acts (RoutinesService.affects_findRecent _ _)
  | updateRoutine id dto => exact run.keeping acts (RoutinesService.affects_update _ _ _)
  | removeRoutine id => exact run.keeping acts (RoutinesService.affects_remove _ _)
  | findRoutineTasks routineId => exact run.keeping acts (RoutinesService.affects_findTasks _ _)
  | assertTasksVisible taskIds =>
    exact run.keeping acts (RoutinesService.affects_assertTasksVisible _ _)
  | addRoutineTask routineId dto => exact RoutinesService.keeping_addTask run acts _ _
  | updateRoutineTask routineId taskId dto => exact RoutinesService.keeping_updateTask run acts _ _ _
  | removeRoutineTask routineId taskId => exact RoutinesService.keeping_removeTask run acts _ _
  | reorderRoutineTasks routineId taskIds => exact RoutinesService.keeping_reorderTasks run acts _ _
  | createSession dto => exact PracticeSessionsService.keeping_create run acts _
  | findSessions query => exact run.keeping acts (PracticeSessionsService.affects_findAll _ _)
  | findSession id => exact run.keeping acts (PracticeSessionsService.affects_findById _ _)
  | deleteSessionsByTitle title =>
    exact run.keeping acts (PracticeSessionsService.affects_deleteByTitle _ _)
  | findRecentSessions days => exact run.keeping acts (PracticeSessionsService.affects_findRecent _ _)
  | getTaskStats days => exact run.keeping acts (PracticeSessionsService.affects_getTaskStats _ _)
  | uploadRecording practiceSessionId file => exact RecordingsService.keeping_upload run acts _ _
  | findRecordings practiceSessionId =>
    exact run.keeping acts (RecordingsService.affects_findAllForSession _ _)
  | getDownloadUrl id => exact RecordingsService.keeping_getDownloadUrl run acts _ _
  | removeRecording id => exact RecordingsService.keeping_remove run acts _

/-! ### The requests of the two agents -/

namespace AiPracticePlanner

theorem keeping_execute (run : BackendRun settings request r)
    (acts : (request i).actor = some userId) (rawArgs : Json) :
    Keeping (r.anytime i (r.Lasts request)) (execute userId rawArgs) := by
  unfold execute
  split
  · exact keeping_fail _
  · refine Keeping.bind (run.keeping acts (RoutinesService.affects_create _ _)) fun routine => ?_
    refine Keeping.bind (Keeping.forM (fun entry => ?_) _) fun _ => keeping_done _
    refine Keeping.bind (run.keeping acts (TasksService.affects_createPrivate _ _ _)) fun task => ?_
    exact (RoutinesService.keeping_addTask run acts _ _).bind fun _ => keeping_done _

private theorem keeping_provider {inv : Nat → Prop} {α : Type} {fn : Promise α}
    (safe : Keeping (r.anytime i inv) fn) (unavailableMessage : String) :
    Keeping (r.anytime i inv) (callAiProvider fn unavailableMessage) := by
  refine safe.handle fun e => ?_
  split
  · exact keeping_fail _
  · exact keeping_fail _
  · exact keeping_fail _

private theorem keeping_generate (run : BackendRun settings request r)
    (acts : (request i).actor = some userId) (prompt : String) :
    Keeping (r.anytime i (r.Lasts request)) (generatePracticePlan prompt) := by
  refine Keeping.bind (run.keeping acts (Promise.affects_responsesParse _)) fun response => ?_
  dsimp only
  split
  · exact keeping_fail _
  · cases response.outputParsed with
    | none => exact keeping_fail _
    | some plan => exact keeping_done _

private theorem keeping_confirm (run : BackendRun settings request r)
    (acts : (request i).actor = some userId) (previousResponseId : String) :
    Keeping (r.anytime i (r.Lasts request))
      (confirmAndCreateRoutine previousResponseId (execute userId)) := by
  refine Keeping.bind (run.keeping acts (Promise.affects_responsesParse _)) fun response => ?_
  dsimp only
  split
  · exact keeping_fail _
  · split
    · refine (keeping_execute run acts _).bind fun toolResult => ?_
      refine Keeping.bind (run.keeping acts (Promise.affects_responsesParse _)) fun followUp => ?_
      split
      · exact keeping_fail _
      · exact keeping_done _
    · exact keeping_fail _

theorem keeping_handleRequest (run : BackendRun settings request r)
    (acts : (request i).actor = some userId) (dto : PracticePlannerRequestDto) :
    Keeping (r.anytime i (r.Lasts request)) (handleRequest userId dto) := by
  unfold handleRequest
  dsimp only
  split
  · exact keeping_fail _
  · split
    · next prompt _ =>
      refine (keeping_provider (keeping_generate run acts prompt) _).bind fun result => ?_
      split
      · exact keeping_fail _
      · refine Keeping.bind ?_ fun _ => keeping_done _
        exact Keeping.handle (run.keeping acts (Promise.affects_cacheSet _ _ _)) fun _ => keeping_done _
    · unfold resolveConfirmation
      split
      · exact keeping_done _
      · split
        · exact keeping_fail _
        · split
          · exact keeping_fail _
          · refine Keeping.bind ?_ fun cachedUserId => ?_
            · exact Keeping.handle (run.keeping acts (Promise.affects_cacheGet _)) fun _ => keeping_done _
            · dsimp only
              split
              · exact keeping_fail _
              · exact (keeping_provider (keeping_confirm run acts _) _).bind fun _ => keeping_done _

end AiPracticePlanner

namespace AiRoutineCoach

theorem keeping_createRoutine (run : BackendRun settings request r)
    (acts : (request i).actor = some userId) (rawArgs : Json)
    (createdRoutine : Option CreatedRoutine) :
    Keeping (r.anytime i (r.Lasts request)) (createRoutine userId rawArgs createdRoutine) := by
  unfold createRoutine
  split
  · exact keeping_done _
  · next args _ =>
    split
    · exact keeping_done _
    · refine Keeping.handle (Keeping.bind ?_ fun _ => keeping_done _) fun e => ?_
      · refine Keeping.bind (Keeping.forM (fun taskId => ?_) _) fun _ => ?_
        · exact Keeping.bind (run.keeping acts (TasksService.affects_findById _ _)) fun _ => keeping_done _
        · refine Keeping.bind (run.keeping acts (RoutinesService.affects_create _ _)) fun routine => ?_
          refine Keeping.bind (Keeping.forM (fun task => ?_) _) fun _ => keeping_done _
          exact (RoutinesService.keeping_addTask run acts _ _).bind fun _ => keeping_done _
      · split
        · exact keeping_done _
        · exact keeping_fail _

theorem keeping_callTool (run : BackendRun settings request r)
    (acts : (request i).actor = some userId) (call : AgentCall) :
    Keeping (r.anytime i (r.Lasts request)) (callTool userId call) := by
  cases call with
  | getRecentPracticeSessions rawArgs =>
    rw [callTool]
    split
    · exact keeping_fail _
    · refine Keeping.bind ?_ fun _ => keeping_done _
      exact run.keeping acts (affects_getRecentPracticeSessions _ _)
  | getRecentRoutines rawArgs =>
    rw [callTool]
    split
    · exact keeping_fail _
    · exact Keeping.bind (run.keeping acts (affects_getRecentRoutines _ _)) fun _ => keeping_done _
  | getUserTasks rawArgs =>
    rw [callTool]
    split
    · exact keeping_fail _
    · exact Keeping.bind (run.keeping acts (affects_getUserTasks _)) fun _ => keeping_done _
  | getTaskStats rawArgs =>
    rw [callTool]
    split
    · exact keeping_fail _
    · exact Keeping.bind (run.keeping acts (PracticeSessionsService.affects_getTaskStats _ _))
        fun _ => keeping_done _
  | createRoutine rawArgs =>
    exact (keeping_createRoutine run acts rawArgs none).bind fun _ => keeping_done _

theorem keeping_runTurn (run : BackendRun settings request r)
    (acts : (request i).actor = some userId) (turn : List AgentCall) :
    Keeping (r.anytime i (r.Lasts request)) (runTurn userId turn) := by
  induction turn with
  | nil => exact keeping_done _
  | cons call rest ih =>
    refine Keeping.bind (Keeping.par Run.anytime_passing ?_ ih) fun _ => ?_
    · exact Keeping.handle ((keeping_callTool run acts call).bind fun _ => keeping_done _)
        fun _ => keeping_done _
    · exact fun t last => keeping_done _ t

theorem keeping_converse (run : BackendRun settings request r)
    (acts : (request i).actor = some userId) (letters : Letters) (message : String)
    (session : AgentSession) :
    Keeping (r.anytime i (r.Lasts request)) (converse letters userId message session) := by
  have turns : ∀ (turns : List (List AgentCall)) (createdRoutine : Option CreatedRoutine),
      Keeping (r.anytime i (r.Lasts request)) (runSession userId turns createdRoutine) := by
    intro turns
    induction turns with
    | nil => exact fun _ => keeping_done _
    | cons turn rest ih =>
      intro createdRoutine
      exact (keeping_runTurn run acts turn).bind fun _ => (ih _).bind fun _ => keeping_done _
  unfold converse
  split
  · exact keeping_done _
  · exact (turns _ _).bind fun _ => keeping_done _

end AiRoutineCoach

/-- The user whose account the request deletes. -/
def ServiceRequest.purges : ServiceRequest → Option Uuid
  | deleteAccount userId => some userId
  | removeUser id => some (.ofText id)
  | _ => none

theorem ServiceRequest.safe_run (run : BackendRun settings request r) (q : ServiceRequest)
    (same : request i = q) : Safe (r.setting i (r.Lasts request)) (q.run settings)
      (onOk (fun _ u => ∀ userId, q.purges = some userId → r.Purged userId u) fun _ _ => True) t := by
  have acts : (request i).actor = q.actor := congrArg actor same
  -- a request that deletes no account only has to keep what lasts
  have keeping : q.purges = none → Keeping (r.anytime i (r.Lasts request)) (q.run settings) →
      Safe (r.setting i (r.Lasts request)) (q.run settings)
        (onOk (fun _ u => ∀ userId, q.purges = some userId → r.Purged userId u)
          fun _ _ => True) t := by
    intro none safe
    refine (Run.safe_of_anytime (safe t)).weaken fun res u _ _ => ?_
    cases res with
    | ok _ => exact fun userId purges => by cases none.symm.trans purges
    | error e => trivial
  cases q with
  | user userId request => exact keeping rfl (request.keeping_run run acts)
  | planner userId dto => exact keeping rfl (AiPracticePlanner.keeping_handleRequest run acts dto)
  | coach userId message session =>
    exact keeping rfl (AiRoutineCoach.keeping_converse run acts _ message session)
  | uploadAvatar userId file => exact keeping rfl (run.keeping acts (AvatarService.affects_upload _ _ _))
  | getAvatarUrl userId => exact keeping rfl (run.keeping acts (AvatarService.affects_getUrl _ _))
  | removeAvatar userId => exact keeping rfl (run.keeping acts (AvatarService.affects_remove _))
  | deleteAccount userId =>
    have acts : (request i).actor = some (.ofText userId.text) := by
      rw [Uuid.ofText_text]
      exact acts
    refine (UsersService.safe_purge acts).weaken fun res u _ h => ?_
    cases res with
    | ok _ =>
      intro userId' purges
      cases purges
      rw [onOk, Uuid.ofText_text] at h
      exact h
    | error e => trivial
  | createTask dto => exact keeping rfl (run.keeping acts (TasksService.affects_create _))
  | createTasks dtos => exact keeping rfl (run.keeping acts (TasksService.affects_createMany _))
  | updateTask id dto => exact keeping rfl (run.keeping acts (TasksService.affects_update _ _))
  | removeTask id => exact keeping rfl (run.keeping acts (TasksService.affects_remove _))
  | removeUser id =>
    refine (UsersService.safe_purge acts).weaken fun res u _ h => ?_
    cases res with
    | ok _ =>
      intro userId' purges
      cases purges
      exact h
    | error e => trivial
  | weeklyCleanup cleanup now =>
    exact keeping rfl (run.keeping acts (WeeklyRoutineCleanupService.affects_run _ _))

/-- However the requests interleave, what lasts lasts, and who deleted an account has purged it. -/
theorem BackendRun.safe (run : BackendRun settings request r) (t : Nat) :
    r.Lasts request t ∧ ∀ i m, r.slot i t = some m → Safe (r.setting i (r.Lasts request)) m
      (onOk (fun _ u => ∀ userId, (request i).purges = some userId → r.Purged userId u)
        fun _ _ => True) t := by
  refine Run.safe (.start run.start) (fun t lasts same quiet => ?_)
    (fun t a lasts acts next => run.outside_lasts lasts acts next) (fun i t _ _ _ => ?_) t
  · exact lasts.same (fun i l x called => absurd called (quiet i l x)) (congrArg World.db same)
      (congrArg World.txs same)
  · rw [run.requests i]
    refine Safe.bind ((ServiceRequest.safe_run run (request i) rfl).weaken fun res u _ h => ?_)
    cases res with
    | error e => trivial
    | ok result => exact fun v later _ userId purges => (h userId purges).later later.1

theorem BackendRun.lasts (run : BackendRun settings request r) (t : Nat) : r.Lasts request t :=
  (run.safe t).1

end Requests

end GuitarCoach
