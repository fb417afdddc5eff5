/- digest: The five tools of the Routine Coach, its input guardrail and a whole conversation. -/

import GuitarCoach.Ai.RoutineCoach
import GuitarCoach.PracticeSessions.PracticeSessionsService

set_option autoImplicit false
set_option relaxedAutoImplicit false

namespace GuitarCoach.AiRoutineCoach

/-! ### The input guardrail -/

def denyTerms : List String :=
  ["password", "passwd", "secret", "api key", "apikey", "access token", "refresh token",
    "credential", "database", "db password", "sql", "drop table", "select *", "delete from",
    "prisma", "connection string", "env var", "environment variable", ".env", "root access",
    "ignore your instructions", "ignore previous instructions", "ignore all prior",
    "system prompt", "jailbreak", "other user", "another user", "someone else's",
    "everyone's email", "all users", "every user", "delete all", "delete every"]

def allowTerms : List String :=
  ["routine", "practice", "guitar", "task", "session", "exercise", "scale", "chord", "warm up",
    "warm-up", "warmup", "technique", "repertoire", "improvisation", "improv", "tempo",
    "metronome", "strum", "fret", "lesson", "song", "riff", "minute", "duration"]

/-- `text.includes(term)`. -/
def includes (text term : String) : Bool :=
  text.toList.tails.any fun rest => term.toList.isPrefixOf rest

/-- `tripwireTriggered` of `RoutineCoachInputGuardrail`. -/
def tripwireTriggered (letters : Letters) (message : String) : Bool :=
  let text := letters.toLowerCase message
  let matchedDenyTerm := denyTerms.find? (includes text)
  let isOnTopic := allowTerms.any (includes text)
  matchedDenyTerm.isSome || !isOnTopic

/-! ### The tools that read -/

def defaultLookbackDays : Nat := 14
def minLookbackDays : Int := 1
def maxLookbackDays : Int := 90

/-- The days of the arguments of the three tools that look back, with their default. -/
def lookback? : Json → Option Nat
  | .obj fields =>
    match fields.lookup "days" with
    | none => some defaultLookbackDays
    | some value => do
      let days ← value.int?
      guard (minLookbackDays ≤ days ∧ days ≤ maxLookbackDays)
      return days.toNat
  | _ => none

/-- `z.enum(['technique', 'theory', 'repertoire'])`. -/
def taskCategory? : Json → Option TaskCategory
  | .str s =>
    if s = "technique" then some .technique
    else if s = "theory" then some .theory
    else if s = "repertoire" then some .repertoire
    else none
  | _ => none

/-- `GetUserTasksArgsSchema`. -/
def category? : Json → Option (Option TaskCategory)
  | .obj fields =>
    match fields.lookup "category" with
    | none => some none
    | some value => (taskCategory? value).map some
  | _ => none

structure UserTaskResult where
  id : Uuid
  title : String
  category : Option TaskCategory
  difficulty : Option TaskDifficulty
  description : Option String
deriving DecidableEq

structure RecentRoutineTask where
  taskId : Uuid
  title : String
  position : Int
  targetDurationMinutes : Option Int
deriving DecidableEq

/-- Its dates are kept as instants, which the source writes as texts. -/
structure RecentRoutineResult where
  id : Uuid
  title : String
  createdAt : Instant
  tasks : List RecentRoutineTask
deriving DecidableEq

structure RecentSessionTask where
  taskId : Uuid
  title : String
  durationMinutes : Option Int
  completed : Bool
deriving DecidableEq

structure RecentPracticeSessionResult where
  date : Instant
  durationMinutes : Int
  routineId : Option Uuid
  routineTitle : Option String
  tasks : List RecentSessionTask
deriving DecidableEq

def UserTaskResult.of (task : Task) : UserTaskResult :=
  ⟨task.id, task.title, task.category, task.difficulty, task.description⟩

def RecentRoutineResult.of (routine : RoutineWithTasks) : RecentRoutineResult where
  id := routine.routine.id
  title := routine.routine.title
  createdAt := routine.routine.createdAt
  tasks := routine.routineTasks.map fun a =>
    ⟨a.routineTask.taskId, a.task.title, a.routineTask.position,
      a.routineTask.targetDurationMinutes⟩

def RecentPracticeSessionResult.of (session : RecentSession) : RecentPracticeSessionResult :=
  let tasks : List RecentSessionTask := session.sessionTasks.map fun a =>
    ⟨a.sessionTask.taskId, a.task.title, a.sessionTask.durationMinutes, a.sessionTask.completed⟩
  { date := session.session.createdAt
    durationMinutes := (tasks.map fun task => task.durationMinutes.getD 0).sum
    routineId := session.routine.map (·.id)
    routineTitle := session.routine.map (·.title)
    tasks := tasks }

def getUserTasks (category : Option TaskCategory) : Promise (List UserTaskResult) := do
  let tasks ← TasksService.findAllUnpaginated
  let filtered : List Task := match category with
    | some category => tasks.filter fun task => task.category = some category
    | none => tasks
  return filtered.map UserTaskResult.of

def getRecentRoutines (userId : Uuid) (days : Nat) : Promise (List RecentRoutineResult) := do
  let routines ← RoutinesService.findRecent userId days
  return routines.map RecentRoutineResult.of

def getRecentPracticeSessions (userId : Uuid) (days : Nat) :
    Promise (List RecentPracticeSessionResult) := do
  let sessions ← PracticeSessionsService.findRecent userId days
  return sessions.map RecentPracticeSessionResult.of

/-! ### A conversation -/

inductive AgentCall
  | getRecentPracticeSessions (rawArgs : Json)
  | getRecentRoutines (rawArgs : Json)
  | getUserTasks (rawArgs : Json)
  | getTaskStats (rawArgs : Json)
  | createRoutine (rawArgs : Json)

/-- What a tool gives back to the model. -/
inductive CallResult
  | recentPracticeSessions (sessions : List RecentPracticeSessionResult)
  | recentRoutines (routines : List RecentRoutineResult)
  | userTasks (tasks : List UserTaskResult)
  | taskStats (stats : List TaskStat)
  | createRoutine (result : CreateRoutineResult)

/-- Arguments that a schema refuses do not reach their tool. -/
def invalidToolInput : Failure := .agent .modelBehavior

/-- One call of a tool, with the routine that it has put into the context. -/
def callTool (userId : Uuid) : AgentCall → Promise (CallResult × Option CreatedRoutine)
  | .getRecentPracticeSessions rawArgs =>
    match lookback? rawArgs with
    | none => throw invalidToolInput
    | some days => do
      let sessions ← getRecentPracticeSessions userId days
      return (.recentPracticeSessions sessions, none)
  | .getRecentRoutines rawArgs =>
    match lookback? rawArgs with
    | none => throw invalidToolInput
    | some days => do
      let routines ← getRecentRoutines userId days
      return (.recentRoutines routines, none)
  | .getUserTasks rawArgs =>
    match category? rawArgs with
    | none => throw invalidToolInput
    | some category => do
      let tasks ← getUserTasks category
      return (.userTasks tasks, none)
  | .getTaskStats rawArgs =>
    match lookback? rawArgs with
    | none => throw invalidToolInput
    | some days => do
      let stats ← PracticeSessionsService.getTaskStats userId days
      return (.taskStats stats, none)
  | .createRoutine rawArgs => do
    let (result, created) ← createRoutine userId rawArgs none
    return (.createRoutine result, created)

/-- What an agent does in one run: its tool calls, those of one turn at the same time, and how the
run ends. -/
structure AgentSession where
  turns : List (List AgentCall)
  outcome : Except Failure (Option String)

/-- The calls of a turn, with what each gave back to the model and the routine that the last of
them to create one has put into the context. One that throws is reported to the agent, which goes
on or not. -/
def runTurn (userId : Uuid) :
    List AgentCall → Promise (List (Option CallResult) × Option CreatedRoutine)
  | [] => return ([], none)
  | call :: rest => do
    let ((result, created), results, others) ← Async.Method.par
      (tryCatch
        (do
          let (result, created) ← callTool userId call
          return (some result, created))
        fun _ => return (none, none))
      (runTurn userId rest)
    .either fun last =>
      return (result :: results, if last then created.or others else others.or created)

def runSession (userId : Uuid) : List (List AgentCall) → Option CreatedRoutine →
    Promise (List (Option CallResult) × Option CreatedRoutine)
  | [], createdRoutine => return ([], createdRoutine)
  | turn :: rest, createdRoutine => do
    let (results, created) ← runTurn userId turn
    let (later, createdRoutine) ← runSession userId rest (created.or createdRoutine)
    return (results ++ later, createdRoutine)

/-- The answer to the client once the run has ended. -/
def respond (outcome : Except Failure (Option String)) (createdRoutine : Option CreatedRoutine) :
    Except Failure RoutineCoachResponseDto :=
  match outcome with
  | .error error => .error (translateAgentError error)
  | .ok finalOutput =>
    .ok ⟨finalOutput.getD "", createdRoutine.map (·.routineId), createdRoutine.map (·.title),
      createdRoutine.map (·.taskCount)⟩

/-- What a message of a user sends out: to the model what its tools gave back, to the client the
answer. A message that trips the guardrail reaches neither the model nor a tool. -/
def converse (letters : Letters) (userId : Uuid) (message : String) (session : AgentSession) :
    Promise (List (Option CallResult) × Except Failure RoutineCoachResponseDto) := do
  if tripwireTriggered letters message then
    return ([], .error (translateAgentError (.agent .inputGuardrail)))
  let (results, createdRoutine) ← runSession userId session.turns none
  return (results, respond session.outcome createdRoutine)

end GuitarCoach.AiRoutineCoach
