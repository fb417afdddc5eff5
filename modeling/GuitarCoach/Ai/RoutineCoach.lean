/- digest: AiRoutineCoachService and its create_routine tool. -/

import GuitarCoach.Routines.RoutinesService

set_option autoImplicit false
set_option relaxedAutoImplicit false

namespace GuitarCoach.AiRoutineCoach

open Promise

def maxTaskDurationMinutes : Int := 120
def maxTotalRoutineDurationMinutes : Int := 240
def maxTasksPerRoutine : Nat := 20

structure CreateRoutineTaskArg where
  taskId : String
  durationMinutes : Int
  order : Int

structure CreateRoutineArgs where
  name : String
  tasks : List CreateRoutineTaskArg

def isHex (c : Char) : Bool :=
  c.isDigit || ('a' ≤ c && c ≤ 'f') || ('A' ≤ c && c ≤ 'F')

/-- What `z.uuid()` asks of each character: hexadecimal groups, a version and a variant. -/
def uuidDigits : List (Char → Bool) :=
  let hyphen : Char → Bool := fun c => c = '-'
  let version : Char → Bool := fun c => '1' ≤ c && c ≤ '8'
  let variant : Char → Bool := fun c => c ∈ "89abAB".toList
  List.replicate 8 isHex ++ hyphen :: List.replicate 4 isHex ++
    hyphen :: version :: List.replicate 3 isHex ++
    hyphen :: variant :: List.replicate 3 isHex ++ hyphen :: List.replicate 12 isHex

/-- `z.uuid()`. -/
def isUuid (s : String) : Bool :=
  (s.toList.length = uuidDigits.length && (uuidDigits.zip s.toList).all fun (ok, c) => ok c) ||
    s = "00000000-0000-0000-0000-000000000000" || s = "ffffffff-ffff-ffff-ffff-ffffffffffff"

/-- `CreateRoutineTaskArgSchema`. -/
def CreateRoutineTaskArg.safeParse (value : Json) : Option CreateRoutineTaskArg := do
  let taskId ← (← value.field? "taskId").string?
  guard (isUuid taskId)
  let durationMinutes ← (← value.field? "durationMinutes").int?
  guard (1 ≤ durationMinutes ∧ durationMinutes ≤ maxTaskDurationMinutes)
  let order ← (← value.field? "order").int?
  guard (1 ≤ order)
  return ⟨taskId, durationMinutes, order⟩

/-- `CreateRoutineArgsSchema`. -/
def CreateRoutineArgs.safeParse (value : Json) : Option CreateRoutineArgs := do
  let name ← (← value.field? "name").string?
  guard (2 ≤ utf16Length name ∧ utf16Length name ≤ 200)
  let tasks ← (← (← value.field? "tasks").array?).mapM CreateRoutineTaskArg.safeParse
  guard (1 ≤ tasks.length ∧ tasks.length ≤ maxTasksPerRoutine)
  return ⟨name, tasks⟩

/-- `RoutineCoachCreatedRoutine`. -/
structure CreatedRoutine where
  routineId : Uuid
  title : String
  taskCount : Nat
deriving DecidableEq

inductive CreateRoutineResult
  | success (routine : CreatedRoutine)
  | failure (error : Message)

/-- `isKnownToolError`, and the message such an error has. -/
def knownToolError? : Failure → Option Message
  | .http .badRequest message => some message
  | .http .notFound message => some message
  | .http .conflict message => some message
  | _ => none

/-- `args.tasks` in the order the routine has them. -/
def orderedTasks (args : CreateRoutineArgs) : List CreateRoutineTaskArg :=
  args.tasks.insertionSort fun a b => a.order ≤ b.order

/-- The checks made before anything is read or written. -/
def rejection? (args : CreateRoutineArgs) : Option Message :=
  let taskIds := args.tasks.map (·.taskId)
  let orders := (args.tasks.map (·.order)).insertionSort (· ≤ ·)
  let totalDuration := (args.tasks.map (·.durationMinutes)).sum
  if taskIds.dedup.length ≠ taskIds.length then
    some [.text "Duplicate taskId in create_routine tasks"]
  else if orders.zipIdx.any fun (order, index) => order ≠ (index : Int) + 1 then
    some [.text "Task order values must be exactly 1..N with no gaps or duplicates"]
  else if maxTotalRoutineDurationMinutes < totalDuration then
    some [.text "Total routine duration (", .number totalDuration,
      .text "m) exceeds the maximum of ", .number maxTotalRoutineDurationMinutes, .text "m"]
  else none

/-- The reads and writes of a call whose arguments are in order. -/
def persist (userId : Uuid) (args : CreateRoutineArgs) : Promise CreatedRoutine := do
  -- narrows the window in which a failing `addTask` leaves a partial routine
  (args.tasks.map (·.taskId)).dedup.forM fun taskId => do
    let _ ← TasksService.findById taskId (some userId)
  let routine ← RoutinesService.create userId ⟨args.name, .absent, .absent⟩
  (orderedTasks args).forM fun task => do
    let _ ← RoutinesService.addTask userId routine.routine.id.text
      ⟨task.taskId, .value task.order, .value task.durationMinutes⟩
  return ⟨routine.routine.id, routine.routine.title, (orderedTasks args).length⟩

/-- One call of the tool: its result, and `context.createdRoutine` after it. -/
def createRoutine (userId : Uuid) (rawArgs : Json) (createdRoutine : Option CreatedRoutine) :
    Promise (CreateRoutineResult × Option CreatedRoutine) := do
  match CreateRoutineArgs.safeParse rawArgs with
  | none => return (.failure [.zodReport rawArgs], createdRoutine)
  | some args =>
    match rejection? args with
    | some error => return (.failure error, createdRoutine)
    | none =>
      tryCatch
        (do
          let routine ← persist userId args
          return (.success routine, some routine))
        fun error =>
          match knownToolError? error with
          | some message => return (.failure message, createdRoutine)
          | none => throw error

/-- What an agent does in one run: the arguments of its `create_routine` calls, one after
the other, and how the run ends. -/
structure AgentRun where
  calls : List Json
  outcome : Except Failure (Option String)

/-- `agentRunner.run`: a call that throws is reported to the agent, which goes on or not. -/
def runTools (userId : Uuid) : List Json → Option CreatedRoutine → Promise (Option CreatedRoutine)
  | [], createdRoutine => return createdRoutine
  | rawArgs :: rest, createdRoutine => do
    let createdRoutine ← tryCatch
      (do
        let (_, createdRoutine) ← createRoutine userId rawArgs createdRoutine
        return createdRoutine)
      fun _ => return createdRoutine
    runTools userId rest createdRoutine

def translateAgentError : Failure → Failure
  | .agent .inputGuardrail =>
    badRequest "This request is outside what the Routine Coach can help with."
  | .agent .maxTurnsExceeded =>
    badGateway "The routine coach could not complete this request in a reasonable number of steps."
  | .agent .modelBehavior =>
    badRequest
      "The routine coach could not understand how to use one of its tools for this request."
  | .agent .toolCall => badGateway "A tool used by the routine coach failed unexpectedly."
  | .openAi .connectionTimeout => gatewayTimeout "OpenAI request timed out"
  | .openAi _ => serviceUnavailable "Routine Coach is temporarily unavailable"
  | error => error

structure RoutineCoachResponseDto where
  message : String
  routineId : Option Uuid
  routineTitle : Option String
  taskCount : Option Nat
deriving DecidableEq

def handleRequest (userId : Uuid) (run : AgentRun) : Promise RoutineCoachResponseDto := do
  let createdRoutine ← runTools userId run.calls none
  match run.outcome with
  | .error error => throw (translateAgentError error)
  | .ok finalOutput =>
    return ⟨finalOutput.getD "", createdRoutine.map (·.routineId), createdRoutine.map (·.title),
      createdRoutine.map (·.taskCount)⟩

end GuitarCoach.AiRoutineCoach
