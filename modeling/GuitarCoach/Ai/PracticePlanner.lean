/- digest: AiPracticePlannerService: a plan is proposed, then confirmed or declined. -/

import GuitarCoach.Routines.RoutinesService

set_option autoImplicit false
set_option relaxedAutoImplicit false

namespace GuitarCoach.AiPracticePlanner

open Promise

/-! ### The plan and the tool's arguments -/

/-- `DURATION_TOLERANCE_RATIO`. -/
def durationToleranceRatio : ℚ := 1 / 5

def assertValidPracticePlan (plan : PracticePlan) : Except Failure Unit := do
  if plan.title.toList.all isWhitespace then
    throw (badGateway "AI returned a practice plan with an empty title")
  if plan.tasks = [] then
    throw (badGateway "AI returned a practice plan with no tasks")
  if plan.tasks.any fun task => task.durationMinutes.den ≠ 1 || task.durationMinutes ≤ 0 then
    throw (badGateway "AI returned a practice plan with a non-positive task duration")
  let totalTaskDuration := (plan.tasks.map (·.durationMinutes)).sum
  let tolerance := plan.totalDurationMinutes * durationToleranceRatio
  if tolerance < |totalTaskDuration - plan.totalDurationMinutes| then
    throw (.http .badGateway [.text "AI returned task durations (", .number totalTaskDuration,
      .text "m) that do not reasonably match the requested total (",
      .number plan.totalDurationMinutes, .text "m)"])

structure CreateRoutineTaskArgs where
  title : String
  description : String
  durationMinutes : Int

structure CreateRoutineArgs where
  title : String
  notes : String
  tasks : List CreateRoutineTaskArgs

/-- `z.string().min(least).max(most)`. -/
def boundedString (least most : Nat) (value : Json) : Option String := do
  let s ← value.string?
  guard (least ≤ utf16Length s ∧ utf16Length s ≤ most)
  return s

/-- `CreateRoutineTaskArgsSchema`. -/
def CreateRoutineTaskArgs.safeParse (value : Json) : Option CreateRoutineTaskArgs := do
  let title ← boundedString 2 200 (← value.field? "title")
  let description ← boundedString 0 2000 (← value.field? "description")
  let durationMinutes ← (← value.field? "durationMinutes").int?
  guard (0 < durationMinutes)
  return ⟨title, description, durationMinutes⟩

/-- `CreateRoutineArgsSchema`. -/
def CreateRoutineArgs.safeParse (value : Json) : Option CreateRoutineArgs := do
  let title ← boundedString 2 200 (← value.field? "title")
  let notes ← boundedString 0 2000 (← value.field? "notes")
  let tasks ← (← (← value.field? "tasks").array?).mapM CreateRoutineTaskArgs.safeParse
  guard (tasks ≠ [])
  return ⟨title, notes, tasks⟩

structure CreateRoutineResult where
  routineId : Uuid
  title : String
  taskCount : Nat
deriving DecidableEq

/-! ### `CreateRoutineTool` -/

/-- The body of the loop over the tasks. -/
def saveTask (userId : Uuid) (routineId : Uuid) : CreateRoutineTaskArgs × Nat → Promise Unit :=
  fun (task, index) => do
    -- private to this user: the shared library is curated by admins
    let createdTask ← TasksService.createPrivate userId task.title (some task.description)
    let _ ← RoutinesService.addTask userId routineId.text
      ⟨createdTask.id.text, .value (index + 1), .value task.durationMinutes⟩

def execute (userId : Uuid) (rawArgs : Json) : Promise CreateRoutineResult := do
  match CreateRoutineArgs.safeParse rawArgs with
  | none =>
    throw (.http .badRequest
      [.text "Invalid create_routine tool arguments: ", .zodReport rawArgs])
  | some args =>
    let routine ← RoutinesService.create userId ⟨args.title, .absent, .value args.notes⟩
    args.tasks.zipIdx.forM (saveTask userId routine.routine.id)
    return ⟨routine.routine.id, routine.routine.title, args.tasks.length⟩

/-! ### `OpenAiResponsesService` -/

structure GeneratedPracticePlan where
  plan : PracticePlan
  previousResponseId : String

structure ConfirmedRoutineCreation where
  finalMessage : String
  toolResult : CreateRoutineResult

/-- `describeIncompleteResponse`. -/
def describeIncompleteResponse (detail : Json) : Message :=
  let typeText := (detail.field? "type").bind Json.string?
  let messageText := (detail.field? "message").bind Json.string?
  if typeText.isSome || messageText.isSome then
    [.text (typeText.getD "unknown" ++ ": " ++ messageText.getD "no message")]
  else [.stringified detail]

def didNotComplete (what : String) (response : OpenAiResponse) : Failure :=
  .http .badGateway
    (.text ("OpenAI " ++ what ++ " did not complete: ") ::
      describeIncompleteResponse response.detail)

def generatePracticePlan (prompt : String) : Promise GeneratedPracticePlan := do
  let response ← responsesParse (.plan prompt)
  if response.status ≠ "completed" then
    throw (didNotComplete "practice plan generation" response)
  match response.outputParsed with
  | none =>
    throw (badGateway
      "OpenAI returned a response that did not match the expected practice plan schema")
  | some plan => return ⟨plan, response.id⟩

/-- `response.output.find((item) => item.type === 'function_call')`. -/
def functionCall? (response : OpenAiResponse) : Option (String × String × Json) :=
  response.output.findSome? fun
    | .functionCall name callId args => some (name, callId, args)
    | .other => none

def confirmAndCreateRoutine (previousResponseId : String)
    (executeCreateRoutine : Json → Promise CreateRoutineResult) :
    Promise ConfirmedRoutineCreation := do
  let response ← responsesParse (.confirm previousResponseId)
  if response.status ≠ "completed" then throw (didNotComplete "routine confirmation" response)
  match functionCall? response with
  | some ("create_routine", callId, parsedArguments) =>
    let toolResult ← executeCreateRoutine parsedArguments
    let followUp ← responsesParse (.followUp response.id callId)
    if followUp.status ≠ "completed" then
      throw (didNotComplete "routine confirmation follow-up" followUp)
    return ⟨followUp.outputText, toolResult⟩
  | _ => throw (badGateway "OpenAI did not call the expected create_routine tool")

/-! ### `AiPracticePlannerService` -/

def plannerUnavailable : String := "AI practice planner is temporarily unavailable"

/-- `callAiProvider`: what is not an error of OpenAI passes through. -/
def callAiProvider {α : Type} (fn : Promise α) (unavailableMessage : String) : Promise α :=
  tryCatch fn fun
    | .openAi .connectionTimeout => throw (gatewayTimeout "OpenAI request timed out")
    | .openAi _ => throw (serviceUnavailable unavailableMessage)
    | e => throw e

structure PracticePlannerRequestDto where
  prompt : Option String
  confirmation : Option Bool
  previousResponseId : Option String

inductive PracticePlannerResponse
  | awaitingConfirmation (plan : PracticePlan) (previousResponseId : String)
  | created (routine : CreateRoutineResult)
  | cancelled
deriving DecidableEq

def startPlan (userId : Uuid) (prompt : String) : Promise PracticePlannerResponse := do
  let result ← callAiProvider (generatePracticePlan prompt) plannerUnavailable
  match assertValidPracticePlan result.plan with
  | .error e => throw e
  | .ok () =>
    tryCatch (cacheSet (.planOwner result.previousResponseId) userId true) fun _ => return ()
    return .awaitingConfirmation result.plan result.previousResponseId

/-- Fail-closed: a cache that fails reads as a miss. -/
def readOwnershipFromCache (previousResponseId : String) : Promise (Option Uuid) :=
  tryCatch (cacheGet (.planOwner previousResponseId)) fun _ => return none

def resolveConfirmation (userId : Uuid) (dto : PracticePlannerRequestDto) :
    Promise PracticePlannerResponse := do
  if dto.confirmation = some false then return .cancelled
  match dto.previousResponseId with
  | none => throw (badRequest "previousResponseId is required to confirm a practice plan")
  | some previousResponseId =>
    if previousResponseId = "" then
      throw (badRequest "previousResponseId is required to confirm a practice plan")
    let cachedUserId ← readOwnershipFromCache previousResponseId
    if cachedUserId ≠ some userId then throw (notFound "Practice plan not found or expired")
    let result ← callAiProvider
      (confirmAndCreateRoutine previousResponseId (execute userId)) plannerUnavailable
    return .created result.toolResult

def handleRequest (userId : Uuid) (dto : PracticePlannerRequestDto) :
    Promise PracticePlannerResponse := do
  let isNewPrompt := dto.prompt.isSome
  let isConfirmation := dto.confirmation.isSome
  if isNewPrompt = isConfirmation then
    throw (badRequest ("Request must include either \"prompt\" or " ++
      "\"confirmation\"+\"previousResponseId\", not both"))
  match dto.prompt with
  | some prompt => startPlan userId prompt
  | none => resolveConfirmation userId dto

end GuitarCoach.AiPracticePlanner
