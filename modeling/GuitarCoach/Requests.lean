/- digest: The requests a signed-in user can make of the routine, session and task services. -/

import GuitarCoach.PracticeSessions.RecordingsService

set_option autoImplicit false
set_option relaxedAutoImplicit false

namespace GuitarCoach

/-- What is configured for all requests. -/
structure Settings where
  letters : Letters
  signedUrlSeconds : Nat

inductive UserRequest
  | findTasks (query : FindTasksQueryDto)
  | findTask (id : String)
  | createRoutine (dto : CreateRoutineDto)
  | findRoutines (query : FindRoutinesQueryDto)
  | findRoutine (id : String)
  | findRecentRoutines (days : Nat)
  | updateRoutine (id : String) (dto : UpdateRoutineDto)
  | removeRoutine (id : String)
  | findRoutineTasks (routineId : String)
  | assertTasksVisible (taskIds : List String)
  | addRoutineTask (routineId : String) (dto : AddRoutineTaskDto)
  | updateRoutineTask (routineId taskId : String) (dto : UpdateRoutineTaskDto)
  | removeRoutineTask (routineId taskId : String)
  | reorderRoutineTasks (routineId : String) (taskIds : List String)
  | createSession (dto : CreatePracticeSessionDto)
  | findSessions (query : FindPracticeSessionsQueryDto)
  | findSession (id : String)
  | deleteSessionsByTitle (title : String)
  | findRecentSessions (days : Nat)
  | getTaskStats (days : Nat)
  | uploadRecording (practiceSessionId : String) (file : UploadedFile)
  | findRecordings (practiceSessionId : String)
  | getDownloadUrl (id : String)
  | removeRecording (id : String)

namespace UserRequest

abbrev Result : UserRequest → Type
  | findTasks _ => Paginated Task
  | findTask _ => Task
  | createRoutine _ => RoutineResponseDto
  | findRoutines _ => Paginated RoutineResponseDto
  | findRoutine _ => RoutineResponseDto
  | findRecentRoutines _ => List RoutineWithTasks
  | updateRoutine .. => RoutineResponseDto
  | removeRoutine _ => Unit
  | findRoutineTasks _ => List RoutineTaskWithTask
  | assertTasksVisible _ => Unit
  | addRoutineTask .. => RoutineTask
  | updateRoutineTask .. => RoutineTask
  | removeRoutineTask .. => Unit
  | reorderRoutineTasks .. => List RoutineTask
  | createSession _ => PracticeSessionResponseDto
  | findSessions _ => Paginated PracticeSessionResponseDto
  | findSession _ => PracticeSessionResponseDto
  | deleteSessionsByTitle _ => Nat
  | findRecentSessions _ => List RecentSession
  | getTaskStats _ => List TaskStat
  | uploadRecording .. => Recording
  | findRecordings _ => List Recording
  | getDownloadUrl _ => SignedUrl
  | removeRecording _ => Unit

def run (settings : Settings) (userId : Uuid) : (q : UserRequest) → Promise q.Result
  | findTasks query => TasksService.findAll settings.letters query
  | findTask id => TasksService.findById id (some userId)
  | createRoutine dto => RoutinesService.create userId dto
  | findRoutines query => RoutinesService.findAll userId query
  | findRoutine id => RoutinesService.findById userId id
  | findRecentRoutines days => RoutinesService.findRecent userId days
  | updateRoutine id dto => RoutinesService.update userId id dto
  | removeRoutine id => RoutinesService.remove userId id
  | findRoutineTasks routineId => RoutinesService.findTasks userId routineId
  | assertTasksVisible taskIds => RoutinesService.assertTasksVisible userId taskIds
  | addRoutineTask routineId dto => RoutinesService.addTask userId routineId dto
  | updateRoutineTask routineId taskId dto =>
      RoutinesService.updateTask userId routineId taskId dto
  | removeRoutineTask routineId taskId => RoutinesService.removeTask userId routineId taskId
  | reorderRoutineTasks routineId taskIds =>
      RoutinesService.reorderTasks userId routineId taskIds
  | createSession dto => PracticeSessionsService.create userId dto
  | findSessions query => PracticeSessionsService.findAll userId query
  | findSession id => PracticeSessionsService.findById userId id
  | deleteSessionsByTitle title => PracticeSessionsService.deleteByTitle userId title
  | findRecentSessions days => PracticeSessionsService.findRecent userId days
  | getTaskStats days => PracticeSessionsService.getTaskStats userId days
  | uploadRecording practiceSessionId file =>
      RecordingsService.upload userId practiceSessionId file
  | findRecordings practiceSessionId =>
      RecordingsService.findAllForSession userId practiceSessionId
  | getDownloadUrl id => RecordingsService.getDownloadUrl settings.signedUrlSeconds userId id
  | removeRecording id => RecordingsService.remove userId id

end UserRequest

end GuitarCoach
