/- digest: What a run of the routine coach persists, and how far its response tells it. -/

import GuitarCoach.Ai.RoutineCoach
import GuitarCoach.Routines.RoutineSpecs

set_option autoImplicit false
set_option relaxedAutoImplicit false

namespace GuitarCoach.AiRoutineCoach

open Async (Ends Policy wp onOk wp_bind wp_handle wp_done wp_fail wp_ends)
open Async.Method (pure_eq throw_eq bind_eq tryCatch_eq)

/-- The link that a routine gets for a task of the arguments. -/
structure IsLinkOf (routineId : Uuid) (task : CreateRoutineTaskArg) (row : RoutineTask) :
    Prop where
  routineId : row.routineId = routineId
  taskId : row.taskId = .ofText task.taskId
  position : row.position = task.order
  duration : row.targetDurationMinutes = some task.durationMinutes

/-- Between these states the routine was saved with these links, and nothing else changed. -/
structure Saved (userId : Uuid) (args : CreateRoutineArgs) (before after : Db)
    (routine : Routine) (tasks : List CreateRoutineTaskArg) (links : List RoutineTask) :
    Prop where
  userId : routine.userId = userId
  title : routine.title = args.name
  linked : List.Forall₂ (IsLinkOf routine.id) tasks links
  grown : before.Grown after [routine] [] links

/-- What one call of the tool does to the database, and the routine it reports as created. -/
inductive ToolCall (userId : Uuid) (rawArgs : Json) (before : Db) :
    Db → Option CreatedRoutine → Prop
  | nothing : ToolCall userId rawArgs before before none
  | partly (args : CreateRoutineArgs) (after : Db) (routine : Routine)
      (linked : List CreateRoutineTaskArg) (task : CreateRoutineTaskArg)
      (rest : List CreateRoutineTaskArg) (links : List RoutineTask)
      (parsed : CreateRoutineArgs.safeParse rawArgs = some args)
      (split : orderedTasks args = linked ++ task :: rest)
      (saved : Saved userId args before after routine linked links) :
      ToolCall userId rawArgs before after none
  | created (args : CreateRoutineArgs) (after : Db) (routine : Routine)
      (links : List RoutineTask) (parsed : CreateRoutineArgs.safeParse rawArgs = some args)
      (saved : Saved userId args before after routine (orderedTasks args) links) :
      ToolCall userId rawArgs before after
        (some ⟨routine.id, routine.title, (orderedTasks args).length⟩)

/-- The calls of a run one after the other, each with what it reports as created. -/
inductive ToolCalls (userId : Uuid) : List Json → Db → Db → List (Option CreatedRoutine) → Prop
  | nil (db : Db) : ToolCalls userId [] db db []
  | cons {rawArgs : Json} {calls : List Json} {a b c : Db} {created : Option CreatedRoutine}
      {later : List (Option CreatedRoutine)} (call : ToolCall userId rawArgs a b created)
      (rest : ToolCalls userId calls b c later) :
      ToolCalls userId (rawArgs :: calls) a c (created :: later)

/-- The response is about the last call that succeeded; an error is the agent's own. -/
def Reports (run : AgentRun) (created : List (Option CreatedRoutine)) :
    Except Failure RoutineCoachResponseDto → Prop
  | .ok response => ∃ finalOutput, run.outcome = .ok finalOutput ∧
      response.message = finalOutput.getD "" ∧
      response.routineId = created.reduceOption.getLast?.map (·.routineId) ∧
      response.routineTitle = created.reduceOption.getLast?.map (·.title) ∧
      response.taskCount = created.reduceOption.getLast?.map (·.taskCount)
  | .error e => ∃ error, run.outcome = .error error ∧ e = translateAgentError error

section Specs

variable {allowed : Policy World Input Failure Label} {userId : Uuid}

private theorem persist_wp {w : World} {rawArgs : Json} {args : CreateRoutineArgs}
    (parsed : CreateRoutineArgs.safeParse rawArgs = some args) :
    wp allowed (persist userId args)
      (onOk (fun created v => ToolCall userId rawArgs w.db v.db (some created))
        fun _ v => ToolCall userId rawArgs w.db v.db none) w := by
  unfold persist
  simp only [bind_eq, pure_eq, wp_bind, wp_done]
  -- the checks before the first write only warm the cache
  refine Async.wp_forM (fun _ v => v.db = w.db) _ (fun _ taskId _ _ v hv => ?_) (fun v hv => ?_) rfl
  · rw [wp_bind]
    refine (TasksService.findById_cacheOnly taskId (some userId)).wp fun r cache => ?_
    cases r with
    | ok task => exact hv
    | error e =>
      dsimp only [onOk]
      rw [hv]
      exact .nothing
  dsimp only [onOk]
  refine RoutinesService.wp_create (fun i routine db hrow inserted => ?_) fun e => ?_
  swap
  · dsimp only [onOk]
    rw [hv]
    exact .nothing
  rw [hv] at inserted
  simp only [CreateRoutineDto.row, Except.ok.injEq] at hrow
  have user : routine.userId = userId := by rw [← hrow]
  have title : routine.title = args.name := by rw [← hrow]
  have start : Saved userId args w.db db routine [] [] :=
    ⟨user, title, .nil, Db.insertRoutine_grown inserted⟩
  dsimp only [onOk]
  -- the links of the tasks gone through are saved
  let inv : List CreateRoutineTaskArg → World → Prop := fun linked u =>
    ∃ links, Saved userId args w.db u.db routine linked links
  refine Async.wp_forM inv _ (fun linked task rest split u hu => ?_) (fun u hu => ?_) ⟨[], start⟩
  · obtain ⟨links, saved⟩ := hu
    simp only [wp_bind, wp_done]
    refine RoutinesService.wp_addTask (fun j row db' added => ?_) fun e => ?_
    · obtain ⟨hrow', inserted'⟩ := RoutinesService.addRow_ok added
      refine ⟨links ++ [row], user, title, List.rel_append saved.linked (.cons ?_ .nil), ?_⟩
      · subst hrow'
        exact ⟨Uuid.ofText_text _, rfl, rfl, rfl⟩
      · simpa using saved.grown.trans (Db.insertRoutineTask_grown inserted')
    · exact .partly args _ routine linked task rest links parsed split saved
  · obtain ⟨links, saved⟩ := hu
    exact .created args _ routine links parsed saved

private theorem createRoutine_wp {w : World} (rawArgs : Json)
    (context : Option CreatedRoutine) :
    wp allowed (createRoutine userId rawArgs context)
      (onOk (fun r v => ∃ created, ToolCall userId rawArgs w.db v.db created ∧
          r.2 = created.or context)
        fun _ v => ToolCall userId rawArgs w.db v.db none) w := by
  unfold createRoutine
  split
  · exact ⟨none, .nothing, rfl⟩
  · next args parsed =>
    split
    · exact ⟨none, .nothing, rfl⟩
    · simp only [bind_eq, pure_eq, tryCatch_eq, throw_eq, wp_bind, wp_handle, wp_done]
      refine Async.wp_mono (persist_wp parsed) fun r v h => ?_
      cases r with
      | ok routine => exact ⟨some routine, h, rfl⟩
      | error e =>
        dsimp only [onOk] at h ⊢
        split
        · exact ⟨none, h, rfl⟩
        · exact h

private theorem getLast_cons (c : Option CreatedRoutine) (later : List (Option CreatedRoutine))
    (context : Option CreatedRoutine) :
    (c :: later).reduceOption.getLast?.or context =
      later.reduceOption.getLast?.or (c.or context) := by
  cases c with
  | none => rfl
  | some routine =>
    rw [List.reduceOption_cons_of_some, List.getLast?_cons]
    cases later.reduceOption.getLast? <;> rfl

private theorem runTools_wp {w : World} (calls : List Json) (context : Option CreatedRoutine) :
    wp allowed (runTools userId calls context) (fun r v => ∃ created,
      ToolCalls userId calls w.db v.db created ∧
        r = .ok (created.reduceOption.getLast?.or context)) w := by
  induction calls generalizing context w with
  | nil => exact ⟨[], .nil w.db, rfl⟩
  | cons rawArgs calls ih =>
    unfold runTools
    simp only [bind_eq, pure_eq, tryCatch_eq, wp_bind, wp_handle, wp_done]
    -- the rest of the run, after a call with this effect
    have rest : ∀ created v, ToolCall userId rawArgs w.db v.db created →
        wp allowed (runTools userId calls (created.or context)) (fun r v => ∃ created,
          ToolCalls userId (rawArgs :: calls) w.db v.db created ∧
            r = .ok (created.reduceOption.getLast?.or context)) v := by
      intro created v call
      refine Async.wp_mono (ih (created.or context)) fun r u => ?_
      rintro ⟨later, run, rfl⟩
      exact ⟨created :: later, .cons call run, by rw [getLast_cons]⟩
    refine Async.wp_mono (createRoutine_wp rawArgs context) fun r v h => ?_
    cases r with
    | ok result =>
      obtain ⟨created, call, hcontext⟩ := h
      dsimp only [onOk]
      rw [hcontext]
      exact rest created v call
    | error e => exact rest none v h

/-- The specification of one request, whatever fails in it. -/
theorem handleRequest_wp {w : World} (run : AgentRun) :
    wp allowed (handleRequest userId run) (fun r v => ∃ created,
      ToolCalls userId run.calls w.db v.db created ∧ Reports run created r) w := by
  unfold handleRequest
  rw [bind_eq, wp_bind]
  refine Async.wp_mono (runTools_wp run.calls none) fun r v => ?_
  rintro ⟨created, calls, rfl⟩
  dsimp only [onOk]
  split
  · next error outcome => exact ⟨created, calls, error, outcome, rfl⟩
  · next finalOutput outcome =>
    exact ⟨created, calls, finalOutput, outcome, rfl, by simp, by simp, by simp⟩

end Specs

/-- Every call of the tool persists at most one routine, with all its tasks if it succeeds and
with some of them if it breaks off; the response describes the last one that succeeded. -/
theorem coach_run_reports {userId : Uuid} {run : AgentRun} {w w' : World}
    {r : Except Failure RoutineCoachResponseDto}
    (ends : Ends anyAnswer (handleRequest userId run) w r w') :
    ∃ created, ToolCalls userId run.calls w.db w'.db created ∧ Reports run created r :=
  wp_ends (handleRequest_wp run) ends

section Sample

private def scales : Task :=
  ⟨thirdId, "Scales", none, none, none, none, none, 0, 0⟩

private def library : World :=
  { World.empty with
    db := { World.signedUp.db with
      tasks := ⟨[scales], by decide⟩ } }

private def morning : Json :=
  .obj [("name", .str "Morning"), ("tasks", .arr [.obj [("taskId", .str scales.id.text),
    ("durationMinutes", .num 10), ("order", .num 1)]])]

/-- A call that saves the routine under this id; the task is not yet in the cache. -/
private def firstCues : List (Async.Cue Input Failure) :=
  [took (.of firstId 0), took (.of firstId 0), took (.of firstId 0), took (.of firstId 1),
    took (.of firstId 1), took (.of firstId 1), took (.of firstId 1)]

private def secondCues : List (Async.Cue Input Failure) :=
  [took (.of secondId 2), took (.of secondId 2), took (.of secondId 2), took (.of secondId 2),
    took (.of secondId 2)]

/-- Two calls that both succeed. -/
private def twice : AgentRun := ⟨[morning, morning], .ok (some "Done")⟩

private theorem twice_ends : Ends anyAnswer (handleRequest alice twice) library
    (.ok ⟨"Done", some secondId, some "Morning", some 1⟩)
    (Async.after (handleRequest alice twice) (firstCues ++ secondCues) library) :=
  Async.ends_after_ok (fun _ _ _ _ => trivial) (by decide +kernel)

theorem coach_run_reports_twice :
    ∃ created, ToolCalls alice twice.calls library.db
      (Async.after (handleRequest alice twice) (firstCues ++ secondCues) library).db created ∧
        Reports twice created (.ok ⟨"Done", some secondId, some "Morning", some 1⟩) :=
  coach_run_reports twice_ends

/-- One call, which loses the database after the routine is saved and before its task is. -/
private def broken : AgentRun := ⟨[morning], .ok none⟩

private def brokenCues : List (Async.Cue Input Failure) :=
  firstCues.take 6 ++ [threw (.unexpected "connection lost")]

private theorem broken_ends : Ends anyAnswer (handleRequest alice broken) library
    (.ok ⟨"", none, none, none⟩)
    (Async.after (handleRequest alice broken) brokenCues library) :=
  Async.ends_after_ok (fun _ _ _ _ => trivial) (by decide +kernel)

/-- One call that succeeds, in a run that then exceeds its turns. -/
private def exceeded : AgentRun := ⟨[morning], .error (.agent .maxTurnsExceeded)⟩

private theorem exceeded_ends : ∃ e, Ends anyAnswer (handleRequest alice exceeded) library
    (.error e) (Async.after (handleRequest alice exceeded) firstCues library) :=
  Async.ends_after_error (fun _ _ _ _ => trivial) (by decide +kernel)

/-- A run can persist two routines, a routine that its response does not name, and a routine
although it throws. -/
theorem coach_run_untruthful :
    (¬∀ userId run w r w', Ends anyAnswer (handleRequest userId run) w r w' →
        w'.db.routines.rows.length ≤ w.db.routines.rows.length + 1) ∧
      (¬∀ userId run w response w',
        Ends anyAnswer (handleRequest userId run) w (.ok response) w' →
          (response.routineId.isSome ↔
            w'.db.routines.rows.length = w.db.routines.rows.length + 1)) ∧
      ¬∀ userId run w e w', Ends anyAnswer (handleRequest userId run) w (.error e) w' →
        w'.db.routines = w.db.routines := by
  refine ⟨fun claim => ?_, fun claim => ?_, fun claim => ?_⟩
  · have atMostOne := claim alice twice library _ _ twice_ends
    revert atMostOne
    decide +kernel
  · have named := (claim alice broken library _ _ broken_ends).mpr (by decide +kernel)
    revert named
    decide
  · obtain ⟨e, ends⟩ := exceeded_ends
    have length := congrArg (fun t => t.rows.length) (claim alice exceeded library e _ ends)
    revert length
    decide +kernel

end Sample

end GuitarCoach.AiRoutineCoach
