/- digest: What create_routine leaves behind when it breaks off, whatever fails or goes meanwhile. -/

import GuitarCoach.Ai.CreateRoutineTool
import GuitarCoach.Async.SoleWriter

set_option autoImplicit false
set_option relaxedAutoImplicit false

namespace GuitarCoach.AiRoutineCoach

open Async (Answer Call Choice Run onOk wpPart wpPart_bind wpPart_call wpPart_forM wpPart_handle
  wpPart_mono wpPart_of_calls)
open Async.Method (pure_eq throw_eq bind_eq tryCatch_eq calls_call calls_bind calls_handle calls_par)

/-- The routines and the tasks linked to them. -/
abbrev RoutineRows := List Routine × List RoutineTask

def routineRows (w : World) : RoutineRows := (w.db.routines.rows, w.db.routineTasks.rows)

/-- The result of a call that did not succeed: `success: false`, or an exception. -/
def Broken (context : Option CreatedRoutine)
    (r : Except Failure (CreateRoutineResult × Option CreatedRoutine)) : Prop :=
  (∃ error, r = .ok (.failure error, context)) ∨ ∃ e, r = .error e

/-- Rows that the call added: a routine, and the links of these tasks in their order. -/
structure Added (userId : Uuid) (args : CreateRoutineArgs) (tasks : List CreateRoutineTaskArg)
    (before after : RoutineRows) (routine : Routine) (links : List RoutineTask) : Prop where
  userId : routine.userId = userId
  title : routine.title = args.name
  linked : List.Forall₂ (IsLinkOf routine.id) tasks links
  routines : after.1 = before.1 ++ [routine]
  routineTasks : after.2 = before.2 ++ links

/-- What one call adds, with its result. -/
inductive ToolEffect (userId : Uuid) (rawArgs : Json) (context : Option CreatedRoutine)
    (before : RoutineRows) : RoutineRows →
      Except Failure (CreateRoutineResult × Option CreatedRoutine) → Prop
  | nothing (r : Except Failure (CreateRoutineResult × Option CreatedRoutine))
      (broken : Broken context r) : ToolEffect userId rawArgs context before before r
  | partly (r : Except Failure (CreateRoutineResult × Option CreatedRoutine))
      (args : CreateRoutineArgs) (after : RoutineRows) (routine : Routine)
      (linked : List CreateRoutineTaskArg) (task : CreateRoutineTaskArg)
      (rest : List CreateRoutineTaskArg) (links : List RoutineTask)
      (parsed : CreateRoutineArgs.safeParse rawArgs = some args) (valid : Valid args)
      (split : orderedTasks args = linked ++ task :: rest)
      (added : Added userId args linked before after routine links) (broken : Broken context r) :
      ToolEffect userId rawArgs context before after r
  | created (args : CreateRoutineArgs) (after : RoutineRows) (routine : Routine)
      (links : List RoutineTask) (parsed : CreateRoutineArgs.safeParse rawArgs = some args)
      (valid : Valid args)
      (added : Added userId args (orderedTasks args) before after routine links) :
      ToolEffect userId rawArgs context before after
        (.ok (.success ⟨routine.id, routine.title, args.tasks.length⟩,
          some ⟨routine.id, routine.title, args.tasks.length⟩))

section Spec

variable {userId : Uuid} {args : CreateRoutineArgs} {rows : RoutineRows}

/-! ### The calls, as far as the routines and their tasks go -/

private theorem wpPart_write {α : Type} {model : Model} {op : Operation} {touched : Db → RowSet}
    {f : Input → Db → Except Failure (α × Db)} {Q : Except Failure α → RoutineRows → Prop}
    (took : ∀ i w a db, routineRows w = rows → f i w.db = .ok (a, db) →
      Q (.ok a) (routineRows { w with db }))
    (failed : ∀ e, Q (.error e) rows) :
    wpPart routineRows (Promise.write model op touched f) Q rows := by
  apply wpPart_call
  rintro (i | e) w hw
  · dsimp only [Call.answer_took]
    cases hf : f i w.db with
    | error e =>
      rw [hw]
      exact failed e
    | ok r => exact took i w r.1 r.2 hw hf
  · rw [Call.answer_threw]
    dsimp only [id_eq]
    rw [hw]
    exact failed e

/-- Every call of the method leaves the routines and their tasks alone. -/
private abbrev Unlinked {α : Type} (m : Promise α) : Prop :=
  m.Calls fun c => ∀ x w, routineRows (c.answer x w).2 = routineRows w

private theorem read_unlinked {α : Type} {model : Model} {op : Operation}
    {f : Input → Db → Except Failure α} : Unlinked (Promise.read model op f) :=
  calls_call fun x w => by cases x <;> rfl

private theorem cacheOnly_unlinked {α : Type} {m : Promise α} (only : CacheOnly m) :
    Unlinked m :=
  Async.Method.Calls.mono (fun cache x w => by
    obtain ⟨c, hc⟩ := cache x w
    rw [hc]
    rfl) only

private theorem findById_unlinked (userId : Uuid) (routineId : String) :
    Unlinked (RoutinesService.findById userId routineId) := by
  refine calls_bind read_unlinked fun routine => ?_
  cases routine <;> trivial

private theorem assertTasksVisible_unlinked (userId : Uuid) (taskIds : List String) :
    Unlinked (RoutinesService.assertTasksVisible userId taskIds) := by
  refine calls_bind read_unlinked fun visible => ?_
  split <;> trivial

private theorem safeCacheGet_unlinked (key : CacheKey) :
    Unlinked (TasksService.safeCacheGet key) :=
  calls_handle (calls_call fun x w => by cases x <;> rfl) fun _ => trivial

private theorem safeCacheDel_unlinked (id : String) :
    Unlinked (TasksService.safeCacheDel (.task id)) :=
  calls_handle (calls_call fun x w => by cases x <;> rfl) fun _ => trivial

private theorem bump_unlinked : Unlinked TasksService.bumpListCacheVersion := by
  refine calls_bind (calls_bind (safeCacheGet_unlinked _) fun _ => trivial) fun version => ?_
  exact calls_handle (calls_call fun x w => by cases x <;> rfl) fun _ => trivial

private theorem create_part {name : String} {Q : Except Failure RoutineResponseDto → RoutineRows → Prop}
    (created : ∀ routine : Routine, routine.userId = userId → routine.title = name →
      Q (.ok ⟨routine, 0, 0⟩) (rows.1 ++ [routine], rows.2))
    (failed : ∀ e, Q (.error e) rows) :
    wpPart routineRows (RoutinesService.create userId ⟨name, .absent, .absent⟩) Q rows := by
  refine wpPart_bind (wpPart_write (fun i w a db hw saved => ?_) failed)
  obtain ⟨row, hrow, saved⟩ := bind_eq_ok saved
  obtain ⟨db', inserted, saved⟩ := bind_eq_ok saved
  cases saved
  have grown := Db.insertRoutine_grown inserted
  have after : routineRows { w with db } = (rows.1 ++ [a], rows.2) := by
    have same : db.routineTasks.rows = w.db.routineTasks.rows := by
      rw [grown.routineTasks, List.append_nil]
    subst hw
    exact Prod.ext grown.routines same
  rw [after]
  cases hrow
  exact created _ rfl rfl

private theorem addTask_part {routineId taskId : String} {position : Int} {duration : Int}
    {Q : Except Failure RoutineTask → RoutineRows → Prop}
    (added : ∀ row : RoutineTask, row.routineId = .ofText routineId → row.taskId = .ofText taskId →
      row.position = position → row.targetDurationMinutes = some duration →
        Q (.ok row) (rows.1, rows.2 ++ [row]))
    (failed : ∀ e, Q (.error e) rows) :
    wpPart routineRows (RoutinesService.addTask userId routineId
      ⟨taskId, .value position, .value duration⟩) Q rows := by
  unfold RoutinesService.addTask
  refine wpPart_bind (wpPart_of_calls (findById_unlinked userId routineId) fun r => ?_)
  cases r with
  | error e => exact failed e
  | ok routine =>
  refine wpPart_bind (wpPart_of_calls (assertTasksVisible_unlinked userId _) fun r => ?_)
  cases r with
  | error e => exact failed e
  | ok visible =>
  refine wpPart_handle (wpPart_write (fun i w row db hw saved => ?_) fun e => ?_)
  · obtain ⟨hrow, inserted⟩ := RoutinesService.addRow_ok saved
    have grown := Db.insertRoutineTask_grown inserted
    have after : routineRows { w with db } = (rows.1, rows.2 ++ [row]) := by
      have same : db.routines.rows = w.db.routines.rows := by
        rw [grown.routines, List.append_nil]
      subst hw
      exact Prod.ext same grown.routineTasks
    rw [after]
    subst hrow
    exact added _ rfl rfl rfl rfl
  · dsimp only [onOk]
    split <;> exact failed _

/-! ### The call of the tool -/

/-- How the reads and writes of a call can end. -/
private def PersistEffect (userId : Uuid) (args : CreateRoutineArgs) (before : RoutineRows)
    (r : Except Failure CreatedRoutine) (after : RoutineRows) : Prop :=
  match r with
  | .ok created => ∃ routine links,
      Added userId args (orderedTasks args) before after routine links ∧
        created = ⟨routine.id, routine.title, args.tasks.length⟩
  | .error _ => after = before ∨ ∃ routine linked task rest links,
      orderedTasks args = linked ++ task :: rest ∧
        Added userId args linked before after routine links

private theorem persist_part :
    wpPart routineRows (persist userId args) (PersistEffect userId args rows) rows := by
  unfold persist
  refine wpPart_bind (wpPart_of_calls ?_ fun r => ?_)
  · refine Async.Method.calls_forM (fun taskId => ?_) _
    exact calls_bind (cacheOnly_unlinked (TasksService.findById_cacheOnly taskId _)) fun _ => trivial
  cases r with
  | error e => exact .inl rfl
  | ok _ =>
  refine wpPart_bind (create_part (fun routine user title => ?_) fun e => .inl rfl)
  have start : Added userId args [] rows (rows.1 ++ [routine], rows.2) routine [] :=
    ⟨user, title, .nil, rfl, (List.append_nil _).symm⟩
  refine wpPart_bind (wpPart_forM
    (fun linked after => ∃ links, Added userId args linked rows after routine links) _
    (fun linked task rest split after saved => ?_) (fun after saved => ?_) ⟨[], start⟩)
  · obtain ⟨links, saved⟩ := saved
    refine wpPart_bind (addTask_part (fun row own task' position duration => ?_) fun e => ?_)
    · refine ⟨links ++ [row], saved.userId, saved.title,
        List.rel_append saved.linked (.cons ?_ .nil), saved.routines, ?_⟩
      · exact ⟨own.trans (Uuid.ofText_text _), task', position, duration⟩
      · rw [saved.routineTasks, List.append_assoc]
    · exact .inr ⟨routine, linked, task, rest, links, split, saved⟩
  · obtain ⟨links, saved⟩ := saved
    have length : (orderedTasks args).length = args.tasks.length :=
      List.length_insertionSort _ _
    exact ⟨routine, links, saved, by rw [length]⟩

theorem createRoutine_part (rawArgs : Json) (context : Option CreatedRoutine) :
    wpPart routineRows (createRoutine userId rawArgs context)
      (fun r after => ToolEffect userId rawArgs context rows after r) rows := by
  unfold createRoutine
  split
  · exact .nothing _ (.inl ⟨_, rfl⟩)
  · next args parsed =>
    split
    · exact .nothing _ (.inl ⟨_, rfl⟩)
    · next accepted =>
      have valid := rejection_none_iff.mp accepted
      refine wpPart_handle (wpPart_bind (wpPart_mono persist_part fun r after effect => ?_))
      cases r with
      | ok created =>
        obtain ⟨routine, links, added, rfl⟩ := effect
        exact .created args after routine links parsed valid added
      | error e =>
        -- the error is reported to the agent or thrown on, and the rows stay as they are
        have broken : ∀ m : Promise (CreateRoutineResult × Option CreatedRoutine),
            (∀ r, Broken context r → ToolEffect userId rawArgs context rows after r) →
            ((∃ error, m = .done (.failure error, context)) ∨ ∃ e, m = .fail e) →
            wpPart routineRows m
              (fun r after => ToolEffect userId rawArgs context rows after r) after := by
          rintro m effect (⟨error, rfl⟩ | ⟨e, rfl⟩)
          · exact effect _ (.inl ⟨error, rfl⟩)
          · exact effect _ (.inr ⟨e, rfl⟩)
        refine broken _ (fun r hr => ?_) ?_
        · rcases effect with rfl | ⟨routine, linked, task, rest, links, split, added⟩
          · exact .nothing r hr
          · exact .partly r args after routine linked task rest links parsed valid split added hr
        · split
          · exact .inl ⟨_, rfl⟩
          · exact .inr ⟨_, rfl⟩

private theorem remove_unlinked (id : String) : Unlinked (TasksService.remove id) := by
  refine calls_bind (calls_handle (calls_call ?_) fun e => ?_) fun _ =>
    calls_bind (calls_par (safeCacheDel_unlinked id) bump_unlinked) fun _ => trivial
  · rintro (i | e) w
    · dsimp only [Call.answer_took]
      split
      · next removed =>
        obtain ⟨db, gone, same⟩ := bind_eq_ok removed
        cases same
        rw [TasksService.removeRow_ok gone]
        exact Prod.ext (by simp [routineRows, Db.without]) (by simp [routineRows, Db.without])
      · rfl
    · rfl
  · split <;> trivial

end Spec

/-! ### Runs -/

abbrev ToolResult := CreateRoutineResult × Option CreatedRoutine

/-- The call of the tool, and the requests that delete a task. -/
inductive ToolRequest
  | createRoutine (userId : Uuid) (rawArgs : Json) (context : Option CreatedRoutine)
  | removeTask (id : String)

def ToolRequest.run : ToolRequest → Promise (Option ToolResult)
  | createRoutine userId rawArgs context => do
    return some (← AiRoutineCoach.createRoutine userId rawArgs context)
  | removeTask id => do
    let _ ← TasksService.remove id
    return none

/-- Request 0 is the call of the tool, any others delete tasks, and nobody else writes. -/
structure ToolRun {η : Type} (r : Run World Input Failure Label η (Option ToolResult))
    (userId : Uuid) (rawArgs : Json) (context : Option CreatedRoutine) : Prop where
  tool : r.requests 0 = (ToolRequest.createRoutine userId rawArgs context).run
  others : ∀ i, i ≠ 0 → ∃ id, r.requests i = (ToolRequest.removeTask id).run
  outside : ∀ a w, (r.outside a w).db = w.db

section Runs

variable {η : Type} {r : Run World Input Failure Label η (Option ToolResult)} {userId : Uuid}
  {rawArgs : Json} {context : Option CreatedRoutine}

private theorem ToolRun.soleWriter (run : ToolRun r userId rawArgs context) :
    r.SoleWriter 0 routineRows := by
  refine Run.soleWriter_of_calls (fun i apart => ?_) fun a w => ?_
  · obtain ⟨id, request⟩ := run.others i apart
    rw [request]
    exact calls_bind (remove_unlinked id) fun _ => trivial
  · unfold routineRows
    rw [run.outside]

/-- Whatever fails and whatever tasks are deleted meanwhile, the tool adds the whole routine
when it succeeds, and else nothing, or a routine with the first of the requested tasks. -/
theorem create_routine_partial {t : Nat} {result : Except Failure (Option ToolResult)}
    (run : ToolRun r userId rawArgs context) (ended : r.Ended 0 t result) :
    ∃ outcome, result = Except.map some outcome ∧
      ToolEffect userId rawArgs context (routineRows r.start) (routineRows (r.state t)) outcome := by
  refine run.soleWriter.ended (Q := fun result after => ∃ outcome, result = Except.map some outcome ∧
    ToolEffect userId rawArgs context (routineRows r.start) after outcome) ?_ ended
  rw [run.tool]
  refine wpPart_bind (wpPart_mono (createRoutine_part rawArgs context) fun r after effect => ?_)
  cases r with
  | ok a => exact ⟨.ok a, rfl, effect⟩
  | error e => exact ⟨.error e, rfl, effect⟩

end Runs

/-- The whole routine is added, or the call does not succeed and adds nothing. -/
inductive AllOrNothing (userId : Uuid) (rawArgs : Json) (context : Option CreatedRoutine)
    (before : RoutineRows) : RoutineRows → Except Failure ToolResult → Prop
  | nothing (r : Except Failure ToolResult) (broken : Broken context r) :
      AllOrNothing userId rawArgs context before before r
  | created (args : CreateRoutineArgs) (after : RoutineRows) (routine : Routine)
      (links : List RoutineTask) (parsed : CreateRoutineArgs.safeParse rawArgs = some args)
      (added : Added userId args (orderedTasks args) before after routine links)
      (created : CreatedRoutine) :
      AllOrNothing userId rawArgs context before after (.ok (.success created, some created))

/-- At most one call that the tool makes fails. -/
def FailsOnce {η : Type} (r : Run World Input Failure Label η (Option ToolResult)) : Prop :=
  ∀ t u l m e f, r.CallsAt 0 t l (.threw e) → r.CallsAt 0 u m (.threw f) → t = u

section Sample

private def hangout : World :=
  { World.signedUp with
    db := { World.signedUp.db with
      tasks := ⟨[⟨firstId, "Bends", none, none, none, none, none, 0, 0⟩], by decide⟩ } }

private def bendsJson : Json :=
  .obj [("name", .str "Bends"), ("tasks", .arr [.obj [("taskId", .str firstId.text),
    ("durationMinutes", .num 15), ("order", .num 1)]])]

private def bending : Nat → ToolRequest
  | 0 => .createRoutine alice bendsJson none
  | _ => .removeTask firstId.text

/-- The connection is lost when the only task is to be linked. -/
private def interrupted : Run World Input Failure Label Empty (Option ToolResult) where
  requests i := (bending i).run
  outside := nofun
  start := hangout
  schedule
    | 0 => .begin 0
    | 7 => .advance 0 (.threw (.unexpected "connection lost"))
    | _ => .advance 0 (.took (.of secondId 0))

/-- The task is deleted after the tool has found it, and before it is linked. -/
private def overtaken : Run World Input Failure Label Empty (Option ToolResult) where
  requests i := (bending i).run
  outside := nofun
  start := hangout
  schedule
    | 0 => .begin 0
    | 4 => .begin 1
    | 5 | 6 | 7 | 8 => .advance 1 (.took (.of secondId 0))
    | _ => .advance 0 (.took (.of secondId 0))

private def isBroken : Except Failure (Option ToolResult) → Bool
  | .error _ => true
  | .ok (some (.failure _, _)) => true
  | .ok _ => false

private theorem interrupted_toolRun : ToolRun interrupted alice bendsJson none where
  tool := rfl
  others i apart := by
    cases i with
    | zero => exact absurd rfl apart
    | succ i => exact ⟨firstId.text, rfl⟩
  outside := nofun

private theorem overtaken_toolRun : ToolRun overtaken alice bendsJson none where
  tool := rfl
  others i apart := by
    cases i with
    | zero => exact absurd rfl apart
    | succ i => exact ⟨firstId.text, rfl⟩
  outside := nofun

theorem create_routine_partial_overtaken : ∃ outcome,
    overtaken.Ended 0 12 (Except.map some outcome) ∧ ToolEffect alice bendsJson none
      (routineRows overtaken.start) (routineRows (overtaken.state 12)) outcome := by
  have broken : ((overtaken.slot 0 12).bind Async.Method.result?).any isBroken = true := by
    decide +kernel
  obtain ⟨result, -, ended⟩ := Run.ended_of_passes broken
  obtain ⟨outcome, rfl, effect⟩ := create_routine_partial overtaken_toolRun ended
  exact ⟨outcome, ended, effect⟩

private theorem interrupted_failsOnce : FailsOnce interrupted := by
  have late : ∀ t e, interrupted.schedule t = .advance 0 (.threw e) → t = 7 := by
    intro t e h
    unfold interrupted at h
    dsimp only at h
    split at h
    · cases h
    · rfl
    · cases h
  intro t u l m e f ht hu
  rw [late t e ht.schedule, late u f hu.schedule]

/-- One lost connection leaves a routine without its task. -/
theorem create_routine_not_atomic :
    ¬∀ (r : Run World Input Failure Label Empty (Option ToolResult)) (userId : Uuid)
        (rawArgs : Json) (context : Option CreatedRoutine) (t : Nat)
        (outcome : Except Failure ToolResult),
      ToolRun r userId rawArgs context → FailsOnce r → r.Ended 0 t (Except.map some outcome) →
        AllOrNothing userId rawArgs context (routineRows r.start) (routineRows (r.state t))
          outcome := by
  intro claim
  have broken : ((interrupted.slot 0 8).bind Async.Method.result?).any isBroken = true := by
    decide +kernel
  obtain ⟨result, fails, ended⟩ := Run.ended_of_passes broken
  have grown : (routineRows (interrupted.state 8)).1 ≠ (routineRows interrupted.start).1 := by
    decide +kernel
  cases result with
  | error e =>
    have atomic := claim interrupted alice bendsJson none 8 (.error e) interrupted_toolRun
      interrupted_failsOnce ended
    generalize routineRows (interrupted.state 8) = after at atomic grown
    cases atomic with
    | nothing r broken => exact grown rfl
  | ok a =>
    cases a with
    | none => cases fails
    | some a =>
      have atomic := claim interrupted alice bendsJson none 8 (.ok a) interrupted_toolRun
        interrupted_failsOnce ended
      generalize routineRows (interrupted.state 8) = after at atomic grown
      cases atomic with
      | nothing r broken => exact grown rfl
      | created => cases fails

end Sample

end GuitarCoach.AiRoutineCoach
