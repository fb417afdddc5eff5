/- digest: What a confirmation saves: the arguments of the tool call that the provider returns. -/

import GuitarCoach.Ai.PlannerRuns

/-!
Planner requests of any users run at once; nobody else writes rows meanwhile. A routine gets its
links from the request that inserted it alone, so what a request has saved is still there when
it answers.
-/

set_option autoImplicit false
set_option relaxedAutoImplicit false

namespace GuitarCoach.AiPracticePlanner

open Async (Answer Call Run Safe onOk)
open Async.Method (bind_eq pure_eq throw_eq tryCatch_eq calls_bind calls_call calls_handle)
open Relational (Table)

section Runs

variable {η : Type} (r : Run World Input Failure Label η PracticePlannerResponse)

/-- At `s` request `i` inserted the routine with this id. -/
structure Inserted (i s : Nat) (routineId : Uuid) : Prop where
  called : ∃ l x, r.CallsAt i s l x
  fresh : (r.state s).db.routines.has routineId = false
  there : (r.state (s + 1)).db.routines.has routineId = true

/-- A call of request `i` adds rows, and links only of routines that the request has inserted. -/
def AddsOwnLinks (i s : Nat) : Prop :=
  ∃ routines tasks links, (r.state s).db.Grown (r.state (s + 1)).db routines tasks links ∧
    ∀ a ∈ links, ∃ s' < s, Inserted r i s' a.routineId

/-- What has happened to the tables up to `t`. -/
structure Logged (t : Nat) : Prop where
  calls : ∀ s < t, ∀ i l x, r.CallsAt i s l x → AddsOwnLinks r i s
  quiet : ∀ s < t, (∀ i l x, ¬r.CallsAt i s l x) → (r.state (s + 1)).db = (r.state s).db

/-- A fact that a request can rely on while it waits, and that no call changes which writes no
row. -/
structure Steady (i : Nat) (F : Nat → Prop) : Prop where
  later : ∀ u v, r.Quiet i u v → Logged r v → F u → F v
  same : ∀ u, (r.state (u + 1)).db = (r.state u).db → F u → F (u + 1)

/-- The routine that request `i` has inserted by `t`, with the rows of its first rounds. -/
structure Progress (userId : Uuid) (i : Nat) (routine : Routine)
    (rounds : List (CreateRoutineTaskArgs × Nat)) (rows : List (Task × RoutineTask))
    (t : Nat) : Prop where
  inserted : ∃ s < t, Inserted r i s routine.id
  there : routine ∈ (r.state t).db.routines.rows
  rounds : List.Forall₂ (IsRoundOf userId routine.id) rounds rows
  links : (r.state t).db.tasksOfRoutine routine.id = rows.map Prod.snd
  tasks : ∀ p ∈ rows, p.1 ∈ (r.state t).db.tasks.rows

/-- At `t` the routine of this answer is there as the arguments have it, with exactly the tasks
of the arguments, in their order. -/
structure SavedAsArgued (userId : Uuid) (args : CreateRoutineArgs) (c : CreateRoutineResult)
    (rows : List (Task × RoutineTask)) (db : Db) : Prop where
  routine : ∃ routine ∈ db.routines.rows, routine.id = c.routineId ∧
    IsRoutineOf userId args routine
  rounds : List.Forall₂ (IsRoundOf userId c.routineId) args.tasks.zipIdx rows
  links : db.tasksOfRoutine c.routineId = rows.map Prod.snd
  tasks : ∀ p ∈ rows, p.1 ∈ db.tasks.rows

/-- Request `i` had the provider confirm the response, and has saved the arguments of the call
of `create_routine` that it returned, which are valid. -/
def SavesArguments (userId : Uuid) (i : Nat) (responseId : String) (c : CreateRoutineResult)
    (t : Nat) : Prop :=
  ∃ s < t, ∃ inp callId rawArgs args rows,
    r.CallsAt i s (.aiProvider (.confirm responseId)) (.took inp) ∧
    functionCall? inp.response = some ("create_routine", callId, rawArgs) ∧
    CreateRoutineArgs.safeParse rawArgs = some args ∧
    SavedAsArgued userId args c rows (r.state t).db

end Runs

section Log

variable {η : Type} {r : Run World Input Failure Label η PracticePlannerResponse} {i t : Nat}

theorem Logged.before {s : Nat} (logged : Logged r t) (hst : s ≤ t) : Logged r s :=
  ⟨fun u hu => logged.calls u (by omega), fun u hu => logged.quiet u (by omega)⟩

/-- One moment of the log. -/
theorem Logged.moment {s : Nat} (logged : Logged r t) (hst : s < t) :
    (r.state (s + 1)).db = (r.state s).db ∨
      ∃ j l x, r.CallsAt j s l x ∧ AddsOwnLinks r j s := by
  by_cases called : ∃ j l x, r.CallsAt j s l x
  · obtain ⟨j, l, x, called⟩ := called
    exact .inr ⟨j, l, x, called, logged.calls s hst j l x called⟩
  · refine .inl (logged.quiet s hst fun j l x h => called ⟨j, l, x, h⟩)

/-- Rows only come. -/
theorem Logged.grown {u v : Nat} (logged : Logged r v) (huv : u ≤ v) :
    ∃ routines tasks links, (r.state u).db.Grown (r.state v).db routines tasks links := by
  induction v, huv using Nat.le_induction with
  | base => exact ⟨[], [], [], .refl _⟩
  | succ v huv ih =>
    obtain ⟨routines, tasks, links, sofar⟩ := ih (logged.before (Nat.le_succ v))
    rcases logged.moment (Nat.lt_succ_self v) with same | ⟨j, l, x, -, routines', tasks', links',
      step, -⟩
    · rw [same]
      exact ⟨_, _, _, sofar⟩
    · exact ⟨_, _, _, sofar.trans step⟩

theorem Logged.has_later {u v : Nat} {routineId : Uuid} (logged : Logged r v) (huv : u ≤ v)
    (there : (r.state u).db.routines.has routineId = true) :
    (r.state v).db.routines.has routineId = true := by
  obtain ⟨routines, tasks, links, grown⟩ := logged.grown huv
  exact Table.has_of_append grown.routines there

/-- A routine is inserted by one request. -/
theorem Inserted.unique {j s s' : Nat} {routineId : Uuid} (logged : Logged r t) (hs : s < t)
    (hs' : s' < t) (mine : Inserted r i s routineId) (other : Inserted r j s' routineId) :
    i = j := by
  rcases Nat.lt_trichotomy s s' with hlt | rfl | hlt
  · have there := (logged.before hs'.le).has_later hlt mine.there
    rw [other.fresh] at there
    cases there
  · obtain ⟨_, _, called⟩ := mine.called
    obtain ⟨_, _, called'⟩ := other.called
    exact (called.unique called').1
  · have there := (logged.before hs.le).has_later hlt other.there
    rw [mine.fresh] at there
    cases there

/-- A link's routine is there. -/
theorem Logged.linked (intact : ∀ a ∈ r.start.db.routineTasks.rows,
      r.start.db.routines.has a.routineId = true) (logged : Logged r t) :
    ∀ a ∈ (r.state t).db.routineTasks.rows, (r.state t).db.routines.has a.routineId = true := by
  induction t with
  | zero => exact intact
  | succ t ih =>
    intro a ha
    have before := logged.before (Nat.le_succ t)
    rcases logged.moment (Nat.lt_succ_self t) with same | ⟨j, l, x, -, routines, tasks, links,
      step, own⟩
    · rw [same] at ha ⊢
      exact ih before a ha
    · rw [step.routineTasks] at ha
      rcases List.mem_append.mp ha with ha | ha
      · exact logged.has_later (Nat.le_succ t) (ih before a ha)
      · obtain ⟨s, hs, inserted⟩ := own a ha
        exact logged.has_later (by omega) inserted.there

/-- A routine that is being inserted has no links. -/
theorem Logged.unlinked {s : Nat} {routineId : Uuid} (logged : Logged r s)
    (intact : ∀ a ∈ r.start.db.routineTasks.rows, r.start.db.routines.has a.routineId = true)
    (fresh : (r.state s).db.routines.has routineId = false) :
    (r.state s).db.tasksOfRoutine routineId = [] := by
  refine List.filter_eq_nil_iff.mpr fun a ha own => ?_
  have there := logged.linked intact a ha
  rw [decide_eq_true_iff.mp own, fresh] at there
  cases there

theorem Logged.called {l : Label} {x : Answer Input Failure} (logged : Logged r t)
    (called : r.CallsAt i t l x) (adds : AddsOwnLinks r i t) : Logged r (t + 1) where
  calls s hs j l' y called' := by
    rcases Nat.lt_or_eq_of_le (Nat.le_of_lt_succ hs) with hs | rfl
    · exact logged.calls s hs j l' y called'
    · obtain ⟨rfl, -, -⟩ := called.unique called'
      exact adds
  quiet s hs silent := by
    rcases Nat.lt_or_eq_of_le (Nat.le_of_lt_succ hs) with hs | rfl
    · exact logged.quiet s hs silent
    · exact absurd called (silent i l x)

theorem AddsOwnLinks.nothing (same : (r.state (t + 1)).db = (r.state t).db) :
    AddsOwnLinks r i t := by
  refine ⟨[], [], [], ?_, by simp⟩
  rw [same]
  exact .refl _

/-- While a request waits, nobody links anything to the routine it has inserted. -/
theorem links_steady {s u v : Nat} {routineId : Uuid} (inserted : Inserted r i s routineId)
    (hsu : s < u) (quiet : r.Quiet i u v) (logged : Logged r v) :
    (r.state v).db.tasksOfRoutine routineId = (r.state u).db.tasksOfRoutine routineId := by
  obtain ⟨huv, silent⟩ := quiet
  induction v, huv using Nat.le_induction with
  | base => rfl
  | succ v huv ih =>
    have before := ih (logged.before (Nat.le_succ v)) fun w huw hwv => silent w huw (by omega)
    rcases logged.moment (Nat.lt_succ_self v) with same | ⟨j, l, x, called, routines, tasks,
      links, step, own⟩
    · rw [same]
      exact before
    · have others : links.filter (·.routineId = routineId) = [] := by
        refine List.filter_eq_nil_iff.mpr fun a ha mine => ?_
        obtain ⟨s', hs', inserted'⟩ := own a ha
        rw [decide_eq_true_iff.mp mine] at inserted'
        have same : i = j := inserted.unique logged (by omega) (by omega) inserted'
        exact silent v huv (Nat.lt_succ_self v) l x (same ▸ called)
      rw [← before]
      unfold Db.tasksOfRoutine
      rw [step.routineTasks, List.filter_append, others, List.append_nil]

theorem steady_true : Steady r i fun _ => True := ⟨fun _ _ _ _ _ => trivial, fun _ _ _ => trivial⟩

theorem steady_task (task : Task) : Steady r i fun t => task ∈ (r.state t).db.tasks.rows where
  later u v quiet logged there := by
    obtain ⟨routines, tasks, links, grown⟩ := logged.grown quiet.1
    rw [grown.tasks]
    exact List.mem_append_left _ there
  same u same there := by
    rw [same]
    exact there

theorem steady_progress {userId : Uuid} {routine : Routine}
    {rounds : List (CreateRoutineTaskArgs × Nat)} {rows : List (Task × RoutineTask)} :
    Steady r i (Progress r userId i routine rounds rows) where
  later u v quiet logged progress := by
    obtain ⟨s, hs, inserted⟩ := progress.inserted
    obtain ⟨routines, tasks, links, grown⟩ := logged.grown quiet.1
    have huv := quiet.1
    refine ⟨⟨s, by omega, inserted⟩, ?_, progress.rounds, ?_, fun p hp => ?_⟩
    · rw [grown.routines]
      exact List.mem_append_left _ progress.there
    · rw [links_steady inserted hs quiet logged]
      exact progress.links
    · rw [grown.tasks]
      exact List.mem_append_left _ (progress.tasks p hp)
  same u same progress := by
    obtain ⟨s, hs, inserted⟩ := progress.inserted
    refine ⟨⟨s, by omega, inserted⟩, ?_, progress.rounds, ?_, ?_⟩
    · rw [same]
      exact progress.there
    · rw [same]
      exact progress.links
    · rw [same]
      exact progress.tasks

theorem Steady.and {F G : Nat → Prop} (hF : Steady r i F) (hG : Steady r i G) :
    Steady r i fun t => F t ∧ G t :=
  ⟨fun u v quiet logged h => ⟨hF.later u v quiet logged h.1, hG.later u v quiet logged h.2⟩,
    fun u same h => ⟨hF.same u same h.1, hG.same u same h.2⟩⟩

end Log

/-! ### What a request saves -/

section Requests

variable {η : Type} {r : Run World Input Failure Label η PracticePlannerResponse}
  {userId : Uuid} {i t : Nat}

/-- A method of request `i` that logs its writes. -/
private abbrev Logs {α : Type} (r : Run World Input Failure Label η PracticePlannerResponse)
    (i : Nat) (m : Promise α) (Q : Except Failure α → Nat → Prop) : Nat → Prop :=
  Safe (r.setting i (Logged r)) m Q

private def Unwritten {β : Type} (c : Call World Input Failure Label β) : Prop :=
  ∀ x (w : World), (c.answer x w).2.db = w.db

/-- One statement: what it writes, and what then is so as long as the request waits. -/
private theorem logs_write {α : Type} {model : Model} {op : Operation} {touched : Db → RowSet}
    {f : Input → Db → Except Failure (α × Db)} {F : Nat → Prop} {G : α → Nat → Prop}
    (steadyF : Steady r i F) (now : F t)
    (step : ∀ u inp a, F u → Logged r u → (∃ l x, r.CallsAt i u l x) →
      f inp (r.state u).db = .ok (a, (r.state (u + 1)).db) →
      AddsOwnLinks r i u ∧ ∃ H : Nat → Prop, Steady r i H ∧ H (u + 1) ∧ ∀ v, H v → G a v) :
    Logs r i (Promise.write model op touched f) (onOk G fun _ _ => True) t := by
  apply Safe.call
  rintro u v x quiet logged ⟨called, rfl⟩ - next
  have logged : Logged r u := logged
  have called : r.CallsAt i u (.db model op) x := called
  have holds := steadyF.later t u quiet logged now
  cases x with
  | threw e =>
    have same : (r.state (u + 1)).db = (r.state u).db := congrArg World.db next
    exact ⟨logged.called called (.nothing same), fun _ _ _ => trivial⟩
  | took inp =>
    have next : r.state (u + 1) = _ := next
    have state : (r.setting i (Logged r)).state u = r.state u := rfl
    simp only [Call.answer_took, state] at next ⊢
    cases written : f inp (r.state u).db with
    | error e =>
      simp only [written] at next ⊢
      have same : (r.state (u + 1)).db = (r.state u).db := by rw [next]
      exact ⟨logged.called called (.nothing same), fun _ _ _ => trivial⟩
    | ok result =>
      obtain ⟨a, db⟩ := result
      simp only [written] at next ⊢
      have rows : (r.state (u + 1)).db = db := by rw [next]
      obtain ⟨adds, H, steadyH, after, weaker⟩ :=
        step u inp a holds logged ⟨_, _, called⟩ (rows ▸ written)
      refine ⟨logged.called called adds, fun w quiet' logged' => ?_⟩
      exact weaker w (steadyH.later (u + 1) w quiet' logged' after)

/-- Calls that write no row leave what the request relies on. -/
private theorem logs_unwritten {α : Type} {m : Promise α} {F : Nat → Prop}
    (steady : Steady r i F) (silent : m.Calls Unwritten) (now : F t) :
    Logs r i m (fun _ => F) t := by
  induction m generalizing t with
  | done a => exact fun u quiet logged => steady.later t u quiet logged now
  | fail e => exact fun u quiet logged => steady.later t u quiet logged now
  | await c k ih =>
    rintro u v x quiet logged ⟨called, rfl⟩ - next
    have logged : Logged r u := logged
    have called : r.CallsAt i u c.label x := called
    have same : (r.state (u + 1)).db = (r.state u).db := by
      have next : r.state (u + 1) = _ := next
      rw [next]
      exact silent.1 x (r.state u)
    refine ⟨logged.called called (.nothing same), ih _ (silent.2 _) ?_⟩
    exact steady.same u same (steady.later t u quiet logged now)
  | either k ih => exact fun b => ih b (silent b) now

private theorem read_unwritten {α : Type} {model : Model} {op : Operation}
    {f : Input → Db → Except Failure α} : (Promise.read model op f).Calls Unwritten :=
  calls_call fun x w => by cases x <;> rfl

private theorem parse_unwritten {request : ProviderRequest} :
    (Promise.responsesParse request).Calls Unwritten :=
  calls_call fun x w => by cases x <;> rfl

/-- The routine is inserted, and has no links yet. -/
private theorem logs_create {args : CreateRoutineArgs}
    (intact : ∀ a ∈ r.start.db.routineTasks.rows, r.start.db.routines.has a.routineId = true) :
    Logs r i (RoutinesService.create userId ⟨args.title, .absent, .value args.notes⟩)
      (onOk (fun result u => result.routine.title = args.title ∧
        IsRoutineOf userId args result.routine ∧
        Progress r userId i result.routine [] [] u) fun _ _ => True) t := by
  unfold RoutinesService.create
  simp only [bind_eq, pure_eq]
  apply Safe.bind
  have inserts : Logs r i (Promise.write .routine .create (fun _ => { users := [userId] })
      fun inp db => do
        let row ← (⟨args.title, .absent, .value args.notes⟩ : CreateRoutineDto).row userId inp
        let db ← db.insertRoutine row
        return (row, db)) (onOk (fun routine u => IsRoutineOf userId args routine ∧
          Progress r userId i routine [] [] u) fun _ _ => True) t := by
    apply logs_write steady_true trivial
    intro u inp row _ logged called written
    obtain ⟨row', hrow, written⟩ := bind_eq_ok written
    obtain ⟨db', inserted, done⟩ := bind_eq_ok written
    cases done
    have grown := Db.insertRoutine_grown inserted
    obtain ⟨_, -, -, fresh, -⟩ := Db.insertRoutine_ok inserted
    have isRoutine : IsRoutineOf userId args row := by
      cases hrow
      exact ⟨rfl, rfl, rfl⟩
    have absent : (r.state u).db.routines.has row.id = false := by
      rw [Bool.eq_false_iff]
      intro there
      obtain ⟨a, ha, same⟩ := Table.has_iff.mp there
      exact fresh (List.mem_map.mpr ⟨a, ha, same⟩)
    have there : row ∈ (r.state (u + 1)).db.routines.rows := by
      rw [grown.routines]
      simp
    have progress : Progress r userId i row [] [] (u + 1) := by
      refine ⟨⟨u, Nat.lt_succ_self u, called, absent, Table.has_iff.mpr ⟨row, there, rfl⟩⟩,
        there, .nil, ?_, by simp⟩
      unfold Db.tasksOfRoutine
      rw [grown.routineTasks, List.append_nil]
      exact logged.unlinked intact absent
    exact ⟨⟨[row], [], [], grown, by simp⟩, _, steady_progress, progress,
      fun v hv => ⟨isRoutine, hv⟩⟩
  refine inserts.weaken fun res u _ h => ?_
  cases res with
  | error e => exact trivial
  | ok routine =>
    obtain ⟨isRoutine, progress⟩ := h
    intro v quiet logged
    exact ⟨isRoutine.title, isRoutine, steady_progress.later u v quiet logged progress⟩

/-- The private task of a round is stored. -/
private theorem logs_createPrivate {routine : Routine}
    {rounds : List (CreateRoutineTaskArgs × Nat)} {rows : List (Task × RoutineTask)}
    {args : CreateRoutineTaskArgs} (now : Progress r userId i routine rounds rows t) :
    Logs r i (TasksService.createPrivate userId args.title (some args.description))
      (onOk (fun task u => IsTaskOf userId args task ∧
        Progress r userId i routine rounds rows u ∧ task ∈ (r.state u).db.tasks.rows)
        fun _ _ => True) t := by
  apply logs_write steady_progress now
  intro u inp task progress logged called written
  obtain ⟨db', inserted, done⟩ := bind_eq_ok written
  have isTask : IsTaskOf userId args task := by
    cases done
    exact ⟨rfl, rfl, rfl⟩
  have inserted : (r.state u).db.insertTask task = .ok (r.state (u + 1)).db := by
    cases done
    exact inserted
  have grown := Db.insertTask_grown inserted
  have there : task ∈ (r.state (u + 1)).db.tasks.rows := by
    rw [grown.tasks]
    simp
  obtain ⟨s, hs, mine⟩ := progress.inserted
  have after : Progress r userId i routine rounds rows (u + 1) := by
    refine ⟨⟨s, by omega, mine⟩, ?_, progress.rounds, ?_, fun p hp => ?_⟩
    · rw [grown.routines, List.append_nil]
      exact progress.there
    · unfold Db.tasksOfRoutine
      rw [grown.routineTasks, List.append_nil]
      exact progress.links
    · rw [grown.tasks]
      exact List.mem_append_left _ (progress.tasks p hp)
  exact ⟨⟨[], [task], [], grown, by simp⟩, _, steady_progress.and (steady_task task),
    ⟨after, there⟩, fun v hv => ⟨isTask, hv⟩⟩

/-- The task of a round is linked at its position. -/
private theorem logs_addTask {routine : Routine} {rounds : List (CreateRoutineTaskArgs × Nat)}
    {rows : List (Task × RoutineTask)} {args : CreateRoutineTaskArgs} {index : Nat} {task : Task}
    (isTask : IsTaskOf userId args task)
    (now : Progress r userId i routine rounds rows t ∧ task ∈ (r.state t).db.tasks.rows) :
    Logs r i (RoutinesService.addTask userId routine.id.text
        ⟨task.id.text, .value (index + 1), .value args.durationMinutes⟩)
      (onOk (fun _ u => ∃ link, Progress r userId i routine (rounds ++ [(args, index)])
        (rows ++ [(task, link)]) u) fun _ _ => True) t := by
  let F : Nat → Prop := fun t =>
    Progress r userId i routine rounds rows t ∧ task ∈ (r.state t).db.tasks.rows
  have steady : Steady r i F := steady_progress.and (steady_task task)
  have links : ∀ u, F u → Logs r i (Promise.write .routineTask .create
      (fun _ => { routines := [.ofText routine.id.text], tasks := [.ofText task.id.text] })
      (RoutinesService.addRow routine.id.text
        ⟨task.id.text, .value (index + 1), .value args.durationMinutes⟩ (index + 1)))
      (onOk (fun _ u => ∃ link, Progress r userId i routine (rounds ++ [(args, index)])
        (rows ++ [(task, link)]) u) fun _ _ => True) u := by
    intro u now
    apply logs_write steady now
    intro u inp link ⟨progress, there⟩ logged called written
    obtain ⟨hlink, inserted⟩ := RoutinesService.addRow_ok written
    have grown := Db.insertRoutineTask_grown inserted
    have own : link.routineId = routine.id := by
      rw [hlink]
      exact Uuid.ofText_text routine.id
    obtain ⟨s, hs, mine⟩ := progress.inserted
    have isRound : IsRoundOf userId routine.id (args, index) (task, link) := by
      refine ⟨isTask, own, ?_, ?_, ?_⟩
      · rw [hlink]
        exact Uuid.ofText_text task.id
      · rw [hlink]
      · rw [hlink]
        rfl
    have after : Progress r userId i routine (rounds ++ [(args, index)]) (rows ++ [(task, link)])
        (u + 1) := by
      refine ⟨⟨s, by omega, mine⟩, ?_, List.rel_append progress.rounds (.cons isRound .nil), ?_,
        fun p hp => ?_⟩
      · rw [grown.routines, List.append_nil]
        exact progress.there
      · have sofar := progress.links
        unfold Db.tasksOfRoutine at sofar ⊢
        rw [grown.routineTasks, List.filter_append, sofar]
        simp [own]
      · rw [grown.tasks, List.append_nil]
        rcases List.mem_append.mp hp with hp | hp
        · exact progress.tasks p hp
        · rw [List.mem_singleton.mp hp]
          exact there
    refine ⟨⟨[], [], [link], grown, fun a ha => ?_⟩, _, steady_progress, after,
      fun v hv => ⟨link, hv⟩⟩
    rw [List.mem_singleton.mp ha, own]
    exact ⟨s, hs, mine⟩
  unfold RoutinesService.addTask
  simp only [bind_eq, pure_eq, throw_eq, tryCatch_eq]
  apply Safe.bind
  have found : (RoutinesService.findById userId routine.id.text).Calls Unwritten := by
    unfold RoutinesService.findById
    rw [bind_eq]
    refine calls_bind read_unwritten fun found => ?_
    cases found <;> trivial
  refine (logs_unwritten steady found now).weaken fun res u _ now => ?_
  cases res with
  | error e => exact trivial
  | ok _ =>
    dsimp only [onOk]
    apply Safe.bind
    have visible : (RoutinesService.assertTasksVisible userId [task.id.text]).Calls
        Unwritten := by
      unfold RoutinesService.assertTasksVisible
      rw [bind_eq]
      refine calls_bind read_unwritten fun count => ?_
      split <;> trivial
    refine (logs_unwritten steady visible now).weaken fun res v _ now => ?_
    cases res with
    | error e => exact trivial
    | ok _ =>
      dsimp only [onOk]
      apply Safe.handle
      refine (links v now).weaken fun res w _ h => ?_
      cases res with
      | ok link => exact h
      | error e =>
        dsimp only [onOk]
        split <;> exact fun _ _ _ => trivial

private theorem logs_saveTask {routine : Routine} {rounds : List (CreateRoutineTaskArgs × Nat)}
    {rows : List (Task × RoutineTask)} {round : CreateRoutineTaskArgs × Nat}
    (now : Progress r userId i routine rounds rows t) :
    Logs r i (saveTask userId routine.id round) (onOk (fun _ u =>
      ∃ rows, Progress r userId i routine (rounds ++ [round]) rows u) fun _ _ => True) t := by
  obtain ⟨args, index⟩ := round
  unfold saveTask
  simp only [bind_eq, pure_eq]
  apply Safe.bind
  refine (logs_createPrivate now).weaken fun res u _ h => ?_
  cases res with
  | error e => exact trivial
  | ok task =>
    obtain ⟨isTask, now⟩ := h
    dsimp only [onOk]
    apply Safe.bind
    refine (logs_addTask isTask now).weaken fun res v _ h => ?_
    cases res with
    | error e => exact trivial
    | ok _ =>
      obtain ⟨link, progress⟩ := h
      intro w quiet logged
      exact ⟨_, steady_progress.later v w quiet logged progress⟩

private theorem logs_execute {rawArgs : Json}
    (intact : ∀ a ∈ r.start.db.routineTasks.rows, r.start.db.routines.has a.routineId = true) :
    Logs r i (execute userId rawArgs) (onOk (fun c u => ∃ args routine rows,
      CreateRoutineArgs.safeParse rawArgs = some args ∧ routine.id = c.routineId ∧
      IsRoutineOf userId args routine ∧
      Progress r userId i routine args.tasks.zipIdx rows u) fun _ _ => True) t := by
  unfold execute
  split
  · exact fun _ _ _ => trivial
  · next args parsed =>
    simp only [bind_eq, pure_eq]
    apply Safe.bind
    refine (logs_create intact).weaken fun res u _ h => ?_
    cases res with
    | error e => exact trivial
    | ok result =>
      obtain ⟨-, isRoutine, progress⟩ := h
      dsimp only [onOk]
      apply Safe.bind
      let inv : List (CreateRoutineTaskArgs × Nat) → Nat → Prop := fun rounds v =>
        ∀ w, r.Quiet i v w → Logged r w →
          ∃ rows, Progress r userId i result.routine rounds rows w
      apply Safe.forM inv
      · intro rounds round rest _ v sofar
        apply Safe.of_later
        intro w quiet logged
        obtain ⟨rows, progress⟩ := sofar w quiet logged
        refine (logs_saveTask progress).weaken fun res x _ h => ?_
        cases res with
        | error e => exact trivial
        | ok _ =>
          obtain ⟨rows, progress⟩ := h
          exact fun y quiet logged => ⟨rows, steady_progress.later x y quiet logged progress⟩
      · exact fun rounds v w later sofar x quiet => sofar x (Run.Quiet.trans later quiet)
      · intro v logged all
        obtain ⟨rows, progress⟩ := all v (Run.Quiet.refl r i v) logged
        intro w quiet logged
        exact ⟨args, result.routine, rows, parsed, rfl, isRoutine,
          steady_progress.later v w quiet logged progress⟩
      · exact fun w quiet logged => ⟨[], steady_progress.later u w quiet logged progress⟩

private theorem logs_confirm {responseId : String}
    (intact : ∀ a ∈ r.start.db.routineTasks.rows, r.start.db.routines.has a.routineId = true) :
    Logs r i (confirmAndCreateRoutine responseId (execute userId)) (onOk (fun result u =>
      ∀ w, r.Quiet i u w → Logged r w → SavesArguments r userId i responseId result.toolResult w)
      fun _ _ => True) t := by
  unfold confirmAndCreateRoutine
  simp only [bind_eq, pure_eq, throw_eq]
  apply Safe.bind
  intro u v x quiet logged ⟨called, hv⟩ _ next
  have called : r.CallsAt i u (.aiProvider (.confirm responseId)) x := called
  obtain rfl : v = u + 1 := hv
  have same : (r.state (u + 1)).db = (r.state u).db := by
    have next : r.state (u + 1) = _ := next
    rw [next]
    cases x <;> rfl
  refine ⟨Logged.called logged called (.nothing same), ?_⟩
  cases x with
  | threw e => exact fun _ _ _ => trivial
  | took inp =>
    intro v quiet logged
    have later := quiet.1
    dsimp only [onOk]
    split
    · exact fun _ _ _ => trivial
    split
    · next callId rawArgs call =>
      apply Safe.bind
      refine (Run.safe_after le_rfl (logs_execute intact)).weaken fun res w _ h => ?_
      cases res with
      | error e => exact trivial
      | ok c =>
        obtain ⟨⟨args, routine, rows, parsed, hid, isRoutine, progress⟩, hvw⟩ := h
        dsimp only [onOk]
        apply Safe.bind
        refine (Run.safe_after le_rfl (logs_unwritten steady_progress parse_unwritten
          progress)).weaken fun res x _ h => ?_
        cases res with
        | error e => exact trivial
        | ok followUp =>
          obtain ⟨progress, hwx⟩ := h
          dsimp only [onOk]
          split
          · exact fun _ _ _ => trivial
          · intro y quiet _ z quiet' logged
            have hxz := (Run.Quiet.trans quiet quiet').1
            have saved := steady_progress.later x z (Run.Quiet.trans quiet quiet') logged progress
            refine ⟨u, by omega, inp, callId, rawArgs, args, rows, called, call, parsed, ?_⟩
            refine ⟨⟨routine, saved.there, hid, isRoutine⟩, ?_, ?_, saved.tasks⟩
            · rw [← hid]
              exact saved.rounds
            · rw [← hid]
              exact saved.links
    · exact fun _ _ _ => trivial

/-- A plan is proposed without a row being written. -/
private theorem logs_startPlan {prompt : String} :
    Logs r i (startPlan userId prompt)
      (onOk (fun response _ => ∀ c, response ≠ .created c) fun _ _ => True) t := by
  unfold startPlan
  simp only [bind_eq, pure_eq, throw_eq, tryCatch_eq]
  apply Safe.bind
  have asks : (callAiProvider (generatePracticePlan prompt) plannerUnavailable).Calls
      Unwritten := by
    unfold callAiProvider generatePracticePlan
    simp only [bind_eq, throw_eq, tryCatch_eq]
    refine calls_handle (calls_bind parse_unwritten fun response => ?_) fun e => ?_
    · split
      · trivial
      split <;> trivial
    · split <;> trivial
  refine (logs_unwritten steady_true asks trivial).weaken fun res u _ _ => ?_
  cases res with
  | error e => exact trivial
  | ok result =>
    dsimp only [onOk]
    split
    · exact fun _ _ _ => trivial
    · apply Safe.bind
      have stores : ((Promise.cacheSet (.planOwner result.previousResponseId) userId true).handle
          fun _ => .done ()).Calls Unwritten := by
        refine calls_handle (calls_call fun x w => ?_) fun _ => trivial
        cases x <;> rfl
      refine (logs_unwritten steady_true stores trivial).weaken fun res v _ _ => ?_
      cases res with
      | error e => exact trivial
      | ok _ => exact fun w _ _ c => nofun

/-- What a request that answers `created` has saved. -/
private theorem logs_handleRequest {dto : PracticePlannerRequestDto}
    (intact : ∀ a ∈ r.start.db.routineTasks.rows, r.start.db.routines.has a.routineId = true) :
    Logs r i (handleRequest userId dto) (fun res u => ∀ c, res = .ok (.created c) →
      ∃ responseId, Confirms dto responseId ∧ SavesArguments r userId i responseId c u) t := by
  have failed : ∀ {e : Failure}, Logs r i (.fail e) (fun res u => ∀ c,
      res = .ok (PracticePlannerResponse.created c) →
      ∃ responseId, Confirms dto responseId ∧ SavesArguments r userId i responseId c u) t :=
    fun _ _ _ _ same => nomatch same
  unfold handleRequest
  simp only [bind_eq, throw_eq, Async.Method.fail_bind]
  split
  · exact failed
  next one =>
  split
  · refine logs_startPlan.weaken fun res u _ h => ?_
    cases res with
    | error e => exact nofun
    | ok response =>
      intro c same
      exact absurd (Except.ok.inj same) (h c)
  next absent =>
  unfold resolveConfirmation
  simp only [bind_eq, pure_eq, throw_eq, Async.Method.fail_bind]
  split
  · exact fun _ _ _ _ same => nomatch same
  next notDeclined =>
  split
  · exact failed
  next responseId given =>
  split
  · exact failed
  have confirms : Confirms dto responseId := by
    refine ⟨absent, ?_, given⟩
    cases hc : dto.confirmation with
    | none => simp [absent, hc] at one
    | some b =>
      cases b with
      | true => rfl
      | false => exact absurd hc notDeclined
  apply Safe.bind
  have looksUp : (readOwnershipFromCache responseId).Calls Unwritten := by
    unfold readOwnershipFromCache
    simp only [pure_eq, tryCatch_eq]
    refine calls_handle (calls_call fun x w => ?_) fun _ => trivial
    cases x <;> rfl
  refine (logs_unwritten steady_true looksUp trivial).weaken fun res u _ _ => ?_
  cases res with
  | error e => exact nofun
  | ok owner =>
    dsimp only [onOk]
    split
    · exact fun _ _ _ _ same => nomatch same
    apply Safe.bind
    unfold callAiProvider
    simp only [throw_eq, tryCatch_eq]
    apply Safe.handle
    refine (logs_confirm intact).weaken fun res v _ h => ?_
    cases res with
    | error e =>
      dsimp only [onOk]
      split <;> exact fun _ _ _ _ same => nomatch same
    | ok result =>
      intro w quiet logged c same
      cases same
      exact ⟨responseId, confirms, h w quiet logged⟩

/-- Whenever a confirmation answers `created`, the routine is there with exactly the title and,
in position order, the tasks of the arguments of `create_routine` that the provider returned
for it, which are valid. -/
theorem created_saves_arguments {user : Nat → Uuid} {dto : Nat → PracticePlannerRequestDto}
    (requests : ∀ i, r.requests i = handleRequest (user i) (dto i))
    (intact : ∀ a ∈ r.start.db.routineTasks.rows, r.start.db.routines.has a.routineId = true)
    (outside : ∀ a w, (r.outside a w).db = w.db) {c : CreateRoutineResult}
    (ended : r.Ended i t (.ok (.created c))) :
    ∃ responseId, Confirms (dto i) responseId ∧
      SavesArguments r (user i) i responseId c t := by
  have run : ∀ t, Logged r t ∧ ∀ i m, r.slot i t = some m →
      Safe (r.setting i (Logged r)) m (fun res u => ∀ c, res = .ok (.created c) →
        ∃ responseId, Confirms (dto i) responseId ∧
          SavesArguments r (user i) i responseId c u) t := by
    have rest : ∀ t, Logged r t → (r.state (t + 1)).db = (r.state t).db →
        (∀ i l x, ¬r.CallsAt i t l x) → Logged r (t + 1) := by
      intro t logged same silent
      refine ⟨fun s hs j l x called => ?_, fun s hs quiet => ?_⟩
      · rcases Nat.lt_or_eq_of_le (Nat.le_of_lt_succ hs) with hs | rfl
        · exact logged.calls s hs j l x called
        · exact absurd called (silent j l x)
      · rcases Nat.lt_or_eq_of_le (Nat.le_of_lt_succ hs) with hs | rfl
        · exact logged.quiet s hs quiet
        · exact same
    refine Run.safe ⟨nofun, nofun⟩ ?_ ?_ ?_
    · exact fun t logged same silent => rest t logged (by rw [same]) silent
    · intro t a logged acts next
      refine rest t logged (by rw [next, outside]) fun j l x called => ?_
      have other := called.schedule.symm.trans acts
      cases other
    · intro j t _ _ _
      rw [requests j]
      exact logs_handleRequest intact
  obtain ⟨logged, slots⟩ := run t
  exact ended.post logged (slots i) c rfl

end Requests

/-- Each confirmation that answers `created` has saved the plan that was shown under the same
response id: its title and, in position order, its tasks. -/
def SavesShownPlan {η : Type} (r : Run World Input Failure Label η PracticePlannerResponse)
    (dto : Nat → PracticePlannerRequestDto) : Prop :=
  ∀ i j u t responseId plan c, Confirms (dto i) responseId →
    r.Ended j u (.ok (.awaitingConfirmation plan responseId)) → r.Ended i t (.ok (.created c)) →
    ∃ routine ∈ (r.state t).db.routines.rows, routine.id = c.routineId ∧
      routine.title = plan.title ∧ ∃ rows : List (Task × RoutineTask),
        List.Forall₂ (fun (task : PracticePlanTask) row => row.1.title = task.title ∧
          row.1.description = some task.description ∧
          row.2.targetDurationMinutes.map (fun d => (d : ℚ)) = some task.durationMinutes)
          plan.tasks rows ∧
        Relational.orderBy id byPosition
          ((r.state t).db.tasksOfRoutine c.routineId) = rows.map Prod.snd

section Sample

private def blues : PracticePlan := ⟨"Blues", "", 30, [⟨"Bending", "", 30⟩], true⟩

/-- Other arguments than those of the plan. -/
private def chords : OpenAiResponse :=
  { OpenAiResponse.blank "resp_9" "completed" with
    output := [.functionCall "create_routine" "call_9" (.obj [
      ("title", .str "Chords"), ("notes", .str ""),
      ("tasks", .arr [.obj [("title", .str "Barre"), ("description", .str ""),
        ("durationMinutes", .num 5)]])])] }

private def proposing : Input :=
  { Input.of firstId 0 with
    response := { OpenAiResponse.blank "resp_8" "completed" with outputParsed := some blues } }

private def bluesDto : Nat → PracticePlannerRequestDto
  | 0 => ⟨some "blues", none, none⟩
  | _ => ⟨none, some true, some "resp_8"⟩

/-- `alice` is shown one plan, and her confirmation saves another. -/
private def exchanged : Run World Input Failure Label Empty PracticePlannerResponse where
  requests i := handleRequest alice (bluesDto i)
  outside := nofun
  start := World.signedUp
  schedule
    | 0 => .begin 0
    | 1 => .advance 0 (.took proposing)
    | 2 => .advance 0 (.took proposing)
    | 3 => .begin 1
    | _ => .advance 1 (.took { Input.of firstId 0 with response := chords })

private theorem exchanged_shows :
    exchanged.Ended 0 3 (.ok (.awaitingConfirmation blues "resp_8")) :=
  Run.ended_of_eval (by decide +kernel)

private theorem exchanged_creates :
    exchanged.Ended 1 12 (.ok (.created ⟨firstId, "Chords", 1⟩)) :=
  Run.ended_of_eval (by decide +kernel)

theorem created_saves_arguments_exchanged :
    ∃ responseId, Confirms (bluesDto 1) responseId ∧
      SavesArguments exchanged alice 1 responseId ⟨firstId, "Chords", 1⟩ 12 :=
  created_saves_arguments (fun _ => rfl) (fun _ there => absurd there List.not_mem_nil) nofun exchanged_creates

/-- The provider decides what is saved, whatever plan was shown. -/
theorem shown_plan_not_saved :
    ¬∀ (r : Run World Input Failure Label Empty PracticePlannerResponse) (user : Nat → Uuid)
        (dto : Nat → PracticePlannerRequestDto),
      (∀ i, r.requests i = handleRequest (user i) (dto i)) → SavesShownPlan r dto := by
  intro claim
  obtain ⟨routine, there, -, title, -⟩ := claim exchanged (fun _ => alice) bluesDto (fun _ => rfl)
    1 0 3 12 "resp_8" blues _ ⟨rfl, rfl, rfl⟩ exchanged_shows exchanged_creates
  have titles : ∀ a ∈ (exchanged.state 12).db.routines.rows, a.title ≠ blues.title := by
    decide +kernel
  exact titles routine there title

end Sample

end GuitarCoach.AiPracticePlanner
