/- digest: Which accepted plans can be confirmed: the second validator, the columns, the writes. -/

import GuitarCoach.Ai.PracticePlanner
import GuitarCoach.PartialMaps
import GuitarCoach.Routines.RoutineEndpoints
import GuitarCoach.Tasks.TaskSpecs

set_option autoImplicit false
set_option relaxedAutoImplicit false

namespace GuitarCoach

namespace AiPracticePlanner

open Async (Answer Policy wp onOk wp_bind wp_done)
open Async.Method (pure_eq throw_eq bind_eq)
open Relational (Table)
open RoutinesService (AllVisible Owns addRow_free addRow_ok healthy_addTask healthy_create)

/-! ### The arguments of a plan -/

/-- The task, as an argument of `create_routine`. -/
def taskArgs (task : PracticePlanTask) : Json :=
  .obj [("title", .str task.title), ("description", .str task.description),
    ("durationMinutes", .num task.durationMinutes)]

/-- The arguments with the plan's title and tasks. -/
def planArgs (plan : PracticePlan) (notes : String) : Json :=
  .obj [("title", .str plan.title), ("notes", .str notes),
    ("tasks", .arr (plan.tasks.map taskArgs))]

/-- What is written of a task fits its columns. -/
def CreateRoutineTaskArgs.FitsColumns (task : CreateRoutineTaskArgs) : Prop :=
  fitsText task.title = true ∧ fitsText task.description = true ∧
    fitsInt4 task.durationMinutes = true

/-- What is written of the routine and its tasks fits its columns; the last position is the number
of tasks. -/
structure CreateRoutineArgs.FitsColumns (args : CreateRoutineArgs) : Prop where
  title : fitsText args.title = true
  notes : fitsText args.notes = true
  tasks : ∀ task ∈ args.tasks, task.FitsColumns
  positions : fitsInt4 args.tasks.length = true

/-- What a task must be like besides what the plan's own validator asks. -/
structure TaskInBounds (task : PracticePlanTask) : Prop where
  title : 2 ≤ utf16Length task.title ∧ utf16Length task.title ≤ 200
  description : utf16Length task.description ≤ 2000
  text : fitsText task.title = true ∧ fitsText task.description = true
  duration : task.durationMinutes ≤ 2147483647

structure PlanInBounds (plan : PracticePlan) : Prop where
  title : 2 ≤ utf16Length plan.title ∧ utf16Length plan.title ≤ 200
  text : fitsText plan.title = true
  count : plan.tasks.length ≤ 2147483647
  tasks : ∀ task ∈ plan.tasks, TaskInBounds task

/-- What the validator says of the plans that it lets through. -/
theorem assertValidPracticePlan_ok {plan : PracticePlan}
    (accepted : assertValidPracticePlan plan = .ok ()) : plan.tasks ≠ [] ∧
      ∀ task ∈ plan.tasks, task.durationMinutes.den = 1 ∧ 0 < task.durationMinutes := by
  unfold assertValidPracticePlan at accepted
  by_cases blank : plan.title.toList.all isWhitespace = true
  · rw [if_pos blank] at accepted
    cases accepted
  rw [if_neg blank] at accepted
  by_cases none : plan.tasks = []
  · simp only [none] at accepted
    cases accepted
  by_cases unfit : (plan.tasks.any fun task =>
      task.durationMinutes.den ≠ 1 || task.durationMinutes ≤ 0) = true
  · simp only [none, unfit] at accepted
    cases accepted
  refine ⟨none, fun task htask => ?_⟩
  rw [Bool.not_eq_true, List.any_eq_false] at unfit
  have fit := unfit task htask
  simpa using fit

section Parse

private theorem boundedString_str {least most : Nat} {s t : String} :
    boundedString least most (.str s) = some t ↔
      (least ≤ utf16Length s ∧ utf16Length s ≤ most) ∧ s = t := by
  unfold boundedString
  by_cases fits : least ≤ utf16Length s ∧ utf16Length s ≤ most
  · simp [Json.string?, guard, fits]
  · simp [Json.string?, guard, fits]

/-- The arguments of a task pass if its texts are neither too short nor too long, and its duration
is a positive integer of the range in which numbers are exact. -/
theorem safeParse_taskArgs {task : PracticePlanTask} {args : CreateRoutineTaskArgs} :
    CreateRoutineTaskArgs.safeParse (taskArgs task) = some args ↔
      (2 ≤ utf16Length task.title ∧ utf16Length task.title ≤ 200) ∧
      utf16Length task.description ≤ 2000 ∧
      (safeInt? task.durationMinutes = some args.durationMinutes ∧ 0 < args.durationMinutes) ∧
      args.title = task.title ∧ args.description = task.description := by
  have title : (taskArgs task).field? "title" = some (.str task.title) := rfl
  have description : (taskArgs task).field? "description" = some (.str task.description) := rfl
  have duration : (taskArgs task).field? "durationMinutes" = some (.num task.durationMinutes) := rfl
  unfold CreateRoutineTaskArgs.safeParse
  rw [title, description, duration]
  simp only [Option.bind_eq_bind, Option.bind_some, Option.bind_eq_some_iff, boundedString_str,
    Option.guard_eq_some', Json.int?]
  constructor
  · rintro ⟨_, ⟨titleFits, rfl⟩, _, ⟨descriptionFits, rfl⟩, n, safe, _, positive, parsed⟩
    cases parsed
    exact ⟨titleFits, descriptionFits.2, ⟨safe, positive⟩, rfl, rfl⟩
  · rintro ⟨titleFits, descriptionFits, ⟨safe, positive⟩, sameTitle, sameDescription⟩
    obtain ⟨_, _, n⟩ := args
    subst sameTitle sameDescription
    exact ⟨_, ⟨titleFits, rfl⟩, _, ⟨⟨Nat.zero_le _, descriptionFits⟩, rfl⟩, n, safe, (),
      positive, rfl⟩

theorem safeParse_planArgs {plan : PracticePlan} {notes : String} {args : CreateRoutineArgs} :
    CreateRoutineArgs.safeParse (planArgs plan notes) = some args ↔
      (2 ≤ utf16Length plan.title ∧ utf16Length plan.title ≤ 200) ∧ utf16Length notes ≤ 2000 ∧
      plan.tasks.mapM (fun task => CreateRoutineTaskArgs.safeParse (taskArgs task)) =
        some args.tasks ∧ args.tasks ≠ [] ∧ args.title = plan.title ∧ args.notes = notes := by
  have title : (planArgs plan notes).field? "title" = some (.str plan.title) := rfl
  have noted : (planArgs plan notes).field? "notes" = some (.str notes) := rfl
  have tasks : (planArgs plan notes).field? "tasks" = some (.arr (plan.tasks.map taskArgs)) := rfl
  have mapped : (plan.tasks.map taskArgs).mapM CreateRoutineTaskArgs.safeParse =
      plan.tasks.mapM fun task => CreateRoutineTaskArgs.safeParse (taskArgs task) := by
    rw [List.mapM_map]
    rfl
  unfold CreateRoutineArgs.safeParse
  rw [title, noted, tasks]
  simp only [Option.bind_eq_bind, Option.bind_some, Option.bind_eq_some_iff, boundedString_str,
    Option.guard_eq_some', Json.array?, mapped]
  constructor
  · rintro ⟨_, ⟨titleFits, rfl⟩, _, ⟨notesFit, rfl⟩, values, all, _, some, parsed⟩
    cases parsed
    exact ⟨titleFits, notesFit.2, all, some, rfl, rfl⟩
  · rintro ⟨titleFits, notesFit, all, some, sameTitle, sameNotes⟩
    obtain ⟨_, _, values⟩ := args
    subst sameTitle sameNotes
    exact ⟨_, ⟨titleFits, rfl⟩, _, ⟨⟨Nat.zero_le _, notesFit⟩, rfl⟩, values, all, (),
      some, rfl⟩

/-- An integer that is not too large is one of those in which numbers are exact. -/
private theorem safeInt?_of_le {q : ℚ} (whole : q.den = 1) (positive : 0 < q)
    (le : q ≤ 2147483647) : safeInt? q = some q.num := by
  have value : q = q.num := (Rat.den_eq_one_iff q).mp whole |>.symm
  have le' : q.num ≤ 2147483647 := by
    rw [value] at le
    exact_mod_cast le
  have positive' := Rat.num_pos.mpr positive
  rw [safeInt?, if_pos ⟨whole, by omega⟩]

private theorem eq_of_safeInt? {q : ℚ} {n : Int} (safe : safeInt? q = some n) : q = n := by
  unfold safeInt? at safe
  split at safe
  · next exact =>
    cases safe
    exact ((Rat.den_eq_one_iff q).mp exact.1).symm
  · cases safe

/-- The arguments of a task that is in its bounds fit their columns, and of no other. -/
private theorem fits_iff_inBounds {task : PracticePlanTask} {args : CreateRoutineTaskArgs}
    (parsed : CreateRoutineTaskArgs.safeParse (taskArgs task) = some args) :
    args.FitsColumns ↔ TaskInBounds task := by
  obtain ⟨title, description, ⟨safe, positive⟩, sameTitle, sameDescription⟩ :=
    safeParse_taskArgs.mp parsed
  have value := eq_of_safeInt? safe
  unfold CreateRoutineTaskArgs.FitsColumns
  rw [sameTitle, sameDescription]
  have duration : fitsInt4 args.durationMinutes = true ↔ task.durationMinutes ≤ 2147483647 := by
    have cast : task.durationMinutes ≤ 2147483647 ↔ args.durationMinutes ≤ 2147483647 := by
      rw [value]
      norm_cast
    rw [cast, fitsInt4, Bool.and_eq_true, decide_eq_true_iff, decide_eq_true_iff]
    omega
  rw [duration]
  constructor
  · rintro ⟨titleText, descriptionText, le⟩
    exact ⟨title, description, ⟨titleText, descriptionText⟩, le⟩
  · intro bounds
    exact ⟨bounds.text.1, bounds.text.2, bounds.duration⟩

private theorem exists_parsed {task : PracticePlanTask} (bounds : TaskInBounds task)
    (whole : task.durationMinutes.den = 1) (positive : 0 < task.durationMinutes) :
    ∃ args, CreateRoutineTaskArgs.safeParse (taskArgs task) = some args :=
  ⟨⟨task.title, task.description, task.durationMinutes.num⟩, safeParse_taskArgs.mpr
    ⟨bounds.title, bounds.description,
      ⟨safeInt?_of_le whole positive bounds.duration, Rat.num_pos.mpr positive⟩, rfl, rfl⟩⟩

variable {plan : PracticePlan} {notes : String}

/-- The arguments of an accepted plan pass and fit their columns just when the plan is in bounds,
for any notes that do. -/
theorem parsed_iff_inBounds (accepted : assertValidPracticePlan plan = .ok ())
    (noted : utf16Length notes ≤ 2000) (text : fitsText notes = true) :
    (∃ args, CreateRoutineArgs.safeParse (planArgs plan notes) = some args ∧ args.FitsColumns) ↔
      PlanInBounds plan := by
  obtain ⟨some, durations⟩ := assertValidPracticePlan_ok accepted
  have count : ∀ args : CreateRoutineArgs, args.tasks.length = plan.tasks.length →
      (fitsInt4 args.tasks.length = true ↔ plan.tasks.length ≤ 2147483647) := by
    intro args same
    rw [same, fitsInt4, Bool.and_eq_true, decide_eq_true_iff, decide_eq_true_iff]
    omega
  constructor
  · rintro ⟨args, parsed, fits⟩
    obtain ⟨title, -, tasks, -, sameTitle, -⟩ := safeParse_planArgs.mp parsed
    have same := (mapM_eq_some_iff.mp tasks).length_eq
    refine ⟨title, sameTitle ▸ fits.title, (count args same.symm).mp fits.positions,
      fun task htask => ?_⟩
    obtain ⟨saved, hsaved, parsed⟩ := exists_mem_of_mapM tasks htask
    exact (fits_iff_inBounds parsed).mp (fits.tasks saved hsaved)
  · intro bounds
    obtain ⟨tasks, all⟩ := exists_mapM_iff.mpr fun task htask =>
      exists_parsed (bounds.tasks task htask) (durations task htask).1 (durations task htask).2
    have same := (mapM_eq_some_iff.mp all).length_eq
    have notNil : tasks ≠ [] := by
      rintro rfl
      exact some (List.length_eq_zero_iff.mp same)
    refine ⟨⟨plan.title, notes, tasks⟩, safeParse_planArgs.mpr
      ⟨bounds.title, noted, all, notNil, rfl, rfl⟩, bounds.text, text, fun args hargs => ?_,
      (count ⟨plan.title, notes, tasks⟩ same.symm).mpr bounds.count⟩
    obtain ⟨task, htask, parsed⟩ := mem_of_mapM all hargs
    exact (fits_iff_inBounds parsed).mpr (bounds.tasks task htask)

end Parse

/-! ### The writes of a confirmation -/

/-- No call fails, and a generated id is a new one, for tasks too. -/
def healthyTasks : Policy World Input Failure Label
  | _, w, .took i => w.db.Unused (i.uuid 0) ∧ ∀ a ∈ w.db.tasks.rows, a.id ≠ i.uuid 0
  | _, _, .threw _ => False

section Writes

variable {userId : Uuid} {w : World}

private theorem healthy_of_healthyTasks {α : Type} {m : Promise α}
    {Q : Except Failure α → World → Prop} (h : wp healthy m Q w) : wp healthyTasks m Q w := by
  refine Async.wp_fewer (fun l v x may => ?_) h
  cases x with
  | took i => exact may.1
  | threw e => exact may

private theorem insertTask_new {task : Task} {db : Db} (new : ∀ a ∈ db.tasks.rows, a.id ≠ task.id)
    (fits : task.texts.all fitsText = true) (owner : ∀ u ∈ task.ownerId, db.users.has u = true) :
    ∃ db', db.insertTask task = .ok db' := by
  have fresh : task.id ∉ db.tasks.rows.map Task.id := by
    intro taken
    obtain ⟨b, hb, same⟩ := List.mem_map.mp taken
    exact new b hb same
  obtain ⟨tasks, hinsert, -⟩ := Table.insert_of_fresh fresh
  unfold Db.insertTask
  rw [withTexts_of_fits fits, hinsert]
  dsimp only
  rw [if_pos (by simpa [Option.all_eq_true] using owner)]
  exact ⟨_, rfl⟩

/-- A task of its own is created for a user that there is. -/
theorem healthy_createPrivate {title : String} {description : Option String}
    {Q : Except Failure Task → World → Prop} (user : w.db.users.has userId = true)
    (fits : (title :: description.toList).all fitsText = true)
    (created : ∀ task db, task.ownerId = some userId → (∀ a ∈ w.db.tasks.rows, a.id ≠ task.id) →
      w.db.insertTask task = .ok db → Q (.ok task) { w with db }) :
    wp healthyTasks (TasksService.createPrivate userId title description) Q w := by
  unfold TasksService.createPrivate
  refine Promise.wp_write (fun i task db may saved => ?_) (fun i e may refused => ?_)
    fun e may => may.elim
  · obtain ⟨db', inserted, saved⟩ := bind_eq_ok saved
    cases saved
    exact created _ db rfl may.2 inserted
  · obtain ⟨db', inserted⟩ : ∃ db', w.db.insertTask ⟨i.uuid 0, title, none, none, none, description,
        some userId, i.now, i.now⟩ = .ok db' :=
      insertTask_new may.2 fits (by rintro _ ⟨⟩; exact user)
    dsimp only at refused
    rw [inserted] at refused
    cases refused

/-- The routine after so many rounds: its links stand at the first places, each to a task that is
there. -/
structure Linking (userId : Uuid) (routine : Routine) (rounds : Nat) (db : Db) : Prop where
  there : routine ∈ db.routines.rows
  owner : routine.userId = userId
  user : db.users.has userId = true
  links : ∀ b ∈ db.routineTasks.rows, b.routineId = routine.id →
    b.position ≤ rounds ∧ ∃ task ∈ db.tasks.rows, task.id = b.taskId

private theorem saveTask_healthy {routine : Routine} {rounds : Nat} {task : CreateRoutineTaskArgs}
    (linking : Linking userId routine rounds w.db) (fits : task.FitsColumns)
    (place : fitsInt4 ((rounds : Int) + 1) = true) :
    wp healthyTasks (saveTask userId routine.id (task, rounds))
      (onOk (fun _ v => Linking userId routine (rounds + 1) v.db) fun _ _ => False) w := by
  unfold saveTask
  simp only [bind_eq, pure_eq, wp_bind, wp_done]
  refine healthy_createPrivate linking.user (by simp [fits.1, fits.2.1])
    fun created db own new inserted => ?_
  obtain ⟨tasks, rfl, rows, -, -⟩ := Db.insertTask_ok inserted
  have stored : created ∈ tasks.rows := rows ▸ List.mem_append_right _ (List.mem_singleton_self _)
  dsimp only [onOk]
  apply healthy_of_healthyTasks
  apply healthy_addTask
  · exact ⟨routine, linking.there, by simp [RoutinesService.owned, linking.owner]⟩
  · refine ⟨by simp, fun id hid => ?_⟩
    obtain rfl := List.mem_singleton.mp hid
    exact ⟨created, stored, (Uuid.ofText_text _).symm, by simp [visibleTo, own]⟩
  · intro i
    refine addRow_free ⟨place, by simpa [Field.toOption] using fits.2.2⟩
      (Table.has_iff.mpr ⟨routine, linking.there, (Uuid.ofText_text routine.id).symm⟩)
      (Table.has_iff.mpr ⟨created, stored, (Uuid.ofText_text created.id).symm⟩) fun b hb mine => ?_
    rw [Uuid.ofText_text] at mine ⊢
    obtain ⟨before, old, hold, same⟩ := linking.links b hb mine
    refine ⟨by omega, fun taken => ?_⟩
    exact new old hold (same.trans taken)
  · intro i link db added
    obtain ⟨hlink, inserted'⟩ := addRow_ok added
    obtain ⟨links, rfl, rows', -, -⟩ := Db.insertRoutineTask_ok inserted'
    refine ⟨linking.there, linking.owner, linking.user, fun b hb mine => ?_⟩
    rw [rows'] at hb
    rcases List.mem_append.mp hb with before | new
    · obtain ⟨position, old, hold, same⟩ := linking.links b before mine
      refine ⟨by push_cast; omega, old, ?_, same⟩
      exact rows ▸ List.mem_append_left _ hold
    · rw [List.mem_singleton.mp new, hlink]
      exact ⟨by push_cast; omega, created, stored, (Uuid.ofText_text created.id).symm⟩

/-- Arguments that pass and fit their columns are saved. -/
theorem execute_healthy {rawArgs : Json} {args : CreateRoutineArgs}
    (parsed : CreateRoutineArgs.safeParse rawArgs = some args) (fits : args.FitsColumns)
    (user : w.db.users.has userId = true) :
    wp healthyTasks (execute userId rawArgs) (onOk (fun _ _ => True) fun _ _ => False) w := by
  unfold execute
  rw [parsed]
  simp only [bind_eq, pure_eq, wp_bind, wp_done]
  apply healthy_of_healthyTasks
  apply healthy_create
  · intro i routine db hrow unused _ _ inserted
    obtain ⟨id, owner, -⟩ := RoutinesService.row_ok hrow
    obtain ⟨routines, rfl, rows, -, -⟩ := Db.insertRoutine_ok inserted
    have start : Linking userId routine 0 { w.db with routines } := by
      refine ⟨rows ▸ List.mem_append_right _ (List.mem_singleton_self _), owner, user,
        fun b hb mine => ?_⟩
      exact absurd (mine.trans id) (unused.routineTasks b hb)
    dsimp only [onOk]
    refine Async.wp_forM (fun done v => Linking userId routine done.length v.db) _
      (fun done round rest split u linking => ?_) (fun _ _ => trivial) start
    obtain ⟨task, index⟩ := round
    -- the loop counts the rounds
    have here : args.tasks.zipIdx[done.length]? = some (task, index) := by
      rw [split]
      simp
    rw [List.getElem?_zipIdx] at here
    obtain ⟨_, found, same⟩ := Option.map_eq_some_iff.mp here
    cases same
    obtain ⟨inside, rfl⟩ := List.getElem?_eq_some_iff.mp found
    have last := fits.positions
    rw [Nat.zero_add, List.length_append, List.length_singleton]
    refine Async.wp_mono (saveTask_healthy linking (fits.tasks _ (List.getElem_mem inside)) ?_)
      fun r v h => ?_
    · simp only [fitsInt4, Bool.and_eq_true, decide_eq_true_eq] at last ⊢
      omega
    · cases r with
      | ok _ => exact h
      | error e => exact h.elim
  · intro null
    cases null
  · intro _ unfit
    have fit : CreateRoutineDto.texts ⟨args.title, .absent, .value args.notes⟩ =
        [args.title, args.notes] := rfl
    rw [fit] at unfit
    simp [fits.title, fits.notes] at unfit
  · intro _ unknown
    rw [user] at unknown
    cases unknown

/-- Notes with a NUL character pass the schema and end every confirmation, whatever the plan is. -/
theorem execute_unfit_notes {plan : PracticePlan} {notes : String}
    (unfit : fitsText notes = false) :
    wp healthyTasks (execute userId (planArgs plan notes))
      (onOk (fun _ _ => False) fun _ v => v.db = w.db) w := by
  unfold execute
  cases parsed : CreateRoutineArgs.safeParse (planArgs plan notes) with
  | none => exact rfl
  | some args =>
    obtain ⟨-, -, -, -, -, same⟩ := safeParse_planArgs.mp parsed
    simp only [bind_eq, pure_eq, wp_bind, wp_done]
    apply healthy_of_healthyTasks
    apply healthy_create
    · intro _ _ _ _ _ fits
      have fit : CreateRoutineDto.texts ⟨args.title, .absent, .value args.notes⟩ =
          [args.title, args.notes] := rfl
      rw [fit, same] at fits
      simp [unfit] at fits
    · exact fun _ => rfl
    · exact fun _ _ => rfl
    · exact fun _ _ => rfl

end Writes

/-- A plan that can be confirmed: its arguments pass with any notes and, with notes that a column
takes, they fit their columns and are saved in a healthy database. -/
structure Confirmable (plan : PracticePlan) : Prop where
  parsed : ∀ notes, utf16Length notes ≤ 2000 → ∃ args,
    CreateRoutineArgs.safeParse (planArgs plan notes) = some args ∧
      (fitsText notes = true → args.FitsColumns)
  saved : ∀ notes, utf16Length notes ≤ 2000 → fitsText notes = true → ∀ userId w,
    w.db.users.has userId = true → wp healthyTasks (execute userId (planArgs plan notes))
      (onOk (fun _ _ => True) fun _ _ => False) w

/-- An accepted plan can be confirmed just when its texts are neither too short nor too long, and
what is saved of it fits its columns. -/
theorem accepted_confirmable_iff {plan : PracticePlan}
    (accepted : assertValidPracticePlan plan = .ok ()) : Confirmable plan ↔ PlanInBounds plan := by
  constructor
  · intro confirmable
    have empty : utf16Length "" ≤ 2000 := by decide
    have text : fitsText "" = true := by decide
    obtain ⟨args, passed, fits⟩ := confirmable.parsed "" empty
    exact (parsed_iff_inBounds accepted empty text).mp ⟨args, passed, fits text⟩
  · intro bounds
    refine ⟨fun notes noted => ?_, fun notes noted text userId w user => ?_⟩
    · -- the schema does not look into the notes
      obtain ⟨args, passed, fits⟩ :=
        (@parsed_iff_inBounds plan "" accepted (by decide) (by decide)).mpr bounds
      obtain ⟨title, -, tasks, some, sameTitle, -⟩ := safeParse_planArgs.mp passed
      refine ⟨{ args with notes }, safeParse_planArgs.mpr
        ⟨title, noted, tasks, some, sameTitle, rfl⟩, fun text => ?_⟩
      exact ⟨fits.title, text, fits.tasks, fits.positions⟩
    · obtain ⟨args, passed, fits⟩ := (parsed_iff_inBounds accepted noted text).mpr bounds
      exact execute_healthy passed fits user

/-- A plan with one task of ten minutes. -/
private def tenMinutes (title : String) : PracticePlan :=
  ⟨title, "", 10, [⟨"Scales", "", 10⟩], true⟩

private theorem tenMinutes_accepted {title : String}
    (written : title.toList.all isWhitespace = false) :
    assertValidPracticePlan (tenMinutes title) = .ok () := by
  have positive : ¬(10 : ℚ) ≤ 0 := by norm_num
  have near : ¬(10 : ℚ) * durationToleranceRatio < 0 := by norm_num [durationToleranceRatio]
  simp only [assertValidPracticePlan, tenMinutes, written]
  simp [positive, near]
  rfl

theorem accepted_confirmable_iff_warmUp :
    Confirmable (tenMinutes "Warm-up") ↔ PlanInBounds (tenMinutes "Warm-up") :=
  accepted_confirmable_iff (tenMinutes_accepted (by decide))

/-- A plan with a title of one character is accepted and never confirmed. -/
theorem accepted_not_confirmable : ¬∀ plan : PracticePlan,
    assertValidPracticePlan plan = .ok () → Confirmable plan := by
  intro claim
  have confirmable := claim (tenMinutes "A") (tenMinutes_accepted (by decide))
  obtain ⟨args, parsed, -⟩ := confirmable.parsed "" (by decide)
  have title := (safeParse_planArgs.mp parsed).1.1
  exact absurd title (by decide)

end AiPracticePlanner

end GuitarCoach
