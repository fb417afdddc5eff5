/- digest: What the writes that save a routine do, one specification for each method. -/

import GuitarCoach.Routines.RoutinesService
import GuitarCoach.Tasks.TaskSpecs

set_option autoImplicit false
set_option relaxedAutoImplicit false

namespace GuitarCoach

open Async (Policy wp onOk wp_bind wp_handle wp_done wp_fail)
open Async.Method (pure_eq throw_eq bind_eq tryCatch_eq)

theorem Db.insertRoutine_grown {a : Routine} {db db' : Db} (h : db.insertRoutine a = .ok db') :
    db.Grown db' [a] [] [] := by
  obtain ⟨routines, rfl, rows, -, -⟩ := insertRoutine_ok h
  constructor <;> simp [rows]

theorem Db.insertRoutineTask_grown {a : RoutineTask} {db db' : Db}
    (h : db.insertRoutineTask a = .ok db') : db.Grown db' [] [] [a] := by
  obtain ⟨routineTasks, rfl, rows, -, -, -⟩ := insertRoutineTask_ok h
  constructor <;> simp [rows]

section Specs

variable {allowed : Policy World Input Failure Label} {w : World}

namespace RoutinesService

theorem wp_create {userId : Uuid} {dto : CreateRoutineDto}
    {Q : Except Failure RoutineResponseDto → World → Prop}
    (created : ∀ i row db, dto.row userId i = .ok row → w.db.insertRoutine row = .ok db →
      Q (.ok ⟨row, 0, 0⟩) { w with db })
    (failed : ∀ e, Q (.error e) w) : wp allowed (create userId dto) Q w := by
  unfold create
  simp only [bind_eq, pure_eq, wp_bind, wp_done]
  refine Promise.wp_write (fun i a db _ h => ?_) (fun _ e _ _ => failed e) fun e _ => failed e
  obtain ⟨row, hrow, h⟩ := bind_eq_ok h
  obtain ⟨db', hdb, h⟩ := bind_eq_ok h
  cases h
  exact created i _ _ hrow hdb

theorem wp_findById {userId : Uuid} {id : String}
    {Q : Except Failure RoutineResponseDto → World → Prop}
    (found : ∀ row ∈ w.db.routines.rows, owned userId id row = true →
      Q (.ok (toRoutineResponse w.db row)) w)
    (failed : ∀ e, Q (.error e) w) : wp allowed (findById userId id) Q w := by
  unfold findById
  simp only [bind_eq, wp_bind]
  refine Promise.wp_read (fun i _ => ?_) fun e _ => failed e
  cases hf : w.db.routines.rows.find? (owned userId id) with
  | none => exact failed _
  | some row => exact found row (List.mem_of_find?_eq_some hf) (List.find?_some hf)

theorem wp_assertTasksVisible {userId : Uuid} {taskIds : List String}
    {Q : Except Failure Unit → World → Prop}
    (visible : (∀ id ∈ taskIds, ∃ row ∈ w.db.tasks.rows,
      row.id = .ofText id ∧ visibleTo userId row = true) → Q (.ok ()) w)
    (failed : ∀ e, Q (.error e) w) : wp allowed (assertTasksVisible userId taskIds) Q w := by
  unfold assertTasksVisible
  simp only [bind_eq, wp_bind]
  refine Promise.wp_read (fun i _ => ?_) fun e _ => failed e
  dsimp only [onOk]
  split
  · exact failed _
  · next all =>
    refine visible fun id hid => ?_
    -- two spellings of one id would be counted once
    have covered := w.db.tasks.covers_of_length (taskIds.dedup.map Uuid.ofText) (visibleTo userId)
      (by rw [List.length_map]; exact not_not.mp all)
    exact covered _ (List.mem_map_of_mem (List.mem_dedup.mpr hid))

/-- `addTask` with a position adds one row, or fails and adds nothing. -/
theorem wp_addTask {userId : Uuid} {routineId taskId : String} {position : Int}
    {duration : Field Int} {Q : Except Failure RoutineTask → World → Prop}
    (added : ∀ i row db, addRow routineId ⟨taskId, .value position, duration⟩ position i w.db =
      .ok (row, db) → Q (.ok row) { w with db })
    (failed : ∀ e, Q (.error e) w) :
    wp allowed (addTask userId routineId ⟨taskId, .value position, duration⟩) Q w := by
  unfold addTask
  simp only [bind_eq, pure_eq, tryCatch_eq, throw_eq, wp_bind, wp_handle, wp_done]
  refine wp_findById (fun row _ _ => ?_) fun e => failed e
  dsimp only [onOk]
  refine wp_assertTasksVisible (fun _ => ?_) fun e => failed e
  dsimp only [onOk]
  refine Promise.wp_write (fun i a db _ h => added i a db h) (fun i e _ _ => ?_) fun e _ => ?_
  all_goals
    dsimp only [onOk]
    split <;> exact failed _

theorem addRow_ok {routineId : String} {dto : AddRoutineTaskDto} {position : Int} {i : Input}
    {db db' : Db} {row : RoutineTask} (h : addRow routineId dto position i db = .ok (row, db')) :
    row = ⟨.ofText routineId, .ofText dto.taskId, position, dto.targetDurationMinutes.toOption,
        i.now, i.now⟩ ∧ db.insertRoutineTask row = .ok db' := by
  unfold addRow at h
  simp only at h
  by_cases fits : (fitsInt4 position && dto.targetDurationMinutes.toOption.all fitsInt4) = true
  · rw [if_pos fits] at h
    obtain ⟨db'', hdb, h⟩ := bind_eq_ok h
    cases h
    exact ⟨rfl, hdb⟩
  · rw [if_neg fits] at h
    cases h

end RoutinesService

end Specs

end GuitarCoach
