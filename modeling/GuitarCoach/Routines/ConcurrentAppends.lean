/- digest: Tasks appended to one routine at the same time: which requests race for a position. -/

import GuitarCoach.Routines.ReorderRuns
import GuitarCoach.Routines.RoutineEndpoints

/-!
A request that names no position reads the greatest one and inserts its row in another statement.
Whatever comes between, a row that is inserted stands right after the greatest position of that
moment, since all positions up to there are taken; a request that read too early is refused.
-/

set_option autoImplicit false
set_option relaxedAutoImplicit false

namespace GuitarCoach

open Async (Answer Choice Run Safe onOk)
open Async.Method (pure_eq throw_eq bind_eq tryCatch_eq)
open Relational (Table)
open RoutinesService (addRow addRow_ok addRow_free addTask greatestPosition owned)

/-- Requests of the owner of a routine, numbered from 0, that append different tasks to it. -/
structure Appends where
  userId : Uuid
  routineId : Uuid
  count : Nat
  /-- The routine id as each request spells it. -/
  spelled : Nat → String
  dto : Nat → AddRoutineTaskDto
  routine : ∀ i, Uuid.ofText (spelled i) = routineId
  unplaced : ∀ i position, (dto i).position ≠ .value position
  different : ∀ i j, i < count → j < count →
    Uuid.ofText (dto i).taskId = Uuid.ofText (dto j).taskId → i = j

namespace Appends

/-- The task that a request appends. -/
def task (a : Appends) (i : Nat) : Uuid := .ofText (a.dto i).taskId

def links (a : Appends) (w : World) : List RoutineTask := w.db.tasksOfRoutine a.routineId

def greatest (a : Appends) (w : World) : Int := greatestPosition a.routineId.text w.db

/-- The routine is there, and its owner sees the tasks. -/
structure Accepted (a : Appends) (w : World) : Prop where
  routine : ∃ row ∈ w.db.routines.rows, row.id = a.routineId ∧ row.userId = a.userId
  visible : ∀ i < a.count, ∃ row ∈ w.db.tasks.rows, row.id = a.task i ∧
    visibleTo a.userId row = true

variable {η : Type}

/-- A run of the requests in which nobody else edits the routine and no statement throws. -/
structure Runs (a : Appends) (r : Run World Input Failure Label η RoutineTask) : Prop where
  requests : ∀ i < a.count, r.requests i = addTask a.userId (a.spelled i) (a.dto i)
  begins : ∀ i t, r.schedule t = .begin i → i < a.count
  accepted : a.Accepted r.start
  unassigned : ∀ i < a.count, ∀ b ∈ a.links r.start, b.taskId ≠ a.task i
  answers : ∀ i t l x, r.CallsAt i t l x → ∃ inp, x = .took inp
  outside : ∀ t act, r.schedule t = .outside act → a.Accepted (r.state t) →
    a.links (r.outside act (r.state t)) = a.links (r.state t) ∧
      a.Accepted (r.outside act (r.state t))

/-- Every request that has ended succeeded, and when all have, the new rows stand at the positions
after the formerly greatest one. -/
structure Appended (a : Appends) (r : Run World Input Failure Label η RoutineTask) (t : Nat) :
    Prop where
  succeeded : ∀ i < a.count, ∀ result, r.Ended i t result →
    ∃ row ∈ a.links (r.state t), result = .ok row ∧ row.taskId = a.task i
  positions : (∀ i < a.count, ∃ result, r.Ended i t result) →
    ∃ new, a.links (r.state t) = a.links r.start ++ new ∧
      (new.map (·.taskId)).Perm ((List.range a.count).map a.task) ∧
      (new.map (·.position)).Perm
        ((List.range a.count).map fun (j : Nat) => a.greatest r.start + 1 + (j : Int))

/-- The statement that inserts the row of a request. -/
abbrev insertion : Label := .db .routineTask .create

/-- When a request that ends inserts its row, nothing was inserted since its last read, that of the
greatest position, and its values fit their columns. -/
def Unraced (a : Appends) (r : Run World Input Failure Label η RoutineTask) : Prop :=
  ∀ i t result u v x, r.Ended i t result → r.LastCall i u v → r.CallsAt i v insertion x →
    a.links (r.state v) = a.links (r.state u) ∧
      fitsInt4 (a.greatest (r.state v) + 1) = true ∧
      (a.dto i).targetDurationMinutes.toOption.all fitsInt4 = true

/-! ### What a request does -/

/-- At `v` request `i` inserts a row after the position that was the greatest at `u`. -/
structure Attempt (a : Appends) (r : Run World Input Failure Label η RoutineTask)
    (i u v : Nat) (result : Except Failure RoutineTask) : Prop where
  known : i < a.count
  read : r.LastCall i u v
  inserts : ∃ x, r.CallsAt i v insertion x
  first : ∀ w < v, ∀ x, ¬r.CallsAt i w insertion x
  outcome : ∃ inp,
    (∃ row, addRow (a.spelled i) (a.dto i) (a.greatest (r.state u) + 1) inp (r.state v).db =
      .ok (row, (r.state (v + 1)).db) ∧ result = .ok row) ∨
    ∃ e e', addRow (a.spelled i) (a.dto i) (a.greatest (r.state u) + 1) inp (r.state v).db =
      .error e ∧ a.links (r.state (v + 1)) = a.links (r.state v) ∧ result = .error e'

/-- At `v` a request makes its attempt, or nothing is inserted. -/
def Step (a : Appends) (r : Run World Input Failure Label η RoutineTask) (v : Nat) : Prop :=
  (∃ i u result, a.Attempt r i u v result) ∨
    a.links (r.state (v + 1)) = a.links (r.state v) ∧ ∀ i x, ¬r.CallsAt i v insertion x

structure Traced (a : Appends) (r : Run World Input Failure Label η RoutineTask) (t : Nat) :
    Prop where
  accepted : a.Accepted (r.state t)
  steps : ∀ v < t, a.Step r v

section Requests

variable {a : Appends} {r : Run World Input Failure Label η RoutineTask} {i t : Nat}

/-- So far request `i` has inserted nothing. -/
private def Fresh (r : Run World Input Failure Label η RoutineTask) (i t : Nat) : Prop :=
  ∀ w < t, ∀ x, ¬r.CallsAt i w insertion x

private theorem Fresh.later {u : Nat} (fresh : Fresh r i t) (quiet : r.Quiet i t u) :
    Fresh r i u := by
  intro w hw x
  by_cases before : w < t
  · exact fresh w before x
  · exact quiet.2 w (not_lt.mp before) hw _ x

private theorem Fresh.call {l : Label} {x : Answer Input Failure} (fresh : Fresh r i t)
    (called : r.CallsAt i t l x) (other : l ≠ insertion) : Fresh r i (t + 1) := by
  intro w hw y inserts
  rcases Nat.lt_or_eq_of_le (Nat.le_of_lt_succ hw) with before | rfl
  · exact fresh w before y inserts
  · exact other (called.unique inserts).2.1

private theorem Traced.next (traced : a.Traced r t) (accepted : a.Accepted (r.state (t + 1)))
    (step : a.Step r t) : a.Traced r (t + 1) := by
  refine ⟨accepted, fun v hv => ?_⟩
  rcases Nat.lt_or_eq_of_le (Nat.le_of_lt_succ hv) with before | rfl
  · exact traced.steps v before
  · exact step

/-- A statement that only reads. -/
private theorem tries_read {α : Type} {model : Model} {op : Operation}
    {f : Input → Db → Except Failure α} {Q : Except Failure α → Nat → Prop}
    (runs : a.Runs r) (other : Label.db model op ≠ insertion) (fresh : Fresh r i t)
    (then' : ∀ u inp, r.CallsAt i u (.db model op) (.took inp) → a.Accepted (r.state u) →
      r.state (u + 1) = r.state u → Fresh r i (u + 1) → ∀ w, r.Quiet i (u + 1) w →
        a.Traced r w → Q (f inp (r.state u).db) w) :
    Safe (r.setting i (a.Traced r)) (Promise.read model op f) Q t := by
  apply Safe.call
  rintro u v x quiet traced ⟨called, rfl⟩ - next
  have traced : a.Traced r u := traced
  have called : r.CallsAt i u (.db model op) x := called
  obtain ⟨inp, rfl⟩ := runs.answers i u _ x called
  have same : r.state (u + 1) = r.state u := next
  have step : a.Step r u := by
    refine .inr ⟨by rw [same], fun j y inserts => ?_⟩
    exact other (called.unique inserts).2.1
  refine ⟨traced.next (same ▸ traced.accepted) step, fun w later traced' => ?_⟩
  exact then' u inp called traced.accepted same ((fresh.later quiet).call called other) w later
    traced'

private theorem Accepted.found {w : World} (accepted : a.Accepted w) (i : Nat) :
    ∃ row, w.db.routines.rows.find? (owned a.userId (a.spelled i)) = some row := by
  obtain ⟨row, hrow, id, user⟩ := accepted.routine
  cases hf : w.db.routines.rows.find? (owned a.userId (a.spelled i)) with
  | some row => exact ⟨row, rfl⟩
  | none =>
    have missed := List.find?_eq_none.mp hf row hrow
    exact absurd (by simp [owned, id, user, a.routine i]) missed

private theorem tries_findById (runs : a.Runs r) (fresh : Fresh r i t) :
    Safe (r.setting i (a.Traced r)) (RoutinesService.findById a.userId (a.spelled i))
      (fun result u => (∃ found, result = .ok found) ∧ Fresh r i u) t := by
  unfold RoutinesService.findById
  rw [bind_eq]
  apply Safe.bind
  refine tries_read runs nofun fresh fun u inp _ accepted _ fresh' w later _ => ?_
  obtain ⟨row, found⟩ := accepted.found i
  rw [found]
  intro v quiet _
  exact ⟨⟨_, rfl⟩, (fresh'.later later).later quiet⟩

private theorem Accepted.counted {w : World} (accepted : a.Accepted w) (known : i < a.count) :
    (w.db.tasks.rows.filter fun b => b.id ∈ [(a.dto i).taskId].dedup.map Uuid.ofText &&
      visibleTo a.userId b).length = [(a.dto i).taskId].dedup.length := by
  obtain ⟨row, hrow, id, sees⟩ := accepted.visible i known
  have counts : (w.db.tasks.rows.filter fun b => b.id ∈ [a.task i] &&
      visibleTo a.userId b).length = [a.task i].length := by
    refine Table.length_eq_iff_covers.mpr ⟨List.nodup_singleton _, fun k hk => ?_⟩
    obtain rfl := List.mem_singleton.mp hk
    exact ⟨row, hrow, id, sees⟩
  exact counts

private theorem tries_assertTasksVisible (runs : a.Runs r) (known : i < a.count)
    (fresh : Fresh r i t) :
    Safe (r.setting i (a.Traced r)) (RoutinesService.assertTasksVisible a.userId [(a.dto i).taskId])
      (fun result u => result = .ok () ∧ Fresh r i u) t := by
  unfold RoutinesService.assertTasksVisible
  rw [bind_eq]
  apply Safe.bind
  refine tries_read runs nofun fresh fun u inp _ accepted _ fresh' w later _ => ?_
  dsimp only [onOk]
  rw [accepted.counted known, if_neg (not_not.mpr rfl)]
  intro v quiet _
  exact ⟨rfl, (fresh'.later later).later quiet⟩

/-- What a request knows of the greatest position. -/
private def Reads (a : Appends) (r : Run World Input Failure Label η RoutineTask) (i : Nat)
    (position : Int) (t : Nat) : Prop :=
  ∃ u < t, (∃ l x, r.CallsAt i u l x) ∧ r.Quiet i (u + 1) t ∧
    position = a.greatest (r.state u) + 1

private theorem tries_nextPosition (runs : a.Runs r) (fresh : Fresh r i t) :
    Safe (r.setting i (a.Traced r)) (RoutinesService.nextPosition (a.spelled i))
      (fun result u => (∃ position, result = .ok position ∧ Reads a r i position u) ∧
        Fresh r i u) t := by
  unfold RoutinesService.nextPosition
  simp only [bind_eq, pure_eq]
  apply Safe.bind
  refine tries_read runs nofun fresh fun u inp called _ _ fresh' w later _ => ?_
  intro v quiet _
  have after := Run.Quiet.trans later quiet
  refine ⟨⟨_, rfl, u, after.1, ⟨_, _, called⟩, after, ?_⟩, fresh'.later after⟩
  rw [RoutinesService.head_lastPositionFirst]
  unfold greatest greatestPosition
  rw [a.routine i, Uuid.ofText_text]

private theorem Accepted.of_insertRoutineTask {w w' : World} {row : RoutineTask}
    (accepted : a.Accepted w) (inserted : w.db.insertRoutineTask row = .ok w'.db) :
    a.Accepted w' := by
  obtain ⟨routineTasks, same, -⟩ := Db.insertRoutineTask_ok inserted
  have routines : w'.db.routines = w.db.routines := by rw [same]
  have tasks : w'.db.tasks = w.db.tasks := by rw [same]
  constructor
  · rw [routines]
    exact accepted.routine
  · rw [tasks]
    exact accepted.visible

/-- The insertion succeeds, or throws a Prisma error and adds nothing. -/
private theorem tries_create (runs : a.Runs r) (known : i < a.count) {position : Int}
    (reads : Reads a r i position t) (fresh : Fresh r i t) {touched : Db → RowSet} :
    Safe (r.setting i (a.Traced r))
      (Promise.write .routineTask .create touched (addRow (a.spelled i) (a.dto i) position))
      (fun result v => ∃ u w, w < v ∧
        ((∃ row, result = .ok row ∧ a.Attempt r i u w (.ok row)) ∨
          ∃ e, result = .error e ∧ ∀ e', a.Attempt r i u w (.error e'))) t := by
  apply Safe.call
  rintro v v' x quiet traced ⟨called, rfl⟩ - next
  have traced : a.Traced r v := traced
  have called : r.CallsAt i v insertion x := called
  obtain ⟨inp, rfl⟩ := runs.answers i v _ x called
  have fresh := fresh.later quiet
  obtain ⟨u, hu, hcall, hquiet, rfl⟩ := reads
  have read : r.LastCall i u v := ⟨hu.trans_le quiet.1, hcall, Run.Quiet.trans hquiet quiet⟩
  have next : r.state (v + 1) = _ := next
  have state : (r.setting i (a.Traced r)).state v = r.state v := rfl
  simp only [Async.Call.answer_took, state] at next ⊢
  cases tried : addRow (a.spelled i) (a.dto i) (a.greatest (r.state u) + 1) inp (r.state v).db with
  | error e =>
    simp only [tried] at next ⊢
    have attempt : ∀ e', a.Attempt r i u v (.error e') := fun e' =>
      ⟨known, read, ⟨_, called⟩, fresh, inp, .inr ⟨e, e', tried, by rw [next], rfl⟩⟩
    refine ⟨traced.next (next ▸ traced.accepted) (.inl ⟨i, u, _, attempt e⟩), fun w later _ => ?_⟩
    exact ⟨u, v, later.1, .inr ⟨e, rfl, attempt⟩⟩
  | ok result =>
    obtain ⟨row, db⟩ := result
    simp only [tried] at next ⊢
    have rows : (r.state (v + 1)).db = db := by rw [next]
    have attempt : a.Attempt r i u v (.ok row) :=
      ⟨known, read, ⟨_, called⟩, fresh, inp, .inl ⟨row, rows ▸ tried, rfl⟩⟩
    have accepted := traced.accepted.of_insertRoutineTask (rows ▸ (addRow_ok tried).2)
    refine ⟨traced.next accepted (.inl ⟨i, u, _, attempt⟩), fun w later _ => ?_⟩
    exact ⟨u, v, later.1, .inl ⟨row, rfl, attempt⟩⟩

private theorem tries_addTask (runs : a.Runs r) (known : i < a.count) (fresh : Fresh r i t) :
    Safe (r.setting i (a.Traced r)) (addTask a.userId (a.spelled i) (a.dto i))
      (fun result v => ∃ u w, w < v ∧ a.Attempt r i u w result) t := by
  unfold addTask
  simp only [bind_eq, pure_eq, throw_eq, tryCatch_eq]
  apply Safe.bind
  refine (tries_findById runs fresh).weaken fun result u _ h => ?_
  obtain ⟨⟨found, rfl⟩, fresh⟩ := h
  dsimp only [onOk]
  apply Safe.bind
  refine (tries_assertTasksVisible runs known fresh).weaken fun result u _ h => ?_
  obtain ⟨rfl, fresh⟩ := h
  dsimp only [onOk]
  cases hp : (a.dto i).position with
  | value position => exact absurd hp (a.unplaced i position)
  | absent | null =>
    apply Safe.bind
    refine (tries_nextPosition runs fresh).weaken fun result u _ h => ?_
    obtain ⟨⟨position, rfl, reads⟩, fresh⟩ := h
    dsimp only [onOk]
    apply Safe.handle
    refine (tries_create runs known reads fresh).weaken fun result v _ h => ?_
    obtain ⟨u, w, hw, ⟨row, rfl, attempt⟩ | ⟨e, rfl, attempt⟩⟩ := h
    · exact ⟨u, w, hw, attempt⟩
    · dsimp only [onOk]
      split <;> exact fun z later _ => ⟨u, w, hw.trans_le later.1, attempt _⟩

/-- In any run every step is an attempt or inserts nothing, and what a request ends with is the
outcome of its attempt. -/
private theorem traced (runs : a.Runs r) (t : Nat) : a.Traced r t ∧
    ∀ i result, r.Ended i t result → ∃ u w, w < t ∧ a.Attempt r i u w result := by
  have all : ∀ t, a.Traced r t ∧ ∀ i m, r.slot i t = some m → Safe (r.setting i (a.Traced r)) m
      (fun result v => ∃ u w, w < v ∧ a.Attempt r i u w result) t := by
    refine Run.safe ⟨runs.accepted, nofun⟩ ?_ ?_ ?_
    · intro t traced same quiet
      exact traced.next (same ▸ traced.accepted) (.inr ⟨by rw [same], fun i => quiet i insertion⟩)
    · intro t act traced acts next
      obtain ⟨links, accepted⟩ := runs.outside t act acts traced.accepted
      refine traced.next (next ▸ accepted) (.inr ⟨next ▸ links, fun i x called => ?_⟩)
      have other := called.schedule.symm.trans acts
      cases other
    · intro i t begins _ _
      have known := runs.begins i t begins.1
      rw [runs.requests i known]
      refine tries_addTask runs known fun w hw x => ?_
      by_cases before : w ≤ t
      · exact Run.not_callsAt_of_slot begins.2 w before _ x
      · omega
  exact ⟨(all t).1, fun i result ended => ended.post (all t).1 ((all t).2 i)⟩

/-! ### Where the rows stand -/

/-- The greatest position of a list of links. -/
private def top (links : List RoutineTask) : Int := ((links.map (·.position)).max?).getD 0

private theorem greatest_eq (a : Appends) (w : World) : a.greatest w = top (a.links w) := by
  unfold greatest greatestPosition top links
  rw [Uuid.ofText_text]

private theorem le_top {links : List RoutineTask} {b : RoutineTask} (there : b ∈ links) :
    b.position ≤ top links := by
  have mem : b.position ∈ links.map (·.position) := List.mem_map_of_mem there
  unfold top
  cases hm : (links.map (·.position)).max? with
  | none =>
    rw [List.max?_eq_none_iff.mp hm] at mem
    exact absurd mem List.not_mem_nil
  | some p => exact (List.max?_eq_some_iff.mp hm).2 _ mem

/-- A row right after the greatest position has the greatest. -/
private theorem top_append {links : List RoutineTask} {b : RoutineTask}
    (next : b.position = top links + 1) : top (links ++ [b]) = b.position := by
  have greatest : ((links ++ [b]).map (·.position)).max? = some b.position := by
    refine List.max?_eq_some_iff.mpr ⟨by simp, fun p hp => ?_⟩
    obtain ⟨c, hc, rfl⟩ := List.mem_map.mp hp
    rcases List.mem_append.mp hc with hc | hc
    · have := le_top hc
      omega
    · rw [List.mem_singleton.mp hc]
  unfold top
  rw [greatest]
  rfl

private theorem addRow_fits {routineId : String} {dto : AddRoutineTaskDto} {position : Int}
    {inp : Input} {db : Db} {saved : RoutineTask × Db}
    (h : addRow routineId dto position inp db = .ok saved) :
    fitsInt4 position = true ∧ dto.targetDurationMinutes.toOption.all fitsInt4 = true := by
  unfold addRow at h
  simp only at h
  split at h
  · next fits => exact Bool.and_eq_true_iff.mp fits
  · cases h

private theorem Attempt.added {u v : Nat} {row : RoutineTask}
    (attempt : a.Attempt r i u v (.ok row)) :
    a.links (r.state (v + 1)) = a.links (r.state v) ++ [row] ∧ row.taskId = a.task i ∧
      row.position = a.greatest (r.state u) + 1 ∧
      (∀ b ∈ a.links (r.state v), b.position ≠ row.position) ∧
      fitsInt4 row.position = true ∧
      (a.dto i).targetDurationMinutes.toOption.all fitsInt4 = true := by
  obtain ⟨inp, ⟨row', saved, same⟩ | ⟨e, e', -, -, same⟩⟩ := attempt.outcome
  · cases same
    obtain ⟨hrow, inserted⟩ := addRow_ok saved
    have free := Db.insertRoutineTask_free inserted
    obtain ⟨routineTasks, db, rows, -⟩ := Db.insertRoutineTask_ok inserted
    have own : row.routineId = a.routineId := by
      rw [hrow]
      exact a.routine i
    have position : row.position = a.greatest (r.state u) + 1 := by rw [hrow]
    refine ⟨?_, by rw [hrow]; rfl, position, ?_, ?_⟩
    · unfold links Db.tasksOfRoutine
      rw [db]
      dsimp only
      rw [rows, List.filter_append]
      simp [own]
    · intro b hb
      obtain ⟨hb, hown⟩ := List.mem_filter.mp hb
      exact free b hb ((by simpa using hown : b.routineId = a.routineId).trans own.symm)
    · rw [position]
      exact addRow_fits saved
  · cases same

/-- The new rows, in the order of their insertion, stand one after the other. -/
private structure Numbered (a : Appends) (r : Run World Input Failure Label η RoutineTask)
    (t : Nat) (new : List RoutineTask) : Prop where
  links : a.links (r.state t) = a.links r.start ++ new
  positions : new.map (·.position) =
    (List.range new.length).map fun (j : Nat) => a.greatest r.start + 1 + (j : Int)
  greatest : a.greatest (r.state t) = a.greatest r.start + new.length
  origin : ∀ b ∈ new, ∃ i u v, v < t ∧ a.Attempt r i u v (.ok b)

private theorem Numbered.same {new : List RoutineTask} (numbered : Numbered a r t new)
    (same : a.links (r.state (t + 1)) = a.links (r.state t)) : Numbered a r (t + 1) new := by
  refine ⟨same.trans numbered.links, numbered.positions, ?_, fun b hb => ?_⟩
  · rw [greatest_eq, same, ← greatest_eq]
    exact numbered.greatest
  · obtain ⟨i, u, v, hv, attempt⟩ := numbered.origin b hb
    exact ⟨i, u, v, by omega, attempt⟩

private theorem Numbered.append {new : List RoutineTask} {u : Nat} {row : RoutineTask}
    (numbered : Numbered a r t new) (attempt : a.Attempt r i u t (.ok row))
    (next : row.position = a.greatest (r.state t) + 1) : Numbered a r (t + 1) (new ++ [row]) := by
  obtain ⟨links, -⟩ := attempt.added
  refine ⟨?_, ?_, ?_, fun b hb => ?_⟩
  · rw [links, numbered.links, List.append_assoc]
  · rw [List.map_append, numbered.positions, List.length_append, List.length_singleton,
      List.range_succ, List.map_append, List.map_singleton, List.map_singleton, next,
      numbered.greatest]
    congr 2
    omega
  · rw [greatest_eq, links, top_append (by rw [next, greatest_eq]), next, numbered.greatest,
      List.length_append, List.length_singleton]
    push_cast
    omega
  · rcases List.mem_append.mp hb with hb | hb
    · obtain ⟨i, u, v, hv, attempt⟩ := numbered.origin b hb
      exact ⟨i, u, v, by omega, attempt⟩
    · rw [List.mem_singleton.mp hb]
      exact ⟨i, u, t, Nat.lt_succ_self t, attempt⟩

/-- A row that is inserted stands right after the greatest position of that moment, for every
position up to there is taken: nothing was inserted since its request read. -/
private theorem Attempt.next {u v : Nat} {row : RoutineTask} {newU newV : List RoutineTask}
    (attempt : a.Attempt r i u v (.ok row)) (hu : Numbered a r u newU) (hv : Numbered a r v newV)
    (earlier : newU <+: newV) : newU = newV := by
  obtain ⟨-, -, position, free, -⟩ := attempt.added
  apply earlier.eq_of_length_le
  by_contra fewer
  have taken : row.position ∈ newV.map (·.position) := by
    rw [hv.positions, position, hu.greatest]
    refine List.mem_map.mpr ⟨newU.length, List.mem_range.mpr (not_le.mp fewer), ?_⟩
    omega
  obtain ⟨b, hb, same⟩ := List.mem_map.mp taken
  refine free b ?_ same
  rw [hv.links]
  exact List.mem_append_right _ hb

private theorem numbered (steps : ∀ v, a.Step r v) (t : Nat) :
    ∃ new, Numbered a r t new ∧ ∀ u ≤ t, ∃ old, Numbered a r u old ∧ old <+: new := by
  induction t with
  | zero =>
    have start : Numbered a r 0 [] := ⟨by simp, rfl, by simp, nofun⟩
    refine ⟨[], start, fun u hu => ⟨[], ?_, List.prefix_rfl⟩⟩
    rwa [Nat.le_zero.mp hu]
  | succ t ih =>
    obtain ⟨new, now, before⟩ := ih
    have extend : ∀ new', Numbered a r (t + 1) new' → new <+: new' →
        ∃ new, Numbered a r (t + 1) new ∧ ∀ u ≤ t + 1, ∃ old, Numbered a r u old ∧ old <+: new := by
      intro new' now' grows
      refine ⟨new', now', fun u hu => ?_⟩
      rcases Nat.lt_or_eq_of_le hu with hu | rfl
      · obtain ⟨old, hold, shorter⟩ := before u (Nat.le_of_lt_succ hu)
        exact ⟨old, hold, shorter.trans grows⟩
      · exact ⟨new', now', List.prefix_rfl⟩
    rcases steps t with ⟨i, u, result, attempt⟩ | ⟨same, -⟩
    · obtain ⟨inp, ⟨row, -, rfl⟩ | ⟨e, e', -, same, -⟩⟩ := attempt.outcome
      · obtain ⟨old, hold, shorter⟩ := before u attempt.read.1.le
        obtain rfl := attempt.next hold now shorter
        obtain ⟨-, -, position, -⟩ := attempt.added
        have next : row.position = a.greatest (r.state t) + 1 := by
          rw [position, hold.greatest, now.greatest]
        exact extend _ (now.append attempt next) (List.prefix_append _ _)
      · exact extend new (now.same same) List.prefix_rfl
    · exact extend new (now.same same) List.prefix_rfl

private theorem Runs.steps (runs : a.Runs r) (v : Nat) : a.Step r v :=
  (traced runs (v + 1)).1.steps v (Nat.lt_succ_self v)

/-- A request makes one attempt. -/
private theorem Attempt.once {u v v' : Nat} {result result' : Except Failure RoutineTask} {u' : Nat}
    (attempt : a.Attempt r i u v result) (attempt' : a.Attempt r i u' v' result') : v = v' := by
  obtain ⟨x, inserts⟩ := attempt.inserts
  obtain ⟨x', inserts'⟩ := attempt'.inserts
  rcases Nat.lt_trichotomy v v' with earlier | same | later
  · exact absurd inserts (attempt'.first v earlier x)
  · exact same
  · exact absurd inserts' (attempt.first v' later x')

/-- An insertion is an attempt. -/
private theorem Runs.attempt (runs : a.Runs r) {v : Nat} {x : Answer Input Failure}
    (inserts : r.CallsAt i v insertion x) : ∃ u result, a.Attempt r i u v result := by
  rcases runs.steps v with ⟨j, u, result, attempt⟩ | ⟨-, none⟩
  · obtain ⟨y, inserts'⟩ := attempt.inserts
    obtain rfl := (inserts.unique inserts').1
    exact ⟨u, result, attempt⟩
  · exact absurd inserts (none i x)

/-- An attempt with values that fit succeeds when nothing was inserted since its request read. -/
private theorem Attempt.succeeds {u v : Nat} {result : Except Failure RoutineTask}
    (attempt : a.Attempt r i u v result) (runs : a.Runs r)
    (unraced : a.links (r.state v) = a.links (r.state u))
    (fits : fitsInt4 (a.greatest (r.state v) + 1) = true ∧
      (a.dto i).targetDurationMinutes.toOption.all fitsInt4 = true) :
    ∃ row, result = .ok row := by
  have known := attempt.known
  obtain ⟨inp, ⟨row, -, same⟩ | ⟨e, e', refused, -, -⟩⟩ := attempt.outcome
  · exact ⟨row, same⟩
  obtain ⟨new, now, -⟩ := numbered runs.steps v
  have accepted := (traced runs v).1.accepted
  obtain ⟨routine, hroutine, id, -⟩ := accepted.routine
  obtain ⟨task, htask, taskId, -⟩ := accepted.visible i known
  have free : ∀ b ∈ (r.state v).db.routineTasks.rows, b.routineId = .ofText (a.spelled i) →
      b.position ≠ a.greatest (r.state v) + 1 ∧ b.taskId ≠ a.task i := by
    intro b hb own
    have there : b ∈ a.links (r.state v) :=
      List.mem_filter.mpr ⟨hb, decide_eq_true (own.trans (a.routine i))⟩
    constructor
    · have below := le_top there
      rw [greatest_eq]
      omega
    · intro same
      rw [now.links] at there
      rcases List.mem_append.mp there with there | there
      · exact runs.unassigned i known b there same
      · obtain ⟨j, u', v', hv', earlier⟩ := now.origin b there
        have own := a.different j i earlier.known known (earlier.added.2.1.symm.trans same)
        subst own
        have := earlier.once attempt
        omega
  have read : a.greatest (r.state u) = a.greatest (r.state v) := by
    rw [greatest_eq, greatest_eq, unraced]
  rw [read] at refused
  obtain ⟨saved, added⟩ := addRow_free (i := inp) fits
    (Table.has_iff.mpr ⟨routine, hroutine, id.trans (a.routine i).symm⟩)
    (Table.has_iff.mpr ⟨task, htask, taskId⟩) free
  rw [added] at refused
  cases refused

/-- The row of an attempt that succeeded is there ever after. -/
private theorem Attempt.stays {u v : Nat} {row : RoutineTask} (attempt : a.Attempt r i u v (.ok row))
    (runs : a.Runs r) (later : v < t) : row ∈ a.links (r.state t) := by
  obtain ⟨new, now, before⟩ := numbered runs.steps t
  obtain ⟨old, hold, shorter⟩ := before (v + 1) later
  have there : row ∈ a.links (r.state (v + 1)) := by
    rw [attempt.added.1]
    simp
  rw [hold.links] at there
  rw [now.links]
  rcases List.mem_append.mp there with there | there
  · exact List.mem_append_left _ there
  · exact List.mem_append_right _ (shorter.subset there)

/-- When all requests have succeeded, each task has one of the new rows. -/
private theorem tasks_perm (runs : a.Runs r) {new : List RoutineTask} (now : Numbered a r t new)
    (there : ∀ i < a.count, ∃ row ∈ a.links (r.state t), row.taskId = a.task i) :
    (new.map (·.taskId)).Perm ((List.range a.count).map a.task) := by
  have keys : ((a.links (r.state t)).map (·.taskId)).Nodup := by
    refine List.Nodup.map_on ?_ ((r.state t).db.routineTasks.nodup.filter _)
    intro b hb c hc same
    obtain ⟨hb, ownB⟩ := List.mem_filter.mp hb
    obtain ⟨hc, ownC⟩ := List.mem_filter.mp hc
    rw [decide_eq_true_iff] at ownB ownC
    exact Table.eq_of_key hb hc (Prod.ext (ownB.trans ownC.symm) same)
  have nodup : (new.map (·.taskId)).Nodup := by
    rw [now.links, List.map_append] at keys
    exact (List.nodup_append.mp keys).2.1
  have different : ((List.range a.count).map a.task).Nodup := by
    refine List.Nodup.map_on ?_ List.nodup_range
    intro i hi j hj same
    exact a.different i j (List.mem_range.mp hi) (List.mem_range.mp hj) same
  refine (List.perm_ext_iff_of_nodup nodup different).mpr fun id => ?_
  constructor
  · intro hid
    obtain ⟨b, hb, rfl⟩ := List.mem_map.mp hid
    obtain ⟨i, u, v, -, attempt⟩ := now.origin b hb
    exact List.mem_map.mpr ⟨i, List.mem_range.mpr attempt.known, attempt.added.2.1.symm⟩
  · intro hid
    obtain ⟨i, hi, rfl⟩ := List.mem_map.mp hid
    obtain ⟨row, hrow, same⟩ := there i (List.mem_range.mp hi)
    rw [now.links] at hrow
    rcases List.mem_append.mp hrow with old | hrow
    · exact absurd same (runs.unassigned i (List.mem_range.mp hi) row old)
    · exact List.mem_map.mpr ⟨row, hrow, same⟩

private theorem appended_of_unraced (runs : a.Runs r) (unraced : a.Unraced r) (t : Nat) :
    a.Appended r t := by
  have succeeded : ∀ i < a.count, ∀ result, r.Ended i t result →
      ∃ row ∈ a.links (r.state t), result = .ok row ∧ row.taskId = a.task i := by
    intro i _ result ended
    obtain ⟨u, v, hv, attempt⟩ := (traced runs t).2 i result ended
    obtain ⟨x, inserts⟩ := attempt.inserts
    obtain ⟨same, fits⟩ := unraced i t result u v x ended attempt.read inserts
    obtain ⟨row, rfl⟩ := attempt.succeeds runs same fits
    exact ⟨row, attempt.stays runs hv, rfl, attempt.added.2.1⟩
  refine ⟨succeeded, fun all => ?_⟩
  obtain ⟨new, now, -⟩ := numbered runs.steps t
  have tasks := tasks_perm runs now fun i hi => by
    obtain ⟨result, ended⟩ := all i hi
    obtain ⟨row, hrow, -, same⟩ := succeeded i hi result ended
    exact ⟨row, hrow, same⟩
  have length : new.length = a.count := by simpa using tasks.length_eq
  refine ⟨new, now.links, tasks, ?_⟩
  rw [now.positions, length]

private theorem unraced_of_appended (runs : a.Runs r) (appended : ∀ t, a.Appended r t) :
    a.Unraced r := by
  intro i t result u v x ended read inserts
  obtain ⟨u', w, -, attempt⟩ := (traced runs t).2 i result ended
  obtain ⟨_, _, attempt'⟩ := runs.attempt inserts
  obtain rfl := attempt'.once attempt
  obtain rfl := read.unique attempt.read
  obtain ⟨row, -, rfl, -⟩ := (appended t).succeeded i attempt.known result ended
  obtain ⟨-, -, position, -, fits⟩ := attempt.added
  obtain ⟨new, now, before⟩ := numbered runs.steps v
  obtain ⟨old, hold, shorter⟩ := before u read.1.le
  obtain rfl := attempt.next hold now shorter
  refine ⟨now.links.trans hold.links.symm, ?_, fits.2⟩
  rw [now.greatest, ← hold.greatest, ← position]
  exact fits.1

end Requests

/-- Every request succeeds, and the new rows take the next positions, exactly when no request is
overtaken between its reading the greatest position and its insertion. -/
theorem appended_iff {a : Appends} {r : Run World Input Failure Label η RoutineTask}
    (runs : a.Runs r) : (∀ t, a.Appended r t) ↔ a.Unraced r :=
  ⟨unraced_of_appended runs, appended_of_unraced runs⟩


section Sample

private def strumming (id : Uuid) : Task :=
  ⟨id, "Strumming", none, none, none, none, some alice, 0, 0⟩

/-- A routine without tasks, and two tasks to append. -/
private def evening : World :=
  { World.signedUp with
    db := { World.signedUp.db with
      tasks := ⟨[strumming firstId, strumming secondId], by decide⟩
      routines := ⟨[⟨thirdId, alice, "Evening", .active, none, 0, 0⟩], by decide⟩ } }

private def pair : Appends where
  userId := alice
  routineId := thirdId
  count := 2
  spelled _ := thirdId.text
  dto i := ⟨(if i = 0 then firstId else secondId).text, .absent, .absent⟩
  routine _ := Uuid.ofText_text thirdId
  unplaced _ _ := nofun
  different i j hi hj same := by
    rw [Uuid.ofText_text, Uuid.ofText_text] at same
    interval_cases i <;> interval_cases j
    · rfl
    · exact absurd same (by decide)
    · exact absurd same (by decide)
    · rfl

/-- The two requests begin, and make their calls in some order. -/
private def pairRun (turn : Nat → Nat) : Run World Input Failure Label Empty RoutineTask where
  requests i := addTask alice thirdId.text (pair.dto i)
  outside := nofun
  start := evening
  schedule
    | 0 => .begin 0
    | 1 => .begin 1
    | t + 2 => .advance (turn t) (.took (.of bob 0))

private theorem pairRun_runs (turn : Nat → Nat) : pair.Runs (pairRun turn) where
  requests _ _ := rfl
  begins i t begins := by
    rcases t with _ | _ | t
    · cases begins
      decide
    · cases begins
      decide
    · cases begins
  accepted := by
    refine ⟨⟨_, List.mem_singleton_self _, rfl, rfl⟩, fun i hi => ?_⟩
    have hi : i < 2 := hi
    interval_cases i
    · exact ⟨strumming firstId, List.mem_cons_self, by decide +kernel, by decide⟩
    · exact ⟨strumming secondId, by simp [pairRun, evening], by decide +kernel, by decide⟩
  unassigned _ _ _ := nofun
  answers i t l x called := by
    have scheduled := called.schedule
    rcases t with _ | _ | t
    · cases scheduled
    · cases scheduled
    · cases scheduled
      exact ⟨_, rfl⟩
  outside _ act := nomatch act

/-- One request after the other. -/
theorem appended_iff_inTurn :
    (∀ t, pair.Appended (pairRun (· / 4)) t) ↔ pair.Unraced (pairRun (· / 4)) :=
  appended_iff (pairRun_runs _)

/-- Both requests read before either inserts: the second is told that its position is taken. -/
theorem appends_race :
    ¬∀ (a : Appends) (r : Run World Input Failure Label Empty RoutineTask), a.Runs r →
      ∀ t, a.Appended r t := by
  intro claim
  have appended := claim pair (pairRun (· % 2)) (pairRun_runs _) 10
  obtain ⟨result, refused, ended⟩ : ∃ result, result.toOption.isNone = true ∧
      (pairRun (· % 2)).Ended 1 10 result :=
    Run.ended_of_passes (by decide +kernel)
  obtain ⟨row, -, rfl, -⟩ := appended.succeeded 1 (by decide) result ended
  cases refused

end Sample

end Appends

end GuitarCoach
