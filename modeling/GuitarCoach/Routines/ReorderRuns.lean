/- digest: Reorders among concurrent edits of the same rows: all or nothing. -/

import GuitarCoach.Routines.Positions

/-!
Any number of requests that edit the tasks of routines run at once. A reorder checks the set
of its tasks long before its transaction, so the rows it updates may have come, gone or moved
meanwhile, and its lock may have expired.
-/

set_option autoImplicit false
set_option relaxedAutoImplicit false

namespace GuitarCoach

open Async (Answer Cue Guarantees Run)
open Async.Method (pure_eq throw_eq bind_eq tryCatch_eq)
open Relational (Table orderBy mem_orderBy)

/-- `@Min(1)` on an optional property. -/
def Field.MinOne (f : Field Int) : Prop := ∀ n, f = .value n → 1 ≤ n

/-- A request that edits the tasks of a routine, with the positions its DTO lets through. -/
inductive EditRequest
  | addTask (userId : Uuid) (routineId : String) (dto : AddRoutineTaskDto)
      (min : dto.position.MinOne)
  | updateTask (userId : Uuid) (routineId taskId : String) (dto : UpdateRoutineTaskDto)
      (min : dto.position.MinOne)
  | removeTask (userId : Uuid) (routineId taskId : String)
  | reorderTasks (userId : Uuid) (routineId : String) (taskIds : List String)

def EditRequest.run : EditRequest → Promise Unit
  | .addTask userId routineId dto _ => do
    let _ ← RoutinesService.addTask userId routineId dto
  | .updateTask userId routineId taskId dto _ => do
    let _ ← RoutinesService.updateTask userId routineId taskId dto
  | .removeTask userId routineId taskId => RoutinesService.removeTask userId routineId taskId
  | .reorderTasks userId routineId taskIds => do
    let _ ← RoutinesService.reorderTasks userId routineId taskIds

namespace Db

/-- No two tasks of a routine are at one position. -/
def Distinct (db : Db) : Prop :=
  ∀ a ∈ db.routineTasks.rows, ∀ b ∈ db.routineTasks.rows,
    a.routineId = b.routineId → a.position = b.position → a = b

/-- The positions within a routine are pairwise distinct and at least 1. -/
structure Positioned (db : Db) : Prop where
  distinct : db.Distinct
  positive : ∀ a ∈ db.routineTasks.rows, 1 ≤ a.position

/-- The tasks of this list are at `1..n` in its order, and all others of the routine after. -/
structure InOrder (routineId : String) (taskIds : List String) (db : Db) : Prop where
  requested : ∀ j, ∀ h : j < taskIds.length, ∃ a ∈ db.tasksOfRoutine (.ofText routineId),
    a.taskId.text = taskIds[j] ∧ a.position = (j + 1 : Int)
  others : ∀ a ∈ db.tasksOfRoutine (.ofText routineId), a.taskId.text ∉ taskIds →
    (taskIds.length : Int) < a.position

end Db

namespace RoutinesService

/-- The reorder's transaction commits: no update of it is refused. -/
def Commits (routineId : String) (taskIds : List String) (l : Label) (x : Answer Input Failure)
    (before after : Db) : Prop :=
  l = .db .routineTask .transaction ∧
    ∃ i, x = .took i ∧ reorderRows routineId taskIds i before = .ok after

/-- A call of a reorder is the transaction that commits and puts the tasks in order, or it
changes no row. -/
def AllOrNothing (routineId : String) (taskIds : List String) (l : Label)
    (x : Answer Input Failure) (before after : Db) : Prop :=
  Commits routineId taskIds l x before after ∧ after.InOrder routineId taskIds ∨
    (∀ db, ¬Commits routineId taskIds l x before db) ∧ after = before

end RoutinesService

/-- What is promised of a call of a request. -/
def EditRequest.Event : EditRequest → Label → Answer Input Failure → World → World → Prop
  | .reorderTasks _ routineId taskIds, l, x, w, v =>
      RoutinesService.AllOrNothing routineId taskIds l x w.db v.db
  | _, _, _, _, _ => True

/-! ### What each statement keeps -/

section Statements

variable {db db' : Db} {routineId taskId : String} {i : Input} {row : RoutineTask}

theorem Db.Positioned.fewer (placed : db.Positioned)
    (rows : db'.routineTasks.rows ⊆ db.routineTasks.rows) : db'.Positioned where
  distinct a ha b hb := placed.distinct a (rows ha) b (rows hb)
  positive a ha := placed.positive a (rows ha)

theorem Db.insertRoutineTask_free (h : db.insertRoutineTask row = .ok db') :
    ∀ b ∈ db.routineTasks.rows, b.routineId = row.routineId → b.position ≠ row.position := by
  intro b hb own same
  unfold insertRoutineTask at h
  rw [if_pos (List.any_eq_true.mpr ⟨b, hb, by simp [own, same]⟩)] at h
  cases h

namespace RoutinesService

/-- A task is added at a position of its own. -/
theorem addRow_positioned {dto : AddRoutineTaskDto} {position : Int} (placed : db.Positioned)
    (h : addRow routineId dto position i db = .ok (row, db')) (min : 1 ≤ position) :
    db'.Positioned := by
  obtain ⟨hrow, inserted⟩ := addRow_ok h
  have free := Db.insertRoutineTask_free inserted
  obtain ⟨routineTasks, rfl, rows, -, -, -⟩ := Db.insertRoutineTask_ok inserted
  have at_position : row.position = position := by rw [hrow]
  have mem : ∀ b, b ∈ routineTasks.rows ↔ b ∈ db.routineTasks.rows ∨ b = row := by
    intro b
    rw [rows, List.mem_append, List.mem_singleton]
  constructor
  · intro b hb c hc own same
    rcases (mem b).mp hb with hb | rfl <;> rcases (mem c).mp hc with hc | rfl
    · exact placed.distinct b hb c hc own same
    · exact absurd same (free b hb own)
    · exact absurd same.symm (free c hc own.symm)
    · rfl
  · intro b hb
    rcases (mem b).mp hb with hb | rfl
    · exact placed.positive b hb
    · omega

/-- An update of one row never gives it the position of another. -/
theorem updateRow_distinct {dto : UpdateRoutineTaskDto} (distinct : db.Distinct)
    (h : updateRow routineId taskId dto i db = .ok (row, db')) : db'.Distinct := by
  obtain ⟨old, hold, -, hrow, free, rows, -⟩ := updateRow_ok h
  have moved : ∀ a ∈ db.routineTasks.rows, a.key = old.key →
      (if a.key = old.key then dto.apply i.now a else a) = row := by
    intro a ha same
    rw [if_pos same, Table.eq_of_key ha hold same, hrow]
  have own : row.routineId = old.routineId := by
    rw [hrow]
    rfl
  intro a' ha' b' hb' same taken
  rw [rows] at ha' hb'
  obtain ⟨a, ha, rfl⟩ := List.mem_map.mp ha'
  obtain ⟨b, hb, rfl⟩ := List.mem_map.mp hb'
  by_cases hka : a.key = old.key <;> by_cases hkb : b.key = old.key
  · rw [moved a ha hka, moved b hb hkb]
  · rw [moved a ha hka, if_neg hkb] at same taken
    exact absurd taken.symm (free b hb hkb (same.symm.trans own))
  · rw [moved b hb hkb, if_neg hka] at same taken
    exact absurd taken (free a ha hka (same.trans own))
  · rw [if_neg hka, if_neg hkb] at same taken ⊢
    exact distinct a ha b hb same taken

theorem updateRow_positioned {dto : UpdateRoutineTaskDto} (min : dto.position.MinOne)
    (placed : db.Positioned) (h : updateRow routineId taskId dto i db = .ok (row, db')) :
    db'.Positioned := by
  refine ⟨updateRow_distinct placed.distinct h, fun a' ha' => ?_⟩
  obtain ⟨old, hold, -, hrow, -, rows, -⟩ := updateRow_ok h
  rw [rows] at ha'
  obtain ⟨a, ha, rfl⟩ := List.mem_map.mp ha'
  have positive := placed.positive a ha
  split
  · show 1 ≤ (dto.position.update (some a.position)).getD a.position
    cases hp : dto.position with
    | absent => exact positive
    | null => exact positive
    | value p => exact min p hp
  · exact positive

theorem removeTaskRow_positioned (placed : db.Positioned)
    (h : removeTaskRow routineId taskId db = .ok db') : db'.Positioned := by
  unfold removeTaskRow at h
  dsimp only at h
  split at h
  · obtain ⟨rfl, -⟩ := Db.delete_ok h
    exact placed.fewer fun a ha => (Table.mem_deleteWhere.mp ha).1
  · cases h

/-- Updates that all succeed have found their rows. -/
theorem runMoves_assigned {moves : List (String × Int)}
    (h : runMoves routineId i moves db = .ok db') :
    ∀ move ∈ moves, ∃ a ∈ db.routineTasks.rows,
      a.key = (.ofText routineId, .ofText move.1) := by
  induction moves generalizing db with
  | nil => simp
  | cons move moves ih =>
    obtain ⟨middle, first, rest⟩ := bind_eq_ok h
    obtain ⟨⟨row, updated⟩, hmove, done⟩ := bind_eq_ok first
    cases done
    obtain ⟨old, hold, hkey, -, -, rows, -⟩ := updateRow_ok hmove
    intro m hm
    rcases List.mem_cons.mp hm with rfl | hm
    · exact ⟨old, hold, hkey⟩
    · obtain ⟨a', ha', hkey'⟩ := ih rest m hm
      rw [rows] at ha'
      obtain ⟨a, ha, rfl⟩ := List.mem_map.mp ha'
      refine ⟨a, ha, ?_⟩
      rw [← hkey']
      split <;> rfl

theorem runMoves_distinct {moves : List (String × Int)}
    (h : runMoves routineId i moves db = .ok db') (distinct : db.Distinct) : db'.Distinct := by
  refine foldlM_keeps (R := fun a b => a.Distinct → b.Distinct) (fun _ h => h)
    (fun first second h => second (first h)) (fun move _ a b hstep hdistinct => ?_) h distinct
  obtain ⟨⟨row, updated⟩, hmove, done⟩ := bind_eq_ok hstep
  cases done
  exact updateRow_distinct hdistinct hmove

/-- A reorder that runs through puts its tasks to `1..n`, whatever else the routine holds. -/
theorem reorderRows_positioned {ids : List Uuid} (nodup : ids.Nodup) (placed : db.Positioned)
    (h : reorderRows routineId (ids.map (·.text)) i db = .ok db') :
    db'.Positioned ∧ db'.InOrder routineId (ids.map (·.text)) := by
  rw [reorderRows_eq] at h
  have distinct := runMoves_distinct h placed.distinct
  have assigned := runMoves_assigned h
  obtain rfl := runMoves_ok h
  have positive : ∀ a ∈ (db.placed (.ofText routineId)
      (placement (reorderUpdates (ids.map (·.text)))) i.now).routineTasks.rows,
      1 ≤ a.position := by
    intro a' ha'
    obtain ⟨a, ha, rfl⟩ := List.mem_map.mp ha'
    have before := placed.positive a ha
    by_cases own : a.routineId = .ofText routineId
    · rw [if_pos rfl, RoutineTask.position_placed own]
      by_cases hid : a.taskId ∈ ids
      · obtain ⟨j, hj, hget⟩ := List.getElem_of_mem hid
        rw [← hget, placement_reorder nodup hj, Option.getD_some]
        omega
      · rw [placement_reorder_other hid, Option.getD_none]
        exact before
    · rw [if_pos rfl, RoutineTask.placed_other own]
      exact before
  have requested : ∀ j, ∀ h : j < ids.length, ∃ a ∈ (db.placed (.ofText routineId)
      (placement (reorderUpdates (ids.map (·.text)))) i.now).tasksOfRoutine (.ofText routineId),
      a.taskId = ids[j] ∧ a.position = (j + 1 : Int) := by
    intro j hj
    have update := List.mem_append_right (toPlaceholders (ids.map (·.text)))
      (mem_toPlaces.mpr ⟨j, hj, rfl⟩)
    obtain ⟨a, ha, hkey⟩ := assigned _ update
    rw [Uuid.ofText_text] at hkey
    have own : a.routineId = .ofText routineId := congrArg Prod.fst hkey
    have task : a.taskId = ids[j] := congrArg Prod.snd hkey
    rw [Db.tasksOfRoutine_placed]
    refine ⟨_, List.mem_map_of_mem (List.mem_filter.mpr ⟨ha, by simpa using own⟩), ?_, ?_⟩
    · rw [RoutineTask.taskId_placed]
      exact task
    · rw [RoutineTask.position_placed own, task, placement_reorder nodup hj]
      rfl
  refine ⟨⟨distinct, positive⟩, ?_, ?_⟩
  · intro j hj
    rw [List.length_map] at hj
    obtain ⟨a, ha, task, position⟩ := requested j hj
    exact ⟨a, ha, by rw [task, List.getElem_map], position⟩
  · intro a ha other
    rw [List.length_map]
    by_contra small
    -- the position is one of `1..n`, and a requested task holds each of these
    obtain ⟨hrow, own⟩ := List.mem_filter.mp ha
    have least := positive a hrow
    obtain ⟨j, hj⟩ := Int.eq_ofNat_of_zero_le (show 0 ≤ a.position - 1 by omega)
    have bound : j < ids.length := by omega
    obtain ⟨b, hb, task, position⟩ := requested j bound
    obtain ⟨hrow', own'⟩ := List.mem_filter.mp hb
    simp only [decide_eq_true_eq] at own own'
    have same : a = b := distinct a hrow b hrow' (own.trans own'.symm) (by omega)
    apply other
    rw [same, task]
    exact List.mem_map_of_mem (List.getElem_mem bound)

end RoutinesService

end Statements

/-! ### What each request guarantees -/

namespace RoutinesService

section Methods

variable {event : Label → Answer Input Failure → World → World → Prop} {userId : Uuid}
  {routineId taskId : String}

private abbrev positions : World → Prop := fun w => w.db.Positioned

/-- Of the calls of an edit other than a reorder nothing more is promised. -/
private abbrev anyEvent : Label → Answer Input Failure → World → World → Prop :=
  fun _ _ _ _ => True

private theorem findById_guarantees
    (seen : ∀ x w, w.db.Positioned → event (.db .routine .findFirst) x w w) :
    Guarantees positions event (findById userId routineId) fun _ => True := by
  unfold findById
  rw [bind_eq]
  have first : Guarantees positions event (Promise.read .routine .findFirst fun _ db =>
      .ok ((db.routines.rows.find? (owned userId routineId)).map (toRoutineResponse db)))
      fun _ => True :=
    Promise.guarantees_read seen (fun _ _ _ => trivial) fun _ => trivial
  apply Guarantees.bind first
  · intro routine _
    cases routine with
    | none => trivial
    | some routine => trivial
  · exact fun _ _ => trivial

private theorem nextPosition_guarantees :
    Guarantees positions anyEvent (nextPosition routineId) fun r => ∀ p, r = .ok p → 1 ≤ p := by
  unfold nextPosition
  rw [bind_eq]
  have last : Guarantees positions anyEvent (Promise.read .routineTask .findFirst fun i db =>
      .ok (orderBy i.rank lastPositionFirst (db.tasksOfRoutine (.ofText routineId))).head?)
      fun r => ∀ a, r = .ok (some a) → 1 ≤ a.position := by
    apply Promise.guarantees_read
    · exact fun _ _ _ => trivial
    · intro i w placed a found
      have ha := mem_orderBy.mp (List.mem_of_head? (Except.ok.inj found))
      exact placed.positive a (List.mem_filter.mp ha).1
    · exact fun e a found => nomatch found
  apply Guarantees.bind last
  · intro head positive p hp
    cases hp
    cases head with
    | none => exact le_refl 1
    | some a =>
      have := positive a rfl
      show 1 ≤ a.position + 1
      omega
  · exact fun e _ p hp => nomatch hp

theorem addTask_guarantees {dto : AddRoutineTaskDto} (min : dto.position.MinOne) :
    Guarantees positions anyEvent (addTask userId routineId dto) fun _ => True := by
  unfold addTask
  simp only [bind_eq, pure_eq, tryCatch_eq]
  apply Guarantees.bind (findById_guarantees fun _ _ _ => trivial) ?_ fun _ _ => trivial
  intro _ _
  have visible : Guarantees positions anyEvent (assertTasksVisible userId [dto.taskId])
      fun _ => True := by
    unfold assertTasksVisible
    rw [bind_eq]
    apply Guarantees.bind (Promise.guarantees_read (Q := fun _ => True) (fun _ _ _ => trivial)
      (fun _ _ _ => trivial) fun _ => trivial) ?_ fun _ _ => trivial
    intro count _
    split
    · trivial
    · trivial
  apply Guarantees.bind visible ?_ fun _ _ => trivial
  intro _ _
  have added : ∀ position recover, 1 ≤ position →
      (∀ e, Guarantees positions anyEvent (recover e) fun _ => True) →
      Guarantees positions anyEvent ((Promise.write .routineTask .create
        (fun _ => { routines := [.ofText routineId], tasks := [.ofText dto.taskId] })
        (addRow routineId dto position)).handle recover) fun _ => True := by
    intro position recover positive hrecover
    apply Guarantees.handle (Q := fun _ => True) ?_ (fun _ _ => trivial) fun e _ => hrecover e
    apply Promise.guarantees_write
    · intro i w row db placed hadd
      exact ⟨⟨addRow_positioned placed hadd positive, trivial⟩, trivial⟩
    · exact fun _ _ _ _ _ => ⟨trivial, trivial⟩
    · exact fun _ _ _ => ⟨trivial, trivial⟩
  have after_next : ∀ recover, (∀ e, Guarantees positions anyEvent (recover e) fun _ => True) →
      Guarantees positions anyEvent ((nextPosition routineId).bind fun position =>
        (Promise.write .routineTask .create
          (fun _ => { routines := [.ofText routineId], tasks := [.ofText dto.taskId] })
          (addRow routineId dto position)).handle recover) fun _ => True := by
    intro recover hrecover
    apply Guarantees.bind nextPosition_guarantees ?_ fun _ _ => trivial
    exact fun position positive => added position recover (positive position rfl) hrecover
  cases hp : dto.position with
  | absent => exact after_next _ fun e => by split <;> trivial
  | null => exact after_next _ fun e => by split <;> trivial
  | value position => exact added position _ (min position hp) fun e => by split <;> trivial

theorem updateTask_guarantees {dto : UpdateRoutineTaskDto} (min : dto.position.MinOne) :
    Guarantees positions anyEvent (updateTask userId routineId taskId dto) fun _ => True := by
  unfold updateTask
  simp only [bind_eq, tryCatch_eq]
  apply Guarantees.bind (findById_guarantees fun _ _ _ => trivial) ?_ fun _ _ => trivial
  intro _ _
  apply Guarantees.handle (Q := fun _ => True) ?_ (fun _ _ => trivial)
  · intro e _
    split <;> trivial
  · apply Promise.guarantees_write
    · intro i w row db placed hupdate
      exact ⟨⟨updateRow_positioned min placed hupdate, trivial⟩, trivial⟩
    · exact fun _ _ _ _ _ => ⟨trivial, trivial⟩
    · exact fun _ _ _ => ⟨trivial, trivial⟩

theorem removeTask_guarantees :
    Guarantees positions anyEvent (removeTask userId routineId taskId) fun _ => True := by
  unfold removeTask
  simp only [bind_eq, tryCatch_eq]
  apply Guarantees.bind (findById_guarantees fun _ _ _ => trivial) ?_ fun _ _ => trivial
  intro _ _
  apply Guarantees.handle (Q := fun _ => True) ?_ (fun _ _ => trivial)
  · intro e _
    split <;> trivial
  · apply Promise.guarantees_write
    · intro i w a db placed hremove
      obtain ⟨db', removed, done⟩ := bind_eq_ok hremove
      cases done
      exact ⟨⟨removeTaskRow_positioned placed removed, trivial⟩, trivial⟩
    · exact fun _ _ _ _ _ => ⟨trivial, trivial⟩
    · exact fun _ _ _ => ⟨trivial, trivial⟩

/-- The ids that pass the check are spelled as stored, and none is given twice. -/
theorem ids_of_isSameSet {taskIds : List String} {existing : List RoutineTask}
    (same : isSameSet taskIds existing = true) :
    ∃ ids : List Uuid, ids.Nodup ∧ taskIds = ids.map (·.text) := by
  unfold isSameSet at same
  simp only [Bool.and_eq_true, decide_eq_true_eq, List.all_eq_true] at same
  obtain ⟨⟨-, unique⟩, all⟩ := same
  have stored : taskIds = (taskIds.map Uuid.ofText).map (·.text) := by
    rw [List.map_map]
    refine (List.map_id _).symm.trans (List.map_congr_left fun text htext => ?_)
    obtain ⟨a, -, rfl⟩ := List.mem_map.mp (all text htext)
    simp only [id_eq, Function.comp_apply, Uuid.ofText_text]
  have nodup : taskIds.Nodup :=
    List.dedup_eq_self.mp ((List.dedup_sublist _).eq_of_length unique)
  rw [stored] at nodup
  exact ⟨_, nodup.of_map, stored⟩

theorem reorderTasks_guarantees {taskIds : List String} :
    Guarantees positions (fun l x w v => AllOrNothing routineId taskIds l x w.db v.db)
      (reorderTasks userId routineId taskIds) fun _ => True := by
  have quiet : ∀ {l : Label} {x : Answer Input Failure} {db : Db},
      l ≠ .db .routineTask .transaction → AllOrNothing routineId taskIds l x db db :=
    fun other => .inr ⟨fun _ commits => other commits.1, rfl⟩
  have release : ∀ token, Guarantees positions
      (fun l x w v => AllOrNothing routineId taskIds l x w.db v.db)
      ((Promise.releaseLock (reorderLockKey routineId) token).handle fun _ => .done ())
      fun _ => True := by
    intro token
    refine Guarantees.handle (Q := fun _ => True) ?_ (fun _ _ => trivial) fun _ _ => trivial
    apply Promise.guarantees_call
    · intro i w placed
      dsimp only
      split
      · exact ⟨⟨placed, quiet nofun⟩, trivial⟩
      · exact ⟨⟨placed, quiet nofun⟩, trivial⟩
    · exact fun e w placed => ⟨⟨placed, quiet nofun⟩, trivial⟩
  unfold reorderTasks
  simp only [bind_eq, pure_eq, throw_eq, tryCatch_eq]
  refine Guarantees.bind (findById_guarantees ?_) ?_ fun _ _ => trivial
  · exact fun _ _ _ => quiet nofun
  intro _ _
  refine Guarantees.bind (Q := fun _ => True) ?_ ?_ fun _ _ => trivial
  · refine Guarantees.handle (Q := fun _ => True) ?_ (fun _ _ => trivial) fun _ _ => trivial
    apply Promise.guarantees_call
    · intro i w placed
      dsimp only
      split
      · exact ⟨⟨placed, quiet nofun⟩, trivial⟩
      · exact ⟨⟨placed, quiet nofun⟩, trivial⟩
    · exact fun e w placed => ⟨⟨placed, quiet nofun⟩, trivial⟩
  intro lockToken _
  cases lockToken with
  | none => trivial
  | some token =>
    apply Promise.guarantees_withCleanup ?_ (release token)
    refine Guarantees.bind (Promise.guarantees_read (Q := fun _ => True) ?_
      (fun _ _ _ => trivial) fun _ => trivial) ?_ fun _ _ => trivial
    · exact fun _ _ _ => quiet nofun
    intro existing _
    split
    · next same =>
      obtain ⟨ids, nodup, rfl⟩ := ids_of_isSameSet same
      refine Guarantees.bind (Promise.guarantees_write (Q := fun _ => True) ?_ ?_ ?_) ?_
        fun _ _ => trivial
      · intro i w a db placed committed
        obtain ⟨db', rows, done⟩ := bind_eq_ok committed
        cases done
        obtain ⟨kept, order⟩ := reorderRows_positioned nodup placed rows
        exact ⟨⟨kept, .inl ⟨⟨rfl, i, rfl, rows⟩, order⟩⟩, trivial⟩
      · intro i w e placed refused
        refine ⟨.inr ⟨?_, rfl⟩, trivial⟩
        rintro db ⟨-, j, same, rows⟩
        cases same
        simp only [rows] at refused
        cases refused
      · intro e w placed
        refine ⟨.inr ⟨?_, rfl⟩, trivial⟩
        rintro db ⟨-, j, same, -⟩
        cases same
      · intro _ _
        apply Promise.guarantees_read ?_ (fun _ _ _ => trivial) fun _ => trivial
        exact fun _ _ _ => quiet nofun
    · trivial

end Methods

end RoutinesService

theorem EditRequest.guarantees (q : EditRequest) :
    Guarantees (fun w => w.db.Positioned) q.Event q.run fun _ => True := by
  cases q with
  | addTask userId routineId dto min =>
    exact Guarantees.bind (RoutinesService.addTask_guarantees min) (fun _ _ => trivial)
      fun _ _ => trivial
  | updateTask userId routineId taskId dto min =>
    exact Guarantees.bind (RoutinesService.updateTask_guarantees min) (fun _ _ => trivial)
      fun _ _ => trivial
  | removeTask userId routineId taskId => exact RoutinesService.removeTask_guarantees
  | reorderTasks userId routineId taskIds =>
    exact Guarantees.bind RoutinesService.reorderTasks_guarantees (fun _ _ => trivial)
      fun _ _ => trivial

/-- Whatever edits of routines run together, positions are at all times distinct within a
routine and at least 1, and each call of a reorder either is its transaction, commits and
leaves the requested tasks at `1..n` and all others behind them, or changes no row. -/
theorem reorder_all_or_nothing {η : Type} {r : Run World Input Failure Label η Unit}
    {edits : Nat → EditRequest} (requests : ∀ i, r.requests i = (edits i).run)
    (start : r.start.db.Positioned)
    (outside : ∀ a w, (r.outside a w).db.routineTasks.rows ⊆ w.db.routineTasks.rows) (t : Nat) :
    (r.state t).db.Positioned ∧
      ∀ i userId routineId taskIds, edits i = .reorderTasks userId routineId taskIds →
        ∀ l x, r.CallsAt i t l x →
          RoutinesService.AllOrNothing routineId taskIds l x (r.state t).db
            (r.state (t + 1)).db := by
  have each : ∀ i, Guarantees (fun w => w.db.Positioned) (edits i).Event (r.requests i)
      fun _ => True := by
    intro i
    rw [requests i]
    exact (edits i).guarantees
  have guaranteed := Run.guarantees start (fun a w placed => placed.fewer (outside a w)) each t
  refine ⟨guaranteed.1, fun i userId routineId taskIds same l x calls => ?_⟩
  have event := guaranteed.2 i l x calls
  rw [same] at event
  exact event

section Sample

private def lesson (id : Uuid) : Task := ⟨id, "Lesson", none, none, none, none, none, 0, 0⟩

/-- A routine of `alice` with one task of two, not at the first position. -/
private def halfPlanned : World :=
  { World.signedUp with
    db := { World.signedUp.db with
      tasks := ⟨[lesson firstId, lesson secondId], by decide⟩
      routines := ⟨[⟨thirdId, alice, "Weekly", .active, none, 0, 0⟩], by decide⟩
      routineTasks := ⟨[⟨thirdId, firstId, 2, none, 0, 0⟩], by decide⟩ } }

private def racing : Nat → EditRequest
  | 0 => .reorderTasks alice thirdId.text [firstId.text]
  | _ => .addTask alice thirdId.text ⟨secondId.text, .absent, .absent⟩ nofun

/-- The second task is added after the reorder has read the first and before it commits. -/
private def raced : Run World Input Failure Label Empty Unit where
  requests i := (racing i).run
  outside := nofun
  start := halfPlanned
  schedule t :=
    match t with
    | 0 => .begin 0
    | 4 => .begin 1
    | 5 | 6 | 7 | 8 => .advance 1 (.took (.of bob 0))
    | _ => .advance 0 (.took (.of bob 0))

theorem reorder_all_or_nothing_raced :
    (raced.state 9).db.Positioned ∧
      RoutinesService.AllOrNothing thirdId.text [firstId.text] (.db .routineTask .transaction)
        (.took (.of bob 0)) (raced.state 9).db (raced.state 10).db := by
  have start : raced.start.db.Positioned := by
    constructor
    · show ∀ a ∈ halfPlanned.db.routineTasks.rows, ∀ b ∈ halfPlanned.db.routineTasks.rows,
        a.routineId = b.routineId → a.position = b.position → a = b
      decide +kernel
    · show ∀ a ∈ halfPlanned.db.routineTasks.rows, 1 ≤ a.position
      decide +kernel
  have sound := reorder_all_or_nothing (r := raced) (fun _ => rfl) start nofun 9
  have transaction : raced.awaited 0 9 = some (.db .routineTask .transaction) := by decide +kernel
  exact ⟨sound.1, sound.2 0 alice _ _ rfl _ _ (Run.callsAt_iff.mpr ⟨transaction, rfl⟩)⟩

end Sample

end GuitarCoach
