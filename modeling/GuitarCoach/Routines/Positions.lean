/- digest: What position updates do to the tasks of a routine, one statement after the other. -/

import GuitarCoach.Routines.RoutineSpecs

/-!
A position update moves one row and is refused when another row of the routine holds the
position. A sequence of them places rows by a partial map, the last update of a task winning.
-/

set_option autoImplicit false
set_option relaxedAutoImplicit false

namespace GuitarCoach

open Relational (Table)

/-- A row once a map of positions has been applied to a routine. -/
def RoutineTask.placed (routineId : Uuid) (place : Uuid → Option Int) (now : Instant)
    (a : RoutineTask) : RoutineTask :=
  if a.routineId = routineId then
    (place a.taskId).elim a fun position => { a with position, updatedAt := now }
  else a

namespace RoutineTask

variable {routineId : Uuid} {place : Uuid → Option Int} {now : Instant}

theorem placed_other {a : RoutineTask} (other : a.routineId ≠ routineId) :
    a.placed routineId place now = a := if_neg other

theorem placed_unmoved {a : RoutineTask} (unmoved : place a.taskId = none) :
    a.placed routineId place now = a := by
  unfold placed
  rw [unmoved]
  exact ite_self a

@[simp] theorem routineId_placed (a : RoutineTask) :
    (a.placed routineId place now).routineId = a.routineId := by
  unfold placed
  split
  · cases place a.taskId <;> rfl
  · rfl

@[simp] theorem taskId_placed (a : RoutineTask) :
    (a.placed routineId place now).taskId = a.taskId := by
  unfold placed
  split
  · cases place a.taskId <;> rfl
  · rfl

@[simp] theorem targetDurationMinutes_placed (a : RoutineTask) :
    (a.placed routineId place now).targetDurationMinutes = a.targetDurationMinutes := by
  unfold placed
  split
  · cases place a.taskId <;> rfl
  · rfl

theorem key_placed (a : RoutineTask) : (a.placed routineId place now).key = a.key := by
  unfold key
  rw [routineId_placed, taskId_placed]

theorem position_placed {a : RoutineTask} (own : a.routineId = routineId) :
    (a.placed routineId place now).position = (place a.taskId).getD a.position := by
  unfold placed
  rw [if_pos own]
  cases place a.taskId <;> rfl

/-- One more update wins over the map so far. -/
theorem placed_update (a : RoutineTask) (taskId : Uuid) (position : Int) :
    a.placed routineId (Function.update place taskId (some position)) now =
      if a.key = (routineId, taskId) then
        { a.placed routineId place now with position, updatedAt := now }
      else a.placed routineId place now := by
  by_cases own : a.routineId = routineId
  · by_cases same : a.taskId = taskId
    · subst same
      have key : a.key = (routineId, a.taskId) := by
        rw [← own]
        rfl
      rw [if_pos key]
      unfold placed
      rw [if_pos own, if_pos own, Function.update_self]
      cases place a.taskId <;> rfl
    · have key : a.key ≠ (routineId, taskId) := fun h => same (congrArg Prod.snd h)
      rw [if_neg key]
      unfold placed
      rw [Function.update_of_ne same]
  · have key : a.key ≠ (routineId, taskId) := fun h => own (congrArg Prod.fst h)
    rw [if_neg key, placed_other own, placed_other own]

end RoutineTask

namespace Db

/-- The tables once a map of positions has been applied to a routine. -/
def placed (routineId : Uuid) (place : Uuid → Option Int) (now : Instant) (db : Db) : Db :=
  { db with
    routineTasks := db.routineTasks.updateWhere (fun _ => true)
      (RoutineTask.placed routineId place now) RoutineTask.key_placed }

variable {routineId : Uuid} {place : Uuid → Option Int} {now : Instant}

theorem rows_placed (db : Db) : (db.placed routineId place now).routineTasks.rows =
    db.routineTasks.rows.map (RoutineTask.placed routineId place now) := rfl

theorem tasksOfRoutine_placed (db : Db) (r : Uuid) :
    (db.placed routineId place now).tasksOfRoutine r =
      (db.tasksOfRoutine r).map (RoutineTask.placed routineId place now) := by
  unfold tasksOfRoutine
  rw [rows_placed, List.filter_map]
  refine congrArg _ (List.filter_congr fun a _ => ?_)
  simp only [Function.comp_apply, RoutineTask.routineId_placed]

theorem placed_nothing (db : Db) : db.placed routineId (fun _ => none) now = db := by
  have same : (db.placed routineId (fun _ => none) now).routineTasks = db.routineTasks := by
    refine Table.ext_rows ?_
    rw [rows_placed]
    exact (List.map_congr_left fun a _ => RoutineTask.placed_unmoved rfl).trans (List.map_id _)
  exact congrArg (fun routineTasks => { db with routineTasks }) same

end Db

namespace RoutinesService

/-- An update of the position of one row. -/
abbrev moveRow (routineId taskId : String) (position : Int) (i : Input) (db : Db) :
    Except Failure (RoutineTask × Db) :=
  updateRow routineId taskId ⟨.value position, .absent⟩ i db

section Moves

variable {routineId taskId : String} {position : Int} {i : Input} {db db' : Db}
  {place : Uuid → Option Int}

/-- What an update of one row does, and what it has checked. -/
theorem updateRow_ok {dto : UpdateRoutineTaskDto} {row : RoutineTask}
    (h : updateRow routineId taskId dto i db = .ok (row, db')) :
    ∃ old ∈ db.routineTasks.rows, old.key = (.ofText routineId, .ofText taskId) ∧
      row = dto.apply i.now old ∧
      (∀ b ∈ db.routineTasks.rows, b.key ≠ old.key → b.routineId = old.routineId →
        b.position ≠ row.position) ∧
      db'.routineTasks.rows = db.routineTasks.rows.map
        (fun a => if a.key = old.key then dto.apply i.now a else a) ∧
      db' = { db with routineTasks := db'.routineTasks } := by
  unfold updateRow at h
  split at h
  · cases h
  split at h
  · cases h
  split at h
  · cases h
  · next old found =>
    obtain ⟨hold, hkey⟩ := Table.find_eq_some.mp found
    dsimp only at h
    split at h
    · cases h
    · next free =>
      cases h
      refine ⟨old, hold, hkey, rfl, fun b hb other own taken => free ?_, ?_, rfl⟩
      · exact List.any_eq_true.mpr ⟨b, hb, by simp [other, own, taken]⟩
      · exact List.map_congr_left fun a _ => by simp only [decide_eq_true_eq]

/-- A position that no other row of the routine holds can be given to a row. -/
theorem moveRow_of_free (fits : fitsInt4 position = true)
    (assigned : ∃ a ∈ db.routineTasks.rows, a.key = (.ofText routineId, .ofText taskId))
    (free : ∀ b ∈ db.routineTasks.rows, b.routineId = .ofText routineId →
      b.taskId ≠ .ofText taskId → b.position ≠ position) :
    ∃ row db', moveRow routineId taskId position i db = .ok (row, db') := by
  obtain ⟨a, ha, hkey⟩ := assigned
  have found : db.routineTasks.find (.ofText routineId, .ofText taskId) = some a :=
    Table.find_eq_some.mpr ⟨ha, hkey⟩
  unfold moveRow updateRow
  rw [if_neg nofun, if_neg (by simp [Field.toOption, fits]), found]
  dsimp only
  rw [if_neg]
  · exact ⟨_, _, rfl⟩
  · intro taken
    obtain ⟨b, hb, hbad⟩ := List.any_eq_true.mp taken
    simp only [Bool.and_eq_true, decide_eq_true_eq] at hbad
    obtain ⟨⟨other, own⟩, same⟩ := hbad
    have hroutine : a.routineId = .ofText routineId := congrArg Prod.fst hkey
    have hown : b.routineId = .ofText routineId := own.trans hroutine
    refine free b hb hown (fun same => other ?_) same
    rw [hkey, ← hown, ← same]
    rfl

/-- On placed rows an update of a position is one more entry of the map. -/
theorem moveRow_placed {row : RoutineTask} {db' : Db}
    (h : moveRow routineId taskId position i (db.placed (.ofText routineId) place i.now) =
      .ok (row, db')) :
    db' = db.placed (.ofText routineId) (Function.update place (.ofText taskId) (some position))
      i.now := by
  obtain ⟨old, -, hkey, -, -, rows, same⟩ := updateRow_ok h
  rw [same]
  refine congrArg (fun routineTasks => { db with routineTasks }) (Table.ext_rows ?_)
  rw [rows, hkey, Db.rows_placed, List.map_map]
  refine List.map_congr_left fun a _ => ?_
  rw [RoutineTask.placed_update]
  simp only [Function.comp_apply, RoutineTask.key_placed]
  rfl

end Moves

/-- The statements of a reorder, one after the other. -/
def runMoves (routineId : String) (i : Input) (moves : List (String × Int)) (db : Db) :
    Except Failure Db :=
  moves.foldlM (fun db (taskId, position) => do
    let (_, db) ← moveRow routineId taskId position i db
    return db) db

theorem reorderRows_eq (routineId : String) (taskIds : List String) (i : Input) (db : Db) :
    reorderRows routineId taskIds i db = runMoves routineId i (reorderUpdates taskIds) db := rfl

/-- Where a sequence of updates puts the tasks: the last one of a task wins. -/
def placement (moves : List (String × Int)) : Uuid → Option Int :=
  moves.foldl (fun place move => Function.update place (.ofText move.1) (some move.2))
    fun _ => none

section Runs

variable {routineId : String} {i : Input} {db db' : Db}

theorem runMoves_append (done rest : List (String × Int)) :
    runMoves routineId i (done ++ rest) db =
      runMoves routineId i done db >>= runMoves routineId i rest := by
  unfold runMoves
  exact List.foldlM_append

theorem placement_append (moves : List (String × Int)) (move : String × Int) :
    placement (moves ++ [move]) =
      Function.update (placement moves) (.ofText move.1) (some move.2) := by
  unfold placement
  rw [List.foldl_append]
  rfl

private theorem runMoves_one {taskId : String} {position : Int}
    (h : runMoves routineId i [(taskId, position)] db = .ok db') :
    ∃ row, moveRow routineId taskId position i db = .ok (row, db') := by
  obtain ⟨db₁, h₁, h⟩ := bind_eq_ok h
  obtain ⟨⟨row, db₂⟩, hmove, h₁⟩ := bind_eq_ok h₁
  cases h₁
  cases h
  exact ⟨row, hmove⟩

private theorem runMoves_one_of {move : String × Int} {row : RoutineTask}
    (h : moveRow routineId move.1 move.2 i db = .ok (row, db')) :
    runMoves routineId i [move] db = .ok db' := by
  obtain ⟨taskId, position⟩ := move
  unfold runMoves
  simp only [List.foldlM_cons, List.foldlM_nil, h]
  rfl

/-- A sequence of updates that succeeds has placed its rows. -/
theorem runMoves_ok {moves : List (String × Int)} (h : runMoves routineId i moves db = .ok db') :
    db' = db.placed (.ofText routineId) (placement moves) i.now := by
  induction moves using List.reverseRecOn generalizing db' with
  | nil =>
    cases h
    exact (Db.placed_nothing db).symm
  | append_singleton moves move ih =>
    rw [runMoves_append] at h
    obtain ⟨middle, first, last⟩ := bind_eq_ok h
    obtain rfl := ih first
    obtain ⟨row, hmove⟩ := runMoves_one last
    rw [placement_append]
    exact moveRow_placed hmove

/-- A sequence of updates succeeds when none of them takes a position that is held. -/
theorem runMoves_of_free {moves : List (String × Int)}
    (fits : ∀ move ∈ moves, fitsInt4 move.2 = true)
    (assigned : ∀ move ∈ moves, ∃ a ∈ db.routineTasks.rows,
      a.key = (.ofText routineId, .ofText move.1))
    (free : ∀ done move rest, moves = done ++ move :: rest → ∀ b ∈ db.routineTasks.rows,
      b.routineId = .ofText routineId → b.taskId ≠ .ofText move.1 →
      (placement done b.taskId).getD b.position ≠ move.2) :
    ∃ db', runMoves routineId i moves db = .ok db' := by
  induction moves using List.reverseRecOn with
  | nil => exact ⟨db, rfl⟩
  | append_singleton moves move ih =>
    obtain ⟨middle, first⟩ := ih (fun m hm => fits m (List.mem_append_left _ hm))
      (fun m hm => assigned m (List.mem_append_left _ hm))
      (fun done m rest split => free done m (rest ++ [move]) (by simp [split]))
    obtain rfl := runMoves_ok first
    have last := List.mem_append_right moves (List.mem_singleton_self move)
    obtain ⟨a, ha, hkey⟩ := assigned move last
    have held : ∀ b ∈ (db.placed (.ofText routineId) (placement moves) i.now).routineTasks.rows,
        b.routineId = .ofText routineId → b.taskId ≠ .ofText move.1 → b.position ≠ move.2 := by
      intro b' hb' own other
      rw [Db.rows_placed] at hb'
      obtain ⟨b, hb, rfl⟩ := List.mem_map.mp hb'
      rw [RoutineTask.routineId_placed] at own
      rw [RoutineTask.taskId_placed] at other
      rw [RoutineTask.position_placed own]
      exact free moves move [] rfl b hb own other
    obtain ⟨row, db', hmove⟩ := moveRow_of_free (i := i) (fits move last)
      ⟨_, List.mem_map_of_mem ha, (RoutineTask.key_placed a).trans hkey⟩ held
    refine ⟨db', ?_⟩
    rw [runMoves_append, first]
    exact runMoves_one_of hmove

end Runs

/-! ### The updates of a reorder -/

theorem placement_append_apply (first last : List (String × Int)) (t : Uuid) :
    placement (first ++ last) t = (placement last t).or (placement first t) := by
  induction last using List.reverseRecOn with
  | nil => simp [placement]
  | append_singleton last move ih =>
    rw [← List.append_assoc, placement_append, placement_append]
    by_cases same : t = .ofText move.1
    · simp [same]
    · rw [Function.update_of_ne same, Function.update_of_ne same, ih]

theorem mem_of_placement {moves : List (String × Int)} {t : Uuid} {position : Int}
    (h : placement moves t = some position) :
    ∃ move ∈ moves, Uuid.ofText move.1 = t ∧ move.2 = position := by
  induction moves using List.reverseRecOn with
  | nil => cases h
  | append_singleton moves move ih =>
    rw [placement_append] at h
    by_cases same : t = .ofText move.1
    · rw [same, Function.update_self] at h
      exact ⟨move, by simp, same.symm, Option.some.inj h⟩
    · rw [Function.update_of_ne same] at h
      obtain ⟨earlier, hearlier, h⟩ := ih h
      exact ⟨earlier, List.mem_append_left _ hearlier, h⟩

theorem placement_of_mem {moves : List (String × Int)} {move : String × Int}
    (h : move ∈ moves) : placement moves (.ofText move.1) ≠ none := by
  induction moves using List.reverseRecOn with
  | nil => cases h
  | append_singleton moves last ih =>
    rw [placement_append]
    by_cases same : Uuid.ofText move.1 = .ofText last.1
    · rw [same, Function.update_self]
      exact nofun
    · rw [Function.update_of_ne same]
      rcases List.mem_append.mp h with h | h
      · exact ih h
      · rw [List.mem_singleton.mp h] at same
        exact absurd rfl same

/-- The first half of the updates: every task to a negative placeholder. -/
def toPlaceholders (taskIds : List String) : List (String × Int) :=
  taskIds.mapIdx fun index taskId => (taskId, -(index + 1 : Int))

/-- The second half: every task to its place. -/
def toPlaces (taskIds : List String) : List (String × Int) :=
  taskIds.mapIdx fun index taskId => (taskId, (index + 1 : Int))

theorem reorderUpdates_eq (taskIds : List String) :
    reorderUpdates taskIds = toPlaceholders taskIds ++ toPlaces taskIds := rfl

section Updates

variable {ids : List Uuid} {move : String × Int}

theorem mem_toPlaceholders : move ∈ toPlaceholders (ids.map (·.text)) ↔
    ∃ j, ∃ h : j < ids.length, move = (ids[j].text, -(j + 1 : Int)) := by
  simp [toPlaceholders, List.mem_mapIdx, eq_comm]

theorem mem_toPlaces : move ∈ toPlaces (ids.map (·.text)) ↔
    ∃ j, ∃ h : j < ids.length, move = (ids[j].text, (j + 1 : Int)) := by
  simp [toPlaces, List.mem_mapIdx, eq_comm]

/-- No two updates of a reorder give the same position. -/
theorem reorderUpdates_positions (ids : List Uuid) :
    ((reorderUpdates (ids.map (·.text))).map Prod.snd).Nodup := by
  have placeholders : ((toPlaceholders (ids.map (·.text))).map Prod.snd).Nodup := by
    rw [List.nodup_iff_injective_getElem]
    intro a b same
    simp only [toPlaceholders, List.getElem_map, List.getElem_mapIdx] at same
    exact Fin.ext (by omega)
  have places : ((toPlaces (ids.map (·.text))).map Prod.snd).Nodup := by
    rw [List.nodup_iff_injective_getElem]
    intro a b same
    simp only [toPlaces, List.getElem_map, List.getElem_mapIdx] at same
    exact Fin.ext (by omega)
  rw [reorderUpdates_eq, List.map_append]
  refine List.nodup_append.mpr ⟨placeholders, places, fun p hp q hq same => ?_⟩
  obtain ⟨m, hm, rfl⟩ := List.mem_map.mp hp
  obtain ⟨m', hm', rfl⟩ := List.mem_map.mp hq
  obtain ⟨j, hj, rfl⟩ := mem_toPlaceholders.mp hm
  obtain ⟨j', hj', rfl⟩ := mem_toPlaces.mp hm'
  simp only at same
  omega

/-- A reorder puts the tasks it is given to `1..n`, in their order. -/
theorem placement_reorder (nodup : ids.Nodup) {j : Nat} (h : j < ids.length) :
    placement (reorderUpdates (ids.map (·.text))) ids[j] = some (j + 1 : Int) := by
  rw [reorderUpdates_eq, placement_append_apply]
  have moved := placement_of_mem (mem_toPlaces.mpr ⟨j, h, rfl⟩)
  rw [Uuid.ofText_text] at moved
  obtain ⟨position, hposition⟩ := Option.ne_none_iff_exists'.mp moved
  obtain ⟨move, hmove, hid, hlast⟩ := mem_of_placement hposition
  obtain ⟨j', h', rfl⟩ := mem_toPlaces.mp hmove
  rw [Uuid.ofText_text] at hid
  obtain rfl : j' = j := (List.Nodup.getElem_inj_iff nodup).mp hid
  rw [hposition, ← hlast]
  rfl

theorem placement_reorder_other {t : Uuid} (other : t ∉ ids) :
    placement (reorderUpdates (ids.map (·.text))) t = none := by
  by_contra moved
  obtain ⟨position, hposition⟩ := Option.ne_none_iff_exists'.mp moved
  obtain ⟨move, hmove, rfl, -⟩ := mem_of_placement hposition
  rw [reorderUpdates_eq] at hmove
  rcases List.mem_append.mp hmove with hmove | hmove
  · obtain ⟨j, h, rfl⟩ := mem_toPlaceholders.mp hmove
    exact other (by simp)
  · obtain ⟨j, h, rfl⟩ := mem_toPlaces.mp hmove
    exact other (by simp)

/-- The positions of a routine that are at least 1 never stand in the way of a reorder of all
its tasks: each of its updates, one after the other, finds its position free. -/
theorem reorder_finds_free {routineId : String} {db : Db}
    (positive : ∀ b ∈ db.routineTasks.rows, b.routineId = .ofText routineId → 1 ≤ b.position)
    (all : ∀ b ∈ db.routineTasks.rows, b.routineId = .ofText routineId → b.taskId ∈ ids)
    {done rest : List (String × Int)}
    (split : reorderUpdates (ids.map (·.text)) = done ++ move :: rest) :
    ∀ b ∈ db.routineTasks.rows, b.routineId = .ofText routineId → b.taskId ≠ .ofText move.1 →
      (placement done b.taskId).getD b.position ≠ move.2 := by
  intro b hb own other
  cases moved : placement done b.taskId with
  | some position =>
    -- an earlier update gave it another position than this one
    obtain ⟨earlier, hearlier, -, rfl⟩ := mem_of_placement moved
    have distinct := reorderUpdates_positions ids
    rw [split, List.map_append, List.map_cons] at distinct
    have apart := (List.nodup_append.mp distinct).2.2
    exact apart _ (List.mem_map_of_mem hearlier) _ List.mem_cons_self
  | none =>
    -- it is still where it was, so this update goes to a placeholder
    have halves : (∃ more, done = toPlaceholders (ids.map (·.text)) ++ more) ∨
        move ∈ toPlaceholders (ids.map (·.text)) := by
      rw [reorderUpdates_eq] at split
      rcases List.append_eq_append_iff.mp split with ⟨more, hdone, -⟩ | ⟨more, hfirst, hmore⟩
      · exact .inl ⟨more, hdone⟩
      · cases more with
        | nil => exact .inl ⟨[], by rw [hfirst, List.append_nil, List.append_nil]⟩
        | cons m more =>
          injection hmore with same
          exact .inr (by rw [hfirst, same]; simp)
    have early : move ∈ toPlaceholders (ids.map (·.text)) := by
      refine halves.resolve_left ?_
      rintro ⟨more, rfl⟩
      obtain ⟨j, h, hid⟩ := List.getElem_of_mem (all b hb own)
      have gone := placement_of_mem (List.mem_append_left more (mem_toPlaceholders.mpr ⟨j, h, rfl⟩))
      rw [Uuid.ofText_text, hid] at gone
      exact gone moved
    obtain ⟨j, h, rfl⟩ := mem_toPlaceholders.mp early
    have := positive b hb own
    simp only [Option.getD_none]
    omega

end Updates

end RoutinesService

end GuitarCoach
