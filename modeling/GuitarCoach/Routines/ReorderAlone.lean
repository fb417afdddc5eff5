/- digest: What reorderTasks does when it runs alone and nothing fails. -/

import GuitarCoach.Routines.Positions

set_option autoImplicit false
set_option relaxedAutoImplicit false

namespace GuitarCoach

open Async (Answer Cue Ends Policy wp onOk wp_bind wp_handle wp_ite wp_done wp_fail wp_ends)
open Async.Method (pure_eq throw_eq bind_eq tryCatch_eq)
open Relational (IsOrdered IsPreorder Table mem_orderBy orderBy orderBy_isOrdered orderBy_perm)

/-- No call fails, and the lock is free when it is asked for. -/
def undisturbed : Policy World Input Failure Label
  | .acquireLock key, w, .took i => w.heldLock key i.now = none
  | _, _, .took _ => True
  | _, _, .threw _ => False

namespace RoutinesService

/-- The tasks assigned to a routine. -/
def assigned (routineId : String) (db : Db) : List Uuid :=
  (db.tasksOfRoutine (.ofText routineId)).map (·.taskId)

def wrongTasks : Failure :=
  badRequest ("taskIds must include every task currently assigned to this " ++
    "routine exactly once")

/-- The positions of the tasks of a routine differ, and are integers of the column from 1 on. -/
structure WellPlaced (routineId : Uuid) (db : Db) : Prop where
  distinct : ((db.tasksOfRoutine routineId).map (·.position)).Nodup
  positive : ∀ a ∈ db.tasksOfRoutine routineId, 1 ≤ a.position
  fits : ∀ a ∈ db.tasksOfRoutine routineId, fitsInt4 a.position = true

/-- The tasks of the routine have the positions `1..n` in this order, and are returned in it; no
update was refused on the way, and nothing else about the rows changed. -/
structure Reordered (routineId : String) (ids : List Uuid) (before after : Db)
    (returned : List RoutineTask) : Prop where
  statements : ∀ moves, moves <+: reorderUpdates (ids.map (·.text)) →
    ∃ i db, runMoves routineId i moves before = .ok db
  positions : ∀ j, ∀ h : j < ids.length, ∃ a ∈ after.routineTasks.rows,
    a.key = (.ofText routineId, ids[j]) ∧ a.position = (j + 1 : Int)
  order : returned.map (·.taskId) = ids
  rows : returned.Perm (after.tasksOfRoutine (.ofText routineId))
  moved : ∃ move : RoutineTask → RoutineTask,
    after.routineTasks.rows = before.routineTasks.rows.map move ∧
      ∀ a, (move a).key = a.key ∧ (move a).targetDurationMinutes = a.targetDurationMinutes ∧
        (a.routineId ≠ .ofText routineId → move a = a)
  others : after = { before with routineTasks := after.routineTasks }

section Sets

variable {ids : List Uuid} {existing : List RoutineTask}

/-- The test on lengths, sizes and membership is that of a permutation. -/
theorem isSameSet_iff (nodup : (existing.map (·.taskId)).Nodup) :
    isSameSet (ids.map (·.text)) existing = true ↔ ids.Perm (existing.map (·.taskId)) := by
  have injective : Function.Injective (fun id : Uuid => id.text) :=
    fun _ _ same => Uuid.text_injective same
  unfold isSameSet
  simp only [Bool.and_eq_true, decide_eq_true_eq, List.all_eq_true, List.length_map]
  constructor
  · rintro ⟨⟨length, unique⟩, all⟩
    have distinct : ids.Nodup := by
      have same : (ids.map (·.text)).dedup = ids.map (·.text) :=
        (List.dedup_sublist _).eq_of_length (by rw [unique, List.length_map])
      exact (List.nodup_map_iff injective).mp (List.dedup_eq_self.mp same)
    have sub : ids ⊆ existing.map (·.taskId) := by
      intro id hid
      have := all id.text (List.mem_map_of_mem hid)
      obtain ⟨a, ha, same⟩ := List.mem_map.mp this
      exact List.mem_map.mpr ⟨a, ha, Uuid.text_injective same⟩
    exact (distinct.subperm sub).perm_of_length_le (by rw [List.length_map, length])
  · intro perm
    have distinct : ids.Nodup := perm.nodup_iff.mpr nodup
    refine ⟨⟨by simpa using perm.length_eq, ?_⟩, ?_⟩
    · rw [List.dedup_eq_self.mpr (distinct.map injective), List.length_map]
    · intro text htext
      obtain ⟨id, hid, rfl⟩ := List.mem_map.mp htext
      obtain ⟨a, ha, rfl⟩ := List.mem_map.mp (perm.mem_iff.mp hid)
      exact List.mem_map.mpr ⟨a, ha, rfl⟩

end Sets

section Alone

variable {routineId : String} {ids : List Uuid} {db : Db}

private theorem mem_assigned {t : Uuid} : t ∈ assigned routineId db ↔
    ∃ a ∈ db.routineTasks.rows, a.key = (.ofText routineId, t) := by
  simp only [assigned, Db.tasksOfRoutine, List.mem_map, List.mem_filter, decide_eq_true_eq,
    RoutineTask.key, Prod.mk.injEq]
  constructor
  · rintro ⟨a, ⟨ha, own⟩, task⟩
    exact ⟨a, ha, own, task⟩
  · rintro ⟨a, ha, own, task⟩
    exact ⟨a, ⟨ha, own⟩, task⟩

/-- A task is assigned to a routine once. -/
theorem assigned_nodup (routineId : String) (db : Db) : (assigned routineId db).Nodup := by
  refine (List.nodup_map_iff_inj_on (db.routineTasks.nodup.filter _)).mpr ?_
  intro a ha b hb same
  obtain ⟨ha, hown⟩ := List.mem_filter.mp ha
  obtain ⟨hb, hown'⟩ := List.mem_filter.mp hb
  rw [decide_eq_true_iff] at hown hown'
  have key : a.key = b.key := Prod.ext (hown.trans hown'.symm) same
  exact Table.eq_of_key ha hb key

/-- A routine has fewer tasks than the column has positions. -/
private theorem assigned_length (placed : WellPlaced (.ofText routineId) db) :
    (assigned routineId db).length ≤ 2147483647 := by
  have sub : ((db.tasksOfRoutine (.ofText routineId)).map (·.position)).toFinset ⊆
      Finset.Icc 1 2147483647 := by
    intro p hp
    obtain ⟨a, ha, rfl⟩ := List.mem_map.mp (List.mem_toFinset.mp hp)
    have fits := placed.fits a ha
    simp only [fitsInt4, Bool.and_eq_true, decide_eq_true_eq] at fits
    exact Finset.mem_Icc.mpr ⟨placed.positive a ha, fits.2⟩
  have card := Finset.card_le_card sub
  rw [List.toFinset_card_of_nodup placed.distinct, Int.card_Icc, List.length_map] at card
  rw [assigned, List.length_map]
  omega

/-- Every sequence of first updates of a reorder of all tasks succeeds. -/
theorem reorder_runs (i : Input) (placed : WellPlaced (.ofText routineId) db)
    (perm : ids.Perm (assigned routineId db)) {moves : List (String × Int)}
    (first : moves <+: reorderUpdates (ids.map (·.text))) :
    ∃ db', runMoves routineId i moves db = .ok db' := by
  obtain ⟨later, hsplit⟩ := first
  have size := assigned_length placed
  rw [← perm.length_eq] at size
  -- every update of the sequence is one of a task to a place or its placeholder
  have update : ∀ move ∈ moves, ∃ j, ∃ h : j < ids.length,
      move = (ids[j].text, -(j + 1 : Int)) ∨ move = (ids[j].text, (j + 1 : Int)) := by
    intro move hmove
    have hall : move ∈ reorderUpdates (ids.map (·.text)) :=
      hsplit ▸ List.mem_append_left later hmove
    rw [reorderUpdates_eq] at hall
    rcases List.mem_append.mp hall with h | h
    · obtain ⟨j, hj, rfl⟩ := mem_toPlaceholders.mp h
      exact ⟨j, hj, .inl rfl⟩
    · obtain ⟨j, hj, rfl⟩ := mem_toPlaces.mp h
      exact ⟨j, hj, .inr rfl⟩
  apply runMoves_of_free
  · intro move hmove
    obtain ⟨j, hj, rfl | rfl⟩ := update move hmove
    · simp only [fitsInt4, Bool.and_eq_true, decide_eq_true_eq]
      omega
    · simp only [fitsInt4, Bool.and_eq_true, decide_eq_true_eq]
      omega
  · intro move hmove
    obtain ⟨j, hj, rfl | rfl⟩ := update move hmove
    · rw [Uuid.ofText_text]
      exact mem_assigned.mp (perm.mem_iff.mp (List.getElem_mem hj))
    · rw [Uuid.ofText_text]
      exact mem_assigned.mp (perm.mem_iff.mp (List.getElem_mem hj))
  · intro done move rest split
    have whole : reorderUpdates (ids.map (·.text)) = done ++ move :: (rest ++ later) := by
      rw [← hsplit, split, List.append_assoc, List.cons_append]
    refine reorder_finds_free ?_ ?_ whole
    · intro b hb own
      exact placed.positive b (List.mem_filter.mpr ⟨hb, by simpa using own⟩)
    · intro b hb own
      exact perm.mem_iff.mpr (mem_assigned.mpr ⟨b, hb, Prod.ext own rfl⟩)

private theorem byPosition_isPreorder : IsPreorder byPosition where
  total a b := by
    simp only [byPosition, decide_eq_true_eq]
    omega
  trans a b c hab hbc := by
    simp only [byPosition, decide_eq_true_eq] at *
    omega

/-- The rows of the routine once a reorder has run through, by position. -/
theorem reordered_of_runs {i : Input} {db' : Db} {rank : Nat → Nat}
    (placed : WellPlaced (.ofText routineId) db) (perm : ids.Perm (assigned routineId db))
    (runs : reorderRows routineId (ids.map (·.text)) i db = .ok db') :
    Reordered routineId ids db db'
      (orderBy rank byPosition (db'.tasksOfRoutine (.ofText routineId))) := by
  rw [reorderRows_eq] at runs
  obtain rfl := runMoves_ok runs
  have nodup : ids.Nodup := perm.nodup_iff.mpr (assigned_nodup routineId db)
  -- a task of the routine stands where the request has it
  have stands : ∀ a ∈ (db.placed (.ofText routineId)
      (placement (reorderUpdates (ids.map (·.text)))) i.now).tasksOfRoutine (.ofText routineId),
      a.taskId ∈ ids ∧ a.position = (ids.idxOf a.taskId + 1 : Int) := by
    intro a' ha'
    rw [Db.tasksOfRoutine_placed] at ha'
    obtain ⟨a, ha, rfl⟩ := List.mem_map.mp ha'
    have own : a.routineId = .ofText routineId := by simpa using (List.mem_filter.mp ha).2
    rw [RoutineTask.taskId_placed, RoutineTask.position_placed own]
    have hid : a.taskId ∈ ids := perm.mem_iff.mpr (List.mem_map_of_mem ha)
    have hj := List.idxOf_lt_length_of_mem hid
    have hplace := placement_reorder nodup hj
    rw [List.getElem_idxOf hj] at hplace
    rw [hplace]
    exact ⟨hid, rfl⟩
  have ordered : IsOrdered byPosition _ (orderBy rank byPosition ((db.placed (.ofText routineId)
      (placement (reorderUpdates (ids.map (·.text)))) i.now).tasksOfRoutine (.ofText routineId))) :=
    orderBy_isOrdered byPosition_isPreorder _
  refine ⟨?_, ?_, ?_, ordered.perm, ?_, rfl⟩
  · exact fun moves first => ⟨i, reorder_runs i placed perm first⟩
  · intro j h
    obtain ⟨a, ha, hkey⟩ := mem_assigned.mp (perm.mem_iff.mp (List.getElem_mem h))
    have own : a.routineId = .ofText routineId := congrArg Prod.fst hkey
    have task : a.taskId = ids[j] := congrArg Prod.snd hkey
    refine ⟨_, List.mem_map_of_mem ha, (RoutineTask.key_placed a).trans hkey, ?_⟩
    rw [if_pos rfl, RoutineTask.position_placed own, task, placement_reorder nodup h]
    rfl
  · have same : ((orderBy rank byPosition ((db.placed (.ofText routineId)
        (placement (reorderUpdates (ids.map (·.text)))) i.now).tasksOfRoutine
          (.ofText routineId))).map (·.taskId)).Perm ids := by
      refine (ordered.perm.map _).trans ?_
      rw [Db.tasksOfRoutine_placed, List.map_map]
      have unmoved : ((fun a : RoutineTask => a.taskId) ∘ RoutineTask.placed (.ofText routineId)
          (placement (reorderUpdates (ids.map (·.text)))) i.now) = fun a => a.taskId :=
        funext fun a => RoutineTask.taskId_placed a
      rw [unmoved]
      exact perm.symm
    have sorted : ((orderBy rank byPosition ((db.placed (.ofText routineId)
        (placement (reorderUpdates (ids.map (·.text)))) i.now).tasksOfRoutine
          (.ofText routineId))).map (·.taskId)).Pairwise fun x y => ids.idxOf x ≤ ids.idxOf y := by
      refine List.pairwise_map.mpr (ordered.sorted.imp_of_mem fun {a b} ha hb hab => ?_)
      have hpa := (stands a (mem_orderBy.mp ha)).2
      have hpb := (stands b (mem_orderBy.mp hb)).2
      simp only [byPosition, decide_eq_true_eq] at hab
      omega
    have listed : ids.Pairwise fun x y => ids.idxOf x ≤ ids.idxOf y := by
      refine List.pairwise_iff_getElem.mpr fun j k hj hk hjk => ?_
      rw [nodup.idxOf_getElem j hj, nodup.idxOf_getElem k hk]
      exact hjk.le
    refine List.Perm.eq_of_pairwise ?_ sorted listed same
    intro x y hx _ hxy hyx
    exact (List.idxOf_inj (same.mem_iff.mp hx)).mp (Nat.le_antisymm hxy hyx)
  · refine ⟨_, Db.rows_placed db, fun a => ⟨RoutineTask.key_placed a, ?_, ?_⟩⟩
    · exact RoutineTask.targetDurationMinutes_placed a
    · exact RoutineTask.placed_other

/-- A release touches the locks alone, and its failure is swallowed. -/
theorem wp_quietRelease {allowed : Policy World Input Failure Label} {w : World}
    {key token : String} {Q : Except Failure Unit → World → Prop}
    (released : ∀ locks, Q (.ok ()) { w with locks }) :
    wp allowed ((Promise.releaseLock key token).handle fun _ => .done ()) Q w := by
  rw [wp_handle]
  apply Promise.wp_call
  · intro i _
    dsimp only
    split
    · exact released _
    · exact released w.locks
  · exact fun e _ => released w.locks

/-- The request runs to its end, and what it answers depends on the tasks it names alone. -/
theorem reorderTasks_alone {userId : Uuid} {w : World}
    (owner : ∃ a ∈ w.db.routines.rows, owned userId routineId a = true)
    (placed : WellPlaced (.ofText routineId) w.db) :
    wp undisturbed (reorderTasks userId routineId (ids.map (·.text))) (fun r v =>
      (ids.Perm (assigned routineId w.db) ∧
        ∃ rows, r = .ok rows ∧ Reordered routineId ids w.db v.db rows) ∨
      (¬ids.Perm (assigned routineId w.db) ∧ r = .error wrongTasks ∧ v.db = w.db)) w := by
  have never : ∀ {l : Label} {v : World} {e : Failure} {P : Prop}, undisturbed l v (.threw e) → P := by
    intro l v e P threw
    cases l <;> exact threw.elim
  unfold reorderTasks Promise.withCleanup findById
  simp only [bind_eq, pure_eq, throw_eq, tryCatch_eq, wp_bind, wp_handle]
  apply Promise.wp_read _ fun e threw => never threw
  intro i _
  obtain ⟨a, ha, hown⟩ := owner
  obtain ⟨row, hrow⟩ := Option.isSome_iff_exists.mp
    (List.find?_isSome.mpr ⟨a, ha, hown⟩)
  rw [hrow]
  dsimp only [onOk, Option.map_some]
  apply Promise.wp_call _ fun e threw => never threw
  intro j free
  have free : w.heldLock (reorderLockKey routineId) j.now = none := free
  simp only [free]
  dsimp only [onOk]
  rw [wp_bind, wp_handle, wp_bind]
  apply Promise.wp_read _ fun e threw => never threw
  intro k _
  dsimp only [onOk]
  have existing : ((orderBy k.rank (fun _ _ => true) (w.db.tasksOfRoutine (.ofText routineId))).map
      (·.taskId)).Perm (assigned routineId w.db) := (orderBy_perm _).map _
  have accepts : isSameSet (ids.map (·.text)) _ = true ↔ _ :=
    isSameSet_iff (existing.nodup_iff.mpr (assigned_nodup routineId w.db))
  rw [wp_ite]
  constructor
  · intro same
    have perm : ids.Perm (assigned routineId w.db) := (accepts.mp same).trans existing
    rw [wp_bind]
    apply Promise.wp_write
    · intro l u db _ rows
      obtain ⟨db', rows, h⟩ := bind_eq_ok rows
      cases h
      dsimp only [onOk]
      apply Promise.wp_read _ fun e threw => never threw
      intro m _
      dsimp only [onOk]
      rw [wp_bind]
      apply wp_quietRelease
      intro locks
      exact .inl ⟨perm, _, rfl, reordered_of_runs placed perm rows⟩
    · intro l e _ refused
      obtain ⟨db', runs⟩ := reorder_runs l placed perm (List.prefix_refl _)
      rw [reorderRows_eq, runs] at refused
      cases refused
    · exact fun e threw => never threw
  · intro other
    rw [wp_fail]
    dsimp only [onOk]
    rw [wp_bind]
    apply wp_quietRelease
    intro locks
    exact .inr ⟨fun perm => other (accepts.mpr (perm.trans existing.symm)), rfl, rfl⟩

end Alone

/-- Alone, a reorder is accepted iff it names each assigned task once; then the tasks stand at
`1..n` in its order, and else it answers 400 and writes no row. -/
theorem reorder_alone_exact {userId : Uuid} {routineId : String} {ids : List Uuid} {w v : World}
    {r : Except Failure (List RoutineTask)}
    (owner : ∃ a ∈ w.db.routines.rows, owned userId routineId a = true)
    (placed : WellPlaced (.ofText routineId) w.db)
    (ends : Ends undisturbed (reorderTasks userId routineId (ids.map (·.text))) w r v) :
    (ids.Perm (assigned routineId w.db) ∧
      ∃ rows, r = .ok rows ∧ Reordered routineId ids w.db v.db rows) ∨
    (¬ids.Perm (assigned routineId w.db) ∧ r = .error wrongTasks ∧ v.db = w.db) :=
  wp_ends (reorderTasks_alone owner placed) ends

section Sample

/-- `undisturbed`, as a test of one answer. -/
private def undisturbedBy : Label → World → Answer Input Failure → Bool
  | .acquireLock key, w, .took i => (w.heldLock key i.now).isNone
  | _, _, .took _ => true
  | _, _, .threw _ => false

private theorem undisturbedBy_sound (l : Label) (w : World) (x : Answer Input Failure)
    (permitted : undisturbedBy l w x = true) : undisturbed l w x := by
  cases l <;> cases x <;> simp_all [undisturbedBy, undisturbed]

private def exercise (id : Uuid) : Task := ⟨id, "Exercise", none, none, none, none, none, 0, 0⟩

private def linked (taskId : Uuid) (position : Int) : RoutineTask :=
  ⟨thirdId, taskId, position, some 10, 0, 0⟩

/-- A routine of `alice` with two tasks, at positions with a gap. -/
private def practised : World :=
  { World.signedUp with
    db := { World.signedUp.db with
      tasks := ⟨[exercise firstId, exercise secondId], by decide⟩
      routines := ⟨[⟨thirdId, alice, "Daily", .active, none, 0, 0⟩], by decide⟩
      routineTasks := ⟨[linked firstId 2, linked secondId 7], by decide⟩ } }

private def reorderCues : List (Cue Input Failure) := List.replicate 6 (took (.of bob 0))

private def swapped : World :=
  Async.after (reorderTasks alice thirdId.text ([secondId, firstId].map (·.text))) reorderCues
    practised

/-- The rows that the request returns. -/
private def swappedRows : List RoutineTask := [linked secondId 1, linked firstId 2]

private theorem swapped_ends : Ends undisturbed
    (reorderTasks alice thirdId.text ([secondId, firstId].map (·.text))) practised
    (.ok swappedRows) swapped :=
  Async.ends_after_fits undisturbedBy_sound (by decide +kernel) (by decide +kernel)

theorem reorder_alone_exact_swapped :
    ([secondId, firstId].Perm (assigned thirdId.text practised.db) ∧
      ∃ rows, (Except.ok swappedRows : Except Failure _) = .ok rows ∧
        Reordered thirdId.text [secondId, firstId] practised.db swapped.db rows) ∨
    (¬[secondId, firstId].Perm (assigned thirdId.text practised.db) ∧
      (Except.ok swappedRows : Except Failure _) = .error wrongTasks ∧ swapped.db = practised.db) := by
  have owner : ∃ a ∈ practised.db.routines.rows, owned alice thirdId.text a = true :=
    ⟨_, List.mem_cons_self, by decide +kernel⟩
  have placed : WellPlaced (.ofText thirdId.text) practised.db :=
    ⟨by decide +kernel, by decide +kernel, by decide +kernel⟩
  exact reorder_alone_exact owner placed swapped_ends

end Sample

end RoutinesService

end GuitarCoach
