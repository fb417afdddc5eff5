/- digest: The requests of a user cannot tell what others have from its not being there. -/

import GuitarCoach.Ownership.HiddenTasks
import GuitarCoach.Ownership.Runs

/-!
No request of a user is answered otherwise because of what others have. This is shown service by
service: a statement reads what the user sees, and one that writes comes after the checks that make
it so. From it, whatever a user can be answered they can be answered in every state they see alike.
-/

set_option autoImplicit false
set_option relaxedAutoImplicit false

namespace GuitarCoach

open Async (Answer Call EndsAlike Ends Policy onOk wp wp_bind)
open Async.Method (Calls calls_call calls_bind calls_handle calls_par bind_eq tryCatch_eq throw_eq
  pure_eq)
open Isolated (Passes passes_beside passes_read)
open Relational (Table orderBy)

section Requests

variable {new : Uuid → Prop} {userId : Uuid} {w : World} {db : Db}

/-! ### Routines -/

namespace RoutinesService

open Promise

theorem isolated_findById (fair : w.Fair new userId) (id : String) :
    Isolated new userId (findById userId id)
      (onOk (fun _ v => v = w ∧ w.db.HasRoutine userId (.ofText id)) fun _ _ => True) w := by
  have same : (w.db.seenBy userId).routines.rows.find? (owned userId id) =
      w.db.routines.rows.find? (owned userId id) :=
    Table.find?_restrict fun a _ own => decide_eq_true (owned_iff.mp own).2
  unfold findById
  rw [bind_eq]
  refine Isolated.readThen fair (fun i => ?_) (fun _ => trivial) fun i found read => ?_
  · rw [same]
    cases here : w.db.routines.rows.find? (owned userId id) with
    | none => rfl
    | some a =>
      have own := (owned_iff.mp (List.find?_some here)).2
      exact congrArg (fun b => Except.ok (some b))
        (Db.toRoutineResponse_seenBy (List.mem_of_find?_eq_some here) own)
  · cases found with
    | none => exact Isolated.fail fair trivial
    | some routine =>
      obtain ⟨a, here, -⟩ := Option.map_eq_some_iff.mp (Except.ok.inj read)
      have own := owned_iff.mp (List.find?_some here)
      exact Isolated.done fair ⟨rfl, a, List.mem_of_find?_eq_some here, own⟩

theorem isolated_create (fair : w.Fair new userId) (dto : CreateRoutineDto) :
    Isolated new userId (create userId dto) (fun _ _ => True) w := by
  unfold create
  rw [bind_eq]
  refine Isolated.andThen (Isolated.write fair (fun i may => ?_) (fun i a db h => ?_)
    (fun _ _ _ _ => trivial) fun _ => trivial) fun _ _ fair' => Isolated.done fair' trivial
  · cases hrow : dto.row userId i with
    | error e => rfl
    | ok row =>
      obtain ⟨own, hid⟩ := row_owner hrow
      have fresh : w.db.routines.has row.id = false := by
        rw [hid, Bool.eq_false_iff]
        exact fun there => (may 0).2.1 (.inr (.inr (.inl there)))
      show ((w.db.seenBy userId).insertRoutine row >>= fun db => pure (row, db)) =
        Except.map _ (w.db.insertRoutine row >>= fun db => pure (row, db))
      rw [Db.insertRoutine_seenBy fair.closed.intact own fresh]
      cases w.db.insertRoutine row <;> rfl
  · obtain ⟨row, hrow, h⟩ := bind_eq_ok h
    obtain ⟨db', added, h⟩ := bind_eq_ok h
    cases h
    obtain ⟨own, hid⟩ := row_owner hrow
    exact .addRoutine added ⟨rfl, i, 0, rfl, hid.symm⟩ (List.mem_singleton_self _) own

theorem isolated_findAll (fair : w.Fair new userId) (query : FindRoutinesQueryDto) :
    Isolated new userId (findAll userId query) (fun _ _ => True) w := by
  refine Isolated.loose (Isolated.of_calls fair (calls_bind (calls_par (passes_read fun _ i => ?_)
    (passes_read fun _ i => ?_)) fun _ => trivial))
  · exact congrArg (withSkip _ _) (findPage_seenBy query _ _ i.rank)
  · exact congrArg (fun l => Except.ok (List.length l))
      (Table.filter_restrict fun _ _ => selects_own)

theorem isolated_findRecent (fair : w.Fair new userId) (days : Nat) :
    Isolated new userId (findRecent userId days) (fun _ _ => True) w :=
  Isolated.loose (Isolated.read fair fun i =>
    congrArg Except.ok (findRecent_seenBy fair.closed (daysBefore i.now days) i.rank))

theorem isolated_update (fair : w.Fair new userId) (id : String) (dto : UpdateRoutineDto) :
    Isolated new userId (update userId id dto) (fun _ _ => True) w := by
  unfold update
  simp only [bind_eq, throw_eq]
  refine Isolated.after (R := fun count v => count ≠ 0 → v.db.HasRoutine userId (.ofText id))
    (Isolated.write fair (fun i _ => ?_) (fun i a db h => ?_) (fun i count db h => ?_)
      fun _ => trivial) fun count v fair' updated => ?_
  · split
    · have rows : (w.db.seenBy userId).routines.rows.filter (owned userId id) =
          w.db.routines.rows.filter (owned userId id) :=
        Table.filter_restrict fun a _ own => decide_eq_true (owned_iff.mp own).2
      rw [rows]
      have user : ∀ a, (dto.apply i.now a).userId = a.userId := fun _ => rfl
      rw [map_withTexts]
      exact congrArg (fun d => withTexts dto.texts (Except.ok (_, d)))
        (Db.updateRoutines_seenBy user).symm
    · rfl
  · split at h
    · obtain ⟨-, h⟩ := withTexts_eq_ok.mp h
      cases h
      exact .changeRoutines (fun _ => rfl) fun _ own => owned_user own
    · cases h
  · split at h
    · obtain ⟨-, h⟩ := withTexts_eq_ok.mp h
      cases h
      intro some
      obtain ⟨r, hr⟩ := List.exists_mem_of_length_pos (Nat.pos_of_ne_zero some)
      obtain ⟨hr, own⟩ := List.mem_filter.mp hr
      exact ⟨dto.apply i.now r, List.mem_map.mpr ⟨r, hr, if_pos own⟩, owned_iff.mp own⟩
    · cases h
  · split
    · exact Isolated.fail fair' trivial
    · next some =>
      have has := updated some
      refine Isolated.loose (Isolated.read fair' fun i => ?_)
      have found : (v.db.seenBy userId).routines.find (.ofText id) =
          v.db.routines.find (.ofText id) :=
        Table.find_restrict_of fun r hr same => decide_eq_true (has.own r hr same)
      rw [found]
      cases here : v.db.routines.find (.ofText id) with
      | none => rfl
      | some routine =>
        obtain ⟨there, same⟩ := Table.find_eq_some.mp here
        exact congrArg Except.ok (Db.toRoutineResponse_seenBy there (has.own _ there same))

theorem isolated_remove (fair : w.Fair new userId) (id : String) :
    Isolated new userId (remove userId id) (fun _ _ => True) w := by
  unfold remove
  rw [tryCatch_eq]
  refine Isolated.rethrow (fun e => ?_) (Isolated.write fair (fun i _ => ?_) (fun i a db h => ?_)
    (fun _ _ _ _ => trivial) fun _ => trivial)
  · split <;> exact ⟨_, rfl⟩
  · rw [removeRow_seenBy fair.closed]
    cases removeRow userId id w.db <;> rfl
  · obtain ⟨db'', removed, h⟩ := bind_eq_ok h
    cases h
    obtain ⟨deleted, r, hr, hid, own⟩ := removeRow_ok removed
    have has : w.db.HasRoutine userId (.ofText id) := ⟨r, hr, hid, own⟩
    exact .delete deleted { Db.onlyOf_nothing with
      routines := fun a ha there => has.own a ha (List.mem_singleton.mp there) }

theorem isolated_findTasks (fair : w.Fair new userId) (routineId : String) :
    Isolated new userId (findTasks userId routineId) (fun _ _ => True) w := by
  refine Isolated.after (isolated_findById fair routineId) fun _ v fair' found => ?_
  obtain ⟨rfl, has⟩ := found
  exact Isolated.loose (Isolated.read fair' fun i => congrArg Except.ok
    (Db.withTask_tasksOfRoutine fair'.closed has i.rank byPosition))

theorem isolated_assertTasksVisible (fair : w.Fair new userId) (taskIds : List String) :
    Isolated new userId (assertTasksVisible userId taskIds)
      (onOk (fun _ v => v = w ∧ ∀ id ∈ taskIds, ∀ a ∈ w.db.tasks.rows, a.id = .ofText id →
        visibleTo userId a = true) fun _ _ => True) w := by
  unfold assertTasksVisible
  rw [bind_eq]
  refine Isolated.readThen fair (fun _ => congrArg Except.ok (visible_seenBy _)) (fun _ => trivial)
    fun i visible read => ?_
  have counted := Except.ok.inj read
  split
  · exact Isolated.fail fair trivial
  · next all =>
    refine Isolated.done fair ⟨rfl, fun id hid a ha same => ?_⟩
    have covered := w.db.tasks.covers_of_length (taskIds.dedup.map Uuid.ofText)
      (visibleTo userId) (by rw [List.length_map, counted, not_not.mp all])
    obtain ⟨b, hb, seen⟩ := covered _ (List.mem_map_of_mem (List.mem_dedup.mpr hid))
    rw [Table.eq_of_key ha hb (same.trans seen.1.symm)]
    exact seen.2

theorem isolated_addTask (fair : w.Fair new userId) (routineId : String) (dto : AddRoutineTaskDto) :
    Isolated new userId (addTask userId routineId dto) (fun _ _ => True) w := by
  unfold addTask
  simp only [bind_eq, tryCatch_eq, pure_eq]
  refine Isolated.after (isolated_findById fair routineId) fun _ v fair' found => ?_
  obtain ⟨rfl, has⟩ := found
  refine Isolated.after (isolated_assertTasksVisible fair' _) fun _ u fair' checked => ?_
  obtain ⟨rfl, visible⟩ := checked
  have visible := visible dto.taskId (List.mem_singleton_self _)
  -- the write, at the position that is asked for or found
  have save : ∀ (h : Failure → Promise RoutineTask) position, (∀ e, ∃ e', h e = .fail e') →
      Isolated new userId ((write .routineTask .create
        (fun _ => { routines := [.ofText routineId], tasks := [.ofText dto.taskId] })
        (addRow routineId dto position)).handle h) (fun _ _ => True) u := by
    intro h position rethrows
    refine Isolated.rethrow rethrows (Isolated.write fair' (fun i _ => ?_) (fun i a db added => ?_)
      (fun _ _ _ _ => trivial) fun _ => trivial)
    · exact addRow_seenBy has visible position i
    · obtain ⟨rfl, added⟩ := addRow_ok added
      exact .addRoutineTask added (List.mem_singleton_self _) (List.mem_singleton_self _)
        has.own visible
  split
  · refine save _ _ fun e => ?_
    split <;> exact ⟨_, rfl⟩
  · refine Isolated.after (R := fun _ v => v = u) ?_ fun position v fair' same => ?_
    · unfold nextPosition
      rw [bind_eq]
      refine Isolated.readThen fair' (fun i => ?_) (fun _ => trivial)
        fun _ last _ => Isolated.done fair' rfl
      rw [Db.tasksOfRoutine_seenBy has]
    · subst same
      refine save _ _ fun e => ?_
      split <;> exact ⟨_, rfl⟩

theorem isolated_updateTask (fair : w.Fair new userId) (routineId taskId : String)
    (dto : UpdateRoutineTaskDto) :
    Isolated new userId (updateTask userId routineId taskId dto) (fun _ _ => True) w := by
  unfold updateTask
  simp only [bind_eq, tryCatch_eq]
  refine Isolated.after (isolated_findById fair routineId) fun _ v fair' found => ?_
  obtain ⟨rfl, has⟩ := found
  refine Isolated.rethrow (fun e => ?_) (Isolated.write fair' (fun i _ => ?_) (fun i a db h => ?_)
    (fun _ _ _ _ => trivial) fun _ => trivial)
  · split <;> exact ⟨_, rfl⟩
  · exact updateRow_seenBy has taskId dto i
  · obtain ⟨p, rfl, selects⟩ := updateRow_own h
    exact .changeRoutineTasks fun b _ held r hr same => has.own r hr (same.trans (selects b held))

theorem isolated_removeTask (fair : w.Fair new userId) (routineId taskId : String) :
    Isolated new userId (removeTask userId routineId taskId) (fun _ _ => True) w := by
  unfold removeTask
  simp only [bind_eq, tryCatch_eq]
  refine Isolated.after (isolated_findById fair routineId) fun _ v fair' found => ?_
  obtain ⟨rfl, has⟩ := found
  refine Isolated.rethrow (fun e => ?_) (Isolated.write fair' (fun i _ => ?_) (fun i a db h => ?_)
    (fun _ _ _ _ => trivial) fun _ => trivial)
  · split <;> exact ⟨_, rfl⟩
  · show (removeTaskRow routineId taskId (v.db.seenBy userId) >>= fun db => pure ((), db)) =
      Except.map _ (removeTaskRow routineId taskId v.db >>= fun db => pure ((), db))
    rw [removeTaskRow_seenBy fair'.closed has]
    cases removeTaskRow routineId taskId v.db <;> rfl
  · obtain ⟨db'', removed, h⟩ := bind_eq_ok h
    cases h
    refine .delete (removeTaskRow_delete removed)
      { Db.onlyOf_nothing with routineTasks := fun b _ there r hr same => has.own r hr ?_ }
    exact same.trans (congrArg Prod.fst (List.mem_singleton.mp there))

/-- A reorder leaves the routines as they are. -/
theorem reorderRows_routines {routineId : String} {taskIds : List String} {i : Input} {db' : Db}
    (h : reorderRows routineId taskIds i db = .ok db') : db'.routines = db.routines := by
  refine foldlM_keeps (R := fun d d' => d'.routines = d.routines) (fun _ => rfl) ?_
    (fun move _ d d' moved => ?_) h
  · intro a b c first second
    exact second.trans first
  · obtain ⟨⟨row, c⟩, updated, moved⟩ := bind_eq_ok moved
    cases moved
    exact updateRow_routines updated

theorem passes_acquireLock (key : String) (ttlMs : Nat) :
    (acquireLock key ttlMs).Calls (Passes new userId db) := by
  refine passes_beside fun x v => ?_
  cases x with
  | threw e => exact ⟨rfl, rfl, rfl⟩
  | took i =>
    have held : (v.seenBy userId).heldLock key i.now = v.heldLock key i.now := rfl
    simp only [Call.answer_took]
    rw [held]
    cases v.heldLock key i.now <;> exact ⟨rfl, rfl, rfl⟩

theorem passes_releaseLock (key token : String) :
    (releaseLock key token).Calls (Passes new userId db) := by
  refine passes_beside fun x v => ?_
  cases x with
  | threw e => exact ⟨rfl, rfl, rfl⟩
  | took i =>
    have held : (v.seenBy userId).heldLock key i.now = v.heldLock key i.now := rfl
    simp only [Call.answer_took]
    rw [held]
    split <;> exact ⟨rfl, rfl, rfl⟩

theorem isolated_reorderTasks (fair : w.Fair new userId) (routineId : String)
    (taskIds : List String) :
    Isolated new userId (reorderTasks userId routineId taskIds) (fun _ _ => True) w := by
  unfold reorderTasks
  simp only [bind_eq, tryCatch_eq, throw_eq, pure_eq]
  refine Isolated.after (isolated_findById fair routineId) fun _ v fair' found => ?_
  obtain ⟨rfl, has⟩ := found
  refine Isolated.passThen fair' (calls_handle (passes_acquireLock _ _) fun _ => trivial)
    fun token u fair' same => ?_
  have has : u.db.HasRoutine userId (.ofText routineId) := same ▸ has
  cases token with
  | none => exact Isolated.fail fair' trivial
  | some token =>
    refine Isolated.withCleanup ?_ fun u fair' => Isolated.loose (Isolated.of_calls fair'
      (calls_handle (passes_releaseLock _ _) fun _ => trivial))
    refine Isolated.readThen fair' (fun i => ?_) (fun _ => trivial) fun _ existing _ => ?_
    · rw [Db.tasksOfRoutine_seenBy has]
    · split
      · refine Isolated.after (R := fun _ y => y.db.HasRoutine userId (.ofText routineId))
          (Isolated.write fair' (fun i _ => ?_) (fun i a db h => ?_) (fun i a db h => ?_)
            fun _ => trivial) fun _ y fair' has => ?_
        · rw [reorderRows_seenBy has]
          cases reorderRows routineId taskIds i u.db <;> rfl
        · obtain ⟨db'', moved, h⟩ := bind_eq_ok h
          cases h
          exact reorderRows_effect moved has.own
        · obtain ⟨db'', moved, h⟩ := bind_eq_ok h
          cases h
          show db.HasRoutine userId (.ofText routineId)
          unfold Db.HasRoutine at has ⊢
          rw [reorderRows_routines moved]
          exact has
        · refine Isolated.loose (Isolated.read fair' fun i => ?_)
          rw [Db.tasksOfRoutine_seenBy has]
      · exact Isolated.fail fair' trivial

end RoutinesService

/-! ### Practice sessions -/

namespace PracticeSessionsService

open Promise

theorem isolated_findById (fair : w.Fair new userId) (id : String) :
    Isolated new userId (findById userId id)
      (onOk (fun _ v => v = w ∧ w.db.HasSession userId (.ofText id)) fun _ _ => True) w := by
  have same : (w.db.seenBy userId).practiceSessions.rows.find? (owned userId id) =
      w.db.practiceSessions.rows.find? (owned userId id) :=
    Table.find?_restrict fun a _ own => decide_eq_true (owned_iff.mp own).2
  unfold findById
  rw [bind_eq]
  refine Isolated.readThen fair (fun i => ?_) (fun _ => trivial) fun i found read => ?_
  · rw [same]
    cases here : w.db.practiceSessions.rows.find? (owned userId id) with
    | none => rfl
    | some a =>
      have own := (owned_iff.mp (List.find?_some here)).2
      exact congrArg (fun b => Except.ok (some b))
        (Db.withSessionTasks_seenBy fair.closed (List.mem_of_find?_eq_some here) own i.rank)
  · cases found with
    | none => exact Isolated.fail fair trivial
    | some session =>
      obtain ⟨a, here, -⟩ := Option.map_eq_some_iff.mp (Except.ok.inj read)
      have own := owned_iff.mp (List.find?_some here)
      exact Isolated.done fair ⟨rfl, a, List.mem_of_find?_eq_some here, own⟩

theorem isolated_findAll (fair : w.Fair new userId) (query : FindPracticeSessionsQueryDto) :
    Isolated new userId (findAll userId query) (fun _ _ => True) w := by
  refine Isolated.loose (Isolated.of_calls fair (calls_bind (calls_par
    (passes_read fun closed i => ?_) (passes_read fun _ i => ?_)) fun _ => trivial))
  · exact congrArg (withSkip _ _) (findPage_seenBy closed _ _ i.rank)
  · exact congrArg Except.ok count_seenBy

theorem isolated_findRecent (fair : w.Fair new userId) (days : Nat) :
    Isolated new userId (findRecent userId days) (fun _ _ => True) w :=
  Isolated.loose (Isolated.read fair fun i =>
    congrArg Except.ok (findRecent_seenBy fair.closed (daysBefore i.now days) i.rank))

theorem isolated_getTaskStats (fair : w.Fair new userId) (days : Nat) :
    Isolated new userId (getTaskStats userId days) (fun _ _ => True) w :=
  Isolated.loose (Isolated.read fair fun i =>
    congrArg (fun rows => Except.ok (rows.foldl (tally (daysBefore i.now days)) []))
      (getTaskStats_seenBy fair.closed i.rank))

theorem isolated_deleteByTitle (fair : w.Fair new userId) (title : String) :
    Isolated new userId (deleteByTitle userId title) (fun _ _ => True) w :=
  Isolated.write fair (fun _ _ => deleteRows_seenBy fair.closed title)
    (fun _ _ _ h => deleteRows_effect fair.closed h) (fun _ _ _ _ => trivial) fun _ => trivial

theorem isolated_create (fair : w.Fair new userId) (dto : CreatePracticeSessionDto) :
    Isolated new userId (create userId dto) (fun _ _ => True) w := by
  let taskIds := (dto.tasks.toOption.getD []).map (·.taskId)
  let Owns (v : World) := ∀ k ∈ dto.routineId.toOption.map Uuid.ofText, v.db.HasRoutine userId k
  let insert : Promise PracticeSessionResponseDto := .write .practiceSession .create
    (fun _ => {
      users := [userId]
      routines := (dto.routineId.toOption.map Uuid.ofText).toList
      tasks := taskIds.map Uuid.ofText })
    (createRows userId dto)
  -- the write, once the checks have passed
  have save : ∀ (h : Failure → Promise PracticeSessionResponseDto) v,
      (∀ e, ∃ e', h e = .fail e') → v.Fair new userId → Owns v →
      (∀ id ∈ taskIds, ∀ a ∈ v.db.tasks.rows, a.id = .ofText id → visibleTo userId a = true) →
      Isolated new userId (insert.handle h) (fun _ _ => True) v := by
    intro h v rethrows fair own seen
    have visible : ∀ task ∈ dto.tasks.toOption.getD [], ∀ a ∈ v.db.tasks.rows,
        a.id = .ofText task.taskId → visibleTo userId a = true :=
      fun task htask => seen _ (List.mem_map_of_mem htask)
    have effect : ∀ i a db, createRows userId dto i v.db = .ok (a, db) →
        Db.Effect {
          users := [userId]
          routines := (dto.routineId.toOption.map Uuid.ofText).toList
          tasks := taskIds.map Uuid.ofText }
          (Issued (.db .practiceSession .create) (.took i)) (some userId) v.db db := by
      intro i a db h
      refine createRows_effect h ⟨rfl, i, 0, rfl, rfl⟩ (List.mem_singleton_self _)
        (fun k hk => Option.mem_toList.mpr hk)
        (fun task htask => List.mem_map_of_mem (List.mem_map_of_mem htask)) (fun b hb same => ?_)
        visible
      exact (own b.id same).own b hb rfl
    refine Isolated.rethrow rethrows (Isolated.write fair (fun i may => ?_) effect
      (fun _ _ _ _ => trivial) fun _ => trivial)
    have fresh : v.db.practiceSessions.has (i.uuid 0) = false := by
      rw [Bool.eq_false_iff]
      exact fun there => (may 0).2.1 (.inr (.inr (.inr (.inl there))))
    exact createRows_seenBy fair.closed.intact fresh own visible
      fun a db h => (effect i a db h).closed_after fair.closed
  -- the check of the tasks, once that of the routine has passed
  have check : ∀ (h : Failure → Promise PracticeSessionResponseDto) v,
      (∀ e, ∃ e', h e = .fail e') → v.Fair new userId → Owns v →
      Isolated new userId (if taskIds ≠ [] then
        (RoutinesService.assertTasksVisible userId taskIds).bind fun _ => insert.handle h
        else insert.handle h) (fun _ _ => True) v := by
    intro h v rethrows fair own
    split
    · refine Isolated.after (RoutinesService.isolated_assertTasksVisible fair taskIds)
        fun _ u fair' checked => ?_
      obtain ⟨rfl, visible⟩ := checked
      exact save h u rethrows fair' own visible
    · next none =>
      refine save h v rethrows fair own fun id hid => ?_
      rw [not_not.mp none] at hid
      cases hid
  unfold create
  simp only [bind_eq, tryCatch_eq, throw_eq]
  split
  · next routineId hroutine =>
    refine Isolated.after (RoutinesService.isolated_findById fair routineId)
      fun _ v fair' found => ?_
    obtain ⟨rfl, has⟩ := found
    refine check _ v (fun e => ?_) fair' fun k hk => ?_
    · split <;> exact ⟨_, rfl⟩
    · rw [hroutine] at hk
      cases hk
      exact has
  · next other =>
    refine check _ w (fun e => ?_) fair fun k hk => ?_
    · split <;> exact ⟨_, rfl⟩
    · cases hroutine : dto.routineId with
      | value routineId => exact absurd hroutine (other routineId)
      | null =>
        rw [hroutine] at hk
        cases hk
      | absent =>
        rw [hroutine] at hk
        cases hk

end PracticeSessionsService

/-! ### Recordings -/

namespace RecordingsService

open Promise GcpStorageService

theorem passes_uploadObject (name : String) :
    (uploadObject name).Calls (Passes new userId db) := by
  have make : mkdtemp.Calls (Passes new userId db) :=
    passes_beside fun x _ => by cases x <;> exact ⟨rfl, rfl, rfl⟩
  have file : writeFile.Calls (Passes new userId db) :=
    passes_beside fun x _ => by cases x <;> exact ⟨rfl, rfl, rfl⟩
  have put : (bucketUpload name).Calls (Passes new userId db) :=
    passes_beside fun x _ => by cases x <;> exact ⟨rfl, rfl, rfl⟩
  have clean : rm.Calls (Passes new userId db) :=
    passes_beside fun x _ => by cases x <;> exact ⟨rfl, rfl, rfl⟩
  refine calls_bind make fun _ => calls_bind (calls_handle (calls_bind file fun _ => put)
    fun _ => calls_bind clean fun _ => trivial) fun _ => calls_bind clean fun _ => trivial

theorem passes_deleteObject (name : String) :
    (deleteObject name).Calls (Passes new userId db) :=
  passes_beside fun x _ => by cases x <;> exact ⟨rfl, rfl, rfl⟩

theorem isolated_upload (fair : w.Fair new userId) (practiceSessionId : String)
    (file : UploadedFile) :
    Isolated new userId (upload userId practiceSessionId file) (fun _ _ => True) w := by
  unfold upload
  simp only [bind_eq, tryCatch_eq, throw_eq, pure_eq]
  refine Isolated.after (PracticeSessionsService.isolated_findById fair practiceSessionId)
    fun _ v fair' found => ?_
  obtain ⟨rfl, has⟩ := found
  have names : randomUUID.Calls (Passes new userId v.db) :=
    passes_beside fun x _ => by cases x <;> exact ⟨rfl, rfl, rfl⟩
  refine Isolated.passThen fair' names fun uuid u fair' named => ?_
  refine Isolated.passThen fair' (passes_uploadObject _) fun _ x fair' uploaded => ?_
  have has : x.db.HasSession userId (.ofText practiceSessionId) := uploaded.trans named ▸ has
  refine Isolated.handle ((Isolated.write (Q := fun _ _ => True) fair' (fun i may => ?_)
    (fun i a db added => ?_) (fun _ _ _ _ => trivial) fun _ => trivial).weaken
      fun r y fair' _ => ?_)
  · have fresh : x.db.recordings.has (i.uuid 0) = false := by
      rw [Bool.eq_false_iff]
      exact fun there => (may 0).2.1 (.inr (.inr (.inr (.inr there))))
    exact createRow_seenBy fresh has
  · obtain ⟨rfl, added⟩ := createRow_ok added
    exact .addRecording added ⟨rfl, i, 0, rfl, rfl⟩ (List.mem_singleton_self _)
      (List.mem_singleton_self _) rfl has.own (isUnder_recording userId practiceSessionId uuid file)
  · cases r with
    | ok row => trivial
    | error e =>
      exact Isolated.loose (Isolated.of_calls fair' (calls_bind
        (calls_handle (passes_deleteObject _) fun _ => trivial) fun _ => trivial))

theorem isolated_findAllForSession (fair : w.Fair new userId) (practiceSessionId : String) :
    Isolated new userId (findAllForSession userId practiceSessionId) (fun _ _ => True) w := by
  refine Isolated.after (PracticeSessionsService.isolated_findById fair practiceSessionId)
    fun _ v fair' found => ?_
  obtain ⟨rfl, has⟩ := found
  refine Isolated.loose (Isolated.read fair' fun i => ?_)
  rw [ofSession_seenBy fair'.closed has]

theorem isolated_findOwnedRecording (fair : w.Fair new userId) (id : String) :
    Isolated new userId (findOwnedRecording userId id)
      (onOk (fun a v => v = w ∧ a ∈ w.db.recordings.rows ∧ a.userId = userId)
        fun _ _ => True) w := by
  have same : (w.db.seenBy userId).recordings.rows.find? (owned userId id) =
      w.db.recordings.rows.find? (owned userId id) :=
    Table.find?_restrict fun a _ own => decide_eq_true (owned_iff.mp own).2
  unfold findOwnedRecording
  rw [bind_eq]
  refine Isolated.readThen fair (fun _ => congrArg Except.ok same) (fun _ => trivial)
    fun i found read => ?_
  have here := Except.ok.inj read
  cases found with
  | none => exact Isolated.fail fair trivial
  | some recording =>
    have own := owned_iff.mp (List.find?_some here)
    exact Isolated.done fair ⟨rfl, List.mem_of_find?_eq_some here, own.2⟩

theorem isolated_getDownloadUrl (fair : w.Fair new userId) (expiresInSeconds : Nat) (id : String) :
    Isolated new userId (getDownloadUrl expiresInSeconds userId id) (fun _ _ => True) w := by
  refine Isolated.after (isolated_findOwnedRecording fair id) fun recording v fair' _ => ?_
  exact Isolated.loose (Isolated.of_calls fair'
    (passes_beside fun x _ => by cases x <;> exact ⟨rfl, rfl, rfl⟩))

theorem isolated_remove (fair : w.Fair new userId) (id : String) :
    Isolated new userId (remove userId id) (fun _ _ => True) w := by
  refine Isolated.after (isolated_findOwnedRecording fair id) fun recording v fair' found => ?_
  obtain ⟨rfl, there, own⟩ := found
  refine Isolated.passThen fair' (passes_deleteObject _) fun _ u fair' same => ?_
  have there : recording ∈ u.db.recordings.rows := same ▸ there
  refine Isolated.write fair' (fun i _ => ?_) (fun i a db h => ?_) (fun _ _ _ _ => trivial)
    fun _ => trivial
  · rw [removeRow_seenBy fair'.closed there own]
    cases removeRow recording.id u.db <;> rfl
  · obtain ⟨db'', removed, h⟩ := bind_eq_ok h
    cases h
    refine .delete (removeRow_delete removed)
      { Db.onlyOf_nothing with recordings := fun b hb gone => ?_ }
    rw [Table.eq_of_key hb there (List.mem_singleton.mp gone)]
    exact own

end RecordingsService

theorem UserRequest.isolated_run (settings : Settings) (fair : w.Fair new userId)
    (q : UserRequest) :
    Isolated new userId (q.run settings userId) (fun _ _ => True) w := by
  cases q with
  | findTasks query => exact TasksService.isolated_findAll fair settings.letters query
  | findTask id => exact TasksService.isolated_findById fair id
  | createRoutine dto => exact RoutinesService.isolated_create fair dto
  | findRoutines query => exact RoutinesService.isolated_findAll fair query
  | findRoutine id => exact (RoutinesService.isolated_findById fair id).loose
  | findRecentRoutines days => exact RoutinesService.isolated_findRecent fair days
  | updateRoutine id dto => exact RoutinesService.isolated_update fair id dto
  | removeRoutine id => exact RoutinesService.isolated_remove fair id
  | findRoutineTasks routineId => exact RoutinesService.isolated_findTasks fair routineId
  | assertTasksVisible taskIds =>
    exact (RoutinesService.isolated_assertTasksVisible fair taskIds).loose
  | addRoutineTask routineId dto => exact RoutinesService.isolated_addTask fair routineId dto
  | updateRoutineTask routineId taskId dto =>
    exact RoutinesService.isolated_updateTask fair routineId taskId dto
  | removeRoutineTask routineId taskId =>
    exact RoutinesService.isolated_removeTask fair routineId taskId
  | reorderRoutineTasks routineId taskIds =>
    exact RoutinesService.isolated_reorderTasks fair routineId taskIds
  | createSession dto => exact PracticeSessionsService.isolated_create fair dto
  | findSessions query => exact PracticeSessionsService.isolated_findAll fair query
  | findSession id => exact (PracticeSessionsService.isolated_findById fair id).loose
  | deleteSessionsByTitle title => exact PracticeSessionsService.isolated_deleteByTitle fair title
  | findRecentSessions days => exact PracticeSessionsService.isolated_findRecent fair days
  | getTaskStats days => exact PracticeSessionsService.isolated_getTaskStats fair days
  | uploadRecording practiceSessionId file =>
    exact RecordingsService.isolated_upload fair practiceSessionId file
  | findRecordings practiceSessionId =>
    exact RecordingsService.isolated_findAllForSession fair practiceSessionId
  | getDownloadUrl id => exact RecordingsService.isolated_getDownloadUrl fair _ id
  | removeRecording id => exact RecordingsService.isolated_remove fair id

end Requests

/-! ### What a user is answered -/

/-- What a user asks and is answered, one request after the other, from a state on. -/
inductive Dialogue (settings : Settings) (new : Uuid → Prop) (userId : Uuid) :
    World → List ((q : UserRequest) × Except Failure q.Result) → Prop
  | quiet (w : World) : Dialogue settings new userId w []
  | ask {w v : World} {q : UserRequest} {r : Except Failure q.Result}
      {rest : List ((q : UserRequest) × Except Failure q.Result)}
      (answered : Ends (reserved new) (q.run settings userId) w r v)
      (goes : Dialogue settings new userId v rest) : Dialogue settings new userId w (⟨q, r⟩ :: rest)

section Dialogues

variable {settings : Settings} {new : Uuid → Prop} {userId : Uuid} {v w : World}

/-- A request can be answered alike in two states that the user sees alike, and sees alike after. -/
theorem UserRequest.ends_seenBy {q : UserRequest} {r : Except Failure q.Result} {s : World}
    (run : Ends (reserved new) (q.run settings userId) v r s) (fair : v.Fair new userId)
    (fair' : w.Fair new userId) (same : v.seenBy userId = w.seenBy userId) :
    ∃ t, Ends (reserved new) (q.run settings userId) w r t ∧ s.Fair new userId ∧
      t.Fair new userId ∧ s.seenBy userId = t.seenBy userId := by
  have forth := (isolated_run settings fair q).forth
  have back := (isolated_run settings fair' q).back
  have back : Async.EndsAs (reserved new) (q.run settings userId) (q.run settings userId) _
    (w.seenBy userId, w) := back
  rw [← same] at back
  have across := forth.trans back (R := fun _ p => p.1.Fair new userId ∧ p.2.Fair new userId ∧
    p.1.seenBy userId = p.2.seenBy userId) fun r s m t h h' => ?_
  · exact across.ends run
  · obtain ⟨seen, fair, -⟩ := h
    obtain ⟨seen', fair', -⟩ := h'
    exact ⟨fair, fair', seen.symm.trans seen'⟩

theorem Dialogue.moves {asked : List ((q : UserRequest) × Except Failure q.Result)}
    (goes : Dialogue settings new userId v asked) (fair : v.Fair new userId)
    (fair' : w.Fair new userId) (same : v.seenBy userId = w.seenBy userId) :
    Dialogue settings new userId w asked := by
  induction goes generalizing w with
  | quiet v => exact .quiet w
  | ask answered _ ih =>
    obtain ⟨t, answered', fair, fair', same⟩ :=
      UserRequest.ends_seenBy answered fair fair' same
    exact .ask answered' (ih fair fair' same)

/-- Whatever others have, a user is asked and answered the same. -/
theorem Dialogue.others_unseen {asked : List ((q : UserRequest) × Except Failure q.Result)}
    (fair : v.Fair new userId) (fair' : w.Fair new userId)
    (same : v.seenBy userId = w.seenBy userId) :
    Dialogue settings new userId v asked ↔ Dialogue settings new userId w asked :=
  ⟨fun goes => goes.moves fair fair' same, fun goes => goes.moves fair' fair same.symm⟩

end Dialogues

theorem twoUsers_nodup : ([⟨alice, none⟩, ⟨bob, none⟩].map User.id).Nodup := by decide

/-- A private task of Bob's. -/
def bobsLesson : Task := ⟨firstId, "Bends", none, none, none, none, some bob, 0, 0⟩

theorem bobsLesson_nodup : ([bobsLesson].map Task.id).Nodup := by decide

/-- Alice and Bob have signed up, and Bob's task is cached. -/
def bobsDay : World := { World.signedUp with
  db := { World.signedUp.db with
    users := ⟨[⟨alice, none⟩, ⟨bob, none⟩], twoUsers_nodup⟩
    tasks := ⟨[bobsLesson], bobsLesson_nodup⟩ }
  cache := Function.update World.signedUp.cache (.task firstId.text) (some ⟨bobsLesson, true⟩) }

theorem signedUp_fair : World.signedUp.Fair (· = thirdId) alice where
  closed := by
    constructor <;> constructor <;> simp [World.signedUp, World.empty, Db.empty]
  owners _ _ he := by cases he
  users a ha _ := by
    obtain rfl := List.mem_singleton.mp ha
    rfl
  tasks _ ha := by cases ha
  routines _ ha := by cases ha
  practiceSessions _ ha := by cases ha
  recordings _ ha := by cases ha
  cached _ _ he := by cases he

theorem bobsDay_cached {s : String} {e : Entry (.task s)} (he : e ∈ bobsDay.cache (.task s)) :
    s = firstId.text ∧ e.value = bobsLesson := by
  have cache : bobsDay.cache = Function.update World.signedUp.cache (.task firstId.text)
    (some ⟨bobsLesson, true⟩) := rfl
  rw [cache] at he
  by_cases same : CacheKey.task s = .task firstId.text
  · obtain rfl := CacheKey.task.inj same
    rw [Function.update_self] at he
    cases he
    exact ⟨rfl, rfl⟩
  · rw [Function.update_of_ne same] at he
    cases he

theorem bobsDay_fair : bobsDay.Fair (· = thirdId) alice where
  closed := by
    constructor <;> constructor <;>
      simp [bobsDay, bobsLesson, World.signedUp, World.empty, Db.empty, Table.has]
  owners s e he a ha _ := by
    obtain rfl := List.mem_singleton.mp ha
    rw [(bobsDay_cached he).2]
  users a ha isNew := by
    rcases List.mem_cons.mp ha with rfl | ha
    · rfl
    · obtain rfl := List.mem_singleton.mp ha
      exact absurd isNew (by decide)
  tasks a ha isNew := by
    obtain rfl := List.mem_singleton.mp ha
    exact absurd isNew (by decide)
  routines _ ha := by cases ha
  practiceSessions _ ha := by cases ha
  recordings _ ha := by cases ha
  cached s e he isNew := by
    obtain ⟨rfl, -⟩ := bobsDay_cached he
    exact absurd isNew (by decide)

theorem bobsDay_seenBy : bobsDay.seenBy alice = World.signedUp.seenBy alice := by
  have hidden : (⟨bobsLesson, true⟩ : Entry (.task firstId.text)).visible alice = false := by decide
  have cache : (bobsDay.seenBy alice).cache = (World.signedUp.seenBy alice).cache :=
    congrArg World.cache (World.seenBy_update (w := World.signedUp) hidden fun d hd => by cases hd)
  have users : bobsDay.db.users.restrict (·.id = alice) =
      World.signedUp.db.users.restrict (·.id = alice) := by
    refine Table.ext_rows ?_
    rw [Table.rows_restrict, Table.rows_restrict]
    decide
  have tasks : bobsDay.db.tasks.restrict (visibleTo alice) =
      World.signedUp.db.tasks.restrict (visibleTo alice) := by
    refine Table.ext_rows ?_
    rw [Table.rows_restrict, Table.rows_restrict]
    decide
  have db : bobsDay.db.seenBy alice = World.signedUp.db.seenBy alice := by
    unfold Db.seenBy
    rw [users, tasks]
    rfl
  show { World.signedUp with
    db := bobsDay.db.seenBy alice, cache := (bobsDay.seenBy alice).cache } = _
  rw [db, cache]
  rfl

/-- Alice asks for Bob's task. -/
theorem bobsDay_unseen : ∃ asked, asked ≠ [] ∧
    Dialogue plainSettings (· = thirdId) alice bobsDay asked ∧
    Dialogue plainSettings (· = thirdId) alice World.signedUp asked := by
  have hidden : bobsDay.ShowsTask alice firstId.text false := by
    refine ⟨fun e he => ?_, fun a ha _ => ?_⟩
    · rw [(bobsDay_cached he).2]
      decide
    · obtain rfl := List.mem_singleton.mp ha
      decide
  have fresh : ¬bobsDay.db.HasId thirdId := by
    unfold Db.HasId
    decide +kernel
  have other : thirdId ≠ .ofText firstId.text := by decide
  have may : ∀ l, reserved (· = thirdId) l bobsDay (.took (.of thirdId 0)) := by
    intro l n
    refine ⟨rfl, fresh, fun s same => ?_⟩
    cases cached : bobsDay.cache (.task s) with
    | none => rfl
    | some e =>
      obtain ⟨rfl, -⟩ := bobsDay_cached cached
      exact absurd same other
  have asks : Dialogue plainSettings (· = thirdId) alice bobsDay
      [⟨.findTask firstId.text, .error (TasksService.taskNotFound firstId.text)⟩] :=
    .ask (TasksService.ends_findById_hidden hidden may) (.quiet _)
  have unseen := (Dialogue.others_unseen bobsDay_fair signedUp_fair bobsDay_seenBy).mp asks
  exact ⟨_, List.cons_ne_nil _ _, asks, unseen⟩

end GuitarCoach
