/- digest: The methods that write after a check, in runs in which others write in between. -/

import GuitarCoach.Ownership.Lasts

/-!
A request that links a task, logs a session or adds a recording writes after its checks, and by
then others have written too. What it has checked still holds of the ids: a row that had an owner
keeps it as long as it is there, and its id is never given to another row.
-/

set_option autoImplicit false
set_option relaxedAutoImplicit false

namespace GuitarCoach

open Async (Answer Call Keeping Run Safe onOk)
open Async.Method (Calls bind_eq tryCatch_eq throw_eq pure_eq)
open Relational (Lasting Table)

/-! ### What a request has seen -/

namespace Backend

variable (r : Backend) (t : Nat) (userId : Uuid)

/-- By `t` there was a routine of this id that was the user's. -/
def OwnedRoutine (id : String) : Prop :=
  ∃ s ≤ t, ∃ a ∈ (r.state s).db.routines.rows, a.id = .ofText id ∧ a.userId = userId

def OwnedSession (id : String) : Prop :=
  ∃ s ≤ t, ∃ a ∈ (r.state s).db.practiceSessions.rows, a.id = .ofText id ∧ a.userId = userId

/-- By `t` this recording was there, and was the user's. -/
def OwnedRecording (a : Recording) : Prop :=
  ∃ s ≤ t, a ∈ (r.state s).db.recordings.rows ∧ a.userId = userId

/-- By `t` there was a task of each of these ids that the user saw. -/
def SeenTasks (ids : List String) : Prop :=
  ∀ id ∈ ids, ∃ s ≤ t, ∃ a ∈ (r.state s).db.tasks.rows,
    a.id = .ofText id ∧ visibleTo userId a = true

variable {r t userId} {request : Nat → ServiceRequest} {u : Nat} {id : String} {ids : List String}

theorem OwnedRoutine.later (owned : r.OwnedRoutine t userId id) (later : t ≤ u) :
    r.OwnedRoutine u userId id := by
  obtain ⟨s, hs, a, ha⟩ := owned
  exact ⟨s, hs.trans later, a, ha⟩

theorem OwnedRecording.later {a : Recording} (owned : r.OwnedRecording t userId a) (later : t ≤ u) :
    r.OwnedRecording u userId a := by
  obtain ⟨s, hs, there⟩ := owned
  exact ⟨s, hs.trans later, there⟩

theorem SeenTasks.later (seen : r.SeenTasks t userId ids) (later : t ≤ u) :
    r.SeenTasks u userId ids := by
  intro id hid
  obtain ⟨s, hs, a, ha⟩ := seen id hid
  exact ⟨s, hs.trans later, a, ha⟩

theorem OwnedSession.later (owned : r.OwnedSession t userId id) (later : t ≤ u) :
    r.OwnedSession u userId id := by
  obtain ⟨s, hs, a, ha⟩ := owned
  exact ⟨s, hs.trans later, a, ha⟩

/-- What is there under the id is still the user's. -/
theorem OwnedRoutine.still (owned : r.OwnedRoutine t userId id) (lasts : r.Lasts request t)
    {a : Routine} (ha : a ∈ (r.state t).db.routines.rows) (hid : a.id = .ofText id) :
    a.userId = userId := by
  obtain ⟨s, hs, b, hb, hbid, rfl⟩ := owned
  exact (lasts.routines s hs b hb a ha (hbid.trans hid.symm)).symm

theorem OwnedSession.still (owned : r.OwnedSession t userId id) (lasts : r.Lasts request t)
    {a : PracticeSession} (ha : a ∈ (r.state t).db.practiceSessions.rows)
    (hid : a.id = .ofText id) : a.userId = userId := by
  obtain ⟨s, hs, b, hb, hbid, rfl⟩ := owned
  exact (lasts.practiceSessions s hs b hb a ha (hbid.trans hid.symm)).symm

theorem SeenTasks.still (seen : r.SeenTasks t userId ids) (lasts : r.Lasts request t) (hid : id ∈ ids)
    {a : Task} (ha : a ∈ (r.state t).db.tasks.rows) (same : a.id = .ofText id) :
    visibleTo userId a = true := by
  obtain ⟨s, hs, b, hb, hbid, visible⟩ := seen id hid
  have owner : b.ownerId = a.ownerId := lasts.tasks s hs b hb a ha (hbid.trans same.symm)
  unfold visibleTo at visible ⊢
  rwa [← owner]

end Backend

namespace Promise

variable {r : Backend} {inv : Nat → Prop} {i t : Nat} {α : Type}

/-- The value that a read returned was read at some time in between. -/
theorem safe_read {model : Model} {op : Operation} {f : Input → Db → Except Failure α}
    {Q : α → Nat → Prop}
    (found : ∀ inp s u a, t ≤ s → s ≤ u → f inp (r.state s).db = .ok a → inv u → Q a u)
    (kept : ∀ s x, inv s → r.CallsAt i s (.db model op) x → r.state (s + 1) = r.state s →
      inv (s + 1)) :
    Safe (r.anytime i inv) (read model op f) (onOk Q fun _ _ => True) t := by
  refine Safe.call fun u v x htu hu answered ready next => ?_
  obtain ⟨called, rfl⟩ := answered
  have same : r.state (u + 1) = r.state u := by
    refine Eq.trans next ?_
    cases x <;> rfl
  refine ⟨kept u x hu called same, fun w hvw hw => ?_⟩
  cases x with
  | threw e => trivial
  | took inp =>
    rw [Call.answer_took]
    dsimp only
    cases hf : f inp (r.state u).db with
    | error e =>
      have failed : f inp ((r.anytime i inv).state u).db = .error e := hf
      rw [failed]
      trivial
    | ok a =>
      have read : f inp ((r.anytime i inv).state u).db = .ok a := hf
      rw [read]
      exact found inp u w a htu (le_trans (Nat.le_succ u) hvw) hf hw

end Promise

/-- What every step of a fold keeps, the whole fold keeps. -/
theorem foldlM_invariant {ε α β : Type} {f : β → α → Except ε β} {P : β → Prop} {l : List α}
    {b b' : β} (start : P b) (step : ∀ a ∈ l, ∀ c c', P c → f c a = .ok c' → P c')
    (h : l.foldlM f b = .ok b') : P b' :=
  foldlM_keeps (R := fun c c' => P c → P c') (fun _ kept => kept)
    (fun first second kept => second (first kept))
    (fun a ha c c' stepped kept => step a ha c c' kept stepped) h start

section Requests

variable {request : Nat → ServiceRequest} {r : Backend} {i t : Nat}

theorem RoutinesService.safe_findById (userId : Uuid) (id : String) :
    Safe (r.anytime i (r.Lasts request)) (findById userId id)
      (onOk (fun _ u => r.OwnedRoutine u userId id) fun _ _ => True) t := by
  unfold findById
  rw [bind_eq]
  apply Safe.bind
  refine (Promise.safe_read (Q := fun found u => found.isSome → r.OwnedRoutine u userId id)
    (fun inp s u a _ hsu hf _ there => ?_)
    fun s x lasts called same => lasts.silent called rfl same).weaken fun res u _ h => ?_
  · obtain rfl := Except.ok.inj hf
    rw [Option.isSome_map] at there
    obtain ⟨b, found⟩ := Option.isSome_iff_exists.mp there
    have own := List.find?_some found
    rw [owned, Bool.and_eq_true, decide_eq_true_eq, decide_eq_true_eq] at own
    exact ⟨s, hsu, b, List.mem_of_find?_eq_some found, own⟩
  · cases res with
    | error e => trivial
    | ok found =>
      cases found with
      | none => exact fun _ _ _ => trivial
      | some routine => exact fun v huv _ => (h rfl).later huv

theorem PracticeSessionsService.safe_findById (userId : Uuid) (id : String) :
    Safe (r.anytime i (r.Lasts request)) (findById userId id)
      (onOk (fun _ u => r.OwnedSession u userId id) fun _ _ => True) t := by
  unfold findById
  rw [bind_eq]
  apply Safe.bind
  refine (Promise.safe_read (Q := fun found u => found.isSome → r.OwnedSession u userId id)
    (fun inp s u a _ hsu hf _ there => ?_)
    fun s x lasts called same => lasts.silent called rfl same).weaken fun res u _ h => ?_
  · obtain rfl := Except.ok.inj hf
    rw [Option.isSome_map] at there
    obtain ⟨b, found⟩ := Option.isSome_iff_exists.mp there
    have own := List.find?_some found
    rw [owned, Bool.and_eq_true, decide_eq_true_eq, decide_eq_true_eq] at own
    exact ⟨s, hsu, b, List.mem_of_find?_eq_some found, own⟩
  · cases res with
    | error e => trivial
    | ok found =>
      cases found with
      | none => exact fun _ _ _ => trivial
      | some session => exact fun v huv _ => (h rfl).later huv

theorem RoutinesService.safe_assertTasksVisible (userId : Uuid) (taskIds : List String) :
    Safe (r.anytime i (r.Lasts request)) (assertTasksVisible userId taskIds)
      (onOk (fun _ u => r.SeenTasks u userId taskIds) fun _ _ => True) t := by
  unfold assertTasksVisible
  rw [bind_eq]
  apply Safe.bind
  refine (Promise.safe_read (Q := fun visible u => visible = taskIds.dedup.length →
    r.SeenTasks u userId taskIds)
    (fun inp s u a _ hsu hf _ all id hid => ?_)
    fun s x lasts called same => lasts.silent called rfl same).weaken fun res u _ h => ?_
  · obtain rfl := Except.ok.inj hf
    -- two spellings of one id would be counted once
    have covered := (r.state s).db.tasks.covers_of_length (taskIds.dedup.map Uuid.ofText)
      (visibleTo userId) (by rw [List.length_map]; exact all)
    obtain ⟨a, ha, seen⟩ := covered _ (List.mem_map_of_mem (List.mem_dedup.mpr hid))
    exact ⟨s, hsu, a, ha, seen⟩
  · cases res with
    | error e => trivial
    | ok visible =>
      dsimp only [onOk]
      split
      · exact fun _ _ _ => trivial
      · next all => exact fun v huv _ => (h (not_not.mp all)).later huv

variable {settings : Settings} {actor : Option Uuid}

/-- A write of which something is known since `t`. -/
theorem BackendRun.safe_write (run : BackendRun settings request r)
    (acts : (request i).actor = actor) {α : Type} {model : Model} {op : Operation}
    {touched : Db → RowSet} {f : Input → Db → Except Failure (α × Db)}
    (effect : ∀ u inp a db, t ≤ u → r.Lasts request u → f inp (r.state u).db = .ok (a, db) →
      Db.Effect (touched (r.state u).db) (Issued (.db model op) (.took inp)) actor
        (r.state u).db db) :
    Safe (r.anytime i (r.Lasts request)) (Promise.write model op touched f) (fun _ _ => True) t := by
  refine Safe.call fun u v x htu lasts answered ready next => ?_
  obtain ⟨called, rfl⟩ := answered
  refine ⟨?_, fun _ _ _ => trivial⟩
  have lasts : r.Lasts request u := lasts
  cases x with
  | threw e => exact lasts.silent called rfl next
  | took inp =>
    cases hf : f inp (r.state u).db with
    | error e =>
      simp only [Call.answer_took, Run.anytime, Run.setting, hf] at next
      exact lasts.silent called rfl next
    | ok result =>
      obtain ⟨a, db⟩ := result
      have after : r.state (u + 1) = { r.state u with db } := by
        simpa only [Call.answer_took, Run.anytime, Run.setting, hf] using next
      have apart := World.apart_of_unlocked ready
      refine run.effect lasts called (.silent rfl) apart ?_ (by rw [after])
      rw [after, acts]
      exact effect u inp a db htu lasts hf

theorem keeping_done {inv : Nat → Prop} {α : Type} (a : α) :
    Keeping (r.anytime i inv) (.done a : Promise α) := fun _ _ _ _ => trivial

theorem keeping_fail {inv : Nat → Prop} {α : Type} (e : Failure) :
    Keeping (r.anytime i inv) (.fail e : Promise α) := fun _ _ _ _ => trivial

/-- A method that throws on the errors of another. -/
theorem keeping_rethrow {inv : Nat → Prop} {α : Type} {m : Promise α}
    {rethrow : Failure → Promise α} (rethrows : ∀ e, ∃ e', rethrow e = .fail e')
    (safe : Safe (r.anytime i inv) m (fun _ _ => True) t) :
    Safe (r.anytime i inv) (m.handle rethrow) (fun _ _ => True) t := by
  refine Safe.handle (safe.weaken fun res u _ _ => ?_)
  cases res with
  | ok a => trivial
  | error e =>
    obtain ⟨e', he⟩ := rethrows e
    rw [onOk, he]
    exact fun _ _ _ => trivial

/-- What is known goes on being known while another method runs. -/
theorem safe_knowing {inv : Nat → Prop} {α : Type} {m : Promise α} {Q : Except Failure α → Nat → Prop}
    (known : Nat → Prop) (later : ∀ t u, t ≤ u → known t → known u) (now : known t)
    (safe : Safe (r.anytime i inv) m Q t) :
    Safe (r.anytime i inv) m (fun res u => Q res u ∧ known u) t :=
  Safe.frame Run.anytime_passing later now safe

theorem safe_withCleanup {inv : Nat → Prop} {α : Type} {body : Promise α} {cleanup : Promise Unit}
    (safe : Safe (r.anytime i inv) body (fun _ _ => True) t)
    (cleans : Keeping (r.anytime i inv) cleanup) :
    Safe (r.anytime i inv) (Promise.withCleanup body cleanup) (fun _ _ => True) t := by
  unfold Promise.withCleanup
  rw [bind_eq, tryCatch_eq]
  refine Safe.bind (Safe.handle (safe.weaken fun res u _ _ => ?_))
  cases res with
  | ok a => exact cleans.bind (fun _ => keeping_done a) u
  | error e =>
    refine Safe.bind ((cleans u).weaken fun res v _ _ => ?_)
    cases res with
    | ok _ => exact fun _ _ _ => trivial
    | error e => trivial

namespace RoutinesService

variable {userId : Uuid} {routineId : String}

/-- The links of a routine that is the user's. -/
theorem links_own (own : r.OwnedRoutine t userId routineId) (lasts : r.Lasts request t)
    {a : RoutineTask} (routine : a.routineId = .ofText routineId) :
    ∀ b ∈ (r.state t).db.routines.rows, b.id = a.routineId → b.userId = userId :=
  fun _ hb same => own.still lasts hb (same.trans routine)

theorem keeping_addTask (run : BackendRun settings request r)
    (acts : (request i).actor = some userId) (routineId : String) (dto : AddRoutineTaskDto) :
    Keeping (r.anytime i (r.Lasts request)) (addTask userId routineId dto) := by
  -- the write, once the checks have passed
  have save : ∀ (m : Promise Int) (rethrow : Failure → Promise RoutineTask) t,
      Keeping (r.anytime i (r.Lasts request)) m → (∀ e, ∃ e', rethrow e = .fail e') →
      r.OwnedRoutine t userId routineId → r.SeenTasks t userId [dto.taskId] →
      Safe (r.anytime i (r.Lasts request)) (m.bind fun position =>
        (Promise.write .routineTask .create
          (fun _ => { routines := [.ofText routineId], tasks := [.ofText dto.taskId] })
          (addRow routineId dto position)).handle rethrow) (fun _ _ => True) t := by
    intro m rethrow t safe rethrows own seen
    have placed := safe_knowing
      (fun t => r.OwnedRoutine t userId routineId ∧ r.SeenTasks t userId [dto.taskId])
      (fun _ _ later h => ⟨h.1.later later, h.2.later later⟩) ⟨own, seen⟩ (safe t)
    refine Safe.bind (placed.weaken fun res v _ h => ?_)
    cases res with
    | error e => trivial
    | ok position =>
      obtain ⟨-, own, seen⟩ := h
      refine keeping_rethrow rethrows (run.safe_write acts fun u inp a db htu lasts h => ?_)
      obtain ⟨rfl, added⟩ := addRow_ok h
      refine .addRoutineTask added (List.mem_singleton_self _) (List.mem_singleton_self _)
        (links_own (own.later htu) lasts rfl) fun b hb same => ?_
      exact (seen.later htu).still lasts (List.mem_singleton_self _) hb same
  unfold addTask
  simp only [bind_eq, tryCatch_eq, pure_eq, throw_eq]
  refine Keeping.after (fun t => safe_findById userId routineId) fun routine u own => ?_
  have visible : Safe (r.anytime i (r.Lasts request)) (assertTasksVisible userId [dto.taskId])
      (onOk (fun _ u => r.SeenTasks u userId [dto.taskId]) fun _ _ => True) u :=
    safe_assertTasksVisible userId _
  have checks := safe_knowing (fun t => r.OwnedRoutine t userId routineId)
    (fun _ _ later own => own.later later) own
    visible
  refine Safe.bind (checks.weaken fun res v _ h => ?_)
  cases res with
  | error e => trivial
  | ok _ =>
    rw [onOk]
    split
    · refine save (.done _) _ v (fun _ _ _ _ => trivial) (fun e => ?_) h.2 h.1
      split <;> exact ⟨_, rfl⟩
    · refine save _ _ v (run.keeping acts (affects_nextPosition routineId)) (fun e => ?_) h.2 h.1
      split <;> exact ⟨_, rfl⟩

/-- An update of a routine task changes rows of that routine. -/
theorem updateRow_own {taskId : String} {dto : UpdateRoutineTaskDto} {inp : Input} {db db' : Db}
    {a : RoutineTask} (h : updateRow routineId taskId dto inp db = .ok (a, db')) :
    ∃ p, db' = { db with
        routineTasks := db.routineTasks.updateWhere p (dto.apply inp.now) fun _ => rfl } ∧
      ∀ b, p b = true → b.routineId = .ofText routineId := by
  unfold updateRow at h
  split at h
  · cases h
  · split at h
    · cases h
    · split at h
      · cases h
      · next row found =>
        dsimp only at h
        split at h
        · cases h
        · cases h
          obtain ⟨-, hkey⟩ := Table.find_eq_some.mp found
          refine ⟨_, rfl, fun b held => ?_⟩
          exact congrArg Prod.fst ((of_decide_eq_true held).trans hkey)

theorem keeping_updateTask (run : BackendRun settings request r)
    (acts : (request i).actor = some userId) (routineId taskId : String)
    (dto : UpdateRoutineTaskDto) :
    Keeping (r.anytime i (r.Lasts request)) (updateTask userId routineId taskId dto) := by
  unfold updateTask
  simp only [bind_eq, tryCatch_eq, throw_eq]
  refine Keeping.after (fun t => safe_findById userId routineId) fun routine u own => ?_
  refine keeping_rethrow (fun e => ?_) (run.safe_write acts fun v inp a db huv lasts h => ?_)
  · split <;> exact ⟨_, rfl⟩
  · obtain ⟨p, rfl, selects⟩ := updateRow_own h
    exact .changeRoutineTasks fun b _ held => links_own (own.later huv) lasts (selects b held)

theorem removeTaskRow_delete {taskId : String} {db db' : Db}
    (h : removeTaskRow routineId taskId db = .ok db') :
    db.delete { routineTasks := [(.ofText routineId, .ofText taskId)] } = .ok db' := by
  unfold removeTaskRow at h
  dsimp only at h
  split at h
  · exact h
  · cases h

theorem keeping_removeTask (run : BackendRun settings request r)
    (acts : (request i).actor = some userId) (routineId taskId : String) :
    Keeping (r.anytime i (r.Lasts request)) (removeTask userId routineId taskId) := by
  unfold removeTask
  simp only [bind_eq, tryCatch_eq, throw_eq]
  refine Keeping.after (fun t => safe_findById userId routineId) fun routine u own => ?_
  refine keeping_rethrow (fun e => ?_) (run.safe_write acts fun v inp a db huv lasts h => ?_)
  · split <;> exact ⟨_, rfl⟩
  · obtain ⟨db'', removed, h⟩ := bind_eq_ok h
    cases h
    refine .delete (removeTaskRow_delete removed)
      { Db.onlyOf_nothing with routineTasks := fun b hb there => ?_ }
    exact links_own (own.later huv) lasts (congrArg Prod.fst (List.mem_singleton.mp there))

/-- A reorder changes positions only, one update after the other. -/
theorem reorderRows_effect {touched : RowSet} {fresh : Uuid → Prop} {taskIds : List String}
    {inp : Input} {db db' : Db} (h : reorderRows routineId taskIds inp db = .ok db')
    (own : ∀ b ∈ db.routines.rows, b.id = .ofText routineId → b.userId = userId) :
    Db.Effect touched fresh (some userId) db db' := by
  have updates : db'.routines = db.routines ∧
      ((∀ b ∈ db.routines.rows, b.id = .ofText routineId → b.userId = userId) →
        Db.Effect touched fresh (some userId) db db') := by
    refine foldlM_keeps (R := fun d d' => d'.routines = d.routines ∧
      ((∀ b ∈ d.routines.rows, b.id = .ofText routineId → b.userId = userId) →
        Db.Effect touched fresh (some userId) d d'))
      (fun d => ⟨rfl, fun _ => .same _ d⟩) ?_ (fun move _ d d' moved => ?_) h
    · rintro a b c ⟨same, first⟩ ⟨same', second⟩
      exact ⟨same'.trans same, fun own => .trans (first own) (second (same ▸ own))⟩
    · obtain ⟨⟨row, c⟩, updated, moved⟩ := bind_eq_ok moved
      cases moved
      obtain ⟨p, rfl, selects⟩ := updateRow_own updated
      exact ⟨rfl, fun own => .changeRoutineTasks fun b _ held r hr same =>
        own r hr (same.trans (selects b held))⟩
  exact updates.2 own

theorem keeping_reorderTasks (run : BackendRun settings request r)
    (acts : (request i).actor = some userId) (routineId : String) (taskIds : List String) :
    Keeping (r.anytime i (r.Lasts request)) (reorderTasks userId routineId taskIds) := by
  have later : ∀ t u, t ≤ u → r.OwnedRoutine t userId routineId → r.OwnedRoutine u userId routineId :=
    fun _ _ later own => own.later later
  unfold reorderTasks
  simp only [bind_eq, tryCatch_eq]
  refine Keeping.after (fun t => safe_findById userId routineId) fun routine u own => ?_
  have locks : Keeping (r.anytime i (r.Lasts request))
      ((Promise.acquireLock (reorderLockKey routineId) reorderLockTtlMs).handle fun _ =>
        throw (serviceUnavailable "Reordering is temporarily unavailable")) :=
    Keeping.handle (run.keeping acts (Promise.affects_acquireLock _ _)) fun _ _ _ _ _ => trivial
  refine Safe.bind ((safe_knowing _ later own (locks u)).weaken fun res v _ h => ?_)
  cases res with
  | error e => trivial
  | ok token =>
    cases token with
    | none => exact fun _ _ _ => trivial
    | some token =>
      refine safe_withCleanup ?_ ?_
      · have reads := run.keeping acts (Promise.affects_read .routineTask .findMany fun inp db =>
          .ok (Relational.orderBy inp.rank (fun _ _ => true) (db.tasksOfRoutine (.ofText routineId))))
        refine Safe.bind ((safe_knowing _ later h.2 (reads v)).weaken fun res w _ h => ?_)
        cases res with
        | error e => trivial
        | ok existing =>
          rw [onOk]
          split
          · refine Safe.bind ((run.safe_write acts fun x inp a db hwx lasts h' => ?_).weaken
              fun res x _ _ => ?_)
            · obtain ⟨db'', moved, h'⟩ := bind_eq_ok h'
              cases h'
              exact reorderRows_effect moved fun b hb same => (h.2.later hwx).still lasts hb same
            · cases res with
              | error e => trivial
              | ok _ =>
                rw [onOk]
                exact run.keeping acts (Promise.affects_read _ _ _) x
          · exact fun _ _ _ => trivial
      · exact Keeping.handle (run.keeping acts (Promise.affects_releaseLock _ _))
          fun _ _ _ _ _ => trivial

end RoutinesService

namespace PracticeSessionsService

variable {userId : Uuid}

/-- A new session and its tasks, once the routine and the tasks have been checked. -/
theorem createRows_effect {dto : CreatePracticeSessionDto} {inp : Input}
    {response : PracticeSessionResponseDto} {touched : RowSet} {fresh : Uuid → Prop} {db db' : Db}
    (h : createRows userId dto inp db = .ok (response, db')) (new : fresh (inp.uuid 0))
    (user : userId ∈ touched.users)
    (routines : ∀ k ∈ dto.routineId.toOption.map Uuid.ofText, k ∈ touched.routines)
    (tasks : ∀ task ∈ dto.tasks.toOption.getD [], Uuid.ofText task.taskId ∈ touched.tasks)
    (own : ∀ a ∈ db.routines.rows, dto.routineId.toOption.map Uuid.ofText = some a.id →
      a.userId = userId)
    (seen : ∀ task ∈ dto.tasks.toOption.getD [], ∀ a ∈ db.tasks.rows,
      a.id = .ofText task.taskId → visibleTo userId a = true) :
    Db.Effect touched fresh (some userId) db db' := by
  obtain ⟨middle, added, linked⟩ := createRows_ok h
  refine .trans (.addSession added new user routines rfl own) ?_
  obtain ⟨practiceSessions, rfl, rows, -⟩ := Db.insertPracticeSession_ok added
  -- every session with the new id is the new session
  have mine : ∀ a ∈ practiceSessions.rows, a.id = inp.uuid 0 → a.userId = userId := by
    intro a ha same
    have there : dto.row userId inp ∈ practiceSessions.rows := by
      rw [rows]
      exact List.mem_append_right _ (List.mem_singleton_self _)
    rw [Table.eq_of_key ha there same]
    rfl
  have links : (db'.tasks = db.tasks ∧ db'.practiceSessions = practiceSessions) ∧
      Db.Effect touched fresh (some userId) { db with practiceSessions } db' := by
    refine foldlM_invariant (P := fun d => (d.tasks = db.tasks ∧ d.practiceSessions = practiceSessions) ∧
      Db.Effect touched fresh (some userId) { db with practiceSessions } d)
      ⟨⟨rfl, rfl⟩, .same _ _⟩ (fun task htask d d' sofar inserted => ?_) linked
    obtain ⟨⟨sameTasks, sameSessions⟩, effect⟩ := sofar
    refine ⟨?_, .trans effect (.addSessionTask inserted new (tasks task htask) ?_ ?_)⟩
    · obtain ⟨practiceSessionTasks, rfl, -⟩ := Db.insertPracticeSessionTask_ok inserted
      exact ⟨sameTasks, sameSessions⟩
    · rw [sameSessions]
      exact mine
    · rw [sameTasks]
      exact seen task htask
  exact links.2

theorem keeping_create (run : BackendRun settings request r)
    (acts : (request i).actor = some userId) (dto : CreatePracticeSessionDto) :
    Keeping (r.anytime i (r.Lasts request)) (create userId dto) := by
  let taskIds := (dto.tasks.toOption.getD []).map (·.taskId)
  let Owns t := ∀ id ∈ dto.routineId.toOption, r.OwnedRoutine t userId id
  have later : ∀ t u, t ≤ u → Owns t → Owns u := fun _ _ later own id hid => (own id hid).later later
  let insert : Promise PracticeSessionResponseDto := .write .practiceSession .create
    (fun _ => {
      users := [userId]
      routines := (dto.routineId.toOption.map Uuid.ofText).toList
      tasks := taskIds.map Uuid.ofText })
    (createRows userId dto)
  -- the write, once the checks have passed
  have save : ∀ (rethrow : Failure → Promise PracticeSessionResponseDto) t,
      (∀ e, ∃ e', rethrow e = .fail e') → Owns t → r.SeenTasks t userId taskIds →
      Safe (r.anytime i (r.Lasts request)) (insert.handle rethrow) (fun _ _ => True) t := by
    intro rethrow t rethrows own seen
    refine keeping_rethrow rethrows (run.safe_write acts fun u inp a db htu lasts h => ?_)
    refine createRows_effect h ⟨rfl, inp, 0, rfl, rfl⟩ (List.mem_singleton_self _)
      (fun k hk => Option.mem_toList.mpr hk)
      (fun task htask => List.mem_map_of_mem (List.mem_map_of_mem htask)) (fun b hb same => ?_)
      fun task htask b hb same => (seen.later htu).still lasts (List.mem_map_of_mem htask) hb same
    obtain ⟨id, hid, same⟩ := Option.map_eq_some_iff.mp same
    exact ((own id hid).later htu).still lasts hb same.symm
  -- the check of the tasks, once that of the routine has passed
  have check : ∀ (rethrow : Failure → Promise PracticeSessionResponseDto) t,
      (∀ e, ∃ e', rethrow e = .fail e') → Owns t →
      Safe (r.anytime i (r.Lasts request)) (if taskIds ≠ [] then
        (RoutinesService.assertTasksVisible userId taskIds).bind fun _ => insert.handle rethrow
        else insert.handle rethrow) (fun _ _ => True) t := by
    intro rethrow t rethrows own
    split
    · have visible : Safe (r.anytime i (r.Lasts request))
          (RoutinesService.assertTasksVisible userId taskIds)
          (onOk (fun _ u => r.SeenTasks u userId taskIds) fun _ _ => True) t :=
        RoutinesService.safe_assertTasksVisible userId _
      have checks := safe_knowing _ later own visible
      refine Safe.bind (checks.weaken fun res v _ h => ?_)
      cases res with
      | error e => trivial
      | ok _ => exact save rethrow v rethrows h.2 h.1
    · next none =>
      refine save rethrow t rethrows own fun id hid => ?_
      rw [not_not.mp none] at hid
      cases hid
  unfold create
  simp only [bind_eq, tryCatch_eq, throw_eq]
  split
  · next routineId hroutine =>
    refine Keeping.after (fun t => RoutinesService.safe_findById userId routineId)
      fun routine u own => check _ u (fun e => ?_) fun id hid => ?_
    · split <;> exact ⟨_, rfl⟩
    · rw [hroutine] at hid
      cases hid
      exact own
  · next other =>
    intro t
    refine check _ t (fun e => ?_) fun id hid => ?_
    · split <;> exact ⟨_, rfl⟩
    · cases hroutine : dto.routineId with
      | value routineId => exact absurd hroutine (other routineId)
      | null =>
        rw [hroutine] at hid
        cases hid
      | absent =>
        rw [hroutine] at hid
        cases hid

end PracticeSessionsService

namespace RecordingsService

variable {userId : Uuid}

theorem keeping_upload (run : BackendRun settings request r)
    (acts : (request i).actor = some userId) (practiceSessionId : String) (file : UploadedFile) :
    Keeping (r.anytime i (r.Lasts request)) (upload userId practiceSessionId file) := by
  have later : ∀ t u, t ≤ u → r.OwnedSession t userId practiceSessionId →
      r.OwnedSession u userId practiceSessionId := fun _ _ later own => own.later later
  unfold upload
  simp only [bind_eq, tryCatch_eq]
  refine Keeping.after (fun t => PracticeSessionsService.safe_findById userId practiceSessionId)
    fun session u own => ?_
  have names := run.keeping acts Promise.affects_randomUUID
  refine Safe.bind ((safe_knowing _ later own (names u)).weaken fun res v _ h => ?_)
  cases res with
  | error e => trivial
  | ok uuid =>
    have named := isUnder_recording userId practiceSessionId uuid file
    have uploads := run.keeping acts (GcpStorageService.affects_uploadObject named)
    refine Safe.bind ((safe_knowing _ later h.2 (uploads v)).weaken fun res w _ h => ?_)
    cases res with
    | error e => trivial
    | ok _ =>
      refine Safe.handle ((run.safe_write acts fun x inp a db hwx lasts h' => ?_).weaken
        fun res x _ _ => ?_)
      · obtain ⟨rfl, added⟩ := createRow_ok h'
        exact .addRecording added ⟨rfl, inp, 0, rfl, rfl⟩ (List.mem_singleton_self _)
          (List.mem_singleton_self _) rfl (fun b hb same => (h.2.later hwx).still lasts hb same)
          named
      · cases res with
        | ok row => trivial
        | error e =>
          refine Keeping.bind ?_ (fun _ => keeping_fail e) x
          exact Keeping.handle (run.keeping acts (GcpStorageService.affects_deleteObject named))
            fun _ => keeping_done ()

theorem removeRow_delete {id : Uuid} {db db' : Db} (h : removeRow id db = .ok db') :
    db.delete { recordings := [id] } = .ok db' := by
  unfold removeRow at h
  split at h
  · exact h
  · cases h

/-- The recording that is found is the user's as long as it is there. -/
theorem safe_findOwnedRecording (userId : Uuid) (id : String) :
    Safe (r.anytime i (r.Lasts request)) (findOwnedRecording userId id)
      (onOk (fun a u => r.OwnedRecording u userId a) fun _ _ => True) t := by
  unfold findOwnedRecording
  rw [bind_eq]
  apply Safe.bind
  refine (Promise.safe_read
    (Q := fun found u => ∀ a ∈ found, r.OwnedRecording u userId a)
    (fun inp s u a _ hsu hf _ b hb => ?_)
    fun s x lasts called same => lasts.silent called rfl same).weaken fun res u _ h => ?_
  · obtain rfl := Except.ok.inj hf
    have own := List.find?_some hb
    rw [owned, Bool.and_eq_true, decide_eq_true_eq, decide_eq_true_eq] at own
    exact ⟨s, hsu, List.mem_of_find?_eq_some hb, own.2⟩
  · cases res with
    | error e => trivial
    | ok found =>
      cases found with
      | none => exact fun _ _ _ => trivial
      | some a => exact fun v huv _ => (h a rfl).later huv

/-- What a recording of the user's is stored as. -/
theorem isUnder_recording_found {recording : Recording} (lasts : r.Lasts request t)
    (found : r.OwnedRecording t userId recording) : IsUnder userId recording.objectName := by
  obtain ⟨s, hs, there, rfl⟩ := found
  exact lasts.named s hs recording there

theorem keeping_getDownloadUrl (run : BackendRun settings request r)
    (acts : (request i).actor = some userId) (expiresInSeconds : Nat) (id : String) :
    Keeping (r.anytime i (r.Lasts request)) (getDownloadUrl expiresInSeconds userId id) := by
  unfold getDownloadUrl
  rw [bind_eq]
  refine Keeping.after (fun t => safe_findOwnedRecording userId id) fun recording u found => ?_
  refine Safe.of_later fun v later lasts => ?_
  have named := isUnder_recording_found lasts (found.later later)
  exact run.keeping acts (GcpStorageService.affects_getSignedDownloadUrl named _) v

theorem keeping_remove (run : BackendRun settings request r)
    (acts : (request i).actor = some userId) (id : String) :
    Keeping (r.anytime i (r.Lasts request)) (remove userId id) := by
  unfold remove
  simp only [bind_eq]
  refine Keeping.after (fun t => safe_findOwnedRecording userId id) fun recording u found => ?_
  have later : ∀ t u, t ≤ u → r.OwnedRecording t userId recording →
      r.OwnedRecording u userId recording := fun _ _ later found => found.later later
  refine Safe.of_later fun u' after lasts => ?_
  have found := later u u' after found
  have named := isUnder_recording_found lasts found
  have deletes := run.keeping acts (GcpStorageService.affects_deleteObject named)
  refine Safe.bind ((safe_knowing _ later found (deletes u')).weaken fun res v _ h => ?_)
  cases res with
  | error e => trivial
  | ok _ =>
    obtain ⟨-, s, hs, there, own⟩ := h
    rw [onOk]
    refine run.safe_write acts fun w inp a db hvw lasts h => ?_
    obtain ⟨db'', removed, h⟩ := bind_eq_ok h
    cases h
    refine .delete (removeRow_delete removed)
      { Db.onlyOf_nothing with recordings := fun b hb gone => ?_ }
    have same : recording.userId = b.userId :=
      lasts.recordings s (hs.trans hvw) recording there b hb (List.mem_singleton.mp gone).symm
    exact same.symm.trans own

end RecordingsService

end Requests

end GuitarCoach
