/- digest: The routine endpoints on a healthy database, and which requests end in a raw error. -/

import GuitarCoach.Routines.RoutineSpecs

set_option autoImplicit false
set_option relaxedAutoImplicit false

namespace GuitarCoach

open Async (Answer Cue Ends Policy wp onOk onOk_ok wp_bind wp_handle wp_ite wp_done wp_fail wp_ends)
open Async.Method (pure_eq throw_eq bind_eq tryCatch_eq)
open Relational (IsOrdered IsPreorder Table mem_orderBy orderBy orderBy_isOrdered)

/-- A 4xx `HttpException`. -/
def Failure.isClientError : Failure → Bool
  | .http .badRequest _ => true
  | .http .notFound _ => true
  | .http .conflict _ => true
  | _ => false

/-- An id that no row has yet, and that no task of a routine or a session refers to. -/
structure Db.Unused (id : Uuid) (db : Db) : Prop where
  routines : ∀ a ∈ db.routines.rows, a.id ≠ id
  routineTasks : ∀ a ∈ db.routineTasks.rows, a.routineId ≠ id
  practiceSessions : ∀ a ∈ db.practiceSessions.rows, a.id ≠ id
  practiceSessionTasks : ∀ a ∈ db.practiceSessionTasks.rows, a.practiceSessionId ≠ id

instance (id : Uuid) (db : Db) : Decidable (db.Unused id) :=
  decidable_of_iff ((∀ a ∈ db.routines.rows, a.id ≠ id) ∧
      (∀ a ∈ db.routineTasks.rows, a.routineId ≠ id) ∧
      (∀ a ∈ db.practiceSessions.rows, a.id ≠ id) ∧
      ∀ a ∈ db.practiceSessionTasks.rows, a.practiceSessionId ≠ id)
    ⟨fun ⟨routines, links, sessions, tasks⟩ => ⟨routines, links, sessions, tasks⟩,
      fun ⟨routines, links, sessions, tasks⟩ => ⟨routines, links, sessions, tasks⟩⟩

/-- No call fails, and a generated id is a new one. -/
def healthy : Policy World Input Failure Label
  | _, w, .took i => w.db.Unused (i.uuid 0)
  | _, _, .threw _ => False

/-- `healthy`, as a test of one answer. -/
def healthyBy : Label → World → Answer Input Failure → Bool
  | _, w, .took i => w.db.Unused (i.uuid 0)
  | _, _, .threw _ => false

theorem healthyBy_sound (l : Label) (w : World) (x : Answer Input Failure)
    (permitted : healthyBy l w x = true) : healthy l w x := by
  cases x with
  | took i => exact @of_decide_eq_true (w.db.Unused (i.uuid 0)) _ permitted
  | threw e => cases permitted

/-- `skip` of the page a query asks for. -/
def FindRoutinesQueryDto.skip (query : FindRoutinesQueryDto) : Nat :=
  skipOf (query.page.getD RoutinesService.defaultPage)
    (query.limit.getD RoutinesService.defaultLimit)

/-- In doubles the page before page `2 ^ 63` is itself beyond 64 bits. -/
example : fitsInt8 (skipOf (2 ^ 63) 1) = false := by decide +kernel

/-- The texts of a new routine. -/
def CreateRoutineDto.texts (dto : CreateRoutineDto) : List String :=
  dto.title :: dto.notes.toOption.toList

/-- A request to one of the endpoints. -/
inductive RoutineCall
  | create (dto : CreateRoutineDto)
  | findAll (query : FindRoutinesQueryDto)
  | update (id : String) (dto : UpdateRoutineDto)
  | addTask (routineId : String) (dto : AddRoutineTaskDto)
  | updateTask (routineId taskId : String) (dto : UpdateRoutineTaskDto)
  | removeTask (routineId taskId : String)

namespace RoutineCall

abbrev Result : RoutineCall → Type
  | create _ => RoutineResponseDto
  | findAll _ => Paginated RoutineResponseDto
  | update .. => RoutineResponseDto
  | addTask .. => RoutineTask
  | updateTask .. => RoutineTask
  | removeTask .. => Unit

def run (userId : Uuid) : (call : RoutineCall) → Promise call.Result
  | create dto => RoutinesService.create userId dto
  | findAll query => RoutinesService.findAll userId query
  | update id dto => RoutinesService.update userId id dto
  | addTask routineId dto => RoutinesService.addTask userId routineId dto
  | updateTask routineId taskId dto => RoutinesService.updateTask userId routineId taskId dto
  | removeTask routineId taskId => RoutinesService.removeTask userId routineId taskId

end RoutineCall

namespace RoutinesService

/-- The routine is there and belongs to the user. -/
def Owns (userId : Uuid) (routineId : String) (db : Db) : Prop :=
  ∃ row ∈ db.routines.rows, owned userId routineId row = true

/-- The user sees every task, and no task is named in two spellings. -/
structure AllVisible (userId : Uuid) (taskIds : List String) (db : Db) : Prop where
  spelling : (taskIds.dedup.map Uuid.ofText).Nodup
  visible : ∀ id ∈ taskIds, ∃ row ∈ db.tasks.rows,
    row.id = .ofText id ∧ visibleTo userId row = true

/-- The greatest position in a routine, 0 when it has no tasks. -/
def greatestPosition (routineId : String) (db : Db) : Int :=
  (((db.tasksOfRoutine (.ofText routineId)).map (·.position)).max?).getD 0

end RoutinesService

open RoutinesService (Owns AllVisible greatestPosition) in
/-- The values of a request are ones the columns take, as far as the request gets to a write. -/
def RoutineCall.Storable (userId : Uuid) (db : Db) : RoutineCall → Prop
  | .create dto =>
      dto.status ≠ .null ∧ dto.texts.all fitsText = true ∧ db.users.has userId = true
  | .findAll query => fitsInt8 query.skip = true
  | .update _ dto => dto.title ≠ .null ∧ dto.status ≠ .null ∧ dto.texts.all fitsText = true
  | .addTask routineId dto =>
      Owns userId routineId db → AllVisible userId [dto.taskId] db →
        fitsInt4 (dto.position.toOption.getD (greatestPosition routineId db + 1)) = true ∧
          dto.targetDurationMinutes.toOption.all fitsInt4 = true
  | .updateTask routineId _ dto =>
      Owns userId routineId db →
        dto.position ≠ .null ∧ dto.position.toOption.all fitsInt4 = true ∧
          dto.targetDurationMinutes.toOption.all fitsInt4 = true
  | .removeTask .. => True

/-- The request succeeded, or was answered with a 4xx exception. -/
def NoRawError {α : Type} (r : Except Failure α) : Prop :=
  ∀ e, r = .error e → e.isClientError = true

section Answers

variable {α : Type} {e : Failure}

@[simp] theorem noRawError_ok (a : α) : NoRawError (.ok a) := fun _ h => nomatch h

@[simp] theorem noRawError_error :
    NoRawError (.error e : Except Failure α) ↔ e.isClientError = true :=
  ⟨fun h => h e rfl, fun h _ same => Except.error.inj same ▸ h⟩

@[simp] theorem isClientError_badRequest (s : String) : (badRequest s).isClientError = true := rfl

@[simp] theorem isClientError_notFound (s : String) : (notFound s).isClientError = true := rfl

@[simp] theorem isClientError_conflict (s : String) : (conflict s).isClientError = true := rfl

end Answers

/-! ### What the calls do on a healthy database -/

section Healthy

variable {w : World}

theorem healthy_read {α : Type} {model : Model} {op : Operation}
    {f : Input → Db → Except Failure α} {Q : Except Failure α → World → Prop}
    (took : ∀ i, Q (f i w.db) w) : wp healthy (Promise.read model op f) Q w :=
  Promise.wp_read (fun i _ => took i) fun _ threw => threw.elim

theorem healthy_write {α : Type} {model : Model} {op : Operation} {touched : Db → RowSet}
    {f : Input → Db → Except Failure (α × Db)} {Q : Except Failure α → World → Prop}
    (took : ∀ i a db, w.db.Unused (i.uuid 0) → f i w.db = .ok (a, db) → Q (.ok a) { w with db })
    (refused : ∀ i e, w.db.Unused (i.uuid 0) → f i w.db = .error e → Q (.error e) w) :
    wp healthy (Promise.write model op touched f) Q w :=
  Promise.wp_write took refused fun _ threw => threw.elim

namespace RoutinesService

variable {userId : Uuid} {routineId : String}

theorem healthy_findById {Q : Except Failure RoutineResponseDto → World → Prop}
    (found : Owns userId routineId w.db → ∀ a, Q (.ok a) w)
    (missing : ¬Owns userId routineId w.db → Q (.error (routineNotFound routineId)) w) :
    wp healthy (findById userId routineId) Q w := by
  unfold findById
  simp only [bind_eq, wp_bind]
  apply healthy_read
  intro i
  cases hf : w.db.routines.rows.find? (owned userId routineId) with
  | none =>
    refine missing ?_
    rintro ⟨row, hrow, hown⟩
    exact List.find?_eq_none.mp hf row hrow hown
  | some row =>
    exact found ⟨row, List.mem_of_find?_eq_some hf, List.find?_some hf⟩ _

theorem healthy_assertTasksVisible {taskIds : List String}
    {Q : Except Failure Unit → World → Prop}
    (visible : AllVisible userId taskIds w.db → Q (.ok ()) w)
    (hidden : ¬AllVisible userId taskIds w.db →
      Q (.error (notFound "One or more tasks were not found")) w) :
    wp healthy (assertTasksVisible userId taskIds) Q w := by
  have counted : (w.db.tasks.rows.filter fun a =>
      a.id ∈ taskIds.dedup.map Uuid.ofText && visibleTo userId a).length = taskIds.dedup.length ↔
      AllVisible userId taskIds w.db := by
    rw [← List.length_map (f := Uuid.ofText), Table.length_eq_iff_covers]
    constructor
    · rintro ⟨spelling, covered⟩
      exact ⟨spelling, fun id hid => covered _ (List.mem_map_of_mem (List.mem_dedup.mpr hid))⟩
    · rintro ⟨spelling, all⟩
      refine ⟨spelling, fun k hk => ?_⟩
      obtain ⟨id, hid, rfl⟩ := List.mem_map.mp hk
      exact all id (List.mem_dedup.mp hid)
  unfold assertTasksVisible
  simp only [bind_eq, wp_bind]
  apply healthy_read
  intro i
  dsimp only [onOk]
  split
  · next other => exact hidden fun all => other (counted.mpr all)
  · next all => exact visible (counted.mp (not_not.mp all))

private theorem lastPositionFirst_isPreorder : IsPreorder lastPositionFirst where
  total a b := by
    simp only [lastPositionFirst, decide_eq_true_eq]
    omega
  trans a b c hab hbc := by
    simp only [lastPositionFirst, decide_eq_true_eq] at *
    omega

/-- The first row by descending position has the greatest one, whatever ties there are. -/
theorem head_lastPositionFirst (rank : Nat → Nat) (db : Db) :
    (orderBy rank lastPositionFirst (db.tasksOfRoutine (.ofText routineId))).head?.elim 0
      (·.position) = greatestPosition routineId db := by
  have ordered : IsOrdered lastPositionFirst (db.tasksOfRoutine (.ofText routineId))
      (orderBy rank lastPositionFirst (db.tasksOfRoutine (.ofText routineId))) :=
    orderBy_isOrdered lastPositionFirst_isPreorder _
  unfold greatestPosition
  cases hl : orderBy rank lastPositionFirst (db.tasksOfRoutine (.ofText routineId)) with
  | nil =>
    rw [hl] at ordered
    rw [ordered.perm.nil_eq.symm]
    rfl
  | cons a rest =>
    rw [hl] at ordered
    have greatest : ((db.tasksOfRoutine (.ofText routineId)).map (·.position)).max? =
        some a.position := by
      refine List.max?_eq_some_iff.mpr ⟨?_, fun p hp => ?_⟩
      · exact List.mem_map_of_mem (ordered.perm.mem_iff.mp List.mem_cons_self)
      · obtain ⟨b, hb, rfl⟩ := List.mem_map.mp hp
        rcases List.mem_cons.mp (ordered.perm.mem_iff.mpr hb) with rfl | hb
        · exact le_refl _
        · simpa [lastPositionFirst] using (List.pairwise_cons.mp ordered.sorted).1 b hb
    rw [greatest]
    rfl

theorem healthy_nextPosition {Q : Except Failure Int → World → Prop}
    (next : Q (.ok (greatestPosition routineId w.db + 1)) w) :
    wp healthy (nextPosition routineId) Q w := by
  unfold nextPosition
  simp only [bind_eq, pure_eq, wp_bind, wp_done]
  apply healthy_read
  intro i
  dsimp only [onOk]
  rw [head_lastPositionFirst]
  exact next

/-- A row that is new and whose user is there is added, if its texts can be stored. -/
theorem insertRoutine_unused {a : Routine} {db : Db} (unused : db.Unused a.id)
    (fits : a.texts.all fitsText = true) (user : db.users.has a.userId = true) :
    ∃ db', db.insertRoutine a = .ok db' := by
  have fresh : a.id ∉ db.routines.rows.map Routine.id := by
    intro taken
    obtain ⟨b, hb, same⟩ := List.mem_map.mp taken
    exact unused.routines b hb same
  obtain ⟨routines, hinsert, -⟩ := Table.insert_of_fresh fresh
  unfold Db.insertRoutine
  rw [withTexts_of_fits fits, hinsert]
  dsimp only
  rw [if_pos user]
  exact ⟨_, rfl⟩

theorem row_ok {dto : CreateRoutineDto} {i : Input} {a : Routine}
    (h : dto.row userId i = .ok a) :
    a.id = i.uuid 0 ∧ a.userId = userId ∧ a.texts = dto.texts ∧ dto.status ≠ .null := by
  unfold CreateRoutineDto.row at h
  split at h
  · cases h
  · next absent =>
    cases h
    exact ⟨rfl, rfl, rfl, by rw [absent]; simp⟩
  · next given =>
    cases h
    exact ⟨rfl, rfl, rfl, by rw [given]; simp⟩

theorem row_error {dto : CreateRoutineDto} {i : Input} {e : Failure}
    (h : dto.row userId i = .error e) : dto.status = .null ∧ e = .invalidInvocation := by
  unfold CreateRoutineDto.row at h
  split at h
  · next null =>
    cases h
    exact ⟨null, rfl⟩
  · cases h
  · cases h

theorem healthy_create {dto : CreateRoutineDto} {Q : Except Failure RoutineResponseDto → World → Prop}
    (created : ∀ i row db, dto.row userId i = .ok row → w.db.Unused (i.uuid 0) →
      dto.texts.all fitsText = true → w.db.users.has userId = true →
        w.db.insertRoutine row = .ok db → Q (.ok ⟨row, 0, 0⟩) { w with db })
    (null : dto.status = .null → Q (.error .invalidInvocation) w)
    (unfit : dto.status ≠ .null → dto.texts.all fitsText = false → Q (.error .invalidText) w)
    (unknown : dto.status ≠ .null → w.db.users.has userId = false →
      Q (.error (.prisma .P2003)) w) : wp healthy (create userId dto) Q w := by
  unfold create
  simp only [bind_eq, pure_eq, wp_bind, wp_done]
  apply healthy_write
  · intro i row db unused saved
    obtain ⟨a, hrow, saved⟩ := bind_eq_ok saved
    obtain ⟨db', hdb, saved⟩ := bind_eq_ok saved
    cases saved
    obtain ⟨-, user, texts, -⟩ := row_ok hrow
    obtain ⟨-, -, -, -, known⟩ := Db.insertRoutine_ok hdb
    rw [user] at known
    exact created i _ _ hrow unused (texts ▸ (withTexts_eq_ok.mp hdb).1) known hdb
  · intro i e unused refused
    cases hrow : dto.row userId i with
    | error e' =>
      rw [hrow] at refused
      obtain ⟨status, rfl⟩ := row_error hrow
      cases refused
      exact null status
    | ok a =>
      obtain ⟨id, user, texts, status⟩ := row_ok hrow
      rw [hrow] at refused
      have refused : (w.db.insertRoutine a >>= fun db => Except.ok (a, db)) = .error e := refused
      cases fits : dto.texts.all fitsText with
      | false =>
        have unread : w.db.insertRoutine a = .error .invalidText :=
          withTexts_of_not_fits (texts ▸ fits)
        rw [unread] at refused
        cases refused
        exact unfit status fits
      | true =>
        cases known : w.db.users.has userId with
        | true =>
          obtain ⟨db, hdb⟩ := insertRoutine_unused (id ▸ unused) (texts ▸ fits) (user ▸ known)
          rw [hdb] at refused
          cases refused
        | false =>
          have missing : w.db.insertRoutine a = .error (.prisma .P2003) := by
            have fresh : a.id ∉ w.db.routines.rows.map Routine.id := by
              intro taken
              obtain ⟨b, hb, same⟩ := List.mem_map.mp taken
              exact unused.routines b hb (same.trans id)
            obtain ⟨routines, hinsert, -⟩ := Table.insert_of_fresh fresh
            unfold Db.insertRoutine
            rw [withTexts_of_fits (texts ▸ fits), hinsert, user, known]
            rfl
          rw [missing] at refused
          cases refused
          exact unknown status known

/-- A link to a task that is there, at a position nobody has, is added. -/
theorem addRow_free {dto : AddRoutineTaskDto} {position : Int} {i : Input} {db : Db}
    (fits : fitsInt4 position = true ∧ dto.targetDurationMinutes.toOption.all fitsInt4 = true)
    (routine : db.routines.has (.ofText routineId) = true)
    (task : db.tasks.has (.ofText dto.taskId) = true)
    (free : ∀ b ∈ db.routineTasks.rows, b.routineId = .ofText routineId →
      b.position ≠ position ∧ b.taskId ≠ .ofText dto.taskId) :
    ∃ r, addRow routineId dto position i db = .ok r := by
  have inserted : ∀ a : RoutineTask, a.routineId = .ofText routineId →
      a.taskId = .ofText dto.taskId → a.position = position →
      ∃ db', db.insertRoutineTask a = .ok db' := by
    intro a hroutine htask hposition
    have fresh : a.key ∉ db.routineTasks.rows.map RoutineTask.key := by
      intro taken
      obtain ⟨b, hb, same⟩ := List.mem_map.mp taken
      have own : b.routineId = .ofText routineId := (congrArg Prod.fst same).trans hroutine
      exact (free b hb own).2 ((congrArg Prod.snd same).trans htask)
    have placed : ¬(db.routineTasks.rows.any fun b =>
        b.routineId = a.routineId && b.position = a.position) = true := by
      intro taken
      obtain ⟨b, hb, same⟩ := List.any_eq_true.mp taken
      rw [Bool.and_eq_true, decide_eq_true_iff, decide_eq_true_iff] at same
      exact (free b hb (same.1.trans hroutine)).1 (same.2.trans hposition)
    obtain ⟨links, hinsert, -⟩ := Table.insert_of_fresh fresh
    unfold Db.insertRoutineTask
    rw [if_neg placed, hinsert]
    dsimp only
    rw [hroutine, htask, routine, task]
    exact ⟨_, rfl⟩
  unfold addRow
  simp only
  rw [if_pos (Bool.and_eq_true_iff.mpr fits)]
  obtain ⟨db', hdb⟩ := inserted ⟨.ofText routineId, .ofText dto.taskId, position,
    dto.targetDurationMinutes.toOption, i.now, i.now⟩ rfl rfl rfl
  rw [hdb]
  exact ⟨_, rfl⟩

/-- A task with a position is added when nothing is in its way. -/
theorem healthy_addTask {taskId : String} {position : Int} {duration : Field Int}
    {Q : Except Failure RoutineTask → World → Prop} (owns : Owns userId routineId w.db)
    (visible : AllVisible userId [taskId] w.db)
    (adds : ∀ i, ∃ r, addRow routineId ⟨taskId, .value position, duration⟩ position i w.db = .ok r)
    (added : ∀ i row db, addRow routineId ⟨taskId, .value position, duration⟩ position i w.db =
      .ok (row, db) → Q (.ok row) { w with db }) :
    wp healthy (addTask userId routineId ⟨taskId, .value position, duration⟩) Q w := by
  unfold addTask
  simp only [bind_eq, tryCatch_eq, throw_eq, wp_bind]
  apply healthy_findById
  · intro _ a
    apply healthy_assertTasksVisible
    · intro _
      simp only [pure_eq, wp_done, onOk_ok, wp_handle]
      apply healthy_write
      · exact fun i row db _ saved => added i row db saved
      · intro i e _ refused
        obtain ⟨r, saved⟩ := adds i
        rw [saved] at refused
        cases refused
    · exact fun hidden => absurd visible hidden
  · exact fun other => absurd owns other

/-! ### One endpoint after the other -/

private theorem create_clean (dto : CreateRoutineDto) :
    wp healthy (create userId dto) (fun r _ => NoRawError r ↔ dto.status ≠ .null ∧
      dto.texts.all fitsText = true ∧ w.db.users.has userId = true) w := by
  apply healthy_create
  · intro i row db hrow _ fits user _
    exact iff_of_true (noRawError_ok _) ⟨(row_ok hrow).2.2.2, fits, user⟩
  · intro null
    exact iff_of_false (by simp [Failure.isClientError]) fun fine => fine.1 null
  · intro _ unfit
    refine iff_of_false (by simp [Failure.isClientError]) fun fine => ?_
    rw [unfit] at fine
    cases fine.2.1
  · intro _ unknown
    refine iff_of_false (by simp [Failure.isClientError]) fun fine => ?_
    rw [unknown] at fine
    cases fine.2.2

/-- One query of `Promise.all` that is refused makes the request fail with its error. -/
private theorem findAll_clean (query : FindRoutinesQueryDto) :
    wp healthy (findAll userId query)
      (fun r _ => NoRawError r ↔ fitsInt8 query.skip = true) w := by
  unfold findAll
  simp only [bind_eq, pure_eq, wp_bind, wp_done]
  cases fits : fitsInt8 query.skip with
  | true =>
    have page : ∀ {α : Type} (rows : α), withSkip (query.page.getD defaultPage)
        (query.limit.getD defaultLimit) rows = .ok rows := fun rows => if_pos fits
    simp only [page]
    refine Async.wp_par_call ?_ ?_
    · refine Promise.wp_call (fun _ _ => ?_) fun _ threw => threw.elim
      refine Promise.wp_call (fun _ _ => ?_) fun _ threw => threw.elim
      exact iff_of_true (noRawError_ok _) trivial
    · refine Promise.wp_call (fun _ _ => ?_) fun _ threw => threw.elim
      refine Promise.wp_call (fun _ _ => ?_) fun _ threw => threw.elim
      exact iff_of_true (noRawError_ok _) trivial
  | false =>
    have page : ∀ {α : Type} (rows : α), withSkip (query.page.getD defaultPage)
        (query.limit.getD defaultLimit) rows = .error .valueOutOfRange :=
      fun rows => if_neg (Bool.eq_false_iff.mp fits)
    simp only [page]
    refine Async.wp_par_call ?_ ?_
    · refine Promise.wp_call (fun _ _ => ?_) fun _ threw => threw.elim
      exact iff_of_false (by simp [Failure.isClientError]) (by simp)
    · refine Promise.wp_call (fun _ _ => ?_) fun _ threw => threw.elim
      refine Promise.wp_call (fun _ _ => ?_) fun _ threw => threw.elim
      exact iff_of_false (by simp [Failure.isClientError]) (by simp)

private theorem update_clean (id : String) (dto : UpdateRoutineDto) :
    wp healthy (update userId id dto) (fun r _ => NoRawError r ↔
      dto.title ≠ .null ∧ dto.status ≠ .null ∧ dto.texts.all fitsText = true) w := by
  have valid : dto.valid = true ↔ dto.title ≠ .null ∧ dto.status ≠ .null := by
    simp [UpdateRoutineDto.valid]
  rw [← and_assoc, ← valid]
  unfold update
  simp only [bind_eq, throw_eq, wp_bind]
  apply healthy_write
  · intro i count db _ updated
    split at updated
    swap
    · cases updated
    next accepted =>
    obtain ⟨fits, updated⟩ := withTexts_eq_ok.mp updated
    cases updated
    dsimp only [onOk]
    rw [wp_ite]
    constructor
    · intro none
      exact iff_of_true (noRawError_error.mpr rfl) ⟨accepted, fits⟩
    · intro some
      apply healthy_read
      intro j
      -- a row that was counted is still there
      obtain ⟨row, hrow⟩ := List.exists_mem_of_ne_nil _ (mt List.length_eq_zero_iff.mpr some)
      obtain ⟨hrow, hown⟩ := List.mem_filter.mp hrow
      have key : row.id = Uuid.ofText id := by
        simp only [owned, Bool.and_eq_true, decide_eq_true_eq] at hown
        exact hown.1
      have there : (w.db.routines.updateWhere (owned userId id) (dto.apply i.now)
          fun _ => rfl).has (Uuid.ofText id) = true :=
        Table.has_updateWhere (f := dto.apply i.now) (fun _ => rfl)
          (Table.has_iff.mpr ⟨row, hrow, key⟩)
      dsimp only
      split
      · exact iff_of_true (noRawError_ok _) ⟨accepted, fits⟩
      · next missing =>
        obtain ⟨a, ha, hkey⟩ := Table.has_iff.mp there
        exact absurd hkey (Table.find_eq_none.mp missing a ha)
  · intro i e _ refused
    split at refused
    · rcases withTexts_eq_error refused with ⟨unfit, rfl⟩ | stored
      · refine iff_of_false (by simp [Failure.isClientError]) fun fine => ?_
        rw [unfit] at fine
        cases fine.2
      · cases stored
    · next rejected =>
      cases refused
      refine iff_of_false (by simp [Failure.isClientError]) fun fine => ?_
      exact rejected fine.1

private theorem addRow_refused {dto : AddRoutineTaskDto} {position : Int} {i : Input} {db : Db}
    {e : Failure} (h : addRow routineId dto position i db = .error e) :
    (e = .valueOutOfRange ↔
      ¬(fitsInt4 position = true ∧ dto.targetDurationMinutes.toOption.all fitsInt4 = true)) ∧
      (e = .valueOutOfRange ∨ e = .prisma .P2002 ∨ e = .prisma .P2003) := by
  unfold addRow at h
  simp only at h
  by_cases fits : (fitsInt4 position && dto.targetDurationMinutes.toOption.all fitsInt4) = true
  · rw [if_pos fits] at h
    have refused : ∀ row : RoutineTask, (db.insertRoutineTask row >>= fun db =>
        (pure (row, db) : Except Failure (RoutineTask × Db))) = .error e →
          e = .prisma .P2002 ∨ e = .prisma .P2003 := by
      intro row h
      unfold Db.insertRoutineTask at h
      split at h
      · cases h
        exact .inl rfl
      · split at h
        · cases h
          exact .inl rfl
        · split at h
          · cases h
          · cases h
            exact .inr rfl
    rw [Bool.and_eq_true] at fits
    rcases refused _ h with rfl | rfl
    · simp [fits]
    · simp [fits]
  · rw [if_neg fits] at h
    cases h
    rw [Bool.and_eq_true] at fits
    simpa using fits

/-- The insert, with the translation of its errors. -/
private theorem addRow_clean {dto : AddRoutineTaskDto} {position : Int} {touched : Db → RowSet}
    {rethrow : Failure → Promise RoutineTask}
    (known : ∀ e, e = .prisma .P2002 ∨ e = .prisma .P2003 →
      ∃ e', rethrow e = .fail e' ∧ e'.isClientError = true)
    (raw : rethrow .valueOutOfRange = .fail .valueOutOfRange) :
    wp healthy ((Promise.write .routineTask .create touched
      (addRow routineId dto position)).handle rethrow) (fun r _ => NoRawError r ↔
        fitsInt4 position = true ∧ dto.targetDurationMinutes.toOption.all fitsInt4 = true) w := by
  rw [wp_handle]
  apply healthy_write
  · intro i row db _ added
    refine iff_of_true (noRawError_ok _) ?_
    by_contra overflow
    unfold addRow at added
    simp only at added
    rw [if_neg (by rwa [Bool.and_eq_true])] at added
    cases added
  · intro i e _ refused
    obtain ⟨range, kinds⟩ := addRow_refused refused
    dsimp only [onOk]
    rcases kinds with rfl | translated
    · rw [raw]
      exact iff_of_false (by simp [Failure.isClientError]) (range.mp rfl)
    · obtain ⟨e', he', client⟩ := known e translated
      rw [he']
      refine iff_of_true (noRawError_error.mpr client) ?_
      by_contra overflow
      rcases translated with rfl | rfl
      · cases range.mpr overflow
      · cases range.mpr overflow

private theorem addTask_clean (dto : AddRoutineTaskDto) :
    wp healthy (addTask userId routineId dto) (fun r _ => NoRawError r ↔
      (Owns userId routineId w.db → AllVisible userId [dto.taskId] w.db →
        fitsInt4 (dto.position.toOption.getD (greatestPosition routineId w.db + 1)) = true ∧
          dto.targetDurationMinutes.toOption.all fitsInt4 = true)) w := by
  unfold addTask
  simp only [bind_eq, pure_eq, tryCatch_eq, throw_eq, wp_bind]
  apply healthy_findById
  · intro owns a
    dsimp only [onOk]
    apply healthy_assertTasksVisible
    · intro visible
      have reached : ∀ {P : Prop},
          (Owns userId routineId w.db → AllVisible userId [dto.taskId] w.db → P) ↔ P :=
        ⟨fun h => h owns visible, fun h _ _ => h⟩
      simp only [reached]
      dsimp only [onOk]
      cases dto.position with
      | value position =>
        simp only [Async.Method.done_bind, Field.toOption, Option.getD_some]
        refine addRow_clean ?_ rfl
        rintro e (rfl | rfl)
        · exact ⟨_, rfl, rfl⟩
        · exact ⟨_, rfl, rfl⟩
      | absent =>
        simp only [wp_bind, Field.toOption, Option.getD_none]
        apply healthy_nextPosition
        dsimp only [onOk]
        refine addRow_clean ?_ rfl
        rintro e (rfl | rfl)
        · exact ⟨_, rfl, rfl⟩
        · exact ⟨_, rfl, rfl⟩
      | null =>
        simp only [wp_bind, Field.toOption, Option.getD_none]
        apply healthy_nextPosition
        dsimp only [onOk]
        refine addRow_clean ?_ rfl
        rintro e (rfl | rfl)
        · exact ⟨_, rfl, rfl⟩
        · exact ⟨_, rfl, rfl⟩
    · intro hidden
      exact iff_of_true (noRawError_error.mpr rfl) fun _ visible => absurd visible hidden
  · intro other
    exact iff_of_true (noRawError_error.mpr rfl) fun owns => absurd owns other

private theorem updateTask_clean (taskId : String) (dto : UpdateRoutineTaskDto) :
    wp healthy (updateTask userId routineId taskId dto) (fun r _ => NoRawError r ↔
      (Owns userId routineId w.db →
        dto.position ≠ .null ∧ dto.position.toOption.all fitsInt4 = true ∧
          dto.targetDurationMinutes.toOption.all fitsInt4 = true)) w := by
  unfold updateTask
  simp only [bind_eq, tryCatch_eq, throw_eq, wp_bind, wp_handle]
  apply healthy_findById
  · intro owns a
    have exact_ : ∀ {P : Prop}, (Owns userId routineId w.db → P) ↔ P :=
      ⟨fun h => h owns, fun h _ => h⟩
    rw [exact_]
    dsimp only [onOk]
    by_cases null : dto.position = .null
    · apply healthy_write
      · intro i row db _ updated
        unfold updateRow at updated
        rw [if_pos null] at updated
        cases updated
      · intro i e _ refused
        unfold updateRow at refused
        rw [if_pos null] at refused
        cases refused
        exact iff_of_false (by simp [Failure.isClientError]) fun fits => fits.1 null
    by_cases fits : (dto.position.toOption.all fitsInt4 &&
        dto.targetDurationMinutes.toOption.all fitsInt4) = false
    · apply healthy_write
      · intro i row db _ updated
        unfold updateRow at updated
        rw [if_neg null, if_pos fits] at updated
        cases updated
      · intro i e _ refused
        unfold updateRow at refused
        rw [if_neg null, if_pos fits] at refused
        cases refused
        refine iff_of_false (by simp [Failure.isClientError]) fun all => ?_
        rw [all.2.1, all.2.2] at fits
        cases fits
    have storable : dto.position ≠ .null ∧ dto.position.toOption.all fitsInt4 = true ∧
        dto.targetDurationMinutes.toOption.all fitsInt4 = true := by
      rw [Bool.not_eq_false, Bool.and_eq_true] at fits
      exact ⟨null, fits⟩
    apply healthy_write
    · intro i row db _ updated
      exact iff_of_true (noRawError_ok _) storable
    · intro i e _ refused
      unfold updateRow at refused
      rw [if_neg null, if_neg fits] at refused
      dsimp only [onOk]
      split at refused
      · cases refused
        exact iff_of_true (noRawError_error.mpr rfl) storable
      · dsimp only at refused
        split at refused
        · cases refused
          exact iff_of_true (noRawError_error.mpr rfl) storable
        · cases refused
  · intro other
    exact iff_of_true (noRawError_error.mpr rfl) fun owns => absurd owns other

private theorem removeTask_clean (taskId : String) :
    wp healthy (removeTask userId routineId taskId) (fun r _ => NoRawError r) w := by
  unfold removeTask
  simp only [bind_eq, tryCatch_eq, throw_eq, wp_bind, wp_handle]
  apply healthy_findById
  · intro owns a
    dsimp only [onOk]
    apply healthy_write
    · intro i row db _ removed
      exact noRawError_ok _
    · intro i e _ refused
      unfold removeTaskRow at refused
      dsimp only at refused
      split at refused
      · -- nothing refers to the row of a routine task
        unfold Db.delete at refused
        rw [if_neg (by simp [Db.references])] at refused
        cases refused
      · cases refused
        exact noRawError_error.mpr rfl
  · exact fun other => noRawError_error.mpr rfl

end RoutinesService

/-- The specification of one request, by the endpoint it goes to. -/
theorem RoutineCall.clean_wp (userId : Uuid) (call : RoutineCall) :
    wp healthy (call.run userId) (fun r _ => NoRawError r ↔ call.Storable userId w.db) w := by
  cases call with
  | create dto => exact RoutinesService.create_clean dto
  | findAll query => exact RoutinesService.findAll_clean query
  | update id dto => exact RoutinesService.update_clean id dto
  | addTask routineId dto => exact RoutinesService.addTask_clean dto
  | updateTask routineId taskId dto => exact RoutinesService.updateTask_clean taskId dto
  | removeTask routineId taskId =>
    exact Async.wp_mono (RoutinesService.removeTask_clean taskId) fun r _ clean =>
      iff_of_true clean trivial

end Healthy

/-- In any state, a request succeeds or is answered with a 4xx exception exactly when the
columns take the values it would write. -/
theorem routine_call_clean_iff {userId : Uuid} {call : RoutineCall} {w w' : World}
    {r : Except Failure call.Result} (ends : Ends healthy (call.run userId) w r w') :
    NoRawError r ↔ call.Storable userId w.db :=
  wp_ends (RoutineCall.clean_wp userId call) ends

section Sample

/-- A routine of `alice` without tasks. -/
private def daily : World :=
  { World.signedUp with
    db := { World.signedUp.db with
      routines := ⟨[⟨thirdId, alice, "Scales", .active, none, 0, 0⟩], by decide⟩ } }

private def untitled : UpdateRoutineDto := ⟨.null, .absent, .absent⟩

private def retitled : UpdateRoutineDto := ⟨.value "Evening", .absent, .absent⟩

private def retitledCues : List (Cue Input Failure) := List.replicate 2 (took (.of bob 0))

private def evening : RoutineResponseDto :=
  ⟨⟨thirdId, alice, "Evening", .active, none, 0, 0⟩, 0, 0⟩

private theorem retitled_ends : Ends healthy (RoutinesService.update alice thirdId.text retitled)
    daily (.ok evening)
    (Async.after (RoutinesService.update alice thirdId.text retitled) retitledCues daily) :=
  Async.ends_after_fits healthyBy_sound (by decide +kernel) (by decide +kernel)

theorem routine_call_clean_iff_retitled :
    NoRawError (.ok evening) ↔ (RoutineCall.update thirdId.text retitled).Storable alice daily.db :=
  @routine_call_clean_iff alice (.update thirdId.text retitled) _ _ _ retitled_ends

private theorem untitled_ends : Ends healthy (RoutinesService.update alice thirdId.text untitled)
    daily (.error .invalidInvocation) daily := by
  have unused : daily.db.Unused bob := by decide +kernel
  refine Ends.bind_error (Promise.ends_write_refused (i := .of bob 0) unused ?_)
  rfl

/-- `title: null` passes the DTO of an update and reaches the required column. -/
theorem update_leaks_raw_error :
    ¬∀ userId (call : RoutineCall) w r w', Ends healthy (call.run userId) w r w' →
      NoRawError r := by
  intro claim
  have client := claim alice (.update thirdId.text untitled) daily _ _ untitled_ends
  rw [noRawError_error] at client
  cases client

end Sample

end GuitarCoach
