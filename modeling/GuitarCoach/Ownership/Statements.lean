/- digest: The statements of the services do on what a user sees what they do on all tables. -/

import GuitarCoach.Ownership.Checks
import GuitarCoach.Ownership.SeenBy

set_option autoImplicit false
set_option relaxedAutoImplicit false

namespace GuitarCoach

open Relational (Table orderBy window)

variable {userId : Uuid} {db : Db}

/-- What each step of a checked loop does to what is seen, the whole loop does. -/
theorem foldlM_seenBy {ω : Type} {f : Db → ω → Except Failure Db} {P : Db → Prop} {l : List ω}
    (step : ∀ a ∈ l, ∀ d, P d → f (d.seenBy userId) a = (f d a).map (Db.seenBy userId))
    (keeps : ∀ a ∈ l, ∀ d d', P d → f d a = .ok d' → P d') (start : P db) :
    l.foldlM f (db.seenBy userId) = (l.foldlM f db).map (Db.seenBy userId) := by
  induction l generalizing db with
  | nil => rfl
  | cons a l ih =>
    rw [List.foldlM_cons, List.foldlM_cons, step a List.mem_cons_self db start]
    cases first : f db a with
    | error e => rfl
    | ok d =>
      exact ih (fun b hb => step b (List.mem_cons_of_mem a hb))
        (fun b hb => keeps b (List.mem_cons_of_mem a hb))
        (keeps a List.mem_cons_self db d start first)

/-- A page of rows that are all seen. -/
theorem mem_page {ρ : Type} {skip take : Nat} {rank : Nat → Nat} {le : ρ → ρ → Bool}
    {rows : List ρ} {a : ρ} (ha : a ∈ window skip take (orderBy rank le rows)) : a ∈ rows :=
  Relational.mem_orderBy.mp (List.mem_of_mem_drop (List.mem_of_mem_take ha))

namespace TasksService

theorem selects_visible {letters : Letters} {query : FindTasksQueryDto} {a : Task}
    (selected : selects letters query a = true) : visibleTo userId a = true := by
  unfold selects sharedTask at selected
  simp only [Bool.and_eq_true, decide_eq_true_eq] at selected
  rw [visibleTo, selected.1.1.1]
  rfl

theorem findPage_seenBy (letters : Letters) (query : FindTasksQueryDto) (page limit : Nat)
    (rank : Nat → Nat) : findPage letters query page limit rank (db.seenBy userId) =
      findPage letters query page limit rank db := by
  have rows : (db.seenBy userId).tasks.rows.filter (selects letters query) =
      db.tasks.rows.filter (selects letters query) :=
    Table.filter_restrict fun _ _ => selects_visible
  unfold findPage
  rw [rows]

theorem countAll_seenBy (letters : Letters) (query : FindTasksQueryDto) :
    countAll letters query (db.seenBy userId) = countAll letters query db :=
  congrArg List.length (Table.filter_restrict fun _ _ => selects_visible)

end TasksService

namespace RoutinesService

theorem owned_iff {id : String} {a : Routine} :
    owned userId id a = true ↔ a.id = .ofText id ∧ a.userId = userId := by
  rw [owned, Bool.and_eq_true, decide_eq_true_eq, decide_eq_true_eq]

theorem selects_own {query : FindRoutinesQueryDto} {a : Routine}
    (selected : selects userId query a = true) : decide (a.userId = userId) = true := by
  unfold selects at selected
  exact (Bool.and_eq_true _ _ ▸ selected).1

theorem findPage_seenBy (query : FindRoutinesQueryDto) (page limit : Nat) (rank : Nat → Nat) :
    (findPage userId query page limit rank (db.seenBy userId)).map
        (toRoutineResponse (db.seenBy userId)) =
      (findPage userId query page limit rank db).map (toRoutineResponse db) := by
  have rows : (db.seenBy userId).routines.rows.filter (selects userId query) =
      db.routines.rows.filter (selects userId query) :=
    Table.filter_restrict fun _ _ => selects_own
  unfold findPage
  rw [rows]
  refine List.map_congr_left fun a ha => ?_
  obtain ⟨there, selected⟩ := List.mem_filter.mp (mem_page ha)
  exact Db.toRoutineResponse_seenBy there (of_decide_eq_true (selects_own selected))

theorem findRecent_seenBy (closed : db.Closed) (cutoff : Instant) (rank : Nat → Nat) :
    (orderBy rank newestRoutineFirst ((db.seenBy userId).routines.rows.filter fun a =>
        decide (a.userId = userId) && decide (cutoff ≤ a.createdAt))).map (fun a =>
          (⟨a, (db.seenBy userId).withTask (orderBy rank byPosition
            ((db.seenBy userId).tasksOfRoutine a.id))⟩ : RoutineWithTasks)) =
      (orderBy rank newestRoutineFirst (db.routines.rows.filter fun a =>
        decide (a.userId = userId) && decide (cutoff ≤ a.createdAt))).map fun a =>
          ⟨a, db.withTask (orderBy rank byPosition (db.tasksOfRoutine a.id))⟩ := by
  have rows : (db.seenBy userId).routines.rows.filter
      (fun a => decide (a.userId = userId) && decide (cutoff ≤ a.createdAt)) =
        db.routines.rows.filter
          fun a => decide (a.userId = userId) && decide (cutoff ≤ a.createdAt) :=
    Table.filter_restrict fun a _ recent => (Bool.and_eq_true _ _ ▸ recent).1
  rw [rows]
  refine List.map_congr_left fun a ha => ?_
  obtain ⟨there, recent⟩ := List.mem_filter.mp (Relational.mem_orderBy.mp ha)
  have own := of_decide_eq_true (Bool.and_eq_true _ _ ▸ recent).1
  rw [Db.withTask_tasksOfRoutine closed ⟨a, there, rfl, own⟩]

theorem visible_seenBy (ids : List Uuid) :
    ((db.seenBy userId).tasks.rows.filter fun a =>
        decide (a.id ∈ ids) && visibleTo userId a).length =
      (db.tasks.rows.filter fun a => decide (a.id ∈ ids) && visibleTo userId a).length :=
  congrArg List.length (Table.filter_restrict fun _ _ seen => (Bool.and_eq_true _ _ ▸ seen).2)

/-- A routine that is not the user's reads as missing, whether or not it has tasks. -/
theorem removeRow_seenBy (closed : db.Closed) (id : String) :
    removeRow userId id (db.seenBy userId) = (removeRow userId id db).map (Db.seenBy userId) := by
  have own : (db.seenBy userId).routines.rows.any (owned userId id) =
      db.routines.rows.any (owned userId id) :=
    Table.any_restrict fun a _ own => decide_eq_true (owned_iff.mp own).2
  unfold removeRow
  rw [own]
  cases there : db.routines.rows.any (owned userId id) with
  | false => simp [Except.map]
  | true =>
    obtain ⟨r, hr, owned⟩ := List.any_eq_true.mp there
    have has : db.HasRoutine userId (.ofText id) := ⟨r, hr, owned_iff.mp owned⟩
    have links : (db.seenBy userId).routineTasks.rows.any
        (fun a => decide (a.routineId = .ofText id)) =
        db.routineTasks.rows.any fun a => decide (a.routineId = .ofText id) :=
      Table.any_restrict fun a _ link => Db.ofRoutineOf_iff.mpr (of_decide_eq_true link ▸ has)
    have only : db.OnlyOf userId { routines := [.ofText id] } :=
      { Db.onlyOf_nothing with
        routines := fun a ha gone => has.own a ha (List.mem_singleton.mp gone) }
    rw [links, Db.delete_seenBy closed only]
    split
    · rfl
    · rfl

/-- The link and what stands in its way are of a routine of the user's. -/
theorem updateRow_seenBy {routineId : String} (has : db.HasRoutine userId (.ofText routineId))
    (taskId : String) (dto : UpdateRoutineTaskDto) (i : Input) :
    updateRow routineId taskId dto i (db.seenBy userId) =
      (updateRow routineId taskId dto i db).map fun r => (r.1, r.2.seenBy userId) := by
  have find : (db.seenBy userId).routineTasks.find (.ofText routineId, .ofText taskId) =
      db.routineTasks.find (.ofText routineId, .ofText taskId) := by
    refine Table.find_restrict_of fun a _ same => Db.ofRoutineOf_iff.mpr ?_
    have routine : a.routineId = .ofText routineId := congrArg Prod.fst same
    exact routine ▸ has
  unfold updateRow
  rw [find]
  split
  · rfl
  · split
    · rfl
    · cases found : db.routineTasks.find (.ofText routineId, .ofText taskId) with
      | none => rfl
      | some row =>
        have routine : row.routineId = .ofText routineId :=
          congrArg Prod.fst (Table.find_eq_some.mp found).2
        have place : (db.seenBy userId).routineTasks.rows.any (fun b => decide (b.key ≠ row.key) &&
            decide (b.routineId = row.routineId) &&
              decide (b.position = (dto.apply i.now row).position)) =
              db.routineTasks.rows.any fun b => decide (b.key ≠ row.key) &&
                decide (b.routineId = row.routineId) &&
                  decide (b.position = (dto.apply i.now row).position) := by
          refine Table.any_restrict fun b _ taken => Db.ofRoutineOf_iff.mpr ?_
          simp only [Bool.and_eq_true, decide_eq_true_eq] at taken
          rw [taken.1.2, routine]
          exact has
        dsimp only
        rw [place]
        split
        · rfl
        · exact congrArg (fun d => Except.ok (dto.apply i.now row, d))
            Db.updateRoutineTasks_seenBy.symm

theorem updateRow_routines {routineId taskId : String} {dto : UpdateRoutineTaskDto} {i : Input}
    {db' : Db} {a : RoutineTask} (h : updateRow routineId taskId dto i db = .ok (a, db')) :
    db'.routines = db.routines := by
  obtain ⟨p, rfl, -⟩ := updateRow_own h
  rfl

theorem reorderRows_seenBy {routineId : String} (has : db.HasRoutine userId (.ofText routineId))
    (taskIds : List String) (i : Input) : reorderRows routineId taskIds i (db.seenBy userId) =
      (reorderRows routineId taskIds i db).map (Db.seenBy userId) := by
  unfold reorderRows
  refine foldlM_seenBy (P := fun d => d.HasRoutine userId (.ofText routineId))
    (fun move _ d has => ?_) (fun move _ d d' has moved => ?_) has
  · dsimp only
    rw [updateRow_seenBy has]
    cases updateRow routineId move.1 ⟨.value move.2, .absent⟩ i d <;> rfl
  · obtain ⟨⟨row, c⟩, updated, moved⟩ := bind_eq_ok moved
    cases moved
    unfold Db.HasRoutine at has ⊢
    rw [updateRow_routines updated]
    exact has

theorem addRow_seenBy {routineId : String} {dto : AddRoutineTaskDto}
    (has : db.HasRoutine userId (.ofText routineId))
    (visible : ∀ t ∈ db.tasks.rows, t.id = .ofText dto.taskId → visibleTo userId t = true)
    (position : Int) (i : Input) : addRow routineId dto position i (db.seenBy userId) =
      (addRow routineId dto position i db).map fun r => (r.1, r.2.seenBy userId) := by
  unfold addRow
  dsimp only
  split
  · rw [Db.insertRoutineTask_seenBy has visible]
    cases db.insertRoutineTask _ <;> rfl
  · rfl

theorem removeTaskRow_seenBy {routineId : String} (closed : db.Closed)
    (has : db.HasRoutine userId (.ofText routineId)) (taskId : String) :
    removeTaskRow routineId taskId (db.seenBy userId) =
      (removeTaskRow routineId taskId db).map (Db.seenBy userId) := by
  have there : (db.seenBy userId).routineTasks.has (.ofText routineId, .ofText taskId) =
      db.routineTasks.has (.ofText routineId, .ofText taskId) := by
    refine Table.has_restrict fun a _ same => Db.ofRoutineOf_iff.mpr ?_
    have routine : a.routineId = .ofText routineId := congrArg Prod.fst same
    exact routine ▸ has
  have only : db.OnlyOf userId { routineTasks := [(.ofText routineId, .ofText taskId)] } := by
    refine { Db.onlyOf_nothing with routineTasks := fun a _ gone r hr same => has.own r hr ?_ }
    exact same.trans (congrArg Prod.fst (List.mem_singleton.mp gone))
  unfold removeTaskRow
  dsimp only
  rw [there, Db.delete_seenBy closed only]
  split <;> rfl

end RoutinesService

namespace PracticeSessionsService

theorem owned_iff {id : String} {a : PracticeSession} :
    owned userId id a = true ↔ a.id = .ofText id ∧ a.userId = userId := by
  rw [owned, Bool.and_eq_true, decide_eq_true_eq, decide_eq_true_eq]

theorem findPage_seenBy (closed : db.Closed) (page limit : Nat) (rank : Nat → Nat) :
    (findPage userId page limit rank (db.seenBy userId)).map
        ((db.seenBy userId).withSessionTasks rank) =
      (findPage userId page limit rank db).map (db.withSessionTasks rank) := by
  have rows : (db.seenBy userId).practiceSessions.rows.filter
      (fun a => decide (a.userId = userId)) =
      db.practiceSessions.rows.filter fun a => decide (a.userId = userId) :=
    Table.filter_restrict fun _ _ => id
  unfold findPage
  rw [rows]
  refine List.map_congr_left fun a ha => ?_
  obtain ⟨there, own⟩ := List.mem_filter.mp (mem_page ha)
  exact Db.withSessionTasks_seenBy closed there (of_decide_eq_true own) rank

theorem count_seenBy :
    ((db.seenBy userId).practiceSessions.rows.filter fun a => decide (a.userId = userId)).length =
      (db.practiceSessions.rows.filter fun a => decide (a.userId = userId)).length :=
  congrArg List.length (Table.filter_restrict fun _ _ => id)

theorem findRecent_seenBy (closed : db.Closed) (cutoff : Instant) (rank : Nat → Nat) :
    (orderBy rank newestSessionFirst ((db.seenBy userId).practiceSessions.rows.filter fun a =>
        decide (a.userId = userId) && decide (cutoff ≤ a.createdAt))).map (fun a =>
          (⟨a, (a.routineId.bind (db.seenBy userId).routines.find).map fun r => ⟨r.id, r.title⟩,
            (db.seenBy userId).sessionTasksOf rank a.id⟩ : RecentSession)) =
      (orderBy rank newestSessionFirst (db.practiceSessions.rows.filter fun a =>
        decide (a.userId = userId) && decide (cutoff ≤ a.createdAt))).map fun a =>
          ⟨a, (a.routineId.bind db.routines.find).map fun r => ⟨r.id, r.title⟩,
            db.sessionTasksOf rank a.id⟩ := by
  have rows : (db.seenBy userId).practiceSessions.rows.filter
      (fun a => decide (a.userId = userId) && decide (cutoff ≤ a.createdAt)) =
        db.practiceSessions.rows.filter
          fun a => decide (a.userId = userId) && decide (cutoff ≤ a.createdAt) :=
    Table.filter_restrict fun a _ recent => (Bool.and_eq_true _ _ ▸ recent).1
  rw [rows]
  refine List.map_congr_left fun a ha => ?_
  obtain ⟨there, recent⟩ := List.mem_filter.mp (Relational.mem_orderBy.mp ha)
  have own : a.userId = userId := of_decide_eq_true (Bool.and_eq_true _ _ ▸ recent).1
  rw [Db.sessionTasksOf_seenBy closed ⟨a, there, rfl, own⟩]
  -- the routine of a session is of the user of the session
  have routine : a.routineId.bind (db.seenBy userId).routines.find =
      a.routineId.bind db.routines.find := by
    cases hroutine : a.routineId with
    | none => rfl
    | some k =>
      exact Table.find_restrict_of fun r hr same => decide_eq_true
        ((closed.owned.session a there r hr (hroutine.trans (congrArg some same.symm))).trans
          own)
  rw [routine]

theorem getTaskStats_seenBy (closed : db.Closed) (rank : Nat → Nat) :
    (orderBy rank newestSessionTaskFirst ((db.seenBy userId).practiceSessionTasks.rows.filter
        fun a => (db.seenBy userId).inSessionOf userId a.practiceSessionId)).filterMap (fun a =>
          ((db.seenBy userId).tasks.find a.taskId).map
            fun task => (⟨a, task.id, task.title⟩ : SessionTaskWithTask)) =
      (orderBy rank newestSessionTaskFirst (db.practiceSessionTasks.rows.filter
        fun a => db.inSessionOf userId a.practiceSessionId)).filterMap fun a =>
          (db.tasks.find a.taskId).map fun task => ⟨a, task.id, task.title⟩ := by
  have inSession : (db.seenBy userId).inSessionOf userId = db.inSessionOf userId := by
    funext id
    exact Table.any_restrict fun s _ own => (Bool.and_eq_true _ _ ▸ own).2
  have has : ∀ a, db.inSessionOf userId a = true → db.HasSession userId a := by
    intro a own
    obtain ⟨s, hs, own⟩ := List.any_eq_true.mp own
    rw [Bool.and_eq_true, decide_eq_true_eq, decide_eq_true_eq] at own
    exact ⟨s, hs, own⟩
  have rows : (db.seenBy userId).practiceSessionTasks.rows.filter
      (fun a => db.inSessionOf userId a.practiceSessionId) =
        db.practiceSessionTasks.rows.filter fun a => db.inSessionOf userId a.practiceSessionId :=
    Table.filter_restrict fun a _ own => Db.ofSessionOf_iff.mpr (has _ own)
  rw [inSession, rows]
  refine List.filterMap_congr fun a ha => ?_
  obtain ⟨there, own⟩ := List.mem_filter.mp (Relational.mem_orderBy.mp ha)
  have visible := closed.visible_of_session there (has _ own)
  rw [Db.findTask_seenBy visible]

section Logged

variable {tasks : List CreatePracticeSessionTaskDto} {sessionId : Uuid} {i : Input}

/-- The links of a new session leave the tasks and the sessions as they are. -/
theorem linkTask_keeps {task : CreatePracticeSessionTaskDto} {d d' : Db}
    (same : d.tasks = db.tasks ∧ d.practiceSessions = db.practiceSessions)
    (linked : d.insertPracticeSessionTask (task.row sessionId i) = .ok d') :
    d'.tasks = db.tasks ∧ d'.practiceSessions = db.practiceSessions := by
  obtain ⟨practiceSessionTasks, rfl, -⟩ := Db.insertPracticeSessionTask_ok linked
  exact same

theorem linkTasks_seenBy (has : db.HasSession userId sessionId)
    (visible : ∀ task ∈ tasks, ∀ a ∈ db.tasks.rows, a.id = .ofText task.taskId →
      visibleTo userId a = true) :
    tasks.foldlM (fun (db : Db) a => db.insertPracticeSessionTask (a.row sessionId i))
        (db.seenBy userId) =
      (tasks.foldlM (fun (db : Db) a => db.insertPracticeSessionTask (a.row sessionId i)) db).map
        (Db.seenBy userId) := by
  refine foldlM_seenBy
    (P := fun d => d.tasks = db.tasks ∧ d.practiceSessions = db.practiceSessions)
    (fun task htask d same => ?_) (fun _ _ _ _ => linkTask_keeps) ⟨rfl, rfl⟩
  obtain ⟨s, hs, own⟩ := has
  exact Db.insertPracticeSessionTask_seenBy ⟨s, same.2 ▸ hs, own⟩
    fun t ht => visible task htask t (same.1 ▸ ht)

theorem linkTasks_sessions {db' : Db}
    (linked : tasks.foldlM (fun db a => db.insertPracticeSessionTask (a.row sessionId i)) db =
      .ok db') : db'.practiceSessions = db.practiceSessions := by
  have kept := foldlM_invariant
    (P := fun d => d.tasks = db.tasks ∧ d.practiceSessions = db.practiceSessions)
    ⟨rfl, rfl⟩ (fun _ _ _ _ => linkTask_keeps) linked
  exact kept.2

/-- A session that is logged, once its routine and its tasks have been checked. -/
theorem createRows_seenBy {dto : CreatePracticeSessionDto} (intact : db.Intact)
    (fresh : db.practiceSessions.has (i.uuid 0) = false)
    (routine : ∀ k ∈ dto.routineId.toOption.map Uuid.ofText, db.HasRoutine userId k)
    (visible : ∀ task ∈ dto.tasks.toOption.getD [], ∀ a ∈ db.tasks.rows,
      a.id = .ofText task.taskId → visibleTo userId a = true)
    (closed : ∀ r db', createRows userId dto i db = .ok (r, db') → db'.Closed) :
    createRows userId dto i (db.seenBy userId) =
      (createRows userId dto i db).map fun r => (r.1, r.2.seenBy userId) := by
  have inserted : (db.seenBy userId).insertPracticeSession (dto.row userId i) =
      (db.insertPracticeSession (dto.row userId i)).map (Db.seenBy userId) :=
    Db.insertPracticeSession_seenBy intact rfl fresh routine
  unfold createRows at closed ⊢
  dsimp only at closed ⊢
  split
  · rfl
  · next noNull =>
    rw [if_neg noNull] at closed
    split
    · rfl
    · next fits =>
      rw [if_neg fits] at closed
      rw [inserted]
      cases added : db.insertPracticeSession (dto.row userId i) with
      | error e => rfl
      | ok middle =>
        rw [added] at closed
        obtain ⟨practiceSessions, rfl, rows, -⟩ := Db.insertPracticeSession_ok added
        have there : dto.row userId i ∈ practiceSessions.rows := by
          rw [rows]
          exact List.mem_append_right _ (List.mem_singleton_self _)
        have has : Db.HasSession userId (dto.row userId i).id { db with practiceSessions } :=
          ⟨dto.row userId i, there, rfl, rfl⟩
        show (List.foldlM _ ({ db with practiceSessions }.seenBy userId) _ >>= _) =
          Except.map _ (List.foldlM _ { db with practiceSessions } _ >>= _)
        rw [linkTasks_seenBy has visible]
        cases linked : (dto.tasks.toOption.getD []).foldlM (fun db a =>
            db.insertPracticeSessionTask (a.row (dto.row userId i).id i))
              { db with practiceSessions } with
        | error e => rfl
        | ok d =>
          have sessions : d.practiceSessions = practiceSessions := linkTasks_sessions linked
          have closed : d.Closed := by
            refine closed (d.withSessionTasks i.rank (dto.row userId i)) d ?_
            show ((List.foldlM _ { db with practiceSessions } _ : Except Failure Db) >>= _) = _
            rw [linked]
            rfl
          have response : (d.seenBy userId).withSessionTasks i.rank (dto.row userId i) =
              d.withSessionTasks i.rank (dto.row userId i) :=
            Db.withSessionTasks_seenBy closed (sessions ▸ there) rfl i.rank
          exact congrArg (fun a => Except.ok (a, d.seenBy userId)) response

end Logged

/-- A title names the same sessions. -/
theorem titled_seenBy (title : String) :
    titled userId title (db.seenBy userId) = titled userId title db :=
  congrArg (List.map _) (Table.filter_restrict fun _ _ own => (Bool.and_eq_true _ _ ▸ own).1)

theorem deleteRows_seenBy (closed : db.Closed) (title : String) :
    deleteRows userId title (db.seenBy userId) =
      (deleteRows userId title db).map fun r => (r.1, r.2.seenBy userId) := by
  have owned : ∀ {d : Db} {s}, s ∈ titled userId title d → d.HasSession userId s := by
    intro d s there
    obtain ⟨b, hb, rfl⟩ := List.mem_map.mp there
    obtain ⟨hb, own⟩ := List.mem_filter.mp hb
    exact ⟨b, hb, rfl, of_decide_eq_true (Bool.and_eq_true _ _ ▸ own).1⟩
  have recordings : titledRecordings userId title (db.seenBy userId) =
      titledRecordings userId title db := by
    unfold titledRecordings
    rw [titled_seenBy]
    have rows : (db.seenBy userId).recordings.rows.filter
        (fun a => decide (a.practiceSessionId ∈ titled userId title db)) =
          db.recordings.rows.filter
            fun a => decide (a.practiceSessionId ∈ titled userId title db) := by
      refine Table.filter_restrict fun a ha there => decide_eq_true ?_
      obtain ⟨s, hs, same, own⟩ := owned (of_decide_eq_true there)
      rw [closed.owned.recording a ha s hs same]
      exact own
    rw [rows]
  have links : ∀ d : Db, titledSessionTasks userId title (d.seenBy userId) =
      titledSessionTasks userId title d := by
    intro d
    unfold titledSessionTasks
    rw [titled_seenBy]
    have rows : (d.seenBy userId).practiceSessionTasks.rows.filter
        (fun a => decide (a.practiceSessionId ∈ titled userId title d)) =
          d.practiceSessionTasks.rows.filter
            fun a => decide (a.practiceSessionId ∈ titled userId title d) :=
      Table.filter_restrict fun a _ there =>
        Db.ofSessionOf_iff.mpr (owned (of_decide_eq_true there))
    rw [rows]
  have sessions : ∀ d : Db, titledSessions userId title (d.seenBy userId) =
      titledSessions userId title d := by
    intro d
    unfold titledSessions
    rw [titled_seenBy]
  unfold deleteRows
  rw [map_withTexts]
  refine congrArg (withTexts [title]) ?_
  rw [titled_seenBy, recordings, Db.delete_seenBy closed (titledRecordings_own closed title)]
  cases first : db.delete (titledRecordings userId title db) with
  | error e => rfl
  | ok d =>
    have closed := closed.delete first
    show ((d.seenBy userId).delete (titledSessionTasks userId title (d.seenBy userId)) >>= _) =
      Except.map _ (d.delete (titledSessionTasks userId title d) >>= _)
    rw [links, Db.delete_seenBy closed (titledSessionTasks_own title)]
    cases second : d.delete (titledSessionTasks userId title d) with
    | error e => rfl
    | ok d' =>
      have closed := closed.delete second
      show ((d'.seenBy userId).delete (titledSessions userId title (d'.seenBy userId)) >>= _) =
        Except.map _ (d'.delete (titledSessions userId title d') >>= _)
      rw [sessions, Db.delete_seenBy closed (titledSessions_own title)]
      cases d'.delete (titledSessions userId title d') <;> rfl

end PracticeSessionsService

namespace RecordingsService

theorem owned_iff {id : String} {a : Recording} :
    owned userId id a = true ↔ a.id = .ofText id ∧ a.userId = userId := by
  rw [owned, Bool.and_eq_true, decide_eq_true_eq, decide_eq_true_eq]

theorem createRow_seenBy {practiceSessionId name : String} {file : UploadedFile} {i : Input}
    (fresh : db.recordings.has (i.uuid 0) = false)
    (has : db.HasSession userId (.ofText practiceSessionId)) :
    createRow userId practiceSessionId name file i (db.seenBy userId) =
      (createRow userId practiceSessionId name file i db).map
        fun r => (r.1, r.2.seenBy userId) := by
  unfold createRow
  dsimp only
  split
  · rw [Db.insertRecording_seenBy rfl fresh has]
    cases db.insertRecording _ <;> rfl
  · rfl

theorem removeRow_seenBy {a : Recording} (closed : db.Closed) (ha : a ∈ db.recordings.rows)
    (own : a.userId = userId) :
    removeRow a.id (db.seenBy userId) = (removeRow a.id db).map (Db.seenBy userId) := by
  have only : ∀ b ∈ db.recordings.rows, b.id = a.id → b.userId = userId := by
    intro b hb same
    rw [Table.eq_of_key hb ha same]
    exact own
  have there : (db.seenBy userId).recordings.has a.id = db.recordings.has a.id :=
    Table.has_restrict fun b hb same => decide_eq_true (only b hb same)
  have goes : db.OnlyOf userId { recordings := [a.id] } :=
    { Db.onlyOf_nothing with
      recordings := fun b hb gone => only b hb (List.mem_singleton.mp gone) }
  unfold removeRow
  rw [there, Db.delete_seenBy closed goes]
  split <;> rfl

theorem ofSession_seenBy {id : Uuid} (closed : db.Closed) (has : db.HasSession userId id) :
    (db.seenBy userId).recordings.rows.filter (fun a => decide (a.practiceSessionId = id)) =
      db.recordings.rows.filter fun a => decide (a.practiceSessionId = id) := by
  obtain ⟨s, hs, rfl, own⟩ := has
  refine Table.filter_restrict fun a ha same => decide_eq_true ?_
  rw [closed.owned.recording a ha s hs (of_decide_eq_true same).symm]
  exact own

end RecordingsService

end GuitarCoach
