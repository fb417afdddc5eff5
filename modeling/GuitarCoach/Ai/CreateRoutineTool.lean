/- digest: The create_routine tool when nothing fails: what it accepts, and what it saves. -/

import GuitarCoach.Ai.CoachRuns
import GuitarCoach.PartialMaps
import GuitarCoach.Routines.RoutineEndpoints
import GuitarCoach.Tasks.CachedOwners

set_option autoImplicit false
set_option relaxedAutoImplicit false

namespace GuitarCoach.AiRoutineCoach

open Async (Cue Ends wp onOk wp_bind wp_handle wp_done wp_fail wp_ends)
open Async.Method (pure_eq throw_eq bind_eq tryCatch_eq)
open Relational (Table)
open RoutinesService (AllVisible Owns healthy_findById healthy_assertTasksVisible)

/-- The positions `1..n`. -/
def places (n : Nat) : List Int := (List.range n).map fun k : Nat => (k : Int) + 1

/-- The tasks differ, their order values are `1..n` in some order, and they are not too long. -/
structure Valid (args : CreateRoutineArgs) : Prop where
  distinct : (args.tasks.map (·.taskId)).Nodup
  orders : (args.tasks.map (·.order)).Perm (places args.tasks.length)
  duration : (args.tasks.map (·.durationMinutes)).sum ≤ maxTotalRoutineDurationMinutes

/-- What the schema says of the arguments it lets through. -/
structure InBounds (args : CreateRoutineArgs) : Prop where
  length : args.tasks.length ≤ maxTasksPerRoutine
  durations : ∀ task ∈ args.tasks,
    1 ≤ task.durationMinutes ∧ task.durationMinutes ≤ maxTaskDurationMinutes

section Arguments

variable {args : CreateRoutineArgs}

@[simp] theorem length_places (n : Nat) : (places n).length = n := by simp [places]

theorem places_sorted (n : Nat) : (places n).Pairwise (· ≤ ·) := by
  refine List.pairwise_map.mpr (List.pairwise_le_range.imp ?_)
  intro j k hjk
  omega

theorem places_nodup (n : Nat) : (places n).Nodup := by
  refine List.nodup_range.map ?_
  intro j k same
  dsimp only at same
  omega

theorem mem_places {n : Nat} {p : Int} : p ∈ places n ↔ 1 ≤ p ∧ p ≤ n := by
  simp only [places, List.mem_map, List.mem_range]
  constructor
  · rintro ⟨k, hk, rfl⟩
    omega
  · intro range
    exact ⟨(p - 1).toNat, by omega, by omega⟩

/-- The scan of the sorted values is a comparison with `1..n`. -/
private theorem scan_iff (orders : List Int) :
    (orders.zipIdx.any fun (order, index) => order ≠ (index : Int) + 1) = false ↔
      orders = places orders.length := by
  rw [List.any_eq_false]
  constructor
  · intro scan
    refine List.ext_getElem (by simp) fun k hk _ => ?_
    have here : (orders[k], k) ∈ orders.zipIdx :=
      List.mem_zipIdx_iff_getElem?.mpr (List.getElem?_eq_getElem hk)
    have same := scan _ here
    simpa [places] using same
  · rintro same ⟨order, index⟩ here
    have found := List.mem_zipIdx_iff_getElem?.mp here
    rw [same] at found
    obtain ⟨hk, found⟩ := List.getElem?_eq_some_iff.mp found
    have value : (index : Int) + 1 = order := by simpa [places] using found
    simpa using value.symm

/-- The values are `1..n` in some order exactly when, sorted, they are `1..n`. -/
private theorem sorted_iff (orders : List Int) :
    orders.insertionSort (· ≤ ·) = places orders.length ↔
      orders.Perm (places orders.length) := by
  constructor
  · intro sorted
    have perm := (List.perm_insertionSort (· ≤ ·) orders).symm
    rwa [sorted] at perm
  · intro perm
    refine List.Perm.eq_of_pairwise (fun x y _ _ hxy hyx => Int.le_antisymm hxy hyx)
      (List.pairwise_insertionSort (· ≤ ·) orders) (places_sorted _) ?_
    exact (List.perm_insertionSort (· ≤ ·) orders).trans perm

/-- Nothing is rejected but what is not valid. -/
theorem rejection_none_iff : rejection? args = none ↔ Valid args := by
  have distinct : (args.tasks.map (·.taskId)).dedup.length = (args.tasks.map (·.taskId)).length ↔
      (args.tasks.map (·.taskId)).Nodup := by
    constructor
    · intro length
      exact List.dedup_eq_self.mp ((List.dedup_sublist _).eq_of_length length)
    · intro nodup
      rw [List.dedup_eq_self.mpr nodup]
  have orders : (((args.tasks.map (·.order)).insertionSort (· ≤ ·)).zipIdx.any
      fun (order, index) => order ≠ (index : Int) + 1) = false ↔
        (args.tasks.map (·.order)).Perm (places args.tasks.length) := by
    have sorted := sorted_iff (args.tasks.map (·.order))
    rw [List.length_map] at sorted
    rw [scan_iff, List.length_insertionSort, List.length_map, sorted]
  unfold rejection?
  simp only
  by_cases twice : (args.tasks.map (·.taskId)).dedup.length ≠ (args.tasks.map (·.taskId)).length
  · rw [if_pos twice]
    exact iff_of_false (by simp) fun valid => twice (distinct.mpr valid.distinct)
  rw [if_neg twice]
  cases gap : ((args.tasks.map (·.order)).insertionSort (· ≤ ·)).zipIdx.any
      fun (order, index) => order ≠ (index : Int) + 1 with
  | true =>
    refine iff_of_false (by simp) fun valid => ?_
    rw [orders.mpr valid.orders] at gap
    cases gap
  | false =>
    by_cases long : maxTotalRoutineDurationMinutes < (args.tasks.map (·.durationMinutes)).sum
    · simp only [Bool.false_eq_true, if_false, long, if_true]
      exact iff_of_false (by simp) fun valid => absurd valid.duration (by omega)
    · simp only [Bool.false_eq_true, if_false, long]
      exact iff_of_true trivial ⟨distinct.mp (not_not.mp twice), orders.mp gap, by omega⟩

private theorem guard_some {β : Type} {p : Prop} [Decidable p] {f : Unit → Option β} {b : β}
    (h : (guard p >>= f) = some b) : p ∧ f () = some b := by
  by_cases hp : p
  · rw [guard, if_pos hp] at h
    exact ⟨hp, h⟩
  · rw [guard, if_neg hp] at h
    cases h

private theorem bind_some {α β : Type} {x : Option α} {f : α → Option β} {b : β}
    (h : (x >>= f) = some b) : ∃ a, x = some a ∧ f a = some b :=
  Option.bind_eq_some_iff.mp h

private theorem task_inBounds {value : Json} {task : CreateRoutineTaskArg}
    (h : CreateRoutineTaskArg.safeParse value = some task) :
    1 ≤ task.durationMinutes ∧ task.durationMinutes ≤ maxTaskDurationMinutes := by
  unfold CreateRoutineTaskArg.safeParse at h
  obtain ⟨_, -, h⟩ := bind_some h
  obtain ⟨taskId, -, h⟩ := bind_some h
  obtain ⟨-, h⟩ := guard_some h
  obtain ⟨_, -, h⟩ := bind_some h
  obtain ⟨durationMinutes, -, h⟩ := bind_some h
  obtain ⟨bounds, h⟩ := guard_some h
  obtain ⟨_, -, h⟩ := bind_some h
  obtain ⟨order, -, h⟩ := bind_some h
  obtain ⟨-, h⟩ := guard_some h
  cases h
  exact bounds

theorem inBounds_of_parsed {rawArgs : Json}
    (parsed : CreateRoutineArgs.safeParse rawArgs = some args) : InBounds args := by
  unfold CreateRoutineArgs.safeParse at parsed
  obtain ⟨_, -, parsed⟩ := bind_some parsed
  obtain ⟨name, -, parsed⟩ := bind_some parsed
  obtain ⟨-, parsed⟩ := guard_some parsed
  obtain ⟨_, -, parsed⟩ := bind_some parsed
  obtain ⟨values, -, parsed⟩ := bind_some parsed
  obtain ⟨tasks, all, parsed⟩ := bind_some parsed
  obtain ⟨length, parsed⟩ := guard_some parsed
  cases parsed
  refine ⟨length.2, fun task htask => ?_⟩
  obtain ⟨value, -, same⟩ := mem_of_mapM all htask
  exact task_inBounds same

end Arguments

/-- The rows of a routine that was saved with one link for each of the tasks. -/
structure Persisted (userId : Uuid) (args : CreateRoutineArgs) (before after : Db)
    (routine : Routine) (links : List RoutineTask) : Prop where
  userId : routine.userId = userId
  title : routine.title = args.name
  own : ∀ link ∈ links, link.routineId = routine.id
  rows : (links.map fun link => (link.taskId, link.position, link.targetDurationMinutes)).Perm
    (args.tasks.map fun task =>
      (Uuid.ofText task.taskId, task.order, some task.durationMinutes))
  grown : before.Grown after [routine] [] links

/-- The call saved arguments that are valid, and rejected others and wrote nothing. -/
def Exact (userId : Uuid) (args : CreateRoutineArgs) (context : Option CreatedRoutine)
    (r : Except Failure (CreateRoutineResult × Option CreatedRoutine)) (before after : Db) : Prop :=
  (Valid args ∧ ∃ routine links, Persisted userId args before after routine links ∧
    r = .ok (.success ⟨routine.id, routine.title, args.tasks.length⟩,
      some ⟨routine.id, routine.title, args.tasks.length⟩)) ∨
  (¬Valid args ∧ after = before ∧ ∃ error, r = .ok (.failure error, context))

/-- The task has a row under this very spelling of its id, and the user sees it. -/
def Sees (userId : Uuid) (db : Db) (taskId : String) : Prop :=
  ∃ row ∈ db.tasks.rows, row.id.text = taskId ∧ visibleTo userId row = true

section Runs

variable {userId : Uuid} {args : CreateRoutineArgs} {w : World}

theorem Sees.ofText {taskId : String} {db : Db} (sees : Sees userId db taskId) :
    ∃ row ∈ db.tasks.rows, row.id = .ofText taskId ∧ visibleTo userId row = true := by
  obtain ⟨row, hrow, rfl, visible⟩ := sees
  exact ⟨row, hrow, (Uuid.ofText_text row.id).symm, visible⟩

/-- A task that the user sees is found, and the cache stays right about its owner. -/
theorem healthy_findTask {taskId : String} (sees : Sees userId w.db taskId)
    (owners : OwnersCached w) :
    wp healthy (TasksService.findById taskId (some userId))
      (onOk (fun _ v => v.db = w.db ∧ OwnersCached v) fun _ _ => False) w := by
  obtain ⟨row, hrow, hid, visible⟩ := sees.ofText
  -- the check of the owner, for the row or for what is cached of it
  have judged : ∀ (task : Task) v, task.ownerId = row.ownerId → v.db = w.db ∧ OwnersCached v →
      wp healthy (if (some userId).any fun u => task.ownerId.any (· ≠ u) then
          .fail (TasksService.taskNotFound taskId) else .done task)
        (onOk (fun _ v => v.db = w.db ∧ OwnersCached v) fun _ _ => False) v := by
    intro task v owner kept
    have seen : ((some userId).any fun u => task.ownerId.any (· ≠ u)) = false := by
      rw [owner]
      simp only [visibleTo, Bool.or_eq_true, decide_eq_true_eq] at visible
      rcases visible with shared | own
      · simp [shared]
      · simp [own]
    rw [seen]
    exact kept
  unfold TasksService.findById TasksService.cachedTask
  simp only [bind_eq, pure_eq, throw_eq, wp_bind]
  apply TasksService.wp_safeCacheGet
  · intro _ _
    cases hit : w.cache (.task taskId) with
    | some e => exact judged _ w (owners taskId e hit row hrow hid) ⟨rfl, owners⟩
    | none =>
      dsimp only [onOk, Option.map_none]
      rw [wp_bind]
      apply healthy_read
      intro i
      have found : w.db.tasks.find (.ofText taskId) = some row :=
        Table.find_eq_some.mpr ⟨hrow, hid⟩
      rw [found]
      dsimp only [onOk]
      rw [wp_bind]
      apply TasksService.wp_safeCacheSet
      · intro _ _
        exact judged row _ rfl ⟨rfl, owners.cached hrow hid⟩
      · exact fun _ threw => threw.elim
  · exact fun _ threw => threw.elim

/-- The tasks in their order have the positions `1..n`. -/
theorem orderedTasks_orders (valid : Valid args) :
    (orderedTasks args).map (·.order) = places args.tasks.length := by
  have perm : (orderedTasks args).Perm args.tasks := List.perm_insertionSort _ _
  have total : Std.Total fun a b : CreateRoutineTaskArg => a.order ≤ b.order :=
    ⟨fun a b => Int.le_total a.order b.order⟩
  have trans : IsTrans CreateRoutineTaskArg fun a b => a.order ≤ b.order :=
    ⟨fun a b c => Int.le_trans⟩
  refine List.Perm.eq_of_pairwise (fun x y _ _ hxy hyx => Int.le_antisymm hxy hyx)
    (List.pairwise_map.mpr (List.pairwise_insertionSort _ args.tasks)) (places_sorted _) ?_
  exact (perm.map _).trans valid.orders

/-- The next task is at a position of its own, and not yet linked. -/
private theorem next_free (valid : Valid args) {linked rest : List CreateRoutineTaskArg}
    {task : CreateRoutineTaskArg} (split : orderedTasks args = linked ++ task :: rest)
    (sees : ∀ a ∈ args.tasks, Sees userId w.db a.taskId) :
    ∀ a ∈ linked, a.order ≠ task.order ∧ Uuid.ofText a.taskId ≠ .ofText task.taskId := by
  have perm : (orderedTasks args).Perm args.tasks := List.perm_insertionSort _ _
  have orders : ((orderedTasks args).map (·.order)).Nodup := by
    rw [orderedTasks_orders valid]
    exact places_nodup _
  have ids : ((orderedTasks args).map (·.taskId)).Nodup :=
    (perm.map _).nodup_iff.mpr valid.distinct
  have mem : ∀ a ∈ orderedTasks args, Sees userId w.db a.taskId :=
    fun a ha => sees a (perm.mem_iff.mp ha)
  rw [split] at orders ids mem
  rw [List.map_append, List.map_cons, List.nodup_append] at orders ids
  intro a ha
  constructor
  · exact orders.2.2 _ (List.mem_map_of_mem ha) _ List.mem_cons_self
  · intro same
    -- in their stored spelling, ids of one task are one text
    obtain ⟨r, -, hr, -⟩ := mem a (List.mem_append_left _ ha)
    obtain ⟨r', -, hr', -⟩ := mem task (List.mem_append_right _ List.mem_cons_self)
    rw [← hr, ← hr', Uuid.ofText_text, Uuid.ofText_text] at same
    have text : a.taskId = task.taskId := by rw [← hr, ← hr', same]
    exact ids.2.2 _ (List.mem_map_of_mem ha) _ List.mem_cons_self text

/-- A link that is saved belongs to one of the tasks gone through. -/
private theorem linked_of_mem {routineId : Uuid} {linked : List CreateRoutineTaskArg}
    {links : List RoutineTask} (all : List.Forall₂ (IsLinkOf routineId) linked links) :
    ∀ link ∈ links, ∃ a ∈ linked, IsLinkOf routineId a link := by
  induction all with
  | nil => exact fun link hlink => absurd hlink List.not_mem_nil
  | @cons a link linked links head tail ih =>
    intro other hother
    rcases List.mem_cons.mp hother with rfl | hother
    · exact ⟨a, List.mem_cons_self, head⟩
    · obtain ⟨b, hb, link⟩ := ih other hother
      exact ⟨b, List.mem_cons_of_mem a hb, link⟩

private theorem linked_rows {routineId : Uuid} {linked : List CreateRoutineTaskArg}
    {links : List RoutineTask} (all : List.Forall₂ (IsLinkOf routineId) linked links) :
    links.map (fun link => (link.taskId, link.position, link.targetDurationMinutes)) =
      linked.map fun task => (Uuid.ofText task.taskId, task.order, some task.durationMinutes) := by
  induction all with
  | nil => rfl
  | cons head tail ih =>
    rw [List.map_cons, List.map_cons, ih, head.taskId, head.position, head.duration]

/-- One round of the loop: nothing is in the way of the next task. -/
private theorem round_adds {u : World} {routine : Routine} {links : List RoutineTask}
    {linked rest : List CreateRoutineTaskArg} {task : CreateRoutineTaskArg}
    (valid : Valid args) (bounds : InBounds args)
    (sees : ∀ a ∈ args.tasks, Sees userId w.db a.taskId) (unused : w.db.Unused routine.id)
    (split : orderedTasks args = linked ++ task :: rest)
    (saved : Saved userId args w.db u.db routine linked links) :
    wp healthy (RoutinesService.addTask userId routine.id.text
        ⟨task.taskId, .value task.order, .value task.durationMinutes⟩)
      (onOk (fun _ v => ∃ links, Saved userId args w.db v.db routine (linked ++ [task]) links)
        fun _ _ => False) u := by
  have perm : (orderedTasks args).Perm args.tasks := List.perm_insertionSort _ _
  have hordered : task ∈ orderedTasks args :=
    split ▸ List.mem_append_right linked List.mem_cons_self
  have htask : task ∈ args.tasks := perm.mem_iff.mp hordered
  have hroutine : routine ∈ u.db.routines.rows := by
    rw [saved.grown.routines]
    exact List.mem_append_right _ (List.mem_singleton_self _)
  have tasks : u.db.tasks.rows = w.db.tasks.rows := by simpa using saved.grown.tasks
  obtain ⟨row, hrow, hid, visible⟩ := (sees task htask).ofText
  rw [← tasks] at hrow
  apply RoutinesService.healthy_addTask
  · exact ⟨routine, hroutine, by simp [RoutinesService.owned, saved.userId]⟩
  · refine ⟨by simp, fun id hid' => ?_⟩
    obtain rfl : id = task.taskId := List.mem_singleton.mp hid'
    exact ⟨row, hrow, hid, visible⟩
  · intro i
    apply RoutinesService.addRow_free
    · have place : task.order ∈ places args.tasks.length := by
        rw [← orderedTasks_orders valid]
        exact List.mem_map_of_mem hordered
      have range := mem_places.mp place
      have length := bounds.length
      have duration := bounds.durations task htask
      unfold maxTasksPerRoutine at length
      unfold maxTaskDurationMinutes at duration
      simp only [fitsInt4, Field.toOption, Option.all_some, Bool.and_eq_true, decide_eq_true_eq]
      omega
    · exact Table.has_iff.mpr ⟨routine, hroutine, (Uuid.ofText_text routine.id).symm⟩
    · exact Table.has_iff.mpr ⟨row, hrow, hid⟩
    · intro b hb own
      rw [Uuid.ofText_text] at own
      rw [saved.grown.routineTasks] at hb
      rcases List.mem_append.mp hb with old | new
      · exact absurd own (unused.routineTasks b old)
      · obtain ⟨a, ha, link⟩ := linked_of_mem saved.linked b new
        have free := next_free valid split sees a ha
        rw [link.position, link.taskId]
        exact free
  · intro i link db added
    obtain ⟨hlink, inserted⟩ := RoutinesService.addRow_ok added
    refine ⟨links ++ [link], saved.userId, saved.title,
      List.rel_append saved.linked (.cons ?_ .nil), ?_⟩
    · subst hlink
      exact ⟨Uuid.ofText_text _, rfl, rfl, rfl⟩
    · simpa using saved.grown.trans (Db.insertRoutineTask_grown inserted)

/-- A routine that is saved with all its tasks in order is saved with exactly these rows. -/
private theorem Saved.persisted {before after : Db} {routine : Routine} {links : List RoutineTask}
    (saved : Saved userId args before after routine (orderedTasks args) links) :
    Persisted userId args before after routine links where
  userId := saved.userId
  title := saved.title
  own link hlink := by
    obtain ⟨a, -, own⟩ := linked_of_mem saved.linked link hlink
    exact own.routineId
  rows := by
    rw [linked_rows saved.linked]
    exact (List.perm_insertionSort _ _).map _
  grown := saved.grown

/-- Arguments in order are saved, each check and each write of the call succeeding, unless the name
has a NUL character: then the first write is refused. -/
private theorem persist_healthy (valid : Valid args) (bounds : InBounds args)
    (sees : ∀ task ∈ args.tasks, Sees userId w.db task.taskId) (owners : OwnersCached w)
    (user : w.db.users.has userId = true) :
    wp healthy (persist userId args) (fun r v =>
      (fitsText args.name = true ∧ ∃ routine links,
        Persisted userId args w.db v.db routine links ∧
          r = .ok ⟨routine.id, routine.title, args.tasks.length⟩) ∨
      (fitsText args.name = false ∧ v.db = w.db ∧ r = .error .invalidText)) w := by
  unfold persist
  simp only [bind_eq, pure_eq, wp_bind, wp_done]
  refine Async.wp_forM (fun _ v => v.db = w.db ∧ OwnersCached v) _
    (fun done taskId rest split v hv => ?_) (fun v hv => ?_) ⟨rfl, owners⟩
  · -- a task of the arguments is found
    have listed : taskId ∈ args.tasks.map (·.taskId) :=
      List.mem_dedup.mp (split ▸ List.mem_append_right done List.mem_cons_self)
    obtain ⟨task, htask, rfl⟩ := List.mem_map.mp listed
    rw [wp_bind]
    refine Async.wp_mono (healthy_findTask (hv.1 ▸ sees task htask) hv.2) fun r u h => ?_
    cases r with
    | ok _ => exact ⟨h.1.trans hv.1, h.2⟩
    | error e => exact h.elim
  dsimp only [onOk]
  apply RoutinesService.healthy_create
  · intro i routine db hrow unused fits _ inserted
    rw [hv.1] at unused inserted
    obtain ⟨id, owner, -⟩ := RoutinesService.row_ok hrow
    have title : routine.title = args.name := by
      cases hrow
      rfl
    have name : fitsText args.name = true := by
      simpa [CreateRoutineDto.texts, Field.toOption] using fits
    have start : Saved userId args w.db db routine [] [] :=
      ⟨owner, title, .nil, Db.insertRoutine_grown inserted⟩
    dsimp only [onOk]
    refine Async.wp_forM (fun linked u => ∃ links,
        Saved userId args w.db u.db routine linked links) _
      (fun linked task rest split u hu => ?_) (fun u hu => ?_) ⟨[], start⟩
    · obtain ⟨links, saved⟩ := hu
      rw [wp_bind]
      refine Async.wp_mono (round_adds valid bounds sees (id ▸ unused) split saved)
        fun r v h => ?_
      cases r with
      | ok _ => exact h
      | error e => exact h.elim
    · obtain ⟨links, saved⟩ := hu
      have length : (orderedTasks args).length = args.tasks.length :=
        List.length_insertionSort _ _
      refine .inl ⟨name, routine, links, saved.persisted, ?_⟩
      rw [length]
  · intro null
    cases null
  · intro _ unfit
    have name : fitsText args.name = false := by
      simpa [CreateRoutineDto.texts, Field.toOption] using unfit
    exact .inr ⟨name, hv.1, rfl⟩
  · intro _ unknown
    rw [hv.1, user] at unknown
    cases unknown

/-- The specification of one call of the tool when no call fails. -/
theorem createRoutine_healthy {rawArgs : Json} {context : Option CreatedRoutine}
    (parsed : CreateRoutineArgs.safeParse rawArgs = some args)
    (sees : ∀ task ∈ args.tasks, Sees userId w.db task.taskId) (owners : OwnersCached w)
    (user : w.db.users.has userId = true) :
    wp healthy (createRoutine userId rawArgs context) (fun r v =>
      (Valid args → fitsText args.name = true) ∧ Exact userId args context r w.db v.db ∨
      Valid args ∧ fitsText args.name = false ∧ r = .error .invalidText ∧ v.db = w.db) w := by
  unfold createRoutine
  rw [parsed]
  dsimp only
  cases rejected : rejection? args with
  | some error =>
    have invalid : ¬Valid args := by
      intro valid
      rw [rejection_none_iff.mpr valid] at rejected
      cases rejected
    exact .inl ⟨fun valid => absurd valid invalid, .inr ⟨invalid, rfl, error, rfl⟩⟩
  | none =>
    have valid := rejection_none_iff.mp rejected
    simp only [bind_eq, pure_eq, tryCatch_eq, throw_eq, wp_bind, wp_handle, wp_done]
    refine Async.wp_mono (persist_healthy valid (inBounds_of_parsed parsed) sees owners user)
      fun r v h => ?_
    rcases h with ⟨name, routine, links, persisted, rfl⟩ | ⟨name, same, rfl⟩
    · exact .inl ⟨fun _ => name, .inl ⟨valid, routine, links, persisted, rfl⟩⟩
    · exact .inr ⟨valid, name, rfl, same⟩

end Runs

/-- Alone and when no call fails, the tool saves the arguments that it should and rejects the others,
exactly when the arguments that it should save have a name that the column takes. -/
theorem create_routine_exact_iff {userId : Uuid} {rawArgs : Json} {args : CreateRoutineArgs}
    {context : Option CreatedRoutine} {w w' : World}
    {r : Except Failure (CreateRoutineResult × Option CreatedRoutine)}
    (parsed : CreateRoutineArgs.safeParse rawArgs = some args)
    (sees : ∀ task ∈ args.tasks, Sees userId w.db task.taskId) (owners : OwnersCached w)
    (user : w.db.users.has userId = true)
    (ends : Ends healthy (createRoutine userId rawArgs context) w r w') :
    Exact userId args context r w.db w'.db ↔ (Valid args → fitsText args.name = true) := by
  rcases wp_ends (createRoutine_healthy parsed sees owners user) ends with
    ⟨name, exact⟩ | ⟨valid, name, rfl, -⟩
  · exact iff_of_true exact name
  · refine iff_of_false ?_ fun fits => ?_
    · rintro (⟨-, routine, links, -, same⟩ | ⟨invalid, -⟩)
      · cases same
      · exact invalid valid
    · rw [fits valid] at name
      cases name

section Sample

private def arpeggios : Task := ⟨firstId, "Arpeggios", none, none, none, none, none, 0, 0⟩

private def songbook : World :=
  { World.signedUp with
    db := { World.signedUp.db with tasks := ⟨[arpeggios], by decide⟩ } }

/-- A routine of one task. -/
private def oneTask (name : String) : CreateRoutineArgs := ⟨name, [⟨firstId.text, 15, 1⟩]⟩

private def oneTaskJson (name : String) : Json :=
  .obj [("name", .str name), ("tasks", .arr [.obj [("taskId", .str firstId.text),
    ("durationMinutes", .num 15), ("order", .num 1)]])]

private theorem arpeggios_seen (name : String) :
    ∀ task ∈ (oneTask name).tasks, Sees alice songbook.db task.taskId := by
  intro task htask
  obtain rfl := List.mem_singleton.mp htask
  exact ⟨arpeggios, List.mem_cons_self, rfl, rfl⟩

private theorem songbook_owners : OwnersCached songbook := fun s e he => by cases he

private def warmUpCues : List (Cue Input Failure) :=
  List.replicate 4 (took (.of secondId 0)) ++ List.replicate 3 (took (.of thirdId 0))

private def warmUpCreated : CreatedRoutine := ⟨secondId, "Warm-up", 1⟩

private def isCreated : Except Failure (CreateRoutineResult × Option CreatedRoutine) → Bool
  | .ok (.success routine, context) => routine = warmUpCreated && context = some warmUpCreated
  | _ => false

private theorem warmUp_ends : ∃ r, isCreated r = true ∧
    Ends healthy (createRoutine alice (oneTaskJson "Warm-up") none) songbook r
      (Async.after (createRoutine alice (oneTaskJson "Warm-up") none) warmUpCues songbook) :=
  Async.ends_after_passes healthyBy_sound (by decide +kernel) (by decide +kernel)

theorem create_routine_exact_iff_warmUp : ∃ r, isCreated r = true ∧
    (Exact alice (oneTask "Warm-up") none r songbook.db
        (Async.after (createRoutine alice (oneTaskJson "Warm-up") none) warmUpCues songbook).db ↔
      (Valid (oneTask "Warm-up") → fitsText "Warm-up" = true)) := by
  obtain ⟨r, created, ends⟩ := warmUp_ends
  have parsed : CreateRoutineArgs.safeParse (oneTaskJson "Warm-up") = some (oneTask "Warm-up") := by
    rfl
  exact ⟨r, created, create_routine_exact_iff parsed (arpeggios_seen _) songbook_owners
    (by decide +kernel) ends⟩

private def isRaw : Except Failure (CreateRoutineResult × Option CreatedRoutine) → Bool
  | .ok _ => false
  | .error _ => true

private theorem nul_ends : ∃ r, isRaw r = true ∧
    Ends healthy (createRoutine alice (oneTaskJson "A\x00") none) songbook r
      (Async.after (createRoutine alice (oneTaskJson "A\x00") none) warmUpCues songbook) :=
  Async.ends_after_passes healthyBy_sound (by decide +kernel) (by decide +kernel)

/-- A name with a NUL character passes every check of the tool, and the database refuses it. -/
theorem nul_name_not_saved : ¬∀ userId rawArgs args context w w' r,
    CreateRoutineArgs.safeParse rawArgs = some args →
    (∀ task ∈ args.tasks, Sees userId w.db task.taskId) → OwnersCached w →
    w.db.users.has userId = true → Ends healthy (createRoutine userId rawArgs context) w r w' →
    Exact userId args context r w.db w'.db := by
  intro claim
  obtain ⟨r, raw, ends⟩ := nul_ends
  have parsed : CreateRoutineArgs.safeParse (oneTaskJson "A\x00") = some (oneTask "A\x00") := by rfl
  rcases claim alice _ _ none songbook _ r parsed (arpeggios_seen _) songbook_owners
    (by decide +kernel) ends with ⟨-, routine, links, -, rfl⟩ | ⟨-, -, error, rfl⟩
  · cases raw
  · cases raw

end Sample

end GuitarCoach.AiRoutineCoach
