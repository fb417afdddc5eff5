/- digest: What the methods of TasksService do, one specification for each. -/

import GuitarCoach.Async.History
import GuitarCoach.Store.Rules
import GuitarCoach.Tasks.TasksService

set_option autoImplicit false
set_option relaxedAutoImplicit false

namespace GuitarCoach

open Async (Policy wp onOk wp_bind wp_handle wp_done wp_fail)
open Async.Method (pure_eq throw_eq bind_eq tryCatch_eq calls_call calls_bind calls_handle)

theorem Db.insertTask_grown {a : Task} {db db' : Db} (h : db.insertTask a = .ok db') :
    db.Grown db' [] [a] [] := by
  obtain ⟨tasks, rfl, rows, -, -⟩ := insertTask_ok h
  constructor <;> simp [rows]

theorem CacheKey.task_ne_listVersion (id : String) : CacheKey.task id ≠ .taskListVersion := nofun

section Specs

variable {allowed : Policy World Input Failure Label} {w : World}

/-- Nothing but the cache changes, whatever the calls answer. -/
def CacheOnly {α : Type} (m : Promise α) : Prop :=
  m.Calls fun c => ∀ x w, ∃ cache, (c.answer x w).2 = { w with cache }

theorem CacheOnly.wp {α : Type} {m : Promise α} (only : CacheOnly m)
    {Q : Except Failure α → World → Prop} (ended : ∀ r cache, Q r { w with cache }) :
    wp allowed m Q w := by
  have frame := @Async.Calls.wp _ _ _ _ _ allowed m w
    (fun v v' => ∃ cache, v' = { v with cache }) (fun v => ⟨v.cache, rfl⟩)
    (fun v v' v'' => by
      rintro ⟨c, rfl⟩ ⟨c', rfl⟩
      exact ⟨c', rfl⟩)
    (Async.Method.Calls.mono (fun h x v _ => h x v) only)
  refine Async.wp_mono frame fun r v => ?_
  rintro ⟨cache, rfl⟩
  exact ended r cache

namespace TasksService

section Cache

variable {key : CacheKey}

/-- A cache that is asked answers what it holds, or nothing. -/
theorem wp_safeCacheGet {Q : Except Failure (Option key.Value) → World → Prop}
    (answered : ∀ i, allowed (.cacheGet key) w (.took i) →
      Q (.ok ((w.cache key).map (·.value))) w)
    (missed : ∀ e, allowed (.cacheGet key) w (.threw e) → Q (.ok none) w) :
    wp allowed (safeCacheGet key) Q w := by
  unfold safeCacheGet
  simp only [pure_eq, tryCatch_eq, wp_handle]
  exact Promise.wp_cacheGet answered missed

theorem wp_safeCacheSet {value : key.Value} {expires : Bool}
    {Q : Except Failure Unit → World → Prop}
    (set : ∀ i, allowed (.cacheSet key) w (.took i) →
      Q (.ok ()) { w with cache := Function.update w.cache key (some ⟨value, expires⟩) })
    (failed : ∀ e, allowed (.cacheSet key) w (.threw e) → Q (.ok ()) w) :
    wp allowed (safeCacheSet key value expires) Q w := by
  unfold safeCacheSet
  simp only [pure_eq, tryCatch_eq, wp_handle]
  exact Promise.wp_cacheSet set failed

/-- The version of the lists that is stored, 0 when there is none. -/
def storedVersion (w : World) : Nat := ((w.cache .taskListVersion).map (·.value)).getD (0 : Nat)

theorem wp_listVersion {Q : Except Failure Nat → World → Prop}
    (read : ∀ i, allowed (.cacheGet .taskListVersion) w (.took i) → Q (.ok (storedVersion w)) w)
    (missed : ∀ e, allowed (.cacheGet .taskListVersion) w (.threw e) → Q (.ok (0 : Nat)) w) :
    wp allowed listVersion Q w := by
  unfold listVersion
  rw [bind_eq, wp_bind]
  exact wp_safeCacheGet read missed

/-- The next version of the lists is the one after the version read, or after 0 when the
read fails. -/
theorem wp_bumpListCacheVersion {Q : Except Failure Unit → World → Prop}
    (bumped : ∀ version : Nat,
      (∃ i, allowed (.cacheGet .taskListVersion) w (.took i)) ∧ version = storedVersion w ∨
        (∃ e, allowed (.cacheGet .taskListVersion) w (.threw e)) ∧ version = 0 →
      (∃ i, allowed (.cacheSet .taskListVersion) w (.took i)) →
      Q (.ok ()) { w with
        cache := Function.update w.cache .taskListVersion (some ⟨version + 1, false⟩) })
    (failed : ∀ e, allowed (.cacheSet .taskListVersion) w (.threw e) → Q (.ok ()) w) :
    wp allowed bumpListCacheVersion Q w := by
  unfold bumpListCacheVersion
  rw [bind_eq, wp_bind]
  apply wp_listVersion
  · intro i hi
    exact wp_safeCacheSet (fun j hj => bumped _ (.inl ⟨⟨i, hi⟩, rfl⟩) ⟨j, hj⟩) failed
  · intro e he
    exact wp_safeCacheSet (fun j hj => bumped 0 (.inr ⟨⟨e, he⟩, rfl⟩) ⟨j, hj⟩) failed

private theorem safeCacheDel_eq (key : CacheKey) :
    safeCacheDel key = .await {
      label := .cacheDel key
      run := fun _ w => (.ok (), { w with cache := Function.update w.cache key none }) }
      fun _ => .done () := by
  refine congrArg (Async.Method.await _) (funext fun r => ?_)
  cases r <;> rfl

/-- What `update` and `remove` do to the cache: the bump of the version and the delete of the
task commute. -/
theorem wp_invalidate {id : String} {P : World → Prop}
    {Q : Except Failure (Unit × Unit) → World → Prop}
    (steady : ∀ l s t x, allowed l s x → allowed l t x)
    (bump : wp allowed bumpListCacheVersion (onOk (fun _ => P) fun _ _ => False) w)
    (deleted : ∀ t, P t →
      Q (.ok ((), ())) { t with cache := Function.update t.cache (.task id) none })
    (failed : ∀ t e, P t → allowed (.cacheDel (.task id)) t (.threw e) → Q (.ok ((), ())) t) :
    wp allowed (Async.Method.par (safeCacheDel (.task id)) bumpListCacheVersion) Q w := by
  rw [safeCacheDel_eq]
  apply Async.wp_par_await (fun _ l s y => steady l _ s y) fun x s t => steady _ s t x
  · intro x
    have get : (safeCacheGet .taskListVersion).Calls fun d => ∀ y s,
        d.answer y { s with cache := Function.update s.cache (.task id) none } =
          ((d.answer y s).1, { (d.answer y s).2 with
            cache := Function.update (d.answer y s).2.cache (.task id) none }) := by
      refine calls_handle (calls_call fun y s => ?_) fun _ => trivial
      cases y <;> rfl
    have set : ∀ version : Nat, (safeCacheSet .taskListVersion version false).Calls fun d => ∀ y s,
        d.answer y { s with cache := Function.update s.cache (.task id) none } =
          ((d.answer y s).1, { (d.answer y s).2 with
            cache := Function.update (d.answer y s).2.cache (.task id) none }) := by
      intro version
      refine calls_handle (calls_call fun y s => ?_) fun _ => trivial
      cases y with
      | threw e => rfl
      | took i =>
        simp only [Async.Call.answer_took, Function.update_comm (CacheKey.task_ne_listVersion id)]
    cases x with
    | took i => exact calls_bind (calls_bind get fun _ => trivial) fun version => set _
    | threw e => exact Async.Method.calls_of_forall fun _ _ _ => rfl
  · refine Async.wp_mono bump fun r t h => ?_
    cases r with
    | error e => exact h.elim
    | ok u =>
      intro x hx
      cases x with
      | took i => exact deleted t h
      | threw e => exact failed t e h hx

end Cache

/-- Only the row of the task changes. -/
theorem updateRow_ok {id : String} {dto : UpdateTaskDto} {i : Input} {db db' : Db} {task : Task}
    (h : updateRow id dto i db = .ok (task, db')) :
    ∃ old, db.tasks.find (.ofText id) = some old ∧ task = dto.apply i.now old ∧
      db' = { db with
        tasks := db.tasks.updateWhere (·.id = old.id) (dto.apply i.now) fun _ => rfl } := by
  obtain ⟨-, h⟩ := withTexts_eq_ok.mp h
  split at h
  · cases h
  · next old found =>
    cases h
    exact ⟨old, found, rfl, rfl⟩

theorem removeRow_ok {id : String} {db db' : Db} (h : removeRow id db = .ok db') :
    db' = db.without { tasks := [.ofText id] } := by
  unfold removeRow at h
  dsimp only at h
  split at h
  · cases h
  · split at h
    · exact (Db.delete_ok h).1
    · cases h

theorem wp_createPrivate {userId : Uuid} {title : String}
    {description : Option String} {Q : Except Failure Task → World → Prop}
    (created : ∀ (i : Input) row db,
      row = ⟨i.uuid 0, title, none, none, none, description, some userId, i.now, i.now⟩ →
        w.db.insertTask row = .ok db → Q (.ok row) { w with db })
    (failed : ∀ e, Q (.error e) w) :
    wp allowed (createPrivate userId title description) Q w := by
  unfold createPrivate
  refine Promise.wp_write (fun i a db _ h => ?_) (fun _ e _ _ => failed e) fun e _ => failed e
  obtain ⟨db', hdb, h⟩ := bind_eq_ok h
  cases h
  exact created i _ _ rfl hdb

private theorem read_cacheOnly {α : Type} {model : Model} {op : Operation}
    {f : Input → Db → Except Failure α} : CacheOnly (Promise.read model op f) :=
  calls_call fun x v => by cases x <;> exact ⟨v.cache, rfl⟩

private theorem safeCacheGet_cacheOnly (key : CacheKey) :
    CacheOnly (safeCacheGet key) :=
  calls_handle (calls_call fun x v => by cases x <;> exact ⟨v.cache, rfl⟩) fun _ => trivial

private theorem safeCacheSet_cacheOnly (key : CacheKey) (value : key.Value) (expires : Bool) :
    CacheOnly (safeCacheSet key value expires) := by
  refine calls_handle (calls_call fun x v => ?_) fun _ => trivial
  cases x with
  | took i => exact ⟨_, rfl⟩
  | threw e => exact ⟨v.cache, rfl⟩

private theorem cachedTask_cacheOnly (id : String) : CacheOnly (cachedTask id) := by
  refine calls_bind (safeCacheGet_cacheOnly _) fun cached => ?_
  cases cached with
  | some task => trivial
  | none =>
    refine calls_bind read_cacheOnly fun task => ?_
    cases task with
    | some task => exact calls_bind (safeCacheSet_cacheOnly _ _ _) fun _ => trivial
    | none => trivial

theorem findById_cacheOnly (id : String) (userId : Option Uuid) :
    CacheOnly (findById id userId) := by
  refine calls_bind (cachedTask_cacheOnly id) fun task => ?_
  cases task with
  | some task =>
    dsimp only
    split <;> trivial
  | none => trivial

end TasksService

end Specs

end GuitarCoach
