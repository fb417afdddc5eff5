/- digest: A task of another user is refused like one that is not there, cached or not. -/

import GuitarCoach.Ownership.Isolation
import GuitarCoach.Ownership.Statements

/-!
What there is under the id of a task is either all hidden from a user or not at all: a cached task
has the owner of its row. Where it is hidden the lookup ends as if nothing were there, though it may
take another way and leave the task in the cache, where the user does not see it.
-/

set_option autoImplicit false
set_option relaxedAutoImplicit false

namespace GuitarCoach

open Async (Answer Call EndsAlike Ends Policy onOk wp wp_bind wp_mono)
open Async.Method (Calls calls_call calls_bind calls_handle calls_par bind_eq tryCatch_eq throw_eq
  pure_eq)
open Isolated (Passes passes_read)
open Relational (Table)

variable {new : Uuid → Prop} {userId : Uuid} {w : World} {db : Db} {key : CacheKey} {id : String}

theorem visibleTo_congr {a b : Task} (owner : a.ownerId = b.ownerId) :
    visibleTo userId a = visibleTo userId b := by
  unfold visibleTo
  rw [owner]

/-! ### The cache as the user sees it -/

namespace World

/-- Only tasks are hidden. -/
theorem cache_seenBy (other : ∀ s, key ≠ .task s) (w : World) :
    (w.seenBy userId).cache key = w.cache key := by
  show (w.cache key).filter (·.visible userId) = w.cache key
  cases there : w.cache key with
  | none => rfl
  | some e =>
    refine Option.filter_some_pos ?_
    cases key with
    | task s => exact absurd rfl (other s)
    | taskListVersion => rfl
    | taskList => rfl
    | planOwner => rfl

theorem update_seenBy {e : Entry key} (visible : e.visible userId = true) (w : World) :
    { w.seenBy userId with cache := Function.update (w.seenBy userId).cache key (some e) } =
      World.seenBy userId { w with cache := Function.update w.cache key (some e) } := by
  have cache : Function.update (w.seenBy userId).cache key (some e) = fun k =>
      (Function.update w.cache key (some e) k).filter (·.visible userId) := by
    funext k
    by_cases same : k = key
    · subst same
      rw [Function.update_self, Function.update_self, Option.filter_some_pos visible]
    · rw [Function.update_of_ne same, Function.update_of_ne same]
      rfl
  rw [cache]
  rfl

/-- What is hidden before and after does not change what is seen. -/
theorem seenBy_update {e : Entry key} (hidden : e.visible userId = false)
    (before : ∀ d ∈ w.cache key, d.visible userId = false) :
    World.seenBy userId { w with cache := Function.update w.cache key (some e) } =
      w.seenBy userId := by
  have cache : (fun k => (Function.update w.cache key (some e) k).filter (·.visible userId)) =
      (w.seenBy userId).cache := by
    funext k
    by_cases same : k = key
    · subst same
      rw [Function.update_self, Option.filter_some_neg (by simp [hidden])]
      show none = (w.cache k).filter _
      cases there : w.cache k with
      | none => rfl
      | some d => rw [Option.filter_some_neg (by simp [before d there])]
    · rw [Function.update_of_ne same]
      rfl
  unfold World.seenBy at cache ⊢
  dsimp only at cache ⊢
  rw [cache]

/-- A row is cached as it is read. -/
theorem Fair.cacheRow (fair : w.Fair new userId) {a : Task} {expires : Bool}
    (ha : a ∈ w.db.tasks.rows) (hid : a.id = .ofText id) :
    World.Fair new userId
      { w with cache := Function.update w.cache (.task id) (some ⟨a, expires⟩) } := by
  refine { fair with owners := fair.owners.cached ha hid, cached := fun s e he isNew => ?_ }
  by_cases same : CacheKey.task s = .task id
  · obtain rfl := CacheKey.task.inj same
    dsimp only at he
    rw [Function.update_self] at he
    cases he
    exact fair.tasks a ha (hid ▸ isNew)
  · dsimp only at he
    rw [Function.update_of_ne same] at he
    exact fair.cached s e he isNew

/-- All there is under the id of a task, in the cache or the table, is others' or may be seen. -/
def ShowsTask (userId : Uuid) (id : String) (shown : Bool) (w : World) : Prop :=
  (∀ e ∈ w.cache (.task id), visibleTo userId e.value = shown) ∧
    ∀ a ∈ w.db.tasks.rows, a.id = .ofText id → visibleTo userId a = shown

theorem Fair.shows (fair : w.Fair new userId) (id : String) :
    ∃ shown, w.ShowsTask userId id shown := by
  by_cases there : ∃ a ∈ w.db.tasks.rows, a.id = .ofText id
  · obtain ⟨a, ha, hid⟩ := there
    refine ⟨visibleTo userId a, fun e he => ?_, fun b hb same => ?_⟩
    · exact visibleTo_congr (fair.owners id e he a ha hid)
    · rw [Table.eq_of_key hb ha (same.trans hid.symm)]
  · cases cached : w.cache (.task id) with
    | none =>
      refine ⟨true, fun e he => ?_, fun a ha hid => absurd ⟨a, ha, hid⟩ there⟩
      rw [cached] at he
      cases he
    | some d =>
      refine ⟨visibleTo userId d.value, fun e he => ?_, fun a ha hid => absurd ⟨a, ha, hid⟩ there⟩
      rw [cached] at he
      cases he
      rfl

end World

namespace Isolated

open Promise

theorem cacheGet (fair : w.Fair new userId)
    (same : (w.seenBy userId).cache key = w.cache key) :
    Isolated new userId (Promise.cacheGet key) (fun _ v => v = w) w := by
  refine EndsAlike.call (fair.reserved_iff _) fun x _ => ?_
  cases x with
  | threw e => exact ⟨rfl, rfl, fair, rfl⟩
  | took i =>
    refine ⟨?_, rfl, fair, rfl⟩
    show Except.ok (((w.seenBy userId).cache key).map (·.value)) = _
    rw [same]
    rfl

theorem cacheSet {value : key.Value} {expires : Bool} (fair : w.Fair new userId)
    (after : World.Fair new userId
      { w with cache := Function.update w.cache key (some ⟨value, expires⟩) })
    (visible : (⟨value, expires⟩ : Entry key).visible userId = true) :
    Isolated new userId (Promise.cacheSet key value expires) (fun _ _ => True) w := by
  refine EndsAlike.call (fair.reserved_iff _) fun x _ => ?_
  cases x with
  | threw e => exact ⟨rfl, rfl, fair, trivial⟩
  | took i => exact ⟨rfl, w.update_seenBy visible, after, trivial⟩

theorem passes_cacheGet (other : ∀ s, key ≠ .task s) :
    (Promise.cacheGet key).Calls (Passes new userId db) := by
  refine calls_call fun x v _ here => ?_
  cases x with
  | threw e => exact ⟨rfl, here, fun _ => rfl⟩
  | took i =>
    refine ⟨Prod.ext ?_ rfl, here, fun _ => rfl⟩
    show Except.ok (((v.seenBy userId).cache key).map (·.value)) = _
    rw [v.cache_seenBy other]
    rfl

theorem passes_cacheSet {value : key.Value} {expires : Bool} (other : ∀ s, key ≠ .task s) :
    (Promise.cacheSet key value expires).Calls (Passes new userId db) := by
  refine calls_call fun x v _ here => ?_
  cases x with
  | threw e => exact ⟨rfl, here, fun _ => rfl⟩
  | took i =>
    have visible : (⟨value, expires⟩ : Entry key).visible userId = true := by
      cases key with
      | task s => exact absurd rfl (other s)
      | taskListVersion => rfl
      | taskList => rfl
      | planOwner => rfl
    exact ⟨Prod.ext rfl (v.update_seenBy visible), here,
      fun s => Function.update_of_ne (other s).symm _ _⟩

end Isolated

namespace TasksService

open Promise

theorem isolated_findAll (fair : w.Fair new userId) (letters : Letters)
    (query : FindTasksQueryDto) :
    Isolated new userId (findAll letters query) (fun _ _ => True) w := by
  have lists : ∀ version page limit s, listCacheKey letters version page limit query ≠ .task s :=
    fun _ _ _ _ same => by cases same
  have versions : ∀ s, CacheKey.taskListVersion ≠ .task s := fun _ same => by cases same
  refine Isolated.loose (Isolated.of_calls fair (calls_bind (calls_bind (calls_handle
    (Isolated.passes_cacheGet versions) fun _ => trivial) fun _ => trivial) fun version => ?_))
  refine calls_bind (calls_handle (Isolated.passes_cacheGet (lists _ _ _)) fun _ => trivial)
    fun cached => ?_
  cases cached with
  | some page => trivial
  | none =>
    refine calls_bind (calls_bind (calls_par (passes_read fun _ i => ?_)
      (passes_read fun _ i => ?_)) fun _ => trivial) fun _ => calls_bind (calls_handle
        (Isolated.passes_cacheSet (lists _ _ _)) fun _ => trivial) fun _ => trivial
    · exact congrArg (fun rows => withTexts _ (withSkip _ _ rows))
        (findPage_seenBy letters query _ _ i.rank)
    · exact congrArg (fun total => withTexts _ (.ok total)) (countAll_seenBy letters query)

/-- Where a task may be seen, the cache and the table are read as they are. -/
theorem isolated_findById_shown (fair : w.Fair new userId) (shown : w.ShowsTask userId id true) :
    Isolated new userId (findById id (some userId)) (fun _ _ => True) w := by
  have cached : (w.seenBy userId).cache (.task id) = w.cache (.task id) := by
    show (w.cache (.task id)).filter (·.visible userId) = w.cache (.task id)
    cases there : w.cache (.task id) with
    | none => rfl
    | some e => exact Option.filter_some_pos (shown.1 e there)
  have found : (w.db.seenBy userId).tasks.find (.ofText id) = w.db.tasks.find (.ofText id) :=
    Db.findTask_seenBy shown.2
  have gets : Isolated new userId (safeCacheGet (.task id))
      (onOk (fun _ v => v = w) fun _ _ => True) w := by
    refine Isolated.handle ((Isolated.cacheGet fair cached).weaken fun r v fair' same => ?_)
    cases r with
    | ok a => exact same
    | error e => exact Isolated.done fair' same
  have task : Isolated new userId (cachedTask id) (fun _ _ => True) w := by
    unfold cachedTask
    simp only [bind_eq, pure_eq]
    refine Isolated.after gets fun hit v fair' same => ?_
    subst same
    cases hit with
    | some task => exact Isolated.done fair' trivial
    | none =>
      refine Isolated.readThen fair' (fun i => ?_) (fun _ => trivial) fun i row read => ?_
      · rw [found]
      · cases row with
        | none => exact Isolated.done fair' trivial
        | some row =>
          obtain ⟨hrow, hid⟩ := Table.find_eq_some.mp (Except.ok.inj read)
          have visible : (⟨row, true⟩ : Entry (.task id)).visible userId = true :=
            shown.2 row hrow hid
          exact Isolated.andThen (Isolated.swallow (Isolated.cacheSet fair'
            (fair'.cacheRow hrow hid) visible)) fun _ _ fair' => Isolated.done fair' trivial
  unfold findById
  rw [bind_eq]
  refine Isolated.andThen task fun task v fair' => ?_
  cases task with
  | none => exact Isolated.fail fair' trivial
  | some task =>
    dsimp only
    split
    · exact Isolated.fail fair' trivial
    · exact Isolated.done fair' trivial

/-- A task that is hidden from the user is refused. -/
theorem refuses {task : Task} (hidden : visibleTo userId task = false) :
    ((some userId).any fun u => task.ownerId.any (· ≠ u)) = true := by
  unfold visibleTo at hidden
  cases owner : task.ownerId with
  | none => simp [owner] at hidden
  | some v =>
    rw [owner] at hidden
    simpa using hidden

/-- What the lookup of a task may leave: the row is cached. -/
def MayCache (id : String) (w v : World) : Prop :=
  v = w ∨ ∃ a ∈ w.db.tasks.rows, a.id = .ofText id ∧
    v = { w with cache := Function.update w.cache (.task id) (some ⟨a, true⟩) }

/-- The lookup goes on with the row that is read, and the read is answered. -/
private theorem wp_readTask {β : Type} {k : Option Task → Promise β}
    {Q : Except Failure β → World → Prop}
    (found : ∀ i, (∀ l, reserved new l w (.took i)) → ∀ task ∈ w.db.tasks.rows,
      task.id = .ofText id → wp (reserved new) (k (some task)) Q w)
    (missing : ∀ i, (∀ l, reserved new l w (.took i)) → wp (reserved new) (k none) Q w) :
    wp (reserved new) (Promise.read .task .findUnique fun _ db =>
      .ok (db.tasks.find (Uuid.ofText id)))
      (onOk (fun read => wp (reserved new) (k read) Q) fun e => Q (.error e)) w := by
  apply Promise.wp_read
  · intro i may
    cases read : w.db.tasks.find (.ofText id) with
    | none => exact missing i fun _ => may
    | some row =>
      obtain ⟨hrow, hid⟩ := Table.find_eq_some.mp read
      exact found i (fun _ => may) row hrow hid
  · exact fun _ may => absurd rfl may

/-- What is hidden from the user may be found, but it stays hidden. -/
private theorem wp_cachedTask_hidden (hidden : w.ShowsTask userId id false) :
    wp (reserved new) (cachedTask id) (fun r v => (∃ found, r = .ok found ∧
      ∀ a ∈ found, visibleTo userId a = false) ∧ MayCache id w v ∧
        ∃ i, ∀ l, reserved new l w (.took i)) w := by
  have none_shown : ∀ a ∈ (none : Option Task), visibleTo userId a = false :=
    fun a ha => by cases ha
  have stored : ∀ i, (∀ l, reserved new l w (.took i)) → ∀ task ∈ w.db.tasks.rows,
      task.id = .ofText id → wp (reserved new)
        ((safeCacheSet (.task id) task true).bind fun _ => .done (some task))
        (fun r v => (∃ found, r = .ok found ∧ ∀ a ∈ found, visibleTo userId a = false) ∧
          MayCache id w v ∧ ∃ i, ∀ l, reserved new l w (.took i)) w := by
    intro i may task htask hid
    have shown : ∀ a ∈ some task, visibleTo userId a = false := by
      intro a ha
      cases ha
      exact hidden.2 task htask hid
    rw [wp_bind]
    exact wp_safeCacheSet
      (fun _ _ => ⟨⟨some task, rfl, shown⟩, .inr ⟨task, htask, hid, rfl⟩, i, may⟩)
      fun _ _ => ⟨⟨some task, rfl, shown⟩, .inl rfl, i, may⟩
  unfold cachedTask
  simp only [bind_eq, pure_eq, wp_bind]
  apply wp_safeCacheGet
  · intro i may
    cases cached : w.cache (.task id) with
    | some e =>
      refine ⟨⟨some e.value, rfl, fun a ha => ?_⟩, .inl rfl, i, fun _ => may⟩
      cases ha
      exact hidden.1 e cached
    | none =>
      dsimp only [onOk, Option.map_none]
      rw [wp_bind]
      exact wp_readTask stored fun i may => ⟨⟨none, rfl, none_shown⟩, .inl rfl, i, may⟩
  · intro e _
    dsimp only [onOk]
    rw [wp_bind]
    exact wp_readTask stored fun i may => ⟨⟨none, rfl, none_shown⟩, .inl rfl, i, may⟩

/-- However the lookup of a hidden task goes, it ends as if there were none. -/
theorem wp_findById_hidden (hidden : w.ShowsTask userId id false) :
    wp (reserved new) (findById id (some userId)) (fun r v => r = .error (taskNotFound id) ∧
      MayCache id w v ∧ ∃ i, ∀ l, reserved new l w (.took i)) w := by
  unfold findById
  rw [bind_eq, wp_bind]
  refine wp_mono (wp_cachedTask_hidden hidden) fun r v h => ?_
  obtain ⟨⟨found, rfl, stays⟩, left, answered⟩ := h
  rw [onOk]
  cases found with
  | none => exact ⟨rfl, left, answered⟩
  | some task =>
    dsimp only
    rw [if_pos (refuses (stays task rfl))]
    exact ⟨rfl, left, answered⟩

/-- Any answer will do, and the cache need not take the row. -/
theorem ends_findById_hidden (hidden : w.ShowsTask userId id false) {i : Input}
    (may : ∀ l, reserved new l w (.took i)) :
    Ends (reserved new) (findById id (some userId)) w (.error (taskNotFound id)) w := by
  have gets : Ends (reserved new) (safeCacheGet (.task id)) w
      (.ok ((w.cache (.task id)).map (·.value))) w := Ends.handle_ok (.call (may _))
  have looked : ∃ found, Ends (reserved new) (cachedTask id) w (.ok found) w ∧
      ∀ a ∈ found, visibleTo userId a = false := by
    cases cached : w.cache (.task id) with
    | some e =>
      rw [cached] at gets
      refine ⟨some e.value, gets.bind (.done _ w), fun a ha => ?_⟩
      cases ha
      exact hidden.1 e cached
    | none =>
      rw [cached] at gets
      have reads : Ends (reserved new)
          (Promise.read .task .findUnique fun _ db => .ok (db.tasks.find (Uuid.ofText id))) w
          (.ok (w.db.tasks.find (.ofText id))) w := Promise.ends_read (may _)
      cases found : w.db.tasks.find (.ofText id) with
      | none =>
        rw [found] at reads
        exact ⟨none, gets.bind (reads.bind (.done none w)), fun a ha => by cases ha⟩
      | some row =>
        rw [found] at reads
        obtain ⟨hrow, hid⟩ := Table.find_eq_some.mp found
        have fails : reserved new (.cacheSet (.task id)) w (.threw (taskNotFound id)) := by
          intro same
          cases same
        have throws : Ends (reserved new) (cacheSet (.task id) row true) w
            (.error (taskNotFound id)) w := .await (.threw _) fails (.fail _ w)
        have sets : Ends (reserved new) (safeCacheSet (.task id) row true) w (.ok ()) w :=
          throws.handle_error (.done () w)
        refine ⟨some row, gets.bind (reads.bind (sets.bind (.done _ w))), fun a ha => ?_⟩
        cases ha
        exact hidden.2 row hrow hid
  obtain ⟨found, looked, stays⟩ := looked
  refine looked.bind ?_
  cases found with
  | none => exact .fail _ w
  | some task =>
    dsimp only
    rw [if_pos (refuses (stays task rfl))]
    exact .fail _ w

theorem isolated_findById_hidden (fair : w.Fair new userId) (hidden : w.ShowsTask userId id false) :
    Isolated new userId (findById id (some userId)) (fun _ _ => True) w := by
  have unseen : ∀ a ∈ (w.seenBy userId).db.tasks.rows, a.id ≠ .ofText id := by
    intro a ha same
    obtain ⟨ha, visible⟩ := Table.mem_restrict.mp ha
    rw [hidden.2 a ha same] at visible
    cases visible
  have hidden' : (w.seenBy userId).ShowsTask userId id false := by
    refine ⟨fun e he => ?_, fun a ha same => absurd same (unseen a ha)⟩
    obtain ⟨he, (visible : visibleTo userId e.value = true)⟩ := Option.mem_filter_iff.mp he
    rw [hidden.1 e he] at visible
    cases visible
  constructor
  · refine wp_mono (wp_findById_hidden hidden) fun r v h => ?_
    obtain ⟨rfl, left, i, may⟩ := h
    have may' : ∀ l, reserved new l (w.seenBy userId) (.took i) :=
      fun l => (fair.reserved_iff l _).mp (may l)
    refine ⟨w.seenBy userId, ends_findById_hidden hidden' may', ?_⟩
    rcases left with rfl | ⟨a, ha, hid, rfl⟩
    · exact ⟨rfl, fair, trivial⟩
    · have stays : (⟨a, true⟩ : Entry (.task id)).visible userId = false := hidden.2 a ha hid
      exact ⟨(World.seenBy_update stays hidden.1).symm, fair.cacheRow ha hid, trivial⟩
  · refine wp_mono (wp_findById_hidden hidden') fun r v h => ?_
    obtain ⟨rfl, left, i, may⟩ := h
    have may' : ∀ l, reserved new l w (.took i) := fun l => (fair.reserved_iff l _).mpr (may l)
    refine ⟨w, ends_findById_hidden hidden may', ?_⟩
    rcases left with rfl | ⟨a, ha, hid, -⟩
    · exact ⟨rfl, fair, trivial⟩
    · exact absurd hid (unseen a ha)

theorem isolated_findById (fair : w.Fair new userId) (id : String) :
    Isolated new userId (findById id (some userId)) (fun _ _ => True) w := by
  obtain ⟨shown, shows⟩ := fair.shows id
  cases shown with
  | true => exact isolated_findById_shown fair shows
  | false => exact isolated_findById_hidden fair shows

end TasksService

end GuitarCoach
