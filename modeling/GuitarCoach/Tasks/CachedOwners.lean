/- digest: A cached task has the owner of its row, after any history of calls. -/

import GuitarCoach.Tasks.SingleTaskCache

/-!
A cached task may be out of date, but no call changes the owner of a row, and an id that is
generated is one under which nothing is cached.
-/

set_option autoImplicit false
set_option relaxedAutoImplicit false

namespace GuitarCoach

open Async (Answer Call History Policy Preserves wp onOk wp_bind wp_ends)
open Async.Method (pure_eq throw_eq bind_eq tryCatch_eq calls_call calls_bind calls_handle calls_par)
open Relational (Table)

/-- A cached task has the owner of its row. -/
def OwnersCached (w : World) : Prop :=
  ∀ s, ∀ e ∈ w.cache (.task s), ∀ row ∈ w.db.tasks.rows, row.id = .ofText s →
    e.value.ownerId = row.ownerId

/-- Any call may fail, but nothing is cached under an id that is generated. -/
def newIds : Policy World Input Failure Label
  | _, w, .took i => ∀ n s, i.uuid n = .ofText s → w.cache (.task s) = none
  | _, _, .threw _ => True

namespace OwnersCached

variable {w v : World}

/-- What is cached was cached, and a row is new or has the owner it had. -/
theorem moved (owners : OwnersCached w)
    (cache : ∀ s, ∀ e ∈ v.cache (.task s), e ∈ w.cache (.task s))
    (rows : ∀ row ∈ v.db.tasks.rows,
      (∃ old ∈ w.db.tasks.rows, old.id = row.id ∧ old.ownerId = row.ownerId) ∨
        ∀ s, row.id = .ofText s → w.cache (.task s) = none) : OwnersCached v := by
  intro s e he row hrow hid
  have cached := cache s e he
  rcases rows row hrow with ⟨old, hold, same, owner⟩ | fresh
  · rw [← owner]
    exact owners s e cached old hold (same.trans hid)
  · rw [fresh s hid] at cached
    cases cached

/-- Some rows go. -/
theorem fewer (owners : OwnersCached w) {db : Db} (rows : db.tasks.rows ⊆ w.db.tasks.rows) :
    OwnersCached { w with db } :=
  owners.moved (fun _ _ he => he) fun row hrow => .inl ⟨row, rows hrow, rfl, rfl⟩

/-- A row is cached as it is read. -/
theorem cached (owners : OwnersCached w) {taskId : String} {row : Task} {expires : Bool}
    (hrow : row ∈ w.db.tasks.rows) (hid : row.id = .ofText taskId) :
    OwnersCached { w with
      cache := Function.update w.cache (.task taskId) (some ⟨row, expires⟩) } := by
  intro s e he other hother same
  dsimp only at he hother
  by_cases own : s = taskId
  · subst own
    rw [Function.update_self] at he
    cases he
    rw [Table.eq_of_key hrow hother (hid.trans same.symm)]
  · have apart : CacheKey.task s ≠ .task taskId := fun h => own (CacheKey.task.inj h)
    rw [Function.update_of_ne apart] at he
    exact owners s e he other hother same

end OwnersCached

/-! ### What each call keeps -/

/-- Every call of the method keeps the owners of cached tasks right. -/
private abbrev KeepsOwners {α : Type} (m : Promise α) : Prop :=
  m.Calls fun c => ∀ x w, newIds c.label w x → OwnersCached w → OwnersCached (c.answer x w).2

section Calls

variable {α : Type} {model : Model} {op : Operation}

private theorem write_keeps {touched : Db → RowSet} {f : Input → Db → Except Failure (α × Db)}
    (rows : ∀ i db a db', f i db = .ok (a, db') → ∀ row ∈ db'.tasks.rows,
      (∃ old ∈ db.tasks.rows, old.id = row.id ∧ old.ownerId = row.ownerId) ∨
        ∃ n, row.id = i.uuid n) : KeepsOwners (Promise.write model op touched f) := by
  apply calls_call
  rintro (i | e) w ids owners
  · dsimp only [Call.answer_took]
    cases hf : f i w.db with
    | error e => exact owners
    | ok r =>
      refine owners.moved (fun _ _ he => he) fun row hrow => ?_
      rcases rows i w.db r.1 r.2 hf row hrow with old | ⟨n, hn⟩
      · exact .inl old
      · exact .inr fun s hs => ids n s (hn.symm.trans hs)
  · exact owners

private theorem cacheGet_keeps (key : CacheKey) : KeepsOwners (TasksService.safeCacheGet key) :=
  calls_handle (calls_call fun x _ _ owners => by cases x <;> exact owners) fun _ => trivial

private theorem bump_keeps : KeepsOwners TasksService.bumpListCacheVersion := by
  refine calls_bind (calls_bind (cacheGet_keeps _) fun _ => trivial) fun version => ?_
  refine calls_handle (calls_call ?_) fun _ => trivial
  rintro (i | e) w - owners
  · refine owners.moved (fun s e he => ?_) fun row hrow => .inl ⟨row, hrow, rfl, rfl⟩
    dsimp only [Call.answer_took] at he
    rwa [Function.update_of_ne (CacheKey.task_ne_listVersion s)] at he
  · exact owners

private theorem cacheDel_keeps (id : String) :
    KeepsOwners (TasksService.safeCacheDel (.task id)) := by
  refine calls_handle (calls_call ?_) fun _ => trivial
  rintro (i | e) w - owners
  · refine owners.moved (fun s e he => ?_) fun row hrow => .inl ⟨row, hrow, rfl, rfl⟩
    dsimp only [Call.answer_took] at he
    by_cases own : CacheKey.task s = .task id
    · obtain rfl := CacheKey.task.inj own
      rw [Function.update_self] at he
      cases he
    · rwa [Function.update_of_ne own] at he
  · exact owners

private theorem invalidate_keeps (id : String) :
    KeepsOwners (Async.Method.par (TasksService.safeCacheDel (.task id))
      TasksService.bumpListCacheVersion) :=
  calls_par (cacheDel_keeps id) bump_keeps

private theorem insertTask_rows {a : Task} {db db' : Db} (h : db.insertTask a = .ok db') :
    ∀ row ∈ db'.tasks.rows, row ∈ db.tasks.rows ∨ row = a := by
  intro row hrow
  rw [(Db.insertTask_grown h).tasks] at hrow
  rcases List.mem_append.mp hrow with old | new
  · exact .inl old
  · exact .inr (List.mem_singleton.mp new)

private theorem create_keeps (dto : CreateTaskDto) : KeepsOwners (TasksService.create dto) := by
  refine calls_bind (write_keeps ?_) fun _ => calls_bind bump_keeps fun _ => trivial
  intro i db a db' created row hrow
  obtain ⟨middle, inserted, created⟩ := bind_eq_ok created
  cases created
  rcases insertTask_rows inserted row hrow with old | rfl
  · exact .inl ⟨row, old, rfl, rfl⟩
  · exact .inr ⟨0, rfl⟩

private theorem createMany_keeps (dtos : List CreateTaskDto) :
    KeepsOwners (TasksService.createMany dtos) := by
  refine calls_bind (write_keeps ?_) fun _ => calls_bind bump_keeps fun _ => trivial
  intro i db a db' created row hrow
  obtain ⟨middle, inserted, created⟩ := bind_eq_ok created
  cases created
  have added := foldlM_keeps
    (R := fun c d : Db => ∀ row ∈ d.tasks.rows, row ∈ c.tasks.rows ∨
      row ∈ dtos.mapIdx fun n (dto : CreateTaskDto) => dto.row i n)
    (fun _ _ hrow => .inl hrow)
    (fun h h' row hrow => (h' row hrow).elim (h row) .inr)
    (fun a ha c d step row hrow => by
      rcases insertTask_rows step row hrow with old | rfl
      · exact .inl old
      · exact .inr ha)
    inserted
  rcases added row hrow with old | new
  · exact .inl ⟨row, old, rfl, rfl⟩
  · obtain ⟨n, hn, rfl⟩ := List.mem_mapIdx.mp new
    exact .inr ⟨n, rfl⟩

private theorem createPrivate_keeps (userId : Uuid) (title : String)
    (description : Option String) :
    KeepsOwners (TasksService.createPrivate userId title description) := by
  refine write_keeps ?_
  intro i db a db' created row hrow
  obtain ⟨middle, inserted, created⟩ := bind_eq_ok created
  cases created
  rcases insertTask_rows inserted row hrow with old | rfl
  · exact .inl ⟨row, old, rfl, rfl⟩
  · exact .inr ⟨0, rfl⟩

private theorem rethrow_keeps {h : Failure → Promise α} (fails : ∀ e, ∃ e', h e = .fail e') :
    ∀ e, KeepsOwners (h e) := by
  intro e
  obtain ⟨e', he⟩ := fails e
  rw [he]
  trivial

private theorem update_keeps (id : String) (dto : UpdateTaskDto) :
    KeepsOwners (TasksService.update id dto) := by
  refine calls_handle (calls_bind (write_keeps ?_) fun _ =>
    calls_bind (invalidate_keeps id) fun _ => trivial) (rethrow_keeps fun e => ?_)
  · intro i db a db' updated row hrow
    obtain ⟨old, -, -, rfl⟩ := TasksService.updateRow_ok updated
    obtain ⟨before, hbefore, rfl⟩ := List.mem_map.mp hrow
    refine .inl ⟨before, hbefore, ?_⟩
    split
    · exact ⟨rfl, rfl⟩
    · exact ⟨rfl, rfl⟩
  · split <;> exact ⟨_, rfl⟩

private theorem remove_keeps (id : String) : KeepsOwners (TasksService.remove id) := by
  refine calls_bind (calls_handle (write_keeps ?_) (rethrow_keeps fun e => ?_)) fun _ =>
    calls_bind (invalidate_keeps id) fun _ => trivial
  · intro i db a db' removed row hrow
    obtain ⟨middle, gone, removed⟩ := bind_eq_ok removed
    cases removed
    rw [TasksService.removeRow_ok gone] at hrow
    exact .inl ⟨row, (Table.mem_deleteWhere.mp hrow).1, rfl, rfl⟩
  · split <;> exact ⟨_, rfl⟩

private theorem view_rows (w : World) (tx : Nat) :
    (w.view tx).tasks.rows ⊆ w.db.tasks.rows := by
  unfold World.view
  split
  · exact List.Subset.refl _
  · exact fun row hrow => (Table.mem_deleteWhere.mp hrow).1

private theorem purge_keeps (userId : String) : KeepsOwners (UsersService.purge userId) := by
  apply UsersService.purge_calls
  · exact calls_call fun x _ _ owners => by cases x <;> exact owners
  · exact fun _ => calls_call fun x _ _ owners => by cases x <;> exact owners
  · intro tx
    refine calls_call ?_
    rintro (i | e) w - owners
    · exact owners.fewer (view_rows w tx)
    · exact owners
  · exact fun _ _ _ _ => calls_call fun x _ _ owners => by cases x <;> exact owners
  · intro tx _ _ rows
    refine calls_call ?_
    rintro (i | e) w - owners
    · dsimp only [Call.answer_took]
      cases rows (w.view tx) with
      | error e => exact owners
      | ok gone =>
        dsimp only
        split
        · cases (w.view tx).delete gone <;> exact owners
        · exact owners
    · exact owners
  · exact fun _ => calls_call fun x _ _ owners => by cases x <;> exact owners

/-- The row that is read goes on, with the owner it has. -/
private theorem readTask_keeps {β : Type} {id : String} {k : Option Task → Promise β} {w : World}
    (owners : OwnersCached w)
    (found : ∀ task v, OwnersCached v → task ∈ v.db.tasks.rows → task.id = .ofText id →
      wp newIds (k (some task)) (fun _ => OwnersCached) v)
    (missing : ∀ v, OwnersCached v → wp newIds (k none) (fun _ => OwnersCached) v) :
    wp newIds (Promise.read .task .findUnique fun _ db => .ok (db.tasks.find (Uuid.ofText id)))
      (onOk (fun read => wp newIds (k read) fun _ => OwnersCached) fun _ => OwnersCached) w := by
  apply Promise.wp_read
  · intro i _
    cases read : w.db.tasks.find (.ofText id) with
    | none => exact missing w owners
    | some row =>
      obtain ⟨hrow, hid⟩ := Table.find_eq_some.mp read
      exact found row w owners hrow hid
  · exact fun _ _ => owners

/-- The row that is cached is the one just read. -/
private theorem cachedTask_keeps (id : String) :
    Preserves newIds OwnersCached (TasksService.cachedTask id) := by
  intro w owners
  have cached : ∀ task v, OwnersCached v → task ∈ v.db.tasks.rows → task.id = .ofText id →
      wp newIds ((TasksService.safeCacheSet (.task id) task true).bind fun _ => .done (some task))
        (fun _ => OwnersCached) v := by
    intro task v owners there hid
    rw [wp_bind]
    exact TasksService.wp_safeCacheSet (fun _ _ => owners.cached there hid) fun _ _ => owners
  unfold TasksService.cachedTask
  simp only [bind_eq, pure_eq, wp_bind]
  apply TasksService.wp_safeCacheGet
  · intro _ _
    cases w.cache (.task id) with
    | some e => exact owners
    | none =>
      dsimp only [onOk, Option.map_none]
      rw [wp_bind]
      exact readTask_keeps owners cached fun _ owners => owners
  · intro _ _
    dsimp only [onOk]
    rw [wp_bind]
    exact readTask_keeps owners cached fun _ owners => owners

private theorem findById_keeps (id : String) (userId : Option Uuid) :
    Preserves newIds OwnersCached (TasksService.findById id userId) := by
  refine Preserves.bind (cachedTask_keeps id) fun found => ?_
  cases found with
  | none => exact Preserves.fail _
  | some task =>
    dsimp only
    split
    · exact Preserves.fail _
    · exact Preserves.done _

end Calls

/-- The owners of cached tasks are right after any history of calls, whatever fails in it. -/
theorem owners_cached_of_history {start w : World}
    {calls : List (Async.Served World Failure Unit TaskCall.Result)}
    (history : History TaskCall.run (fun _ : Unit => newIds) Elsewhere start calls w)
    (owners : OwnersCached start) : OwnersCached w := by
  induction history with
  | idle => exact owners
  | serve mode request result sofar ends ih =>
    have keeps : Preserves newIds OwnersCached request.run := by
      cases request with
      | create dto => exact Preserves.of_calls (create_keeps dto)
      | createMany dtos => exact Preserves.of_calls (createMany_keeps dtos)
      | createPrivate userId title description =>
        exact Preserves.of_calls (createPrivate_keeps userId title description)
      | update id dto => exact Preserves.of_calls (update_keeps id dto)
      | remove id => exact Preserves.of_calls (remove_keeps id)
      | findById id userId => exact findById_keeps id userId
      | purge userId => exact Preserves.of_calls (purge_keeps userId)
    exact wp_ends (keeps _ ih) ends
  | pause sofar moves ih =>
    intro s e he row hrow hid
    rw [moves.tasks] at hrow
    rcases moves.cache (.task s) with same | ⟨gone, -⟩
    · exact ih s e (same ▸ he) row hrow hid
    · rw [gone] at he
      cases he

end GuitarCoach
