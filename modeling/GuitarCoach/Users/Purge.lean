/- digest: What UsersService.purge does: one transaction of deletes, seen as a whole. -/

import GuitarCoach.Store.Transactions
import GuitarCoach.Users.UsersService

set_option autoImplicit false
set_option relaxedAutoImplicit false

namespace GuitarCoach

open Async (Policy wp onOk wp_bind wp_handle wp_done wp_fail)
open Async.Method (pure_eq throw_eq bind_eq tryCatch_eq calls_call calls_bind calls_handle
  calls_par calls_forM)
open Relational (Table orderBy)

/-! ### The purge -/

namespace UsersService

open Promise GcpStorageService
open Relational (window totalPages mem_windows)

/-- The seven deletes of `purge`, one after the other. -/
def purgeTables (id : Uuid) (db : Db) : Except Failure Db := do
  let db ← db.delete (recordingsOf id db)
  let db ← db.delete (sessionTasksOf id db)
  let db ← db.delete (sessionsOf id db)
  let db ← db.delete (routineTasksOf id db)
  let db ← db.delete (routinesOf id db)
  let db ← db.delete (tasksOf id db)
  if db.users.has id then db.delete { users := [id] } else throw (.prisma .P2025)

/-- The objects that `purge` deletes once it has committed. -/
def purgeObjects (userId : String) (user : User) (rank : Nat → Nat) (db : Db) : List String :=
  (orderBy rank (fun _ _ => true) (db.recordings.rows.filter (·.userId = Uuid.ofText userId))).map
    (·.objectName) ++ (ownAvatarObject userId user.image).toList

/-- A call of the transaction can throw. -/
def DatabaseFails (allowed : Policy World Input Failure Label) : Prop :=
  ∃ l w e, allowed l w (.threw e) ∧
    (l = .begin ∨ l = .commit ∨ l = .rollback ∨ ∃ model op, l = .db model op)

section Spec

variable {allowed : Policy World Input Failure Label} {w : World}

/-- One delete of `purge` and what follows it, against one delete of `purgeTables`. -/
private theorem wp_deleteThen {β : Type} {model : Model} {op : Operation}
    {rows : Db → Except Failure RowSet} {rest : Promise β} {R : Except Failure β → World → Prop}
    {view : Db} {v : World} {whole : Except Failure Db} {tail : Db → Except Failure Db}
    (idle : w.Idle) (inside : Inside w view v)
    (sofar : whole = (rows view >>= (view.delete ·)) >>= tail)
    (next : ∀ view' v', Inside w view' v' → whole = tail view' → wp allowed rest R v')
    (failed : ∀ e v, Inside w view v → (∃ e', whole = .error e') ∨ DatabaseFails allowed →
      R (.error e) v) :
    wp allowed ((txDelete w.nextTx model op rows).bind fun _ => rest) R v := by
  rw [wp_bind]
  refine inside.wp_delete idle (fun gone db v' hrows hdel inside' => ?_) (fun e he => ?_)
    fun e he => ?_
  · refine next db v' inside' ?_
    rw [sofar, hrows]
    exact congrArg (· >>= tail) hdel
  · exact failed e v inside (.inl ⟨e, by rw [sofar, he]; rfl⟩)
  · exact failed e v inside (.inr ⟨_, v, e, he, .inr (.inr (.inr ⟨_, _, rfl⟩))⟩)

theorem purgeRows_wp {userId : String} {Q : Except Failure (List String) → World → Prop}
    (idle : w.Idle)
    (purged : ∀ user rank db, w.db.users.find (.ofText userId) = some user →
      purgeTables (.ofText userId) w.db = .ok db →
        Q (.ok (purgeObjects userId user rank w.db)) { w with db })
    (refused : ∀ e, w.db.users.find (.ofText userId) = none ∨
      (∃ e', purgeTables (.ofText userId) w.db = .error e') → Q (.error e) w)
    (failed : DatabaseFails allowed → ∀ e, Q (.error e) w) :
    wp allowed (purgeRows userId) Q w := by
  refine wp_transaction (fun e he => failed ⟨_, w, e, he, .inl rfl⟩ e) ?_
  generalize hwhole : purgeTables (.ofText userId) w.db = whole at purged refused
  -- what fails inside the transaction leaves the state as it was
  let E : Failure → World → Prop := fun e v => ∀ e', e' = e ∨ allowed .rollback v (.threw e') →
    Q (.error e') (v.withoutTx w.nextTx)
  have fails : ∀ {view : Db} e v, Inside w view v →
      w.db.users.find (.ofText userId) = none ∨ (∃ e', whole = .error e') ∨
        DatabaseFails allowed → E e v := by
    intro view e v inside why e' _
    rw [inside.ended]
    rcases why with missing | refuses | faulty
    · exact refused e' (.inl missing)
    · exact refused e' (.inr refuses)
    · exact failed faulty e'
  have start := inside_start w
  simp only [bind_eq, pure_eq, throw_eq]
  rw [wp_bind]
  refine start.wp_read (fun i => ?_) fun e he =>
    fails e _ start (.inr (.inr ⟨_, _, e, he, .inr (.inr (.inr ⟨_, _, rfl⟩))⟩))
  dsimp only [onOk]
  cases huser : w.db.users.find (.ofText userId) with
  | none => exact fails _ _ start (.inl huser)
  | some user =>
    dsimp only
    rw [wp_bind]
    refine start.wp_read (fun i => ?_) fun e he =>
      fails e _ start (.inr (.inr ⟨_, _, e, he, .inr (.inr (.inr ⟨_, _, rfl⟩))⟩))
    dsimp only [onOk]
    refine wp_deleteThen idle start hwhole.symm (fun _ _ inside₁ at₁ => ?_) fun e v h why =>
      fails e v h (.inr why)
    refine wp_deleteThen idle inside₁ at₁ (fun _ _ inside₂ at₂ => ?_) fun e v h why =>
      fails e v h (.inr why)
    refine wp_deleteThen idle inside₂ at₂ (fun _ _ inside₃ at₃ => ?_) fun e v h why =>
      fails e v h (.inr why)
    refine wp_deleteThen idle inside₃ at₃ (fun _ _ inside₄ at₄ => ?_) fun e v h why =>
      fails e v h (.inr why)
    refine wp_deleteThen idle inside₄ at₄ (fun _ _ inside₅ at₅ => ?_) fun e v h why =>
      fails e v h (.inr why)
    refine wp_deleteThen idle inside₅ at₅ (fun view v inside₆ at₆ => ?_) fun e v h why =>
      fails e v h (.inr why)
    have last : whole = ((if view.users.has (.ofText userId) then .ok { users := [.ofText userId] }
        else .error (.prisma .P2025) : Except Failure RowSet) >>= (view.delete ·)) >>= .ok := by
      rw [at₆]
      cases view.users.has (.ofText userId) with
      | true =>
        cases hdel : view.delete { users := [.ofText userId] } <;>
          simp [hdel, bind, Except.bind]
      | false => rfl
    refine wp_deleteThen idle inside₆ last (fun db _ inside₇ at₇ => ?_) fun e v h why =>
      fails e v h (.inr why)
    refine ⟨?_, fun e he => ?_⟩
    · rw [inside₇.view_eq, inside₇.ended]
      exact purged user i.rank db huser at₇
    · rw [inside₇.ended]
      exact failed ⟨_, _, e, he, .inr (.inl rfl)⟩ e

end Spec

section DeleteObjects

variable {τ : Type} {S : Async.Setting World Input Failure Label τ} {Gone : String → τ → Prop}

/-- Each of these deletes achieves `Gone`, and nothing undoes it. -/
structure Deletes (S : Async.Setting World Input Failure Label τ) (Gone : String → τ → Prop)
    (names : List String) : Prop where
  passing : ∀ l x u v, S.answers l x u v → S.rely u v
  stable : ∀ name t u, Gone name t → S.rely t u → Gone name u
  took : ∀ name ∈ names, ∀ u v i, S.inv u → S.answers (.deleteObject name) (.took i) u v →
    S.state v = { S.state u with bucket := (S.state u).bucket.erase name } →
      S.inv v ∧ Gone name v
  threw : ∀ name ∈ names, ∀ u v e, S.inv u → S.answers (.deleteObject name) (.threw e) u v →
    S.state v = S.state u → S.inv v ∧ Gone name v

private theorem Deletes.mono {names some : List String} (h : Deletes S Gone names)
    (sub : ∀ name ∈ some, name ∈ names) : Deletes S Gone some where
  passing := h.passing
  stable := h.stable
  took name hname := h.took name (sub name hname)
  threw name hname := h.threw name (sub name hname)

private theorem allSettled_safe {names : List String} (h : Deletes S Gone names) (t : τ) :
    Async.Safe S (allSettled (names.map deleteObject))
      (fun r u => (∃ a, r = .ok a) ∧ ∀ name ∈ names, Gone name u) t := by
  induction names generalizing t with
  | nil => exact fun u _ _ => ⟨⟨(), rfl⟩, by simp⟩
  | cons name names ih =>
    have one : Async.Safe S (tryCatch (deleteObject name) fun _ => return ())
        (fun r u => (∃ a, r = .ok a) ∧ Gone name u) t := by
      refine Async.Safe.handle (Async.Safe.call fun u v x htu hu hanswer _ hnext => ?_)
      cases x with
      | threw e =>
        obtain ⟨hv, hgone⟩ := h.threw name List.mem_cons_self u v e hu hanswer hnext
        exact ⟨hv, fun w hvw _ y hwy _ =>
          ⟨⟨(), rfl⟩, h.stable name v y hgone (S.trans hvw hwy)⟩⟩
      | took i =>
        obtain ⟨hv, hgone⟩ := h.took name List.mem_cons_self u v i hu hanswer hnext
        exact ⟨hv, fun w hvw _ => ⟨⟨(), rfl⟩, h.stable name v w hgone hvw⟩⟩
    refine Async.Safe.bind (Async.Safe.weaken (Q := fun r u => (∃ a, r = .ok a) ∧
      ∀ n ∈ name :: names, Gone n u) ?_ ?_)
    · refine Async.Safe.par h.passing ?_ ?_ ?_ one
        (ih (h.mono fun n hn => List.mem_cons_of_mem _ hn) t)
      · rintro a b u ⟨-, first⟩ ⟨-, rest⟩
        exact ⟨⟨(a, b), rfl⟩, List.forall_mem_cons.mpr ⟨first, rest⟩⟩
      · rintro e u ⟨⟨a, ha⟩, -⟩
        cases ha
      · rintro e u ⟨⟨a, ha⟩, -⟩
        cases ha
    · rintro r u - ⟨⟨a, rfl⟩, all⟩
      exact fun v huv _ => ⟨⟨(), rfl⟩, fun n hn => h.stable n u v (all n hn) huv⟩

/-- In batches of five, every object is deleted. -/
theorem deleteObjects_safe {names : List String} (h : Deletes S Gone names) (t : τ) :
    Async.Safe S (deleteObjects names)
      (fun r u => r = .ok () ∧ ∀ name ∈ names, Gone name u) t := by
  have batch : ∀ k, ∀ name ∈ window (k * gcsDeleteConcurrency) gcsDeleteConcurrency names,
      name ∈ names := fun k name hname => List.mem_of_mem_drop (List.mem_of_mem_take hname)
  let I : List Nat → τ → Prop := fun done u => ∀ k ∈ done, ∀ name ∈
    window (k * gcsDeleteConcurrency) gcsDeleteConcurrency names, Gone name u
  have stable : ∀ done u v, S.rely u v → I done u → I done v :=
    fun done u v huv hdone k hk name hname => h.stable name u v (hdone k hk name hname) huv
  refine Async.Safe.forM I _ (fun done k rest _ u hdone => ?_) stable
    (fun u _ hdone => ⟨rfl, fun name hname => ?_⟩) (by simp [I])
  · have settled := allSettled_safe (h.mono (batch k)) u
    refine (settled.frame h.passing (stable done) hdone).weaken ?_
    rintro r v - ⟨⟨⟨a, rfl⟩, last⟩, before⟩
    exact List.forall_mem_append.mpr ⟨before, by simpa using last⟩
  · obtain ⟨k, hk, hwindow⟩ := mem_windows (by decide : 0 < gcsDeleteConcurrency) hname
    exact hdone k hk name hwindow

end DeleteObjects

theorem deleteObjects_calls
    {P : ∀ {β : Type}, Async.Call World Input Failure Label β → Prop}
    (delete : ∀ name, (deleteObject name).Calls P) (names : List String) :
    (deleteObjects names).Calls P := by
  have settled : ∀ names : List String, (allSettled (names.map deleteObject)).Calls P := by
    intro names
    induction names with
    | nil => trivial
    | cons name names ih =>
      exact calls_bind (calls_par (calls_handle (delete name) fun _ => trivial) ih) fun _ => trivial
  exact calls_forM (fun k => settled _) _

/-- Only the bucket changes; when deletes succeed it has none of the objects left. -/
theorem deleteObjects_wp {allowed : Policy World Input Failure Label} {w : World}
    (names : List String) : wp allowed (deleteObjects names) (fun r v => r = .ok () ∧
      (∃ bucket ⊆ w.bucket, v = { w with bucket }) ∧
        ((∀ name v e, ¬allowed (.deleteObject name) v (.threw e)) →
          ∀ name ∈ names, name ∉ v.bucket)) w := by
  let R : World → World → Prop := fun u v => ∃ bucket ⊆ u.bucket, v = { u with bucket }
  have refl : ∀ u, R u u := fun u => ⟨u.bucket, Finset.Subset.refl _, rfl⟩
  have trans : ∀ {t u v}, R t u → R u v → R t v := by
    rintro t - - ⟨b, hb, rfl⟩ ⟨c, hc, rfl⟩
    exact ⟨c, hc.trans hb, rfl⟩
  refine @Async.wp_of_safe _ _ _ _ _ allowed R refl trans _ _ _
    (deleteObjects_calls (fun name => calls_call ?_) names) ?_
  · rintro (i | e) v _
    · exact ⟨rfl, _, Finset.erase_subset _ _, rfl⟩
    · exact ⟨rfl, refl v⟩
  have h : Deletes (Async.alone allowed R refl trans) (fun name v =>
      (∀ name v e, ¬allowed (.deleteObject name) v (.threw e)) → name ∉ v.bucket) names := by
    refine ⟨fun _ _ _ _ h => h.2, ?_, ?_, ?_⟩
    · rintro name t - gone ⟨b, hb, rfl⟩ succeed
      exact fun hn => gone succeed (hb hn)
    · rintro name - u v i - - next
      refine ⟨trivial, fun _ => ?_⟩
      have hv : v = { u with bucket := u.bucket.erase name } := next
      simp [hv]
    · rintro name - u v e - ⟨fails, -⟩ -
      exact ⟨trivial, fun succeed => absurd fails (succeed name u e)⟩
  refine ((deleteObjects_safe h w).frame h.passing (F := R w) (fun _ _ h h' => trans h' h)
    (refl w)).weaken ?_
  rintro r v - ⟨⟨rfl, gone⟩, moved⟩
  exact ⟨rfl, moved, fun succeed name hname => gone name hname succeed⟩

/-- What `purge` does, by how its transaction ends. -/
theorem purge_wp {allowed : Policy World Input Failure Label} {w : World} {userId : String}
    {Q : Except Failure Unit → World → Prop} (idle : w.Idle)
    (purged : ∀ user rank db bucket, w.db.users.find (.ofText userId) = some user →
      purgeTables (.ofText userId) w.db = .ok db → bucket ⊆ w.bucket →
      ((∀ name v e, ¬allowed (.deleteObject name) v (.threw e)) →
        ∀ name ∈ purgeObjects userId user rank w.db, name ∉ bucket) →
      Q (.ok ()) { w with db, bucket })
    (refused : ∀ e, w.db.users.find (.ofText userId) = none ∨
      (∃ e', purgeTables (.ofText userId) w.db = .error e') → Q (.error e) w)
    (failed : DatabaseFails allowed → ∀ e, Q (.error e) w) : wp allowed (purge userId) Q w := by
  unfold purge
  rw [bind_eq, wp_bind]
  refine purgeRows_wp idle (fun user rank db huser hdb => ?_) refused failed
  refine Async.wp_mono (deleteObjects_wp _) fun r v => ?_
  rintro ⟨rfl, ⟨bucket, hsub, rfl⟩, gone⟩
  exact purged user rank db bucket huser hdb hsub gone

/-- Only rows of the user, and links of these, are selected for deletion. -/
structure Selects (userId : Uuid) (db : Db) (gone : RowSet) : Prop where
  users : ∀ k ∈ gone.users, k = userId
  tasks : ∀ k ∈ gone.tasks, ∃ a ∈ db.tasks.rows, a.id = k ∧ a.ownerId = some userId
  routines : ∀ k ∈ gone.routines, ∃ a ∈ db.routines.rows, a.id = k ∧ a.userId = userId
  routineTasks : ∀ k ∈ gone.routineTasks, ∃ a ∈ db.routines.rows, a.id = k.1 ∧ a.userId = userId
  practiceSessions : ∀ k ∈ gone.practiceSessions, ∃ a ∈ db.practiceSessions.rows,
    a.id = k ∧ a.userId = userId
  practiceSessionTasks : ∀ k ∈ gone.practiceSessionTasks, ∃ a ∈ db.practiceSessions.rows,
    a.id = k.1 ∧ a.userId = userId
  recordings : ∀ k ∈ gone.recordings, ∃ a ∈ db.recordings.rows, a.id = k ∧ a.userId = userId

private theorem selects_nothing {userId : Uuid} {db : Db} : Selects userId db {} := by
  constructor <;> simp

private theorem selected {ρ κ : Type} {rows : List ρ} {key : ρ → κ} {P : ρ → Prop}
    [DecidablePred P] : ∀ k ∈ (rows.filter fun a => decide (P a)).map key,
      ∃ a ∈ rows, key a = k ∧ P a := by
  intro k hk
  obtain ⟨a, ha, rfl⟩ := List.mem_map.mp hk
  obtain ⟨ha, own⟩ := List.mem_filter.mp ha
  exact ⟨a, ha, rfl, of_decide_eq_true own⟩

private theorem linked {ρ β : Type} {links : List ρ} {rows : List β} {key : ρ → Uuid × Uuid}
    {id owner : β → Uuid} {userId : Uuid} : ∀ k ∈ (links.filter fun a =>
      rows.any fun b => id b = (key a).1 && owner b = userId).map key,
      ∃ b ∈ rows, id b = k.1 ∧ owner b = userId := by
  intro k hk
  obtain ⟨a, ha, rfl⟩ := List.mem_map.mp hk
  obtain ⟨b, hb, own⟩ := List.any_eq_true.mp (List.mem_filter.mp ha).2
  rw [Bool.and_eq_true, decide_eq_true_eq, decide_eq_true_eq] at own
  exact ⟨b, hb, own⟩

theorem selects_recordingsOf (userId : Uuid) (db : Db) :
    Selects userId db (recordingsOf userId db) :=
  { selects_nothing with recordings := selected }

theorem selects_sessionTasksOf (userId : Uuid) (db : Db) :
    Selects userId db (sessionTasksOf userId db) :=
  { selects_nothing with practiceSessionTasks := linked }

theorem selects_sessionsOf (userId : Uuid) (db : Db) : Selects userId db (sessionsOf userId db) :=
  { selects_nothing with practiceSessions := selected }

theorem selects_routineTasksOf (userId : Uuid) (db : Db) :
    Selects userId db (routineTasksOf userId db) :=
  { selects_nothing with routineTasks := linked }

theorem selects_routinesOf (userId : Uuid) (db : Db) : Selects userId db (routinesOf userId db) :=
  { selects_nothing with routines := selected }

theorem selects_tasksOf (userId : Uuid) (db : Db) : Selects userId db (tasksOf userId db) :=
  { selects_nothing with tasks := selected }

theorem selects_user (userId : Uuid) (db : Db) : Selects userId db { users := [userId] } :=
  { selects_nothing with users := by simp }

/-- The calls that `purge` makes, whose deletes select what is the user's. -/
theorem purge_calls_of {P : ∀ {β : Type}, Async.Call World Input Failure Label β → Prop}
    (userId : String) (begins : begin.Calls P) (rollbacks : ∀ tx, (rollback tx).Calls P)
    (commits : ∀ tx, (commit tx).Calls P)
    (reads : ∀ {α : Type} tx model op (f : Input → Db → Except Failure α),
      (txRead tx model op f).Calls P)
    (deletes : ∀ tx model op rows,
      (∀ db gone, rows db = .ok gone → Selects (.ofText userId) db gone) →
      (txDelete tx model op rows).Calls P)
    (objects : ∀ name, (deleteObject name).Calls P) : (purge userId).Calls P := by
  have body : ∀ body : Nat → Promise (List String), (∀ tx, (body tx).Calls P) →
      (transaction body).Calls P := by
    intro body calls
    refine calls_bind begins fun tx =>
      calls_bind (calls_handle (calls tx) fun e => ?_) fun a => ?_
    · exact calls_bind (rollbacks tx) fun _ => trivial
    · exact calls_bind (commits tx) fun _ => trivial
  apply calls_bind (body _ fun tx => ?_) fun names => deleteObjects_calls objects names
  apply calls_bind (reads _ _ _ _)
  intro user
  cases user with
  | none => trivial
  | some user =>
    apply calls_bind (reads _ _ _ _)
    intro recordings
    have delete : ∀ {α : Type} model op {rows : Db → RowSet} {k : Unit → Promise α},
        (∀ db, Selects (.ofText userId) db (rows db)) → (∀ a, (k a).Calls P) →
        ((txDelete tx model op fun db => .ok (rows db)).bind k).Calls P :=
      fun model op rows _ own rest => calls_bind (deletes tx model op _ fun db gone h => by
        obtain rfl : rows db = gone := Except.ok.inj h
        exact own db) rest
    refine delete _ _ (selects_recordingsOf _) fun _ => ?_
    refine delete _ _ (selects_sessionTasksOf _) fun _ => ?_
    refine delete _ _ (selects_sessionsOf _) fun _ => ?_
    refine delete _ _ (selects_routineTasksOf _) fun _ => ?_
    refine delete _ _ (selects_routinesOf _) fun _ => ?_
    refine delete _ _ (selects_tasksOf _) fun _ => ?_
    refine calls_bind (deletes _ _ _ _ fun db gone h => ?_) fun _ => trivial
    split at h
    · cases h
      exact selects_user _ _
    · cases h

/-- The calls that `purge` makes. -/
theorem purge_calls {P : ∀ {β : Type}, Async.Call World Input Failure Label β → Prop}
    (begins : begin.Calls P) (rollbacks : ∀ tx, (rollback tx).Calls P)
    (commits : ∀ tx, (commit tx).Calls P)
    (reads : ∀ {α : Type} tx model op (f : Input → Db → Except Failure α),
      (txRead tx model op f).Calls P)
    (deletes : ∀ tx model op rows, (txDelete tx model op rows).Calls P)
    (objects : ∀ name, (deleteObject name).Calls P) (userId : String) :
    (purge userId).Calls P :=
  purge_calls_of userId begins rollbacks commits reads (fun tx model op rows _ => deletes tx model op rows)
    objects

/-- The tasks that a purge leaves. -/
theorem purgeTables_tasks {id : Uuid} {db db' : Db} (h : purgeTables id db = .ok db') :
    db'.tasks = db.tasks.deleteWhere (·.ownerId = some id) := by
  obtain ⟨d₁, h₁, h⟩ := bind_eq_ok h
  obtain ⟨d₂, h₂, h⟩ := bind_eq_ok h
  obtain ⟨d₃, h₃, h⟩ := bind_eq_ok h
  obtain ⟨d₄, h₄, h⟩ := bind_eq_ok h
  obtain ⟨d₅, h₅, h⟩ := bind_eq_ok h
  obtain ⟨d₆, h₆, h⟩ := bind_eq_ok h
  split at h
  · have owned : d₆.tasks = d₅.tasks.deleteWhere (·.ownerId = some id) := by
      rw [(Db.delete_ok h₆).1]
      exact d₅.tasks.deleteWhere_keys (·.ownerId = some id)
    rw [Db.tasks_of_delete h rfl, owned, Db.tasks_of_delete h₅ rfl, Db.tasks_of_delete h₄ rfl,
      Db.tasks_of_delete h₃ rfl, Db.tasks_of_delete h₂ rfl, Db.tasks_of_delete h₁ rfl]
  · cases h

/-- The users and recordings that a purge leaves. -/
theorem purgeTables_ok {id : Uuid} {db db' : Db} (h : purgeTables id db = .ok db') :
    db'.users = db.users.deleteWhere (·.id = id) ∧
      db'.recordings = db.recordings.deleteWhere (·.userId = id) := by
  obtain ⟨d₁, h₁, h⟩ := bind_eq_ok h
  obtain ⟨d₂, h₂, h⟩ := bind_eq_ok h
  obtain ⟨d₃, h₃, h⟩ := bind_eq_ok h
  obtain ⟨d₄, h₄, h⟩ := bind_eq_ok h
  obtain ⟨d₅, h₅, h⟩ := bind_eq_ok h
  obtain ⟨d₆, h₆, h⟩ := bind_eq_ok h
  split at h
  · have recordings : d₁.recordings = db.recordings.deleteWhere (·.userId = id) := by
      rw [(Db.delete_ok h₁).1]
      exact db.recordings.deleteWhere_keys (·.userId = id)
    have users : db'.users = d₆.users.deleteWhere (·.id = id) := by
      rw [(Db.delete_ok h).1]
      simp [Db.without]
    constructor
    · rw [users, Db.users_of_delete h₆ rfl, Db.users_of_delete h₅ rfl, Db.users_of_delete h₄ rfl,
        Db.users_of_delete h₃ rfl, Db.users_of_delete h₂ rfl, Db.users_of_delete h₁ rfl]
    · rw [Db.recordings_of_delete h rfl, Db.recordings_of_delete h₆ rfl, Db.recordings_of_delete h₅ rfl,
        Db.recordings_of_delete h₄ rfl, Db.recordings_of_delete h₃ rfl, Db.recordings_of_delete h₂ rfl,
        recordings]
  · cases h

end UsersService

end GuitarCoach
