/- digest: The transactions that are open at once: what each sees, and the rules of their calls. -/

import GuitarCoach.Store.Rules

set_option autoImplicit false
set_option relaxedAutoImplicit false

namespace GuitarCoach

open Async (Policy wp onOk wp_bind wp_handle wp_done)
open Async.Method (pure_eq throw_eq bind_eq tryCatch_eq)
open Relational (Table)

/-! ### Rows that are taken out -/

namespace Db

private theorem ext_tables {c d : Db} (users : c.users = d.users) (sessions : c.sessions = d.sessions)
    (accounts : c.accounts = d.accounts) (tasks : c.tasks = d.tasks)
    (routines : c.routines = d.routines) (routineTasks : c.routineTasks = d.routineTasks)
    (practiceSessions : c.practiceSessions = d.practiceSessions)
    (practiceSessionTasks : c.practiceSessionTasks = d.practiceSessionTasks)
    (recordings : c.recordings = d.recordings) : c = d := by
  cases c
  cases d
  congr

private theorem forget_union (a b : RowSet) (s : PracticeSession) :
    forget (a.union b) s = forget b (forget a s) := by
  obtain ⟨id, userId, routineId, title, notes, createdAt, updatedAt⟩ := s
  cases routineId with
  | none => rfl
  | some r => by_cases hr : r ∈ a.routines <;> simp [forget, RowSet.union, Option.filter, hr]

/-- Deleting in two statements is deleting both sets. -/
theorem without_union (a b : RowSet) (db : Db) :
    db.without (a.union b) = (db.without a).without b := by
  apply ext_tables
  case practiceSessions =>
    refine Table.ext_rows ?_
    simp only [rows_without_practiceSessions, List.filter_map, List.map_map, List.filter_filter]
    have rows : ∀ s : PracticeSession, decide (s.id ∉ (a.union b).practiceSessions) =
        (((fun s : PracticeSession => decide (s.id ∉ b.practiceSessions)) ∘ forget a) s &&
          decide (s.id ∉ a.practiceSessions)) := by
      intro s
      simp [RowSet.union, forget, Bool.and_comm]
    rw [List.filter_congr fun s _ => rows s]
    exact List.map_congr_left fun s _ => forget_union a b s
  all_goals simp [without, RowSet.union, Table.deleteWhere_deleteWhere, Bool.decide_or]

theorem without_nothing (db : Db) : db.without {} = db := by
  simp [without]

end Db

theorem RowSet.meets_nothing (rows : RowSet) : rows.meets {} = false := by
  simp [meets]

/-! ### Open transactions -/

namespace World

variable {w : World} {tx other : Nat} {gone : RowSet}

/-- No transaction is open. -/
def Idle (w : World) : Prop := w.txs = ∅

instance (w : World) : Decidable w.Idle :=
  decidable_of_iff (w.txs.entries = []) ⟨fun none => AList.ext none, fun idle => by
    rw [show w.txs = ∅ from idle]
    rfl⟩

theorem Idle.tx_eq_none (idle : w.Idle) (tx : Nat) : w.tx tx = none := by
  unfold World.tx
  rw [show w.txs = ∅ from idle]
  exact AList.lookup_empty tx

theorem view_eq (w : World) (tx : Nat) : w.view tx = w.db.without ((w.tx tx).getD {}) := by
  unfold World.view
  cases w.tx tx with
  | none => exact (Db.without_nothing _).symm
  | some gone => rfl

theorem tx_nextTx (w : World) : w.tx w.nextTx = none := by
  refine AList.lookup_eq_none.mpr fun taken => ?_
  have below : w.nextTx ≤ w.txs.keys.sum := List.le_sum_of_mem taken
  exact absurd below (Nat.not_succ_le_self _)

@[simp] theorem withTx_db : (w.withTx tx gone).db = w.db := rfl

@[simp] theorem withoutTx_db : (w.withoutTx tx).db = w.db := rfl

@[simp] theorem withTx_tx : (w.withTx tx gone).tx tx = some gone := AList.lookup_insert _

theorem withTx_tx_ne (apart : other ≠ tx) : (w.withTx tx gone).tx other = w.tx other :=
  AList.lookup_insert_ne apart

@[simp] theorem withoutTx_tx : (w.withoutTx tx).tx tx = none := AList.lookup_erase tx _

theorem withoutTx_tx_ne (apart : other ≠ tx) : (w.withoutTx tx).tx other = w.tx other :=
  AList.lookup_erase_ne apart

@[simp] theorem withTx_withTx (more : RowSet) :
    (w.withTx tx gone).withTx tx more = w.withTx tx more := by
  unfold withTx
  dsimp only
  rw [AList.insert_insert]

/-- A transaction that is begun and ended leaves the others as they were. -/
theorem withoutTx_withTx (free : w.tx tx = none) : (w.withTx tx gone).withoutTx tx = w := by
  have absent : tx ∉ w.txs := AList.lookup_eq_none.mp free
  have same : (w.txs.insert tx gone).erase tx = w.txs := by
    apply AList.ext
    show List.kerase tx (w.txs.insert tx gone).entries = w.txs.entries
    rw [AList.entries_insert_of_notMem absent]
    exact @List.kerase_cons_eq Nat (fun _ => RowSet) _ tx ⟨tx, gone⟩ w.txs.entries rfl
  unfold withTx withoutTx
  dsimp only
  rw [same]

theorem unlocked_iff {own : Option Nat} {rows : RowSet} : w.unlocked own rows = true ↔
    ∀ tx, own ≠ some tx → ∀ gone ∈ w.tx tx, rows.meets gone = false := by
  unfold World.unlocked World.tx
  rw [List.all_eq_true]
  constructor
  · intro unlocked tx apart gone opened
    have entry := unlocked ⟨tx, gone⟩ (AList.mem_lookup_iff.mp opened)
    simpa [apart] using entry
  · rintro unlocked ⟨tx, gone⟩ entry
    by_cases same : own = some tx
    · simp [same]
    · simp [unlocked tx same gone (AList.mem_lookup_iff.mpr entry)]

/-- What is not locked meets nothing that a transaction has deleted. -/
theorem apart_of_unlocked {rows : RowSet} (unlocked : w.unlocked none rows = true) (tx : Nat) :
    rows.meets ((w.tx tx).getD {}) = false := by
  cases opened : w.tx tx with
  | none => exact RowSet.meets_nothing rows
  | some gone => exact unlocked_iff.mp unlocked tx nofun gone opened

end World

/-! ### The calls of one transaction -/

namespace Promise

variable {α : Type} {allowed : Policy World Input Failure Label} {w : World} {tx : Nat}
  {model : Model} {op : Operation}

theorem wp_txRead {f : Input → Db → Except Failure α} {Q : Except Failure α → World → Prop}
    (took : ∀ i, allowed (.db model op) w (.took i) → Q (f i (w.view tx)) w)
    (threw : ∀ e, allowed (.db model op) w (.threw e) → Q (.error e) w) :
    wp allowed (txRead tx model op f) Q w :=
  wp_call took threw

/-- A delete of rows that no other transaction has deleted. -/
theorem wp_txDelete {rows : Db → Except Failure RowSet} {Q : Except Failure Unit → World → Prop}
    (unlocked : ∀ gone, rows (w.view tx) = .ok gone → w.unlocked (some tx) gone = true)
    (took : ∀ i gone db, allowed (.db model op) w (.took i) → rows (w.view tx) = .ok gone →
      (w.view tx).delete gone = .ok db →
        Q (.ok ()) (w.withTx tx (((w.tx tx).getD {}).union gone)))
    (refused : ∀ i e, allowed (.db model op) w (.took i) → rows (w.view tx) = .error e ∨
      (∃ gone, rows (w.view tx) = .ok gone ∧ (w.view tx).delete gone = .error e) →
        Q (.error e) w)
    (threw : ∀ e, allowed (.db model op) w (.threw e) → Q (.error e) w) :
    wp allowed (txDelete tx model op rows) Q w := by
  refine wp_call (fun i hi => ?_) threw
  dsimp only
  cases hrows : rows (w.view tx) with
  | error e => exact refused i e hi (.inl hrows)
  | ok gone =>
    dsimp only
    simp only [unlocked gone hrows, if_true]
    cases hdel : (w.view tx).delete gone with
    | error e => exact refused i e hi (.inr ⟨gone, hrows, hdel⟩)
    | ok db => exact took i gone db hi hrows hdel

/-- The body sees the tables as it has left them so far; only a commit keeps what it did. -/
theorem wp_transaction {body : Nat → Promise α} {Q : Except Failure α → World → Prop}
    (begins : ∀ e, allowed .begin w (.threw e) → Q (.error e) w)
    (runs : wp allowed (body w.nextTx) (onOk
      (fun a v => Q (.ok a) { v.withoutTx w.nextTx with db := v.view w.nextTx } ∧
        ∀ e, allowed .commit v (.threw e) → Q (.error e) (v.withoutTx w.nextTx))
      fun e v => ∀ e', e' = e ∨ allowed .rollback v (.threw e') →
        Q (.error e') (v.withoutTx w.nextTx)) (w.withTx w.nextTx {})) :
    wp allowed (transaction body) Q w := by
  unfold transaction
  simp only [bind_eq, pure_eq, tryCatch_eq, throw_eq, wp_bind, wp_handle, wp_done]
  refine wp_call (fun _ _ => ?_) fun e he => begins e he
  dsimp only [onOk]
  refine Async.wp_mono runs fun r v h => ?_
  cases r with
  | ok a => exact wp_call (fun _ _ => h.1) fun e he => h.2 e he
  | error e =>
    exact wp_call (fun _ _ => h e (.inl rfl)) fun e' he' => h e' (.inr he')

/-- Inside the transaction begun in `w`, whose statements now see these tables. -/
def Inside (w : World) (view : Db) (v : World) : Prop :=
  ∃ gone, v = w.withTx w.nextTx gone ∧ w.db.without gone = view

section Inside

variable {view : Db} {v : World}

theorem inside_start (w : World) : Inside w w.db (w.withTx w.nextTx {}) :=
  ⟨{}, rfl, w.db.without_nothing⟩

theorem Inside.view_eq (inside : Inside w view v) : v.view w.nextTx = view := by
  obtain ⟨gone, rfl, rfl⟩ := inside
  rw [World.view_eq, World.withTx_tx]
  rfl

theorem Inside.ended (inside : Inside w view v) : v.withoutTx w.nextTx = w := by
  obtain ⟨gone, rfl, -⟩ := inside
  exact World.withoutTx_withTx w.tx_nextTx

/-- Where no other transaction is open, nothing is locked. -/
theorem Inside.unlocked (inside : Inside w view v) (idle : w.Idle) (rows : RowSet) :
    v.unlocked (some w.nextTx) rows = true := by
  obtain ⟨gone, rfl, -⟩ := inside
  refine World.unlocked_iff.mpr fun tx apart more opened => ?_
  rw [World.withTx_tx_ne fun same => apart (congrArg some same.symm), idle.tx_eq_none] at opened
  cases opened

theorem Inside.wp_read {f : Input → Db → Except Failure α} {Q : Except Failure α → World → Prop}
    (inside : Inside w view v) (took : ∀ i, Q (f i view) v)
    (threw : ∀ e, allowed (.db model op) v (.threw e) → Q (.error e) v) :
    wp allowed (txRead w.nextTx model op f) Q v :=
  wp_txRead (fun i _ => inside.view_eq ▸ took i) threw

theorem Inside.wp_delete {rows : Db → Except Failure RowSet}
    {Q : Except Failure Unit → World → Prop} (inside : Inside w view v) (idle : w.Idle)
    (took : ∀ gone next v', rows view = .ok gone → view.delete gone = .ok next →
      Inside w next v' → Q (.ok ()) v')
    (refused : ∀ e, (rows view >>= (view.delete ·)) = .error e → Q (.error e) v)
    (threw : ∀ e, allowed (.db model op) v (.threw e) → Q (.error e) v) :
    wp allowed (txDelete w.nextTx model op rows) Q v := by
  rw [← inside.view_eq] at took refused
  refine wp_txDelete (fun gone _ => inside.unlocked idle gone)
    (fun _ gone next _ hrows hdel => ?_) (fun _ e _ h => ?_) threw
  · refine took gone next _ hrows hdel ?_
    obtain ⟨sofar, rfl, rfl⟩ := inside
    rw [World.withTx_tx, World.withTx_withTx]
    refine ⟨sofar.union gone, rfl, ?_⟩
    rw [World.view_eq, World.withTx_tx] at hdel
    exact (Db.without_union sofar gone w.db).trans (Db.delete_ok hdel).1.symm
  · rcases h with hrows | ⟨gone, hrows, hdel⟩
    · exact refused e (by rw [hrows]; rfl)
    · exact refused e (by rw [hrows]; exact hdel)

end Inside

end Promise

end GuitarCoach
