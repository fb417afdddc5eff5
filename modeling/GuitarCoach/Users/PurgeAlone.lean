/- digest: A purge that runs alone on rows that refer to rows of their own user: all of it succeeds. -/

import GuitarCoach.Ownership.Closure
import GuitarCoach.Users.Purge

/-!
Each delete of a purge finds the rows that could refer to what it deletes gone already, or finds
that they are rows of other users, which refer to rows of their own.
-/

set_option autoImplicit false
set_option relaxedAutoImplicit false

namespace GuitarCoach

open Async (Ends Policy wp wp_ends)
open Relational (Table)

namespace Db

/-- The tables without a user: their row, what belongs to them and what is linked to it; every
other row is as it was. -/
def withoutUser (userId : Uuid) (db : Db) : Db where
  users := db.users.deleteWhere (·.id = userId)
  sessions := db.sessions.deleteWhere (·.userId = userId)
  accounts := db.accounts.deleteWhere (·.userId = userId)
  tasks := db.tasks.deleteWhere (·.ownerId = some userId)
  routines := db.routines.deleteWhere (·.userId = userId)
  routineTasks := db.routineTasks.deleteWhere fun a =>
    db.routines.rows.any fun r => r.id = a.routineId && r.userId = userId
  practiceSessions := db.practiceSessions.deleteWhere (·.userId = userId)
  practiceSessionTasks := db.practiceSessionTasks.deleteWhere fun a =>
    db.practiceSessions.rows.any fun s => s.id = a.practiceSessionId && s.userId = userId
  recordings := db.recordings.deleteWhere (·.userId = userId)

/-! ### The deletes, one by one -/

section Deletes

variable {db : Db}

private theorem delete_eq {gone : RowSet} {after : Db} (without : db.without gone = after)
    (free : after.references gone = false) : db.delete gone = .ok after := by
  rw [delete, without, free]
  rfl

private theorem apart {ρ : Type} {rows : List ρ} {p : ρ → Bool} {P : ρ → Prop}
    (stays : ∀ a ∈ rows, P a → p a = false) : ∀ a ∈ rows, p a = true → ¬P a := by
  intro a ha hp here
  rw [stays a ha here] at hp
  cases hp

theorem delete_recordings (p : Recording → Bool) :
    db.delete { recordings := (db.recordings.rows.filter p).map (·.id) } =
      .ok { db with recordings := db.recordings.deleteWhere p } := by
  apply delete_eq
  · simp [without, db.recordings.deleteWhere_keys p]
  · simp [references]

theorem delete_sessionTasks (p : PracticeSessionTask → Bool) :
    db.delete { practiceSessionTasks := (db.practiceSessionTasks.rows.filter p).map (·.key) } =
      .ok { db with practiceSessionTasks := db.practiceSessionTasks.deleteWhere p } := by
  apply delete_eq
  · simp only [without, List.not_mem_nil, decide_false, Table.deleteWhere_none, Option.any_false,
      Table.updateWhere_none]
    refine congrArg (fun t => { db with practiceSessionTasks := t }) ?_
    refine (congrArg _ (funext fun a => ?_)).trans (db.practiceSessionTasks.deleteWhere_keys p)
    exact decide_eq_decide.mpr Iff.rfl
  · simp [references]

theorem delete_routineTasks (p : RoutineTask → Bool) :
    db.delete { routineTasks := (db.routineTasks.rows.filter p).map (·.key) } =
      .ok { db with routineTasks := db.routineTasks.deleteWhere p } := by
  apply delete_eq
  · simp only [without, List.not_mem_nil, decide_false, Table.deleteWhere_none, Option.any_false,
      Table.updateWhere_none]
    refine congrArg (fun t => { db with routineTasks := t }) ?_
    refine (congrArg _ (funext fun a => ?_)).trans (db.routineTasks.deleteWhere_keys p)
    exact decide_eq_decide.mpr Iff.rfl
  · simp [references]

theorem delete_sessions (p : PracticeSession → Bool)
    (tasks : ∀ a ∈ db.practiceSessionTasks.rows, ∀ s ∈ db.practiceSessions.rows,
      s.id = a.practiceSessionId → p s = false)
    (recordings : ∀ a ∈ db.recordings.rows, ∀ s ∈ db.practiceSessions.rows,
      s.id = a.practiceSessionId → p s = false) :
    db.delete { practiceSessions := (db.practiceSessions.rows.filter p).map (·.id) } =
      .ok { db with practiceSessions := db.practiceSessions.deleteWhere p } := by
  apply delete_eq
  · simp [without, db.practiceSessions.deleteWhere_keys p]
  · have free : (∀ a ∈ db.practiceSessionTasks.rows, ∀ s ∈ db.practiceSessions.rows,
        p s = true → ¬s.id = a.practiceSessionId) ∧
        ∀ a ∈ db.recordings.rows, ∀ s ∈ db.practiceSessions.rows,
          p s = true → ¬s.id = a.practiceSessionId :=
      ⟨fun a ha => apart (tasks a ha), fun a ha => apart (recordings a ha)⟩
    simpa [references] using free

/-- Routines that nothing refers to any more; the sessions keep their routines. -/
theorem delete_routines (p : Routine → Bool)
    (tasks : ∀ a ∈ db.routineTasks.rows, ∀ r ∈ db.routines.rows, r.id = a.routineId → p r = false)
    (sessions : ∀ a ∈ db.practiceSessions.rows, ∀ r ∈ db.routines.rows,
      a.routineId = some r.id → p r = false) :
    db.delete { routines := (db.routines.rows.filter p).map (·.id) } =
      .ok { db with routines := db.routines.deleteWhere p } := by
  apply delete_eq
  · simp only [without, List.not_mem_nil, decide_false, Table.deleteWhere_none]
    rw [db.routines.deleteWhere_keys p]
    have kept : ∀ a ∈ db.practiceSessions.rows, (a.routineId.any fun r =>
        decide (r ∈ (db.routines.rows.filter p).map (·.id))) = false := by
      intro a ha
      cases hr : a.routineId with
      | none => rfl
      | some r =>
        refine decide_eq_false fun there => ?_
        obtain ⟨row, selected, rfl⟩ := List.mem_map.mp there
        obtain ⟨hrow, hp⟩ := List.mem_filter.mp selected
        exact apart (sessions a ha) row hrow hp hr
    rw [Table.updateWhere_congr kept, Table.updateWhere_none]
  · have free : ∀ a ∈ db.routineTasks.rows, ∀ r ∈ db.routines.rows,
        p r = true → ¬r.id = a.routineId := fun a ha => apart (tasks a ha)
    simpa [references] using free

theorem delete_tasks (p : Task → Bool)
    (routineTasks : ∀ a ∈ db.routineTasks.rows, ∀ t ∈ db.tasks.rows, t.id = a.taskId → p t = false)
    (sessionTasks : ∀ a ∈ db.practiceSessionTasks.rows, ∀ t ∈ db.tasks.rows,
      t.id = a.taskId → p t = false) :
    db.delete { tasks := (db.tasks.rows.filter p).map (·.id) } =
      .ok { db with tasks := db.tasks.deleteWhere p } := by
  apply delete_eq
  · simp [without, db.tasks.deleteWhere_keys p]
  · have free : (∀ a ∈ db.routineTasks.rows, ∀ t ∈ db.tasks.rows, p t = true → ¬t.id = a.taskId) ∧
        ∀ a ∈ db.practiceSessionTasks.rows, ∀ t ∈ db.tasks.rows,
          p t = true → ¬t.id = a.taskId :=
      ⟨fun a ha => apart (routineTasks a ha), fun a ha => apart (sessionTasks a ha)⟩
    simpa [references] using free

theorem delete_user {userId : Uuid} (tasks : ∀ a ∈ db.tasks.rows, a.ownerId ≠ some userId)
    (routines : ∀ a ∈ db.routines.rows, a.userId ≠ userId)
    (sessions : ∀ a ∈ db.practiceSessions.rows, a.userId ≠ userId)
    (recordings : ∀ a ∈ db.recordings.rows, a.userId ≠ userId) :
    db.delete { users := [userId] } = .ok { db with
      users := db.users.deleteWhere (·.id = userId)
      sessions := db.sessions.deleteWhere (·.userId = userId)
      accounts := db.accounts.deleteWhere (·.userId = userId) } := by
  apply delete_eq
  · simp [without]
  · have unowned : ∀ a ∈ db.tasks.rows,
        (a.ownerId.any fun u => decide (u = userId)) = false := by
      intro a ha
      have other := tasks a ha
      cases hu : a.ownerId with
      | none => rfl
      | some u =>
        rw [hu] at other
        exact decide_eq_false fun same => other (congrArg some same)
    have free : (((∀ a ∈ db.tasks.rows, (a.ownerId.any fun u => decide (u = userId)) = false) ∧
        ∀ a ∈ db.routines.rows, ¬a.userId = userId) ∧
        ∀ a ∈ db.practiceSessions.rows, ¬a.userId = userId) ∧
        ∀ a ∈ db.recordings.rows, ¬a.userId = userId := ⟨⟨⟨unowned, routines⟩, sessions⟩, recordings⟩
    simpa [references] using free

end Deletes

end Db

namespace UsersService

section Alone

variable {userId : Uuid} {db : Db}

private theorem not_own {ρ : Type} {key : ρ → Uuid} {t : Table key} {owner : ρ → Uuid} :
    ∀ a ∈ (t.deleteWhere fun a => owner a = userId).rows, owner a ≠ userId := by
  intro a ha
  exact of_decide_eq_false (Table.mem_deleteWhere.mp ha).2

/-- What is linked to a row of another user is left, and only that. -/
private theorem linked_elsewhere {ρ κ β : Type} {key : ρ → κ} {t : Table key} {link : ρ → Uuid}
    {rows : List β} {id owner : β → Uuid} : ∀ a ∈ (t.deleteWhere fun a =>
      rows.any fun b => id b = link a && owner b = userId).rows,
      a ∈ t.rows ∧ ∀ b ∈ rows, id b = link a → owner b ≠ userId := by
  intro a ha
  obtain ⟨ha, free⟩ := Table.mem_deleteWhere.mp ha
  refine ⟨ha, fun b hb link own => ?_⟩
  have selected := List.any_eq_false.mp free b hb
  rw [Bool.and_eq_true, decide_eq_true_eq, decide_eq_true_eq] at selected
  exact selected ⟨link, own⟩

/-- A task that a user other than this one sees is not a task of this one. -/
private theorem not_owned_of_visible {other : Uuid} {t : Task} (visible : visibleTo other t = true)
    (apart : other ≠ userId) : decide (t.ownerId = some userId) = false := by
  refine decide_eq_false fun own => ?_
  unfold visibleTo at visible
  rw [own] at visible
  simp at visible
  exact apart visible.symm

/-- The seven deletes succeed one after the other. -/
theorem purgeTables_closed (closed : db.Closed) (there : db.users.has userId = true) :
    purgeTables userId db = .ok (db.withoutUser userId) := by
  obtain ⟨intact, owned⟩ := closed
  let d₁ := { db with recordings := db.recordings.deleteWhere (·.userId = userId) }
  let d₂ := { d₁ with
    practiceSessionTasks := db.practiceSessionTasks.deleteWhere fun a =>
      db.practiceSessions.rows.any fun s => s.id = a.practiceSessionId && s.userId = userId }
  let d₃ := { d₂ with practiceSessions := db.practiceSessions.deleteWhere (·.userId = userId) }
  let d₄ := { d₃ with
    routineTasks := db.routineTasks.deleteWhere fun a =>
      db.routines.rows.any fun r => r.id = a.routineId && r.userId = userId }
  let d₅ := { d₄ with routines := db.routines.deleteWhere (·.userId = userId) }
  let d₆ := { d₅ with tasks := db.tasks.deleteWhere (·.ownerId = some userId) }
  have h₁ : db.delete (recordingsOf userId db) = .ok d₁ := Db.delete_recordings _
  have h₂ : d₁.delete (sessionTasksOf userId d₁) = .ok d₂ := Db.delete_sessionTasks _
  have h₃ : d₂.delete (sessionsOf userId d₂) = .ok d₃ := by
    apply Db.delete_sessions
    · intro a ha s hs same
      exact decide_eq_false ((linked_elsewhere a ha).2 s hs same)
    · -- a recording that is left is another user's, and so is its session
      intro a ha s hs same
      refine decide_eq_false fun own => not_own a ha ?_
      exact (owned.recording a (Table.mem_deleteWhere.mp ha).1 s hs same).trans own
  have h₄ : d₃.delete (routineTasksOf userId d₃) = .ok d₄ := Db.delete_routineTasks _
  have h₅ : d₄.delete (routinesOf userId d₄) = .ok d₅ := by
    apply Db.delete_routines
    · intro a ha r hr same
      exact decide_eq_false ((linked_elsewhere a ha).2 r hr same)
    · -- a session that is left is another user's, and so is its routine
      intro a ha r hr same
      refine decide_eq_false fun own => not_own a ha ?_
      exact (owned.session a (Table.mem_deleteWhere.mp ha).1 r hr same).symm.trans own
  have h₆ : d₅.delete (tasksOf userId d₅) = .ok d₆ := by
    -- what still names a task is linked to a row of another user, who sees the task
    apply Db.delete_tasks
    · intro a ha t ht same
      obtain ⟨hrow, elsewhere⟩ := linked_elsewhere a ha
      obtain ⟨r, hr, hid⟩ := Table.has_iff.mp (intact.routineTaskRoutine a hrow)
      exact not_owned_of_visible (owned.routineTask a hrow r hr t ht hid same)
        (elsewhere r hr hid)
    · intro a ha t ht same
      obtain ⟨hrow, elsewhere⟩ := linked_elsewhere a ha
      obtain ⟨s, hs, hid⟩ := Table.has_iff.mp (intact.sessionTaskSession a hrow)
      exact not_owned_of_visible (owned.sessionTask a hrow s hs t ht hid same)
        (elsewhere s hs hid)
  have h₇ : d₆.delete { users := [userId] } = .ok (db.withoutUser userId) := by
    apply Db.delete_user
    · exact fun a ha => of_decide_eq_false (Table.mem_deleteWhere.mp ha).2
    · exact not_own
    · exact not_own
    · exact not_own
  have exists_ : d₆.users.has userId = true := there
  unfold purgeTables
  simp only [h₁, h₂, h₃, h₄, h₅, h₆, h₇, exists_, if_true, bind, Except.bind]

/-- A purge that runs alone, with a database that does not fail, ends well and takes with it what
is the user's and nothing else. -/
theorem purge_alone {allowed : Policy World Input Failure Label} {w : World} {text : String}
    (closed : w.db.Closed) (idle : w.Idle) (there : w.db.users.has (.ofText text) = true)
    (healthy : ¬DatabaseFails allowed) :
    wp allowed (purge text) (fun r v => r = .ok () ∧
      v.db = w.db.withoutUser (.ofText text) ∧ v.Idle) w := by
  have tables := purgeTables_closed closed there
  apply purge_wp idle
  · intro user rank db bucket _ hdb _ _
    rw [tables] at hdb
    exact ⟨rfl, (Except.ok.inj hdb).symm, idle⟩
  · rintro e (missing | ⟨e', refused⟩)
    · obtain ⟨a, ha, hid⟩ := Table.has_iff.mp there
      exact absurd hid (Table.find_eq_none.mp missing a ha)
    · rw [tables] at refused
      cases refused
  · exact fun fails => absurd fails healthy

end Alone

end UsersService

end GuitarCoach
