/- digest: The proof rules of the calls, and what it means that rows were only added. -/

import GuitarCoach.Async.Guarantee
import GuitarCoach.Store.World

set_option autoImplicit false
set_option relaxedAutoImplicit false

namespace GuitarCoach

open Async (Answer Call Policy wp onOk)

/-- Any call may take effect or throw anything. -/
def anyAnswer : Policy World Input Failure Label := fun _ _ _ => True

namespace Promise

variable {α : Type} {allowed : Policy World Input Failure Label} {w : World}

theorem wp_call {c : Call World Input Failure Label α} {Q : Except Failure α → World → Prop}
    (took : ∀ i, allowed c.label w (.took i) → Q (c.run i w).1 (c.run i w).2)
    (threw : ∀ e, allowed c.label w (.threw e) → Q (.error e) (c.thrown w)) :
    wp allowed (.call c) Q w := by
  rw [Async.wp_call]
  rintro (i | e) hx
  · exact took i hx
  · exact threw e hx

section Db

variable {model : Model} {op : Operation} {Q : Except Failure α → World → Prop}

theorem wp_read {f : Input → Db → Except Failure α}
    (took : ∀ i, allowed (.db model op) w (.took i) → Q (f i w.db) w)
    (threw : ∀ e, allowed (.db model op) w (.threw e) → Q (.error e) w) :
    wp allowed (read model op f) Q w :=
  wp_call took threw

theorem wp_write {touched : Db → RowSet} {f : Input → Db → Except Failure (α × Db)}
    (took : ∀ i a db, allowed (.db model op) w (.took i) → f i w.db = .ok (a, db) →
      Q (.ok a) { w with db })
    (refused : ∀ i e, allowed (.db model op) w (.took i) → f i w.db = .error e → Q (.error e) w)
    (threw : ∀ e, allowed (.db model op) w (.threw e) → Q (.error e) w) :
    wp allowed (write model op touched f) Q w := by
  refine wp_call (fun i hi => ?_) threw
  dsimp only
  cases hf : f i w.db with
  | error e => exact refused i e hi hf
  | ok r => exact took i r.1 r.2 hi hf

section Ends

variable {touched : Db → RowSet} {f : Input → Db → Except Failure (α × Db)} {i : Input}
  {e : Failure}

theorem ends_read {g : Input → Db → Except Failure α} (may : allowed (.db model op) w (.took i)) :
    Async.Ends allowed (read model op g) w (g i w.db) w := by
  apply Async.Ends.await (.took i) may
  simp only [Call.answer_took]
  cases g i w.db with
  | ok a => exact .done a w
  | error e => exact .fail e w

theorem ends_read_threw {g : Input → Db → Except Failure α}
    (may : allowed (.db model op) w (.threw e)) :
    Async.Ends allowed (read model op g) w (.error e) w :=
  .await (.threw e) may (.fail e _)

theorem ends_write {a : α} {db : Db} (may : allowed (.db model op) w (.took i))
    (done : f i w.db = .ok (a, db)) :
    Async.Ends allowed (write model op touched f) w (.ok a) { w with db } := by
  apply Async.Ends.await (.took i) may
  simp only [Call.answer_took, done]
  exact .done a _

theorem ends_write_refused (may : allowed (.db model op) w (.took i))
    (refused : f i w.db = .error e) :
    Async.Ends allowed (write model op touched f) w (.error e) w := by
  apply Async.Ends.await (.took i) may
  simp only [Call.answer_took, refused]
  exact .fail e _

theorem ends_write_threw (may : allowed (.db model op) w (.threw e)) :
    Async.Ends allowed (write model op touched f) w (.error e) w :=
  .await (.threw e) may (.fail e _)

end Ends

end Db

section Cache

variable {key : CacheKey}

theorem wp_cacheGet {Q : Except Failure (Option key.Value) → World → Prop}
    (took : ∀ i, allowed (.cacheGet key) w (.took i) → Q (.ok ((w.cache key).map (·.value))) w)
    (threw : ∀ e, allowed (.cacheGet key) w (.threw e) → Q (.error e) w) :
    wp allowed (cacheGet key) Q w :=
  wp_call took threw

variable {Q : Except Failure Unit → World → Prop}

theorem wp_cacheSet {value : key.Value} {expires : Bool}
    (took : ∀ i, allowed (.cacheSet key) w (.took i) →
      Q (.ok ()) { w with cache := Function.update w.cache key (some ⟨value, expires⟩) })
    (threw : ∀ e, allowed (.cacheSet key) w (.threw e) → Q (.error e) w) :
    wp allowed (cacheSet key value expires) Q w :=
  wp_call took threw

end Cache

section Guarantees

open Async (Guarantees)

variable {inv : World → Prop} {event : Label → Answer Input Failure → World → World → Prop}

theorem guarantees_call {c : Call World Input Failure Label α} {Q : Except Failure α → Prop}
    (took : ∀ i w, inv w → (inv (c.run i w).2 ∧ event c.label (.took i) w (c.run i w).2) ∧
      Q (c.run i w).1)
    (threw : ∀ e w, inv w → (inv (c.thrown w) ∧ event c.label (.threw e) w (c.thrown w)) ∧
      Q (.error e)) : Guarantees inv event (.call c) Q := by
  apply Guarantees.call
  rintro (i | e) w hw -
  · exact took i w hw
  · exact threw e w hw

section Db

variable {model : Model} {op : Operation} {Q : Except Failure α → Prop}

theorem guarantees_read {f : Input → Db → Except Failure α}
    (seen : ∀ x w, inv w → event (.db model op) x w w)
    (took : ∀ i w, inv w → Q (f i w.db)) (threw : ∀ e, Q (.error e)) :
    Guarantees inv event (read model op f) Q := by
  apply guarantees_call
  · exact fun i w hw => ⟨⟨hw, seen _ w hw⟩, took i w hw⟩
  · exact fun e w hw => ⟨⟨hw, seen _ w hw⟩, threw e⟩

theorem guarantees_write {touched : Db → RowSet} {f : Input → Db → Except Failure (α × Db)}
    (took : ∀ i w a db, inv w → f i w.db = .ok (a, db) →
      (inv { w with db } ∧ event (.db model op) (.took i) w { w with db }) ∧ Q (.ok a))
    (refused : ∀ i w e, inv w → f i w.db = .error e →
      event (.db model op) (.took i) w w ∧ Q (.error e))
    (threw : ∀ e w, inv w → event (.db model op) (.threw e) w w ∧ Q (.error e)) :
    Guarantees inv event (write model op touched f) Q := by
  apply guarantees_call
  · intro i w hw
    dsimp only
    cases hf : f i w.db with
    | error e =>
      obtain ⟨seen, post⟩ := refused i w e hw hf
      exact ⟨⟨hw, seen⟩, post⟩
    | ok r => exact took i w r.1 r.2 hw hf
  · intro e w hw
    obtain ⟨seen, post⟩ := threw e w hw
    exact ⟨⟨hw, seen⟩, post⟩

end Db

theorem guarantees_withCleanup {body : Promise α} {cleanup : Promise Unit}
    (hbody : Guarantees inv event body fun _ => True)
    (hcleanup : Guarantees inv event cleanup fun _ => True) :
    Guarantees inv event (withCleanup body cleanup) fun _ => True := by
  unfold withCleanup
  simp only [Async.Method.bind_eq, Async.Method.tryCatch_eq]
  have settled : ∀ {β : Type} {m : Promise β}, Guarantees inv event m (fun _ => True) →
      Guarantees inv event (cleanup.bind fun _ => m) fun _ => True :=
    fun hm => Guarantees.bind hcleanup (fun _ _ => hm) fun _ _ => trivial
  have tried : Guarantees inv event (body.handle fun e => cleanup.bind fun _ => .fail e)
      fun _ => True :=
    Guarantees.handle hbody (fun _ _ => trivial) fun _ _ => settled trivial
  exact Guarantees.bind tried (fun _ _ => settled trivial) fun _ _ => trivial

end Guarantees

end Promise

/-- `after` is `before` with these routines, tasks and routine tasks added, and nothing else. -/
structure Db.Grown (before after : Db) (routines : List Routine) (tasks : List Task)
    (routineTasks : List RoutineTask) : Prop where
  users : after.users = before.users
  sessions : after.sessions = before.sessions
  accounts : after.accounts = before.accounts
  tasks : after.tasks.rows = before.tasks.rows ++ tasks
  routines : after.routines.rows = before.routines.rows ++ routines
  routineTasks : after.routineTasks.rows = before.routineTasks.rows ++ routineTasks
  practiceSessions : after.practiceSessions = before.practiceSessions
  practiceSessionTasks : after.practiceSessionTasks = before.practiceSessionTasks
  recordings : after.recordings = before.recordings

namespace Db.Grown

theorem refl (db : Db) : db.Grown db [] [] [] := by
  constructor <;> simp

theorem trans {a b c : Db} {r r' : List Routine} {t t' : List Task} {l l' : List RoutineTask}
    (h : a.Grown b r t l) (h' : b.Grown c r' t' l') :
    a.Grown c (r ++ r') (t ++ t') (l ++ l') where
  users := h'.users.trans h.users
  sessions := h'.sessions.trans h.sessions
  accounts := h'.accounts.trans h.accounts
  tasks := by rw [h'.tasks, h.tasks, List.append_assoc]
  routines := by rw [h'.routines, h.routines, List.append_assoc]
  routineTasks := by rw [h'.routineTasks, h.routineTasks, List.append_assoc]
  practiceSessions := h'.practiceSessions.trans h.practiceSessions
  practiceSessionTasks := h'.practiceSessionTasks.trans h.practiceSessionTasks
  recordings := h'.recordings.trans h.recordings

end Db.Grown

end GuitarCoach
