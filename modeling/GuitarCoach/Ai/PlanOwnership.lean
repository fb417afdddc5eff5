/- digest: Only who was shown a valid plan has it persisted, whatever runs at the same time. -/

import GuitarCoach.Ai.PracticePlanner
import GuitarCoach.Routines.RoutineSpecs

/-!
Any number of planner requests of any users run at once, among everything else the backend
does. The cache forgets the owner of a plan at any moment and may refuse to be read or
written; nobody but the planner writes there. The ids that confirmations name are free.
-/

set_option autoImplicit false
set_option relaxedAutoImplicit false

namespace GuitarCoach

open Async (Answer Call Run Safe onOk)
open Async.Method (bind_eq pure_eq throw_eq tryCatch_eq calls_bind calls_call calls_forM
  calls_handle)

/-- Between these tables only rows of one user were added, and links of its routines. -/
def Db.AddsOwned (userId : Uuid) (before after : Db) : Prop :=
  ∃ routines tasks links, before.Grown after routines tasks links ∧
    (∀ a ∈ routines, a.userId = userId) ∧ ∀ a ∈ tasks, a.ownerId = some userId

theorem Db.AddsOwned.refl (userId : Uuid) (db : Db) : db.AddsOwned userId db :=
  ⟨[], [], [], .refl db, by simp, by simp⟩

namespace AiPracticePlanner

/-! ### What is remembered of a run -/

section Runs

variable {η : Type} (r : Run World Input Failure Label η PracticePlannerResponse)
  (user : Nat → Uuid)

/-- Before `t`, request `j` got this response to its prompt from the provider, with a plan that
passed the validation. -/
def GotValidPlan (j : Nat) (responseId : String) (t : Nat) : Prop :=
  ∃ s < t, ∃ prompt i plan, r.CallsAt j s (.aiProvider (.plan prompt)) (.took i) ∧
    i.response.id = responseId ∧ i.response.outputParsed = some plan ∧
    assertValidPracticePlan plan = .ok ()

/-- The user got this response with a valid plan, its request stored the owner of the plan,
and up to `t` the entry has been there. -/
def OwnsPlan (userId : Uuid) (responseId : String) (t : Nat) : Prop :=
  ∃ j s i, s < t ∧ user j = userId ∧ GotValidPlan r j responseId s ∧
    r.CallsAt j s (.cacheSet (.planOwner responseId)) (.took i) ∧
    ∀ v, s < v → v ≤ t → (r.state v).cache (.planOwner responseId) = some ⟨userId, true⟩

/-- Request `i` has looked up the owner before `t`, and found its user, who owned the plan. -/
def Checked (i : Nat) (responseId : String) (t : Nat) : Prop :=
  ∃ s < t, ∃ x, r.CallsAt i s (.cacheGet (.planOwner responseId)) x ∧
    OwnsPlan r user (user i) responseId s

/-- What is claimed of one call of a request: the provider is asked to confirm a plan only
once the owner has been checked, and all rows that are written belong to the user. -/
structure Authorized (i t : Nat) (l : Label) : Prop where
  confirms : ∀ responseId, l = .aiProvider (.confirm responseId) → Checked r user i responseId t
  writes : (r.state t).db.AddsOwned (user i) (r.state (t + 1)).db

/-- The entries in the cache have owners, and the calls so far were authorized. -/
structure Accounted (t : Nat) : Prop where
  owners : ∀ responseId entry, (r.state t).cache (.planOwner responseId) = some entry →
    OwnsPlan r user entry.value responseId t
  calls : ∀ s < t, ∀ i l x, r.CallsAt i s l x → Authorized r user i s l

end Runs

section Steps

variable {η : Type} {r : Run World Input Failure Label η PracticePlannerResponse}
  {user : Nat → Uuid} {t : Nat}

theorem GotValidPlan.later {j : Nat} {responseId : String} {u : Nat}
    (got : GotValidPlan r j responseId t) (htu : t ≤ u) : GotValidPlan r j responseId u := by
  obtain ⟨s, hs, rest⟩ := got
  exact ⟨s, by omega, rest⟩

theorem Checked.later {i : Nat} {responseId : String} {u : Nat}
    (checked : Checked r user i responseId t) (htu : t ≤ u) : Checked r user i responseId u := by
  obtain ⟨s, hs, rest⟩ := checked
  exact ⟨s, by omega, rest⟩

/-- An entry that is still there has its owner still. -/
theorem OwnsPlan.next {responseId : String} {userId : Uuid}
    (owns : OwnsPlan r user userId responseId t)
    (same : (r.state (t + 1)).cache (.planOwner responseId) =
      (r.state t).cache (.planOwner responseId)) : OwnsPlan r user userId responseId (t + 1) := by
  obtain ⟨j, s, i, hs, huser, got, set, stays⟩ := owns
  refine ⟨j, s, i, by omega, huser, got, set, fun v hsv hvt => ?_⟩
  rcases Nat.lt_or_eq_of_le hvt with hv | rfl
  · exact stays v hsv (by omega)
  · rw [same]
    exact stays t hs le_rfl

/-- Entries may go at any moment. -/
theorem Accounted.owners_next (accounted : Accounted r user t)
    (fewer : ∀ responseId, (r.state (t + 1)).cache (.planOwner responseId) =
        (r.state t).cache (.planOwner responseId) ∨
      (r.state (t + 1)).cache (.planOwner responseId) = none) :
    ∀ responseId entry, (r.state (t + 1)).cache (.planOwner responseId) = some entry →
      OwnsPlan r user entry.value responseId (t + 1) := by
  intro responseId entry found
  rcases fewer responseId with same | gone
  · exact (accounted.owners responseId entry (same ▸ found)).next same
  · rw [gone] at found
    cases found

/-- A moment without a call adds nothing to account for. -/
theorem Accounted.quiet (accounted : Accounted r user t)
    (fewer : ∀ responseId, (r.state (t + 1)).cache (.planOwner responseId) =
        (r.state t).cache (.planOwner responseId) ∨
      (r.state (t + 1)).cache (.planOwner responseId) = none)
    (silent : ∀ i l x, ¬r.CallsAt i t l x) : Accounted r user (t + 1) where
  owners := accounted.owners_next fewer
  calls s hs i l x called := by
    rcases Nat.lt_or_eq_of_le (Nat.le_of_lt_succ hs) with hs | rfl
    · exact accounted.calls s hs i l x called
    · exact absurd called (silent i l x)

/-- A call is accounted for when it is authorized, and so are the entries it leaves. -/
theorem Accounted.called {i : Nat} {l : Label} {x : Answer Input Failure}
    (accounted : Accounted r user t) (called : r.CallsAt i t l x)
    (owners : ∀ responseId entry, (r.state (t + 1)).cache (.planOwner responseId) = some entry →
      OwnsPlan r user entry.value responseId (t + 1))
    (authorized : Authorized r user i t l) : Accounted r user (t + 1) where
  owners := owners
  calls s hs j l' y called' := by
    rcases Nat.lt_or_eq_of_le (Nat.le_of_lt_succ hs) with hs | rfl
    · exact accounted.calls s hs j l' y called'
    · obtain ⟨rfl, rfl, -⟩ := called.unique called'
      exact authorized

end Steps

/-! ### The calls that write rows -/

/-- A call that adds rows of one user at most, touches no cache and asks for no confirmation. -/
structure WritesFor (userId : Uuid) {β : Type} (c : Call World Input Failure Label β) : Prop where
  label : ∀ responseId, c.label ≠ .aiProvider (.confirm responseId)
  cache : ∀ x (w : World), (c.answer x w).2.cache = w.cache
  rows : ∀ x (w : World), w.db.AddsOwned userId (c.answer x w).2.db

section Writes

variable {α : Type} {userId : Uuid} {model : Model} {op : Operation}

theorem read_writesFor {f : Input → Db → Except Failure α} :
    (Promise.read model op f).Calls (WritesFor userId) := by
  apply calls_call
  refine ⟨nofun, fun x w => ?_, fun x w => ?_⟩
  · cases x <;> rfl
  · cases x <;> exact .refl userId w.db

theorem write_writesFor {touched : Db → RowSet} {f : Input → Db → Except Failure (α × Db)}
    (adds : ∀ i db a db', f i db = .ok (a, db') → db.AddsOwned userId db') :
    (Promise.write model op touched f).Calls (WritesFor userId) := by
  apply calls_call
  refine ⟨nofun, fun x w => ?_, fun x w => ?_⟩
  · cases x with
    | threw e => rfl
    | took i =>
      simp only [Call.answer_took]
      split <;> rfl
  · cases x with
    | threw e => exact .refl userId w.db
    | took i =>
      simp only [Call.answer_took]
      split
      · next a db written => exact adds i w.db a db written
      · exact .refl userId w.db

theorem createPrivate_writesFor {title : String} {description : Option String} :
    (TasksService.createPrivate userId title description).Calls (WritesFor userId) := by
  apply write_writesFor
  intro i db a db' written
  obtain ⟨db'', inserted, done⟩ := bind_eq_ok written
  cases done
  exact ⟨[], _, [], Db.insertTask_grown inserted, by simp, by simp⟩

theorem createRoutine_writesFor {dto : CreateRoutineDto} :
    (RoutinesService.create userId dto).Calls (WritesFor userId) := by
  unfold RoutinesService.create
  rw [bind_eq]
  refine calls_bind (write_writesFor ?_) fun _ => trivial
  intro i db a db' written
  obtain ⟨row, hrow, written⟩ := bind_eq_ok written
  obtain ⟨db'', inserted, done⟩ := bind_eq_ok written
  cases done
  have owner : a.userId = userId := by
    unfold CreateRoutineDto.row at hrow
    split at hrow
    · cases hrow
    · cases hrow
      rfl
    · cases hrow
      rfl
  exact ⟨_, [], [], Db.insertRoutine_grown inserted, by simp [owner], by simp⟩

theorem addTask_writesFor {routineId : String} {dto : AddRoutineTaskDto} :
    (RoutinesService.addTask userId routineId dto).Calls (WritesFor userId) := by
  have add : ∀ position recover, (∀ e, (recover e : Promise RoutineTask).Calls (WritesFor userId)) →
      ((Promise.write .routineTask .create
        (fun _ => { routines := [.ofText routineId], tasks := [.ofText dto.taskId] })
        (RoutinesService.addRow routineId dto position)).handle recover).Calls
          (WritesFor userId) := by
    intro position recover hrecover
    refine calls_handle (write_writesFor ?_) hrecover
    intro i db a db' written
    have inserted := (RoutinesService.addRow_ok written).2
    exact ⟨[], [], _, Db.insertRoutineTask_grown inserted, by simp, by simp⟩
  unfold RoutinesService.addTask RoutinesService.findById RoutinesService.assertTasksVisible
    RoutinesService.nextPosition
  simp only [bind_eq, pure_eq, throw_eq, tryCatch_eq]
  refine calls_bind (calls_bind read_writesFor fun routine => ?_) fun _ => ?_
  · cases routine <;> trivial
  refine calls_bind (calls_bind read_writesFor fun visible => ?_) fun _ => ?_
  · split <;> trivial
  split
  · exact add _ _ fun e => by split <;> trivial
  · refine calls_bind (calls_bind read_writesFor fun _ => trivial) fun position => ?_
    exact add position _ fun e => by split <;> trivial

theorem execute_writesFor (rawArgs : Json) :
    (execute userId rawArgs).Calls (WritesFor userId) := by
  unfold execute
  split
  · trivial
  · simp only [bind_eq, pure_eq]
    refine calls_bind createRoutine_writesFor fun routine => ?_
    refine calls_bind (calls_forM (fun round => ?_) _) fun _ => trivial
    unfold saveTask
    simp only [bind_eq, pure_eq]
    refine calls_bind createPrivate_writesFor fun task => ?_
    exact calls_bind addTask_writesFor fun _ => trivial

end Writes

/-! ### What a request keeps -/

section Requests

variable {η : Type} {r : Run World Input Failure Label η PracticePlannerResponse}
  {user : Nat → Uuid} {i t : Nat}

/-- A method of request `i` whose calls are all accounted for. -/
private abbrev Keeps {α : Type} (r : Run World Input Failure Label η PracticePlannerResponse)
    (user : Nat → Uuid) (i : Nat) (m : Promise α) (Q : Except Failure α → Nat → Prop) :
    Nat → Prop :=
  Safe (r.anytime i (Accounted r user)) m Q

/-- Calls that touch no entry are accounted for when they are authorized. -/
private theorem keeps_call {α : Type} {c : Call World Input Failure Label α}
    {Q : Except Failure α → Nat → Prop}
    (cache : ∀ x w, (c.answer x w).2.cache = w.cache)
    (rows : ∀ x (w : World), w.db.AddsOwned (user i) (c.answer x w).2.db)
    (confirms : ∀ responseId u, t ≤ u → c.label = .aiProvider (.confirm responseId) →
      Checked r user i responseId u)
    (post : ∀ u x, Accounted r user u → r.CallsAt i u c.label x → t ≤ u → ∀ v, u < v →
      Q (c.answer x (r.state u)).1 v) : Keeps r user i (.call c) Q t := by
  apply Safe.call
  rintro u v x htu accounted ⟨called, rfl⟩ - next
  have htu : t ≤ u := htu
  have next : r.state (u + 1) = (c.answer x (r.state u)).2 := next
  have called : r.CallsAt i u c.label x := called
  refine ⟨accounted.called called (accounted.owners_next fun responseId => .inl ?_)
    ⟨fun responseId same => confirms responseId u htu same, ?_⟩, ?_⟩
  · rw [next, cache]
  · rw [next]
    exact rows x _
  · intro w huw _
    exact post u x accounted called htu w huw

private theorem keeps_of_writesFor {α : Type} {m : Promise α}
    (writes : m.Calls (WritesFor (user i))) : Keeps r user i m (fun _ _ => True) t := by
  apply Safe.of_calls
  refine writes.mono ?_
  rintro β c own u v x accounted ⟨called, rfl⟩ next
  have next : r.state (u + 1) = (c.answer x (r.state u)).2 := next
  have called : r.CallsAt i u c.label x := called
  refine accounted.called called (accounted.owners_next fun responseId => .inl ?_)
    ⟨fun responseId same => absurd same (own.label responseId), ?_⟩
  · rw [next, own.cache]
  · rw [next]
    exact own.rows x _

private theorem keeps_parse {request : ProviderRequest}
    {Q : Except Failure OpenAiResponse → Nat → Prop}
    (confirms : ∀ responseId u, t ≤ u → request = .confirm responseId →
      Checked r user i responseId u)
    (replied : ∀ u inp v, r.CallsAt i u (.aiProvider request) (.took inp) → u < v →
      Q (.ok inp.response) v)
    (failed : ∀ e v, Q (.error e) v) :
    Keeps r user i (Promise.responsesParse request) Q t := by
  apply keeps_call
  · intro x w
    cases x <;> rfl
  · intro x w
    cases x <;> exact .refl _ _
  · intro responseId u htu same
    exact confirms responseId u htu (Label.aiProvider.inj same)
  · intro u x _ called _ v huv
    cases x with
    | took inp => exact replied u inp v called huv
    | threw e => exact failed e v

private theorem keeps_callAiProvider {α : Type} {fn : Promise α} {message : String}
    {Q : α → Nat → Prop}
    (safe : Keeps r user i fn (onOk Q fun _ _ => True) t) :
    Keeps r user i (callAiProvider fn message) (onOk Q fun _ _ => True) t := by
  unfold callAiProvider
  simp only [tryCatch_eq, throw_eq]
  apply Safe.handle
  refine safe.weaken fun res u _ h => ?_
  cases res with
  | ok a => exact h
  | error e =>
    dsimp only [onOk]
    split
    · exact fun _ _ _ => trivial
    · exact fun _ _ _ => trivial
    · exact fun _ _ _ => trivial

/-- The plan in the answer of the provider, and the response it came in. -/
private theorem keeps_generate {prompt : String} :
    Keeps r user i (generatePracticePlan prompt) (onOk (fun result u =>
      ∃ s < u, ∃ inp, r.CallsAt i s (.aiProvider (.plan prompt)) (.took inp) ∧
        inp.response.id = result.previousResponseId ∧
        inp.response.outputParsed = some result.plan) fun _ _ => True) t := by
  unfold generatePracticePlan
  simp only [bind_eq, throw_eq, pure_eq]
  apply Safe.bind
  apply keeps_parse
  · exact fun _ _ _ same => nomatch same
  · intro u inp v called huv
    dsimp only [onOk]
    split
    · exact fun _ _ _ => trivial
    split
    · exact fun _ _ _ => trivial
    · next plan parsed =>
      intro w hvw _
      have hvw : v ≤ w := hvw
      exact ⟨u, by omega, inp, called, rfl, parsed⟩
  · exact fun _ _ => trivial

/-- The entry that a prompt stores makes its user the owner of the plan. -/
private theorem keeps_store {responseId : String} (got : GotValidPlan r i responseId t) :
    Keeps r user i (Promise.cacheSet (.planOwner responseId) (user i) true)
      (fun _ _ => True) t := by
  apply Safe.call
  rintro u v x htu accounted ⟨called, rfl⟩ - next
  refine ⟨accounted.called called ?_ ⟨nofun, ?_⟩, fun _ _ _ => trivial⟩
  · cases x with
    | threw e =>
      have next : r.state (u + 1) = r.state u := next
      exact accounted.owners_next fun _ => .inl (by rw [next])
    | took inp =>
      have stored : (r.state (u + 1)).cache = Function.update (r.state u).cache
          (.planOwner responseId) (some ⟨user i, true⟩) := congrArg World.cache next
      intro id entry found
      by_cases same : id = responseId
      · subst same
        rw [stored, Function.update_self] at found
        cases found
        refine ⟨i, u, inp, Nat.lt_succ_self u, rfl, got.later htu, called, fun v huv hvu => ?_⟩
        obtain rfl : v = u + 1 := by omega
        rw [stored]
        exact Function.update_self _ _ _
      · have other : CacheKey.planOwner id ≠ .planOwner responseId :=
          fun h => same (CacheKey.planOwner.inj h)
        have unchanged : (r.state (u + 1)).cache (.planOwner id) =
            (r.state u).cache (.planOwner id) := by
          rw [stored]
          exact Function.update_of_ne other _ _
        exact (accounted.owners id entry (unchanged ▸ found)).next unchanged
  · cases x with
    | threw e =>
      have next : r.state (u + 1) = r.state u := next
      rw [next]
      exact .refl _ _
    | took inp =>
      have rows : (r.state (u + 1)).db = (r.state u).db := by
        have next : r.state (u + 1) = _ := next
        rw [next]
        rfl
      rw [rows]
      exact .refl _ _

private theorem keeps_startPlan {prompt : String} :
    Keeps r user i (startPlan (user i) prompt) (fun _ _ => True) t := by
  unfold startPlan
  simp only [bind_eq, pure_eq, throw_eq, tryCatch_eq]
  apply Safe.bind
  refine (keeps_callAiProvider keeps_generate).weaken fun res u _ h => ?_
  cases res with
  | error e => exact trivial
  | ok result =>
    obtain ⟨s, hsu, inp, called, hid, parsed⟩ := h
    dsimp only [onOk]
    split
    · exact fun _ _ _ => trivial
    · next valid =>
      have got : GotValidPlan r i result.previousResponseId u :=
        ⟨s, hsu, prompt, inp, result.plan, called, hid, parsed, valid⟩
      apply Safe.bind
      apply Safe.handle
      refine (keeps_store got).weaken fun res v _ _ => ?_
      cases res with
      | ok a => exact fun _ _ _ => trivial
      | error e => exact fun _ _ _ _ _ _ => trivial

/-- Whom the cache names as the owner has been shown the plan. -/
private theorem keeps_lookUp {responseId : String} :
    Keeps r user i (readOwnershipFromCache responseId) (onOk (fun owner u =>
      owner = some (user i) → Checked r user i responseId u) fun _ _ => True) t := by
  unfold readOwnershipFromCache
  simp only [pure_eq, tryCatch_eq]
  apply Safe.handle
  apply keeps_call
  · intro x w
    cases x <;> rfl
  · intro x w
    cases x <;> exact .refl _ _
  · exact fun _ _ _ same => nomatch same
  · intro u x accounted called _ v huv
    cases x with
    | threw e => exact fun _ _ _ found => nomatch found
    | took inp =>
      intro owner
      obtain ⟨entry, hentry, hvalue⟩ := Option.map_eq_some_iff.mp owner
      have owns := accounted.owners responseId entry hentry
      rw [hvalue] at owns
      exact ⟨u, huv, _, called, owns⟩

private theorem keeps_confirm {responseId : String} (checked : Checked r user i responseId t) :
    Keeps r user i (confirmAndCreateRoutine responseId (execute (user i)))
      (fun _ _ => True) t := by
  unfold confirmAndCreateRoutine
  simp only [bind_eq, pure_eq, throw_eq]
  apply Safe.bind
  apply keeps_parse
  · intro id u htu same
    cases same
    exact checked.later htu
  · intro u inp v called huv
    dsimp only [onOk]
    split
    · exact fun _ _ _ => trivial
    split
    · apply Safe.bind
      refine (keeps_of_writesFor (execute_writesFor _)).weaken fun res w _ _ => ?_
      cases res with
      | error e => exact trivial
      | ok result =>
        dsimp only [onOk]
        apply Safe.bind
        apply keeps_parse
        · exact fun _ _ _ same => nomatch same
        · intro _ followUp _ _ _
          dsimp only [onOk]
          split
          · exact fun _ _ _ => trivial
          · exact fun _ _ _ => trivial
        · exact fun _ _ => trivial
    · exact fun _ _ _ => trivial
  · exact fun _ _ => trivial

private theorem keeps_resolve {dto : PracticePlannerRequestDto} :
    Keeps r user i (resolveConfirmation (user i) dto) (fun _ _ => True) t := by
  unfold resolveConfirmation
  simp only [bind_eq, pure_eq, throw_eq, Async.Method.fail_bind]
  split
  · exact fun _ _ _ => trivial
  split
  · exact fun _ _ _ => trivial
  rename_i responseId given
  split
  · exact fun _ _ _ => trivial
  apply Safe.bind
  refine keeps_lookUp.weaken fun res u _ h => ?_
  cases res with
  | error e => exact trivial
  | ok owner =>
    dsimp only [onOk]
    split
    · exact fun _ _ _ => trivial
    · next same =>
      apply Safe.bind
      have body : Keeps r user i (confirmAndCreateRoutine responseId (execute (user i)))
          (onOk (fun _ _ => True) fun _ _ => True) u :=
        (keeps_confirm (h (not_not.mp same))).weaken fun res _ _ _ => by
          cases res <;> trivial
      refine (keeps_callAiProvider body).weaken fun res v _ _ => ?_
      cases res with
      | ok a => exact fun _ _ _ => trivial
      | error e => exact trivial

theorem keeps_handleRequest {dto : PracticePlannerRequestDto} :
    Keeps r user i (handleRequest (user i) dto) (fun _ _ => True) t := by
  unfold handleRequest
  simp only [bind_eq, throw_eq, Async.Method.fail_bind]
  split
  · exact fun _ _ _ => trivial
  split
  · exact keeps_startPlan
  · exact keeps_resolve

/-- Whenever a request of a user asks the provider to confirm a plan, it has just found the user
as the owner of the plan: an earlier request of the same user got the plan under this id, the
plan was valid, and the entry it stored had not expired. All rows that requests write belong to
their users. -/
theorem plan_ownership {dto : Nat → PracticePlannerRequestDto}
    (requests : ∀ i, r.requests i = handleRequest (user i) (dto i))
    (noPlans : ∀ responseId, r.start.cache (.planOwner responseId) = none)
    (outside : ∀ a w responseId,
      (r.outside a w).cache (.planOwner responseId) = w.cache (.planOwner responseId) ∨
        (r.outside a w).cache (.planOwner responseId) = none)
    {l : Label} {x : Answer Input Failure} (called : r.CallsAt i t l x) :
    Authorized r user i t l := by
  have start : Accounted r user 0 := by
    refine ⟨fun responseId entry found => ?_, fun s hs => nomatch hs⟩
    rw [Run.state_zero, noPlans] at found
    cases found
  have run : ∀ t, Accounted r user t ∧ ∀ i m, r.slot i t = some m →
      Safe (r.setting i (Accounted r user)) m (fun _ _ => True) t := by
    apply Run.safe start
    · intro t accounted same silent
      exact accounted.quiet (fun _ => .inl (by rw [same])) silent
    · intro t a accounted acts next
      refine accounted.quiet (fun id => ?_) fun j l' y called' => ?_
      · rw [next]
        exact outside a _ id
      · have other := called'.schedule.symm.trans acts
        cases other
    · intro j t _ _ _
      rw [requests j]
      exact Run.safe_of_anytime keeps_handleRequest
  exact (run (t + 1)).1.calls t (Nat.lt_succ_self t) i l x called

end Requests

section Sample

private def shownPlan : PracticePlan := ⟨"Arpeggios", "", 10, [⟨"Triads", "", 10⟩], true⟩

private def shown : Input :=
  { Input.of firstId 0 with
    response := { OpenAiResponse.blank "resp_7" "completed" with outputParsed := some shownPlan } }

/-- `alice` asks for a plan and confirms it. -/
private def shownThenConfirmed : Run World Input Failure Label Empty PracticePlannerResponse where
  requests
    | 0 => handleRequest alice ⟨some "arpeggios", none, none⟩
    | _ => handleRequest alice ⟨none, some true, some "resp_7"⟩
  outside := nofun
  start := World.signedUp
  schedule
    | 0 => .begin 0
    | 1 => .advance 0 (.took shown)
    | 2 => .advance 0 (.took shown)
    | 3 => .begin 1
    | _ => .advance 1 (.took shown)

theorem plan_ownership_confirmed :
    Checked shownThenConfirmed (fun _ => alice) 1 "resp_7" 5 := by
  let dto : Nat → PracticePlannerRequestDto
    | 0 => ⟨some "arpeggios", none, none⟩
    | _ => ⟨none, some true, some "resp_7"⟩
  have requests : ∀ i, shownThenConfirmed.requests i = handleRequest alice (dto i) := by
    intro i
    cases i <;> rfl
  have asked : shownThenConfirmed.awaited 1 5 = some (.aiProvider (.confirm "resp_7")) := by
    decide +kernel
  have authorized : Authorized _ (fun _ => alice) _ _ _ := plan_ownership requests (fun _ => rfl) nofun
    (Run.callsAt_iff.mpr ⟨asked, rfl⟩)
  exact authorized.confirms "resp_7" rfl

end Sample

end AiPracticePlanner

end GuitarCoach
