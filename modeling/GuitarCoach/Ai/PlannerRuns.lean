/- digest: What a run of planner requests can leave behind: failed confirmations and life cycles. -/

import GuitarCoach.Ai.PracticePlanner
import GuitarCoach.Routines.RoutineSpecs

set_option autoImplicit false
set_option relaxedAutoImplicit false

namespace GuitarCoach.AiPracticePlanner

open Async (Ends Policy wp onOk wp_bind wp_handle wp_done wp_fail wp_ends)
open Async.Method (pure_eq throw_eq bind_eq tryCatch_eq fail_bind)

/-! ### What is saved for a plan -/

/-- The routine that a confirmation creates first. -/
structure IsRoutineOf (userId : Uuid) (args : CreateRoutineArgs) (routine : Routine) : Prop where
  userId : routine.userId = userId
  title : routine.title = args.title
  notes : routine.notes = some args.notes

/-- The private task of one round of the loop. -/
structure IsTaskOf (userId : Uuid) (args : CreateRoutineTaskArgs) (task : Task) : Prop where
  ownerId : task.ownerId = some userId
  title : task.title = args.title
  description : task.description = some args.description

/-- The two rows of one round of the loop, which is given its arguments and its index. -/
structure IsRoundOf (userId routineId : Uuid) (round : CreateRoutineTaskArgs × Nat)
    (rows : Task × RoutineTask) : Prop where
  task : IsTaskOf userId round.1 rows.1
  routineId : rows.2.routineId = routineId
  taskId : rows.2.taskId = rows.1.id
  position : rows.2.position = round.2 + 1
  duration : rows.2.targetDurationMinutes = some round.1.durationMinutes

/-- Between these states a routine was saved with its first `rounds`, and nothing else was
changed; `pending` is a task whose link was not saved. -/
structure Saved (userId : Uuid) (before after : Db) (routine : Routine)
    (rounds : List (CreateRoutineTaskArgs × Nat)) (rows : List (Task × RoutineTask))
    (pending : Option Task) : Prop where
  rounds : List.Forall₂ (IsRoundOf userId routine.id) rounds rows
  grown : before.Grown after [routine] (rows.map Prod.fst ++ pending.toList) (rows.map Prod.snd)

/-- The save broke off after some of the rounds, or after all of them. -/
inductive PartlySaved (userId : Uuid) (args : CreateRoutineArgs) (before after : Db) : Prop
  | between (routine : Routine) (rounds rest : List (CreateRoutineTaskArgs × Nat))
      (rows : List (Task × RoutineTask)) (isRoutine : IsRoutineOf userId args routine)
      (split : args.tasks.zipIdx = rounds ++ rest)
      (saved : Saved userId before after routine rounds rows none)
  | within (routine : Routine) (rounds rest : List (CreateRoutineTaskArgs × Nat))
      (round : CreateRoutineTaskArgs × Nat) (rows : List (Task × RoutineTask)) (task : Task)
      (isRoutine : IsRoutineOf userId args routine)
      (split : args.tasks.zipIdx = rounds ++ round :: rest) (isTask : IsTaskOf userId round.1 task)
      (saved : Saved userId before after routine rounds rows (some task))

/-! ### One request -/

/-- What `CreateRoutineTool.execute` does to the state. -/
inductive Executed (userId : Uuid) (rawArgs : Json) (w : World) :
    Except Failure CreateRoutineResult → World → Prop
  | refused (e : Failure) : Executed userId rawArgs w (.error e) w
  | failed (e : Failure) (args : CreateRoutineArgs) (db : Db)
      (parsed : CreateRoutineArgs.safeParse rawArgs = some args)
      (saved : PartlySaved userId args w.db db) :
      Executed userId rawArgs w (.error e) { w with db }
  | done (args : CreateRoutineArgs) (db : Db) (routine : Routine) (rows : List (Task × RoutineTask))
      (parsed : CreateRoutineArgs.safeParse rawArgs = some args)
      (isRoutine : IsRoutineOf userId args routine)
      (saved : Saved userId w.db db routine args.tasks.zipIdx rows none) :
      Executed userId rawArgs w (.ok ⟨routine.id, routine.title, args.tasks.length⟩) { w with db }

section Execute

variable {allowed : Policy World Input Failure Label} {userId : Uuid} {w : World}

private theorem saveTask_wp {routineId : Uuid} {round : CreateRoutineTaskArgs × Nat}
    {Q : Except Failure PUnit → World → Prop}
    (saved : ∀ rows db, IsRoundOf userId routineId round rows →
      w.db.Grown db [] [rows.1] [rows.2] → Q (.ok ()) { w with db })
    (pending : ∀ e task db, IsTaskOf userId round.1 task → w.db.Grown db [] [task] [] →
      Q (.error e) { w with db })
    (failed : ∀ e, Q (.error e) w) : wp allowed (saveTask userId routineId round) Q w := by
  obtain ⟨args, index⟩ := round
  unfold saveTask
  simp only [bind_eq, pure_eq, wp_bind, wp_done]
  refine TasksService.wp_createPrivate (fun i task db htask inserted => ?_) fun e => failed e
  have isTask : IsTaskOf userId args task := by
    subst htask
    exact ⟨rfl, rfl, rfl⟩
  have grown := Db.insertTask_grown inserted
  dsimp only [onOk]
  refine RoutinesService.wp_addTask (fun j link db' added => ?_) fun e => pending e task db isTask
    grown
  obtain ⟨hlink, inserted'⟩ := RoutinesService.addRow_ok added
  subst hlink
  have round : IsRoundOf userId routineId (args, index)
      (task, ⟨.ofText routineId.text, .ofText task.id.text, index + 1, some args.durationMinutes,
        j.now, j.now⟩) :=
    ⟨isTask, Uuid.ofText_text _, Uuid.ofText_text _, rfl, rfl⟩
  exact saved _ db' round (grown.trans (Db.insertRoutineTask_grown inserted'))

/-- One more round, after the rounds saved so far. -/
private theorem Saved.snoc {before middle after : Db} {routine : Routine}
    {rounds : List (CreateRoutineTaskArgs × Nat)} {rows : List (Task × RoutineTask)}
    {round : CreateRoutineTaskArgs × Nat} {row : Task × RoutineTask}
    (saved : Saved userId before middle routine rounds rows none)
    (isRound : IsRoundOf userId routine.id round row)
    (grown : middle.Grown after [] [row.1] [row.2]) :
    Saved userId before after routine (rounds ++ [round]) (rows ++ [row]) none where
  rounds := List.rel_append saved.rounds (.cons isRound .nil)
  grown := by simpa using saved.grown.trans grown

private theorem Saved.pend {before middle after : Db} {routine : Routine}
    {rounds : List (CreateRoutineTaskArgs × Nat)} {rows : List (Task × RoutineTask)} {task : Task}
    (saved : Saved userId before middle routine rounds rows none)
    (grown : middle.Grown after [] [task] []) :
    Saved userId before after routine rounds rows (some task) where
  rounds := saved.rounds
  grown := by simpa using saved.grown.trans grown

private theorem execute_wp (rawArgs : Json) :
    wp allowed (execute userId rawArgs) (Executed userId rawArgs w) w := by
  unfold execute
  cases parsed : CreateRoutineArgs.safeParse rawArgs with
  | none => exact .refused _
  | some args =>
    simp only [bind_eq, pure_eq, wp_bind, wp_done]
    refine RoutinesService.wp_create (fun i routine db hrow inserted => ?_) fun e => .refused e
    have isRoutine : IsRoutineOf userId args routine := by
      simp only [CreateRoutineDto.row, Except.ok.injEq] at hrow
      subst hrow
      exact ⟨rfl, rfl, rfl⟩
    have start : Saved userId w.db db routine [] [] none :=
      ⟨.nil, by simpa using Db.insertRoutine_grown inserted⟩
    dsimp only [onOk]
    -- the rounds gone through are saved, whatever happens in the next one
    let inv : List (CreateRoutineTaskArgs × Nat) → World → Prop := fun rounds v =>
      ∃ rows db, v = { w with db } ∧ Saved userId w.db db routine rounds rows none
    refine Async.wp_forM inv _ (fun rounds round rest split v hv => ?_) (fun v hv => ?_)
      ⟨[], db, rfl, start⟩
    · obtain ⟨rows, db, rfl, saved⟩ := hv
      refine saveTask_wp (fun row db' isRound grown => ?_) (fun e task db' isTask grown => ?_)
        fun e => ?_
      · exact ⟨rows ++ [row], db', rfl, saved.snoc isRound grown⟩
      · exact .failed e args db' parsed
          (.within routine rounds rest round rows task isRoutine split isTask (saved.pend grown))
      · exact .failed e args db parsed
          (.between routine rounds (round :: rest) rows isRoutine split saved)
    · obtain ⟨rows, db, rfl, saved⟩ := hv
      exact .done args db routine rows parsed isRoutine saved

end Execute

/-- A request that confirms the plan with this response id. -/
structure Confirms (dto : PracticePlannerRequestDto) (responseId : String) : Prop where
  prompt : dto.prompt = none
  confirmation : dto.confirmation = some true
  previousResponseId : dto.previousResponseId = some responseId

/-- The cache names this user as the owner of the plan. -/
def Owns (w : World) (responseId : String) (userId : Uuid) : Prop :=
  ∃ entry, w.cache (.planOwner responseId) = some entry ∧ entry.value = userId

/-- The response calls the tool with arguments that are parsed as these. -/
def Argues (response : OpenAiResponse) (args : CreateRoutineArgs) : Prop :=
  ∃ callId rawArgs, functionCall? response = some ("create_routine", callId, rawArgs) ∧
    CreateRoutineArgs.safeParse rawArgs = some args

/-- What one request does to the state, and what it answers, when the provider may reply so to
a confirmation. -/
inductive Handled (replies : String → OpenAiResponse → Prop) (userId : Uuid)
    (dto : PracticePlannerRequestDto) (w : World) :
    Except Failure PracticePlannerResponse → World → Prop
  | refused (e : Failure) : Handled replies userId dto w (.error e) w
  | declined (prompt : dto.prompt = none) (confirmation : dto.confirmation = some false) :
      Handled replies userId dto w (.ok .cancelled) w
  | proposed (plan : PracticePlan) (responseId : String) (cache : Cache)
      (prompt : dto.prompt.isSome)
      (only : ∀ id u, Owns { w with cache } id u → Owns w id u ∨ id = responseId ∧ u = userId) :
      Handled replies userId dto w (.ok (.awaitingConfirmation plan responseId)) { w with cache }
  | failed (e : Failure) (responseId : String) (response : OpenAiResponse)
      (args : CreateRoutineArgs) (db : Db) (confirms : Confirms dto responseId)
      (owner : Owns w responseId userId) (replied : replies responseId response)
      (argues : Argues response args) (saved : PartlySaved userId args w.db db) :
      Handled replies userId dto w (.error e) { w with db }
  | created (responseId : String) (args : CreateRoutineArgs) (db : Db) (routine : Routine)
      (rows : List (Task × RoutineTask)) (confirms : Confirms dto responseId)
      (owner : Owns w responseId userId) (isRoutine : IsRoutineOf userId args routine)
      (saved : Saved userId w.db db routine args.tasks.zipIdx rows none) :
      Handled replies userId dto w
        (.ok (.created ⟨routine.id, routine.title, args.tasks.length⟩)) { w with db }

section HandleRequest

variable {allowed : Policy World Input Failure Label} {userId : Uuid} {w : World}

/-- What a policy lets the provider reply to a confirmation. -/
def Replies (allowed : Policy World Input Failure Label) (responseId : String)
    (response : OpenAiResponse) : Prop :=
  ∃ i v, allowed (.aiProvider (.confirm responseId)) v (.took i) ∧ i.response = response

private theorem responsesParse_wp {request : ProviderRequest}
    {Q : Except Failure OpenAiResponse → World → Prop}
    (replied : ∀ i, allowed (.aiProvider request) w (.took i) → Q (.ok i.response) w)
    (failed : ∀ e, Q (.error e) w) : wp allowed (Promise.responsesParse request) Q w :=
  Promise.wp_call replied fun e _ => failed e

private theorem callAiProvider_wp {α : Type} {fn : Promise α} {message : String}
    {Q : Except Failure α → World → Prop}
    (body : wp allowed fn (fun r v => match r with
      | .ok a => Q (.ok a) v
      | .error _ => ∀ e, Q (.error e) v) w) :
    wp allowed (callAiProvider fn message) Q w := by
  unfold callAiProvider
  simp only [tryCatch_eq, throw_eq, wp_handle]
  refine Async.wp_mono body fun r v h => ?_
  cases r with
  | ok a => exact h
  | error e =>
    dsimp only [onOk]
    split <;> exact h _

private theorem startPlan_wp {dto : PracticePlannerRequestDto} {prompt : String}
    (given : dto.prompt = some prompt) :
    wp allowed (startPlan userId prompt) (Handled (Replies allowed) userId dto w) w := by
  unfold startPlan
  simp only [bind_eq, pure_eq, throw_eq, tryCatch_eq, wp_bind]
  refine callAiProvider_wp ?_
  unfold generatePracticePlan
  simp only [bind_eq, throw_eq, wp_bind]
  refine responsesParse_wp (fun i _ => ?_) fun e e' => .refused e'
  dsimp only [onOk]
  split
  · exact fun e => .refused e
  split
  · exact fun e => .refused e
  · next plan _ =>
    dsimp only [pure_eq, wp_done, onOk]
    split
    · exact .refused _
    · simp only [wp_bind, wp_handle, wp_done]
      refine Promise.wp_cacheSet (fun _ _ => .proposed plan i.response.id _ (by simp [given]) ?_)
        fun e _ => .proposed plan i.response.id w.cache (by simp [given]) fun id u h => .inl h
      rintro id u ⟨entry, hentry, rfl⟩
      dsimp only at hentry
      by_cases same : id = i.response.id
      · subst same
        rw [Function.update_self] at hentry
        cases hentry
        exact .inr ⟨rfl, rfl⟩
      · rw [Function.update_of_ne (fun h => same (CacheKey.planOwner.inj h))] at hentry
        exact .inl ⟨entry, hentry, rfl⟩

private theorem confirm_wp {dto : PracticePlannerRequestDto} {responseId : String}
    (confirms : Confirms dto responseId) (owner : Owns w responseId userId) :
    wp allowed (confirmAndCreateRoutine responseId (execute userId)) (fun r v =>
      match r with
      | .ok a => Handled (Replies allowed) userId dto w (.ok (.created a.toolResult)) v
      | .error _ => ∀ e, Handled (Replies allowed) userId dto w (.error e) v) w := by
  unfold confirmAndCreateRoutine
  simp only [bind_eq, pure_eq, throw_eq, wp_bind]
  refine responsesParse_wp (fun i may => ?_) fun e e' => .refused e'
  dsimp only [onOk]
  split
  · exact fun e => .refused e
  split
  · next callId parsedArguments called =>
    have replied : Replies allowed responseId i.response := ⟨i, w, may, rfl⟩
    rw [wp_bind]
    refine Async.wp_mono (execute_wp parsedArguments) fun r v executed => ?_
    cases executed with
    | refused e => exact fun e' => .refused e'
    | failed e args db parsed saved =>
      exact fun e' => .failed e' responseId i.response args db confirms owner replied
        ⟨callId, parsedArguments, called, parsed⟩ saved
    | done args db routine rows parsed isRoutine saved =>
      have complete : PartlySaved userId args w.db db :=
        .between routine args.tasks.zipIdx [] rows isRoutine (List.append_nil _).symm saved
      have broken : ∀ e, Handled (Replies allowed) userId dto w (.error e) { w with db } :=
        fun e => .failed e responseId i.response args db confirms owner replied
          ⟨callId, parsedArguments, called, parsed⟩ complete
      dsimp only [onOk]
      rw [wp_bind]
      refine responsesParse_wp (fun _ _ => ?_) fun _ => broken
      dsimp only [onOk]
      split
      · exact broken
      · exact .created responseId args db routine rows confirms owner isRoutine saved
  · exact fun e => .refused e

/-- The specification of one request, whatever fails in it. -/
theorem handleRequest_wp (dto : PracticePlannerRequestDto) :
    wp allowed (handleRequest userId dto) (Handled (Replies allowed) userId dto w) w := by
  unfold handleRequest
  simp only [bind_eq, throw_eq, fail_bind]
  split
  · exact .refused _
  · next one =>
    split
    · next prompt given => exact startPlan_wp given
    · next absent =>
      unfold resolveConfirmation
      simp only [bind_eq, pure_eq, throw_eq, fail_bind]
      split
      · next declined => exact .declined absent declined
      next notDeclined =>
      split
      · exact .refused _
      · next responseId given =>
        split
        · exact .refused _
        have confirms : Confirms dto responseId := by
          refine ⟨absent, ?_, given⟩
          cases hc : dto.confirmation with
          | none => simp [absent, hc] at one
          | some b =>
            cases b with
            | true => rfl
            | false => exact absurd hc notDeclined
        rw [wp_bind]
        unfold readOwnershipFromCache
        simp only [pure_eq, tryCatch_eq, wp_handle]
        refine Promise.wp_cacheGet (fun _ _ => ?_) fun e _ => ?_
        · dsimp only [onOk]
          split
          · exact .refused _
          · next owned =>
            have owner : Owns w responseId userId := by
              have h := not_not.mp owned
              cases hc : w.cache (.planOwner responseId) with
              | none => simp [hc] at h
              | some entry =>
                rw [hc] at h
                exact ⟨entry, hc, Option.some.inj h⟩
            simp only [wp_bind]
            refine callAiProvider_wp (Async.wp_mono (confirm_wp confirms owner) ?_)
            intro r v h
            cases r with
            | ok a => exact h
            | error e => exact h
        · exact .refused _

end HandleRequest

/-! ### A failed confirmation -/

/-- The provider replies to each request as this function says; all else is open. -/
def repliesBy (provider : ProviderRequest → OpenAiResponse) : Policy World Input Failure Label
  | .aiProvider request, _, .took i => i.response = provider request
  | _, _, _ => True

/-- What a request that throws leaves of the database: all of it as it was, or, once
`RoutinesService.create` has succeeded, exactly the writes that took effect added to it: those
of the arguments that the provider returned for the confirmation. -/
def LeavesPrefix (provider : ProviderRequest → OpenAiResponse) (userId : Uuid)
    (dto : PracticePlannerRequestDto) (before after : Db) : Prop :=
  after = before ∨ ∃ responseId args, Confirms dto responseId ∧
    Argues (provider (.confirm responseId)) args ∧ PartlySaved userId args before after

theorem failed_request_leaves_prefix {provider : ProviderRequest → OpenAiResponse} {userId : Uuid}
    {dto : PracticePlannerRequestDto} {w w' : World} {e : Failure}
    (run : Ends (repliesBy provider) (handleRequest userId dto) w (.error e) w') :
    LeavesPrefix provider userId dto w.db w'.db := by
  have handled := wp_ends (handleRequest_wp (w := w) dto) run
  cases handled with
  | refused e => exact .inl rfl
  | failed e responseId response args db confirms owner replied argues saved =>
    obtain ⟨i, v, may, rfl⟩ := replied
    have same : i.response = provider (.confirm responseId) := may
    exact .inr ⟨responseId, args, confirms, same ▸ argues, saved⟩

section Sample

/-- A plan that `alice` owns, and her confirmation of it. -/
private def planned : World :=
  { World.signedUp with
    cache := Function.update World.empty.cache (.planOwner "resp_1") (some ⟨alice, true⟩) }

private def confirmation : PracticePlannerRequestDto := ⟨none, some true, some "resp_1"⟩

private def toolCall : OpenAiResponse :=
  { OpenAiResponse.blank "resp_2" "completed" with
    output := [.functionCall "create_routine" "call_1" (.obj [
      ("title", .str "Warm-up"), ("notes", .str ""),
      ("tasks", .arr [.obj [("title", .str "Scales"), ("description", .str ""),
        ("durationMinutes", .num 10)]])])] }

/-- The provider calls the tool whatever it is asked. -/
private def toolInput (uuid : Uuid) (now : Instant) : Input :=
  { Input.of uuid now with response := toolCall }

/-- The tool saves routine `r` with its task `t`. -/
private def toolCues (r t : Uuid) : List (Async.Cue Input Failure) :=
  [took (toolInput r 0), took (toolInput r 0), took (toolInput r 1), took (toolInput t 2),
    took (toolInput r 3), took (toolInput r 3), took (toolInput r 3)]

/-- Everything is saved, then OpenAI is unreachable for the follow-up. -/
private def outageCues : List (Async.Cue Input Failure) :=
  toolCues firstId thirdId ++ [threw (.openAi .api)]

private theorem outage_replies (x : Async.Answer Input Failure) (answers : .reply x ∈ outageCues)
    (label : Label) (w : World) : repliesBy (fun _ => toolCall) label w x := by
  simp only [outageCues, toolCues, took, threw, List.cons_append, List.nil_append, List.mem_cons,
    Async.Cue.reply.injEq, List.not_mem_nil, or_false] at answers
  rcases answers with rfl | rfl | rfl | rfl | rfl | rfl | rfl | rfl <;> cases label <;>
    first | rfl | trivial

private theorem outage_ends {allowed : Policy World Input Failure Label}
    (may : ∀ x, .reply x ∈ outageCues → ∀ l w, allowed l w x) :
    Ends allowed (handleRequest alice confirmation) planned
      (.error (serviceUnavailable plannerUnavailable))
      (Async.after (handleRequest alice confirmation) outageCues planned) :=
  Async.ends_after may rfl

theorem failed_request_leaves_prefix_outage :
    LeavesPrefix (fun _ => toolCall) alice confirmation planned.db
      (Async.after (handleRequest alice confirmation) outageCues planned).db :=
  failed_request_leaves_prefix (outage_ends outage_replies)

/-- A confirmation that throws can leave a routine, its task and their link behind. -/
theorem failed_confirmation_not_atomic :
    ¬∀ userId dto w w' e, dto.confirmation = some true →
      Ends anyAnswer (handleRequest userId dto) w (.error e) w' →
      w'.db.routines = w.db.routines ∧ w'.db.tasks = w.db.tasks ∧
        w'.db.routineTasks = w.db.routineTasks := by
  intro claim
  have same := (claim alice confirmation planned _ _ rfl
    (outage_ends fun _ _ _ _ => trivial)).1
  have length := congrArg (fun t => t.rows.length) same
  revert length
  decide

end Sample

/-! ### Life cycles -/

/-- One request of a run, with the states it began and ended in. -/
structure Request where
  userId : Uuid
  dto : PracticePlannerRequestDto
  result : Except Failure PracticePlannerResponse
  before : World
  after : World

/-- Requests of any users one after the other; between them cache entries may expire. -/
inductive Requests (start : World) : List Request → World → Prop
  | idle : Requests start [] start
  | next {past : List Request} {w w' : World} (userId : Uuid) (dto : PracticePlannerRequestDto)
      (result : Except Failure PracticePlannerResponse) (sofar : Requests start past w)
      (ends : Ends anyAnswer (handleRequest userId dto) w result w') :
      Requests start (past ++ [⟨userId, dto, result, w, w'⟩]) w'
  | expire {past : List Request} {w : World} (cache : Cache) (sofar : Requests start past w)
      (fewer : ∀ key, cache key = w.cache key ∨ cache key = none) :
      Requests start past { w with cache }

/-- The request changed the routines. -/
def Request.Persists (r : Request) : Prop := r.after.db.routines ≠ r.before.db.routines

/-- `created` is terminal: a plan that has led to a routine leads to no other. -/
def CreatedTerminal (requests : List Request) : Prop :=
  ∀ id past r middle s later, requests = past ++ r :: (middle ++ s :: later) →
    Confirms r.dto id → r.Persists → Confirms s.dto id → ¬s.Persists

/-- `cancelled` is terminal: a plan that was declined leads to no routine. -/
def CancelledTerminal (requests : List Request) : Prop :=
  ∀ id past r middle s later, requests = past ++ r :: (middle ++ s :: later) →
    r.dto.previousResponseId = some id → r.result = .ok .cancelled → Confirms s.dto id →
      ¬s.Persists

/-- The request was answered with a plan under this response id. -/
def Request.Proposes (r : Request) (responseId : String) : Prop :=
  ∃ plan, r.result = .ok (.awaitingConfirmation plan responseId)

/-- What one request of a run may do, given the requests before it. -/
structure Request.Sound (past : List Request) (r : Request) : Prop where
  declines : r.result = .ok .cancelled → r.after = r.before
  prompts : r.dto.prompt.isSome → r.after.db = r.before.db
  keeps : ∀ responseId, Confirms r.dto responseId → r.after.cache = r.before.cache
  creates : ∀ c, r.result = .ok (.created c) → ∃ routine tasks links,
    r.before.db.Grown r.after.db [routine] tasks links ∧ routine.id = c.routineId ∧
      routine.title = c.title ∧ tasks.length = c.taskCount ∧ links.length = c.taskCount
  persists : r.after.db = r.before.db ∨ ∃ responseId routine tasks links,
    Confirms r.dto responseId ∧ routine.userId = r.userId ∧
      r.before.db.Grown r.after.db [routine] tasks links ∧
      ∃ p ∈ past, p.userId = r.userId ∧ p.Proposes responseId

private theorem Handled.sound {replies : String → OpenAiResponse → Prop} {past : List Request}
    {userId : Uuid}
    {dto : PracticePlannerRequestDto} {w w' : World}
    {result : Except Failure PracticePlannerResponse}
    (owners : ∀ id u, Owns w id u → ∃ p ∈ past, p.userId = u ∧ p.Proposes id)
    (handled : Handled replies userId dto w result w') :
    Request.Sound past ⟨userId, dto, result, w, w'⟩ := by
  cases handled with
  | refused e => exact ⟨nofun, fun _ => rfl, fun _ _ => rfl, nofun, .inl rfl⟩
  | declined prompt confirmation =>
    exact ⟨fun _ => rfl, fun _ => rfl, fun _ _ => rfl, nofun, .inl rfl⟩
  | proposed plan responseId cache prompt only =>
    refine ⟨nofun, fun _ => rfl, fun id confirms => ?_, nofun, .inl rfl⟩
    have absent : dto.prompt = none := confirms.prompt
    simp [absent] at prompt
  | failed e responseId response args db confirms owner replied argues saved =>
    refine ⟨nofun, fun given => ?_, fun _ _ => rfl, nofun, .inr ?_⟩
    · simp [confirms.prompt] at given
    · cases saved with
      | between routine rounds rest rows isRoutine split saved =>
        exact ⟨responseId, routine, _, _, confirms, isRoutine.userId, saved.grown,
          owners _ _ owner⟩
      | within routine rounds rest round rows task isRoutine split isTask saved =>
        exact ⟨responseId, routine, _, _, confirms, isRoutine.userId, saved.grown,
          owners _ _ owner⟩
  | created responseId args db routine rows confirms owner isRoutine saved =>
    have length : rows.length = args.tasks.length := by
      rw [← saved.rounds.length_eq, List.length_zipIdx]
    refine ⟨nofun, fun given => ?_, fun _ _ => rfl, fun c h => ?_, .inr ?_⟩
    · simp [confirms.prompt] at given
    · cases h
      exact ⟨routine, _, _, saved.grown, rfl, rfl, by simp [length], by simp [length]⟩
    · exact ⟨responseId, routine, _, _, confirms, isRoutine.userId, saved.grown,
        owners _ _ owner⟩

/-- A step adds an owner only for the plan it proposes. -/
private theorem Handled.owns {replies : String → OpenAiResponse → Prop} {userId : Uuid}
    {dto : PracticePlannerRequestDto} {w w' : World}
    {result : Except Failure PracticePlannerResponse}
    (handled : Handled replies userId dto w result w')
    {id : String} {u : Uuid} (owns : Owns w' id u) :
    Owns w id u ∨ u = userId ∧ ∃ plan, result = .ok (.awaitingConfirmation plan id) := by
  cases handled with
  | refused e => exact .inl owns
  | declined prompt confirmation => exact .inl owns
  | proposed plan responseId cache prompt only =>
    rcases only id u owns with h | ⟨rfl, rfl⟩
    · exact .inl h
    · exact .inr ⟨rfl, plan, rfl⟩
  | failed e responseId response args db confirms owner replied argues saved => exact .inl owns
  | created responseId args db routine rows confirms owner isRoutine saved => exact .inl owns

private theorem Requests.owners {start w : World} {past : List Request}
    (noPlans : ∀ id, start.cache (.planOwner id) = none) (run : Requests start past w) :
    ∀ id u, Owns w id u → ∃ p ∈ past, p.userId = u ∧ p.Proposes id := by
  induction run with
  | idle =>
    rintro id u ⟨entry, hentry, -⟩
    simp [noPlans] at hentry
  | next userId dto result sofar ends ih =>
    intro id u owns
    rcases (wp_ends (handleRequest_wp dto) ends).owns owns with h | ⟨rfl, plan, rfl⟩
    · obtain ⟨p, hp, h⟩ := ih id u h
      exact ⟨p, List.mem_append_left _ hp, h⟩
    · exact ⟨_, List.mem_append_right _ (List.mem_singleton_self _), rfl, plan, rfl⟩
  | expire cache sofar fewer ih =>
    rintro id u ⟨entry, hentry, hvalue⟩
    rcases fewer (.planOwner id) with same | gone
    · exact ih id u ⟨entry, same ▸ hentry, hvalue⟩
    · dsimp only at hentry
      rw [gone] at hentry
      cases hentry

/-- Only a confirmation by the user who was shown the plan persists anything, each at most
one routine and exactly one when it answers `created`; declining changes nothing. -/
theorem plan_life_cycle {start w : World} {requests : List Request}
    (noPlans : ∀ id, start.cache (.planOwner id) = none) (run : Requests start requests w) :
    ∀ past r later, requests = past ++ r :: later → r.Sound past := by
  induction run with
  | idle =>
    intro past r later split
    simp at split
  | @next sofar v v' userId dto result run ends ih =>
    intro past r later split
    rcases List.eq_nil_or_concat later with rfl | ⟨later, last, rfl⟩
    · obtain ⟨rfl, hr⟩ := List.append_inj' split rfl
      cases hr
      exact (wp_ends (handleRequest_wp dto) ends).sound (run.owners noPlans)
    · rw [List.concat_eq_append, ← List.cons_append, ← List.append_assoc] at split
      obtain ⟨hpast, -⟩ := List.append_inj' split rfl
      exact ih past r later hpast
  | expire cache run fewer ih => exact ih

section Sample

private def prompt : PracticePlannerRequestDto := ⟨some "scales", none, none⟩

private def decline : PracticePlannerRequestDto := ⟨none, some false, some "resp_1"⟩

private def proposal : PracticePlan := ⟨"Warm-up", "", 10, [⟨"Scales", "", 10⟩], true⟩

private def promptCues : List (Async.Cue Input Failure) :=
  [took { Input.of firstId 0 with
      response := { OpenAiResponse.blank "resp_1" "completed" with outputParsed := some proposal } },
    took (.of firstId 0)]

private def confirmCues (r t : Uuid) : List (Async.Cue Input Failure) :=
  toolCues r t ++ [took (.of r 4)]

private def proposed : World := Async.after (handleRequest alice prompt) promptCues World.signedUp

private def createdOnce : World :=
  Async.after (handleRequest alice confirmation) (confirmCues firstId thirdId) proposed

private def createdTwice : World :=
  Async.after (handleRequest alice confirmation) (confirmCues thirdId firstId) createdOnce

private theorem signedUp_noPlans (id : String) : World.signedUp.cache (.planOwner id) = none := rfl

private theorem proposed_ends : Ends anyAnswer (handleRequest alice prompt) World.signedUp
    (.ok (.awaitingConfirmation proposal "resp_1")) proposed :=
  Async.ends_after_ok (fun _ _ _ _ => trivial) (by decide +kernel)

private theorem createdOnce_ends : Ends anyAnswer (handleRequest alice confirmation) proposed
    (.ok (.created ⟨firstId, "Warm-up", 1⟩)) createdOnce :=
  Async.ends_after_ok (fun _ _ _ _ => trivial) (by decide +kernel)

private theorem createdTwice_ends : Ends anyAnswer (handleRequest alice confirmation) createdOnce
    (.ok (.created ⟨thirdId, "Warm-up", 1⟩)) createdTwice :=
  Async.ends_after_ok (fun _ _ _ _ => trivial) (by decide +kernel)

/-- The plan is proposed, declined, confirmed and confirmed again. -/
private def relapse : List Request :=
  [⟨alice, prompt, .ok (.awaitingConfirmation proposal "resp_1"), World.signedUp, proposed⟩,
    ⟨alice, decline, .ok .cancelled, proposed, proposed⟩,
    ⟨alice, confirmation, .ok (.created ⟨firstId, "Warm-up", 1⟩), proposed, createdOnce⟩,
    ⟨alice, confirmation, .ok (.created ⟨thirdId, "Warm-up", 1⟩), createdOnce, createdTwice⟩]

private theorem relapse_run : Requests World.signedUp relapse createdTwice := by
  have asked := Requests.next alice prompt _ (Requests.idle : Requests World.signedUp [] World.signedUp) proposed_ends
  have declined := asked.next alice decline (.ok .cancelled) (.done _ _)
  have confirmed := declined.next alice confirmation _ createdOnce_ends
  exact confirmed.next alice confirmation _ createdTwice_ends

theorem plan_life_cycle_relapse :
    Request.Sound (relapse.take 2)
      ⟨alice, confirmation, .ok (.created ⟨firstId, "Warm-up", 1⟩), proposed, createdOnce⟩ :=
  plan_life_cycle signedUp_noPlans relapse_run (relapse.take 2) _ (relapse.drop 3) rfl

private theorem confirmation_confirms : Confirms confirmation "resp_1" := ⟨rfl, rfl, rfl⟩

private theorem first_persists :
    Request.Persists ⟨alice, confirmation, .ok (.created ⟨firstId, "Warm-up", 1⟩), proposed,
      createdOnce⟩ := by
  intro same
  have length := congrArg (fun t => t.rows.length) same
  revert length
  decide +kernel

private theorem second_persists :
    Request.Persists ⟨alice, confirmation, .ok (.created ⟨thirdId, "Warm-up", 1⟩), createdOnce,
      createdTwice⟩ := by
  intro same
  have length := congrArg (fun t => t.rows.length) same
  revert length
  decide +kernel

/-- A confirmed plan can be confirmed again, and a declined one can be confirmed. -/
theorem created_and_cancelled_not_terminal :
    (¬∀ start requests w, (∀ id, start.cache (.planOwner id) = none) →
        Requests start requests w → CreatedTerminal requests) ∧
      ¬∀ start requests w, (∀ id, start.cache (.planOwner id) = none) →
        Requests start requests w → CancelledTerminal requests := by
  constructor
  · intro claim
    exact claim World.signedUp relapse _ signedUp_noPlans relapse_run "resp_1" (relapse.take 2) _ [] _ [] rfl
      confirmation_confirms first_persists confirmation_confirms second_persists
  · intro claim
    exact claim World.signedUp relapse _ signedUp_noPlans relapse_run "resp_1" (relapse.take 1) _ [] _
      (relapse.drop 3) rfl rfl rfl confirmation_confirms first_persists

end Sample

end GuitarCoach.AiPracticePlanner
