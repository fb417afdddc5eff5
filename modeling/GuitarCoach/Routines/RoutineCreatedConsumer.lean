/- digest: How RoutineCreatedConsumer settles the messages that are delivered to it. -/

import GuitarCoach.Async.Sequential
import GuitarCoach.Observability.StructuredLogger
import GuitarCoach.Store.World
import Mathlib.Data.Set.Insert

/-!
The handler reads the envelope before its `try`, and acknowledges in the middle of it. What it
tells the broker depends on the payload and on the calls that throw; the broker learns nothing
from an `ack` that throws.
-/

set_option autoImplicit false
set_option relaxedAutoImplicit false

namespace GuitarCoach

open Async (Answer Ends Method Policy wp wp_iff_ends)

/-- `ROUTINE_CREATED_PATTERN`. -/
def routineCreatedPattern : String := "routine.created"

/-- What the broker is told about a message. -/
inductive Settlement
  | ack
  | nack (requeue : Bool)
deriving DecidableEq

/-- The counters of `meters` that the handler adds to. -/
inductive QueueMeter
  | queueMessagesConsumedTotal
  | queueConsumerFailuresTotal
  | queueDeadLetteredTotal
deriving DecidableEq

/-- The calls that the handler makes. -/
inductive HandlerCall
  | randomUUID
  | log (level : LogLevel)
  | settle (settlement : Settlement)
  | add (meter : QueueMeter)
deriving DecidableEq

/-- The request context of one delivery attempt; the envelope may lack a `correlationId`. -/
structure DeliveryContext where
  requestId : Uuid
  correlationId : Option Json

/-- A line of the log, with the event or the error as its argument. -/
structure ConsumerLine where
  context : DeliveryContext
  level : LogLevel
  message : String
  argument : Option Json ⊕ Failure

/-- What the handling of one message has done. -/
structure Delivery where
  issued : List Settlement := []
  lines : List ConsumerLine := []
  added : List (QueueMeter × String) := []

namespace RoutineCreatedConsumer

abbrev Handler (α : Type) := Method Delivery Uuid Failure HandlerCall α

def randomUUID : Handler Uuid :=
  .call { label := .randomUUID, run := fun i d => (.ok i, d) }

def log (line : ConsumerLine) : Handler Unit :=
  .call { label := .log line.level, run := fun _ d => (.ok (), { d with lines := d.lines ++ [line] }) }

def settle (settlement : Settlement) : Handler Unit :=
  .call {
    label := .settle settlement
    run := fun _ d => (.ok (), { d with issued := d.issued ++ [settlement] }) }

/-- `meters.….add(1, { eventType: ROUTINE_CREATED_PATTERN })`. -/
def add (meter : QueueMeter) : Handler Unit :=
  .call {
    label := .add meter
    run := fun _ d => (.ok (), { d with added := d.added ++ [(meter, routineCreatedPattern)] }) }

/-- `event.correlationId`: there is none on a value that is not an object, and `undefined` and
`null` have no properties to read. -/
def correlationId : Option Json → Except Failure (Option Json)
  | none => .error (.unexpected "Cannot read properties of undefined (reading 'correlationId')")
  | some .null => .error (.unexpected "Cannot read properties of null (reading 'correlationId')")
  | some event => .ok (event.field? "correlationId")

/-- What runs in the request context. -/
def process (event : Option Json) (context : DeliveryContext) : Handler Unit := do
  try
    log ⟨context, .log, "routine.created event received", .inl event⟩
    settle .ack
    add .queueMessagesConsumedTotal
  catch error =>
    log ⟨context, .error, "Failed to process routine.created event", .inr error⟩
    add .queueConsumerFailuresTotal
    -- no requeue: the queue's dead-letter exchange takes the message
    settle (.nack false)
    add .queueDeadLetteredTotal

/-- `event` is the payload of the message, `none` where its envelope carries none. -/
def handleRoutineCreated (event : Option Json) : Handler Unit := do
  let requestId ← randomUUID
  match correlationId event with
  | .error e => throw e
  | .ok correlationId => process event ⟨requestId, correlationId⟩

/-! ### What is issued -/

/-- The calls made in the `try` block. -/
def tried : Set HandlerCall := {.log .log, .settle .ack, .add .queueMessagesConsumedTotal}

/-- The calls in the set throw, and no others. -/
def throwing (failing : Set HandlerCall) : Policy Delivery Uuid Failure HandlerCall
  | l, _, .took _ => l ∉ failing
  | l, _, .threw _ => l ∈ failing

/-- The message is settled once: acknowledged, or handed to the dead-letter exchange. -/
def SettledOnce (d : Delivery) : Prop := d.issued = [.ack] ∨ d.issued = [.nack false]

section Rules

variable {failing : Set HandlerCall} {d : Delivery}

private theorem wp_step {α : Type} {c : Async.Call Delivery Uuid Failure HandlerCall α}
    {Q : Except Failure α → Delivery → Prop}
    (took : c.label ∉ failing → ∀ i, Q (c.run i d).1 (c.run i d).2)
    (threw : c.label ∈ failing → ∀ e, Q (.error e) (c.thrown d)) :
    wp (throwing failing) (.call c) Q d := by
  rw [Async.wp_call]
  rintro (i | e) may
  · exact took may i
  · exact threw may e

/-- Outside the `try` block nothing throws. -/
private theorem wp_sure (inside : failing ⊆ tried) {α : Type}
    {c : Async.Call Delivery Uuid Failure HandlerCall α} (outside : c.label ∉ tried)
    {Q : Except Failure α → Delivery → Prop} (took : ∀ i, Q (c.run i d).1 (c.run i d).2) :
    wp (throwing failing) (.call c) Q d :=
  wp_step (fun _ => took) fun may => absurd (inside may) outside

/-- Once the handler has caught an error, it issues one `nack` more. -/
private theorem wp_rescue (inside : failing ⊆ tried) (context : DeliveryContext) (e : Failure)
    {issued : List Settlement} (same : d.issued = issued) :
    wp (throwing failing) (do
      log ⟨context, .error, "Failed to process routine.created event", .inr e⟩
      add .queueConsumerFailuresTotal
      settle (.nack false)
      add .queueDeadLetteredTotal) (fun _ after => after.issued = issued ++ [.nack false]) d := by
  simp only [Method.bind_eq, Async.wp_bind]
  refine wp_sure inside (by simp [tried]) fun _ => ?_
  refine wp_sure inside (by simp [tried]) fun _ => ?_
  refine wp_sure inside (by simp [tried]) fun _ => ?_
  refine wp_sure inside (by simp [tried]) fun _ => ?_
  rw [← same]

/-- What comes to be issued for a payload that can be read, and by which of the calls. -/
structure Issues (failing : Set HandlerCall) (issued : List Settlement) : Prop where
  early : .log .log ∈ failing ∨ .settle .ack ∈ failing → issued = [.nack false]
  late : .log .log ∉ failing → .settle .ack ∉ failing → .add .queueMessagesConsumedTotal ∈ failing →
    issued = [.ack, .nack false]
  never : .log .log ∉ failing → .settle .ack ∉ failing →
    .add .queueMessagesConsumedTotal ∉ failing → issued = [.ack]

theorem process_issues (inside : failing ⊆ tried) (event : Option Json) (context : DeliveryContext) :
    wp (throwing failing) (process event context) (fun _ after => Issues failing after.issued) {} := by
  unfold process
  rw [Method.tryCatch_eq, Async.wp_handle, Method.bind_eq, Async.wp_bind]
  refine wp_step (fun logged _ => ?_) fun thrown e => ?_
  · dsimp only [Async.onOk]
    rw [Method.bind_eq, Async.wp_bind]
    refine wp_step (fun acked _ => ?_) fun thrown e => ?_
    · refine wp_step (fun counted _ => ?_) fun thrown e => ?_
      · exact ⟨fun early => (early.elim logged acked).elim, fun _ _ late => absurd late counted,
          fun _ _ _ => rfl⟩
      · refine Async.wp_mono (wp_rescue inside context e rfl) fun _ after issued => ?_
        rw [issued]
        exact ⟨fun early => (early.elim logged acked).elim, fun _ _ _ => rfl,
          fun _ _ never => absurd thrown never⟩
    · refine Async.wp_mono (wp_rescue inside context e rfl) fun _ after issued => ?_
      rw [issued]
      exact ⟨fun _ => rfl, fun _ acked => absurd thrown acked, fun _ acked => absurd thrown acked⟩
  · refine Async.wp_mono (wp_rescue inside context e rfl) fun _ after issued => ?_
    rw [issued]
    exact ⟨fun _ => rfl, fun logged => absurd thrown logged, fun logged => absurd thrown logged⟩

/-- A payload whose `correlationId` can be read. -/
def Readable (event : Option Json) : Prop := event ≠ none ∧ event ≠ some .null

/-- The payload is read before the `try`, where nothing settles the message. -/
theorem handler_issues (inside : failing ⊆ tried) (event : Option Json) :
    wp (throwing failing) (handleRoutineCreated event) (fun _ after =>
      (Readable event → Issues failing after.issued) ∧ (¬Readable event → after.issued = [])) {} := by
  unfold handleRoutineCreated
  rw [Method.bind_eq, Async.wp_bind]
  refine wp_sure inside (by simp [tried]) fun requestId => ?_
  rcases event with - | event
  · exact ⟨fun readable => absurd rfl readable.1, fun _ => rfl⟩
  · by_cases null : event = .null
    · subst null
      exact ⟨fun readable => absurd rfl readable.2, fun _ => rfl⟩
    · have readable : Readable (some event) := ⟨nofun, fun same => null (Option.some.inj same)⟩
      have read : correlationId (some event) = .ok (event.field? "correlationId") := by
        cases event <;> first | rfl | exact absurd rfl null
      dsimp only [Async.onOk]
      rw [read]
      refine Async.wp_mono (process_issues inside _ _) fun _ after issues => ?_
      exact ⟨fun _ => issues, fun unreadable => absurd readable unreadable⟩

/-- Whatever throws, the handler ends. -/
theorem handler_ends (failing : Set HandlerCall) (event : Option Json) :
    ∃ r after, Ends (throwing failing) (handleRoutineCreated event) {} r after := by
  refine Async.exists_ends (fun l _ => ?_) _ _
  by_cases throws : l ∈ failing
  · exact ⟨.threw (.unexpected "connection closed"), throws⟩
  · exact ⟨.took alice, throws⟩

end Rules

/-- The handler ends, and it has settled the message once exactly if the payload is neither missing
nor `null` and it is not the counter alone, after the `ack`, that throws. -/
theorem settled_once_iff (event : Option Json) (failing : Set HandlerCall)
    (inside : failing ⊆ tried) :
    (∃ r after, Ends (throwing failing) (handleRoutineCreated event) {} r after) ∧
    ((∀ r after, Ends (throwing failing) (handleRoutineCreated event) {} r after →
      SettledOnce after) ↔
      Readable event ∧ ¬(.log .log ∉ failing ∧ .settle .ack ∉ failing ∧
        .add .queueMessagesConsumedTotal ∈ failing)) := by
  have ends := handler_ends failing event
  refine ⟨ends, ?_, ?_⟩
  · intro once
    obtain ⟨r, after, ended⟩ := ends
    obtain ⟨readable, unreadable⟩ := Async.wp_ends (handler_issues inside event) ended
    have settled := once r after ended
    unfold SettledOnce at settled
    by_cases read : Readable event
    · refine ⟨read, fun ⟨logged, acked, thrown⟩ => ?_⟩
      rw [(readable read).late logged acked thrown] at settled
      exact absurd settled (by decide)
    · rw [unreadable read] at settled
      exact absurd settled (by decide)
  · rintro ⟨read, spared⟩ r after ended
    have issues := (Async.wp_ends (handler_issues inside event) ended).1 read
    by_cases early : .log .log ∈ failing ∨ .settle .ack ∈ failing
    · exact .inr (issues.early early)
    · rw [not_or] at early
      have counted := fun thrown => spared ⟨early.1, early.2, thrown⟩
      exact .inl (issues.never early.1 early.2 counted)

theorem settled_once_iff_counter :
    (∃ r after, Ends (throwing {.add .queueMessagesConsumedTotal})
      (handleRoutineCreated (some (.obj []))) {} r after) ∧
    ((∀ r after, Ends (throwing {.add .queueMessagesConsumedTotal})
      (handleRoutineCreated (some (.obj []))) {} r after → SettledOnce after) ↔
      Readable (some (.obj [])) ∧ ¬(.log .log ∉ ({.add .queueMessagesConsumedTotal} : Set HandlerCall) ∧
        .settle .ack ∉ ({.add .queueMessagesConsumedTotal} : Set HandlerCall) ∧
        .add .queueMessagesConsumedTotal ∈ ({.add .queueMessagesConsumedTotal} : Set HandlerCall))) :=
  settled_once_iff (some (.obj [])) {.add .queueMessagesConsumedTotal} (by simp [tried])

/-- A message with the payload `null` is not settled, though nothing but its reading throws. -/
theorem null_never_settled : ¬∀ (event : Option Json) (failing : Set HandlerCall), failing ⊆ tried →
    ∀ r after, Ends (throwing failing) (handleRoutineCreated event) {} r after →
      SettledOnce after := by
  intro claim
  obtain ⟨r, after, ended⟩ := handler_ends ∅ (some .null)
  have issued := (Async.wp_ends (handler_issues (Set.empty_subset _) (some .null)) ended).2
    fun readable => readable.2 rfl
  have settled := claim (some .null) ∅ (Set.empty_subset _) r after ended
  unfold SettledOnce at settled
  rw [issued] at settled
  exact absurd settled (by decide)

end RoutineCreatedConsumer

end GuitarCoach
