/- digest: The shared state of the backend and the atomic calls its services await. -/

import GuitarCoach.Async.Interleaving
import GuitarCoach.Ecma.Numbers
import GuitarCoach.Store.Schema
import Mathlib.Data.List.AList

/-!
Everything the services share is here: the committed rows, the purge transactions that are
open, the bucket, the cache and the locks. A statement outside a transaction and a
transaction whose statements nothing can come between are one call.

PostgreSQL runs an open transaction at READ COMMITTED: each of its statements sees what is
committed by then, less the rows it has itself deleted, and nobody else may touch those
rows before it ends.
-/

set_option autoImplicit false
set_option relaxedAutoImplicit false

namespace GuitarCoach

/-- One page of a list endpoint. -/
structure PaginationMeta where
  total : Nat
  page : Nat
  limit : Nat
  totalPages : Nat
deriving DecidableEq

structure Paginated (α : Type) where
  data : List α
  pages : PaginationMeta
deriving DecidableEq

/-- `(page - 1) * limit`, computed in doubles. -/
def skipOf (page limit : Nat) : Nat :=
  Ecma.roundToDouble (Ecma.roundToDouble (page - 1) * limit)

/-- The integers that Prisma takes for `skip`. -/
def fitsInt8 (n : Int) : Bool := -9223372036854775808 ≤ n && n ≤ 9223372036854775807

/-- The rows of a page; a `skip` beyond 64 bits is refused before the query is sent. -/
def withSkip {α : Type} (page limit : Nat) (rows : α) : Except Failure α :=
  if fitsInt8 (skipOf page limit) then .ok rows else .error .valueOutOfRange

/-- The keys of the cache, by the segments the services join with `:`. A task key has the
id in the spelling of the request. -/
inductive CacheKey
  | task (id : String)
  | taskListVersion
  | taskList (version page limit : Nat) (category : Option TaskCategory)
      (difficulty : Option TaskDifficulty) (search : String)
  | planOwner (previousResponseId : String)
deriving DecidableEq

/-- What the services keep under a key. -/
@[reducible] def CacheKey.Value : CacheKey → Type
  | .task _ => Task
  | .taskListVersion => Nat
  | .taskList .. => Paginated Task
  | .planOwner _ => Uuid

/-- A cached value; one that was set with a TTL of 0 never expires. -/
structure Entry (key : CacheKey) where
  value : key.Value
  expires : Bool

abbrev Cache := (key : CacheKey) → Option (Entry key)

/-- What is stored under a lock key, until it expires. -/
structure Lock where
  token : String
  expires : Instant
deriving DecidableEq

structure World where
  db : Db
  /-- The transactions that are open, by number, each with the rows it has deleted so far. -/
  txs : AList fun _ : Nat => RowSet
  bucket : Finset String
  cache : Cache
  locks : String → Option Lock

/-- Nothing stored anywhere. -/
def World.empty : World := ⟨.empty, ∅, ∅, fun _ => none, fun _ => none⟩

/-- The lock that is held under a key; one that has expired is gone. -/
def World.heldLock (w : World) (key : String) (now : Instant) : Option Lock :=
  (w.locks key).filter (now < ·.expires)

/-- What the transaction has deleted so far, when it is open. -/
def World.tx (w : World) (tx : Nat) : Option RowSet := w.txs.lookup tx

/-- The tables as the transaction sees them. -/
def World.view (w : World) (tx : Nat) : Db :=
  match w.tx tx with
  | none => w.db
  | some gone => w.db.without gone

/-- A number that no open transaction has. -/
def World.nextTx (w : World) : Nat := w.txs.keys.sum + 1

/-- The transaction is open and has deleted these rows. -/
def World.withTx (w : World) (tx : Nat) (gone : RowSet) : World :=
  { w with txs := w.txs.insert tx gone }

/-- The transaction has ended. -/
def World.withoutTx (w : World) (tx : Nat) : World := { w with txs := w.txs.erase tx }

/-- No open transaction has deleted one of these rows, except perhaps `own`. -/
def World.unlocked (w : World) (own : Option Nat) (rows : RowSet) : Bool :=
  w.txs.entries.all fun entry => own = some entry.1 || !rows.meets entry.2

inductive Model
  | user
  | task
  | routine
  | routineTask
  | practiceSession
  | practiceSessionTask
  | recording
deriving DecidableEq

inductive Operation
  | findUnique
  | findUniqueOrThrow
  | findFirst
  | findMany
  | count
  | create
  | update
  | updateMany
  | delete
  | deleteMany
  | transaction
deriving DecidableEq

/-- A request to the OpenAI API, by what it continues. -/
inductive ProviderRequest
  | plan (prompt : String)
  | confirm (previousResponseId : String)
  | followUp (responseId callId : String)
deriving DecidableEq

/-- What a call is, to whoever watches a run. -/
inductive Label
  | db (model : Model) (op : Operation)
  | begin
  | commit
  | rollback
  | cacheGet (key : CacheKey)
  | cacheSet (key : CacheKey)
  | cacheDel (key : CacheKey)
  | uploadObject (name : String)
  | deleteObject (name : String)
  | signUrl (name : String)
  | mkdtemp
  | writeFile
  | rm
  | acquireLock (key : String)
  | releaseLock (key token : String)
  | randomUUID
  | aiProvider (request : ProviderRequest)
deriving DecidableEq

/-- The plan of the AI, of the shape `PracticePlanSchema` gives it. -/
structure PracticePlanTask where
  title : String
  description : String
  durationMinutes : ℚ
deriving DecidableEq

structure PracticePlan where
  title : String
  summary : String
  totalDurationMinutes : ℚ
  tasks : List PracticePlanTask
  requiresConfirmation : Bool
deriving DecidableEq

/-- One item of a response of the OpenAI Responses API. -/
inductive OutputItem
  | functionCall (name : String) (callId : String) (parsedArguments : Json)
  | other

structure OpenAiResponse where
  id : String
  status : String
  outputParsed : Option PracticePlan
  output : List OutputItem
  outputText : String
  /-- `response.error ?? response.incomplete_details`. -/
  detail : Json

/-- What the environment supplies to one call: the ids and the times of the rows it creates,
and for a query `rank`, which decides how rows come back that its `ORDER BY` leaves tied. -/
structure Input where
  uuid : Nat → Uuid
  clock : Nat → Instant
  rank : Nat → Nat
  response : OpenAiResponse

/-- When the call is made. -/
@[reducible] def Input.now (i : Input) : Instant := i.clock 0

/-- An answer of the OpenAI API with nothing in it. -/
def OpenAiResponse.blank (id status : String) : OpenAiResponse :=
  ⟨id, status, none, [], "", .null⟩

/-- An input that supplies one id, at a time. -/
def Input.of (uuid : Uuid) (now : Instant) : Input :=
  ⟨fun _ => uuid, fun _ => now, id, .blank "" "completed"⟩

/-- The users of the examples. -/
def alice : Uuid := ⟨"0b0e7a52-3c1d-4f6e-9a8b-1d2c3e4f5a6b", by decide⟩

def bob : Uuid := ⟨"5d2f8e10-64b3-4c7a-8f95-e0a1b2c3d4e5", by decide⟩

/-- Ids of other rows of the examples. -/
def firstId : Uuid := ⟨"7d5e8c31-2b9a-4d6f-b1e0-9c8b7a695847", by decide⟩

def secondId : Uuid := ⟨"91c4e6a8-0f2d-4b7c-a3e5-6d8f9b0c1e2a", by decide⟩

def thirdId : Uuid := ⟨"3f1c9d20-7a4b-4e8f-8c6d-5b4a39281706", by decide⟩

/-- Only `alice` has signed up. -/
def World.signedUp : World :=
  { World.empty with db := { Db.empty with users := ⟨[⟨alice, none⟩], by decide⟩ } }

/-- Cues of a scripted run: the call takes effect, or throws. -/
def took (i : Input) : Async.Cue Input Failure := .reply (.took i)

def threw (e : Failure) : Async.Cue Input Failure := .reply (.threw e)

/-- An `async` method of a service. -/
abbrev Promise (α : Type) := Async.Method World Input Failure Label α

namespace Promise

open Async (Call)

variable {α : Type}

/-- A statement that only reads. -/
def read (model : Model) (op : Operation) (f : Input → Db → Except Failure α) : Promise α :=
  .call { label := .db model op, run := fun i w => (f i w.db, w) }

/-- A statement that writes, alone or as the last of a transaction of its own. It waits
while an open transaction has deleted a row it touches: one it changes, or one that a row
it adds refers to. -/
def write (model : Model) (op : Operation) (touched : Db → RowSet)
    (f : Input → Db → Except Failure (α × Db)) : Promise α :=
  .call {
    label := .db model op
    ready := fun w => w.unlocked none (touched w.db)
    run := fun i w =>
      match f i w.db with
      | .ok (a, db) => (.ok a, { w with db })
      | .error e => (.error e, w) }

/-- A read inside a transaction. -/
def txRead (tx : Nat) (model : Model) (op : Operation) (f : Input → Db → Except Failure α) :
    Promise α :=
  .call { label := .db model op, run := fun i w => (f i (w.view tx), w) }

/-- A delete inside a transaction. It waits for another that has deleted one of its rows; a wait
that PostgreSQL breaks off as a deadlock fails. -/
def txDelete (tx : Nat) (model : Model) (op : Operation) (rows : Db → Except Failure RowSet) :
    Promise Unit :=
  .call {
    label := .db model op
    run := fun _ w =>
      match rows (w.view tx) with
      | .error e => (.error e, w)
      | .ok gone =>
        if w.unlocked (some tx) gone then
          match (w.view tx).delete gone with
          | .error e => (.error e, w)
          | .ok _ => (.ok (), w.withTx tx (((w.tx tx).getD {}).union gone))
        else (.error (.prisma .P2034), w) }

def begin : Promise Nat :=
  .call {
    label := .begin
    run := fun _ w => (.ok w.nextTx, w.withTx w.nextTx {}) }

def rollback (tx : Nat) : Promise Unit :=
  .call {
    label := .rollback
    run := fun _ w => (.ok (), w.withoutTx tx)
    thrown := fun w => w.withoutTx tx }

/-- A commit that fails has rolled back. -/
def commit (tx : Nat) : Promise Unit :=
  .call {
    label := .commit
    run := fun _ w => (.ok (), { w.withoutTx tx with db := w.view tx })
    thrown := fun w => w.withoutTx tx }

/-- `prisma.$transaction` of a callback. -/
def transaction (body : Nat → Promise α) : Promise α := do
  let tx ← begin
  let result ← tryCatch (body tx) fun e => do
    rollback tx
    throw e
  commit tx
  return result

/-- `try { body } finally { cleanup }`. -/
def withCleanup (body : Promise α) (cleanup : Promise Unit) : Promise α := do
  let result ← tryCatch body fun e => do
    cleanup
    throw e
  cleanup
  return result

def cacheGet (key : CacheKey) : Promise (Option key.Value) :=
  .call { label := .cacheGet key, run := fun _ w => (.ok ((w.cache key).map (·.value)), w) }

/-- `ttl` of the source: a TTL of 0 keeps the entry forever. -/
def cacheSet (key : CacheKey) (value : key.Value) (expires : Bool) : Promise Unit :=
  .call {
    label := .cacheSet key
    run := fun _ w =>
      (.ok (), { w with cache := Function.update w.cache key (some ⟨value, expires⟩) }) }

def cacheDel (key : CacheKey) : Promise Unit :=
  .call {
    label := .cacheDel key
    run := fun _ w => (.ok (), { w with cache := Function.update w.cache key none }) }

/-- `SET key token NX PX ttl`: the token of the holder, or `null` when the key is held. -/
def acquireLock (key : String) (ttlMs : Nat) : Promise (Option String) :=
  .call {
    label := .acquireLock key
    run := fun i w =>
      match w.heldLock key i.now with
      | none =>
        (.ok (some (i.uuid 0).text),
          { w with
            locks := Function.update w.locks key (some ⟨(i.uuid 0).text, i.now + ttlMs⟩) })
      | some _ => (.ok none, w) }

/-- `RELEASE_SCRIPT`: only the holder's token deletes the key. -/
def releaseLock (key token : String) : Promise Unit :=
  .call {
    label := .releaseLock key token
    run := fun i w =>
      if (w.heldLock key i.now).map (·.token) = some token then
        (.ok (), { w with locks := Function.update w.locks key none })
      else (.ok (), w) }

def randomUUID : Promise Uuid :=
  .call { label := .randomUUID, run := fun i w => (.ok (i.uuid 0), w) }

/-- `Promise.allSettled`, of which nobody reads the results. -/
def allSettled : List (Promise Unit) → Promise Unit
  | [] => return ()
  | p :: rest => do
    let _ ← Async.Method.par (tryCatch p fun _ => return ()) (allSettled rest)

/-- One request to the OpenAI API. -/
def responsesParse (request : ProviderRequest) : Promise OpenAiResponse :=
  .call { label := .aiProvider request, run := fun i w => (.ok i.response, w) }

end Promise

end GuitarCoach
