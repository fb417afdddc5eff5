/- digest: RedisRateLimitStorage and the guard of the AI endpoints that shares its counters. -/

import GuitarCoach.Async.Sequential
import GuitarCoach.Store.Values

/-!
The counters are in a Redis of their own client, apart from everything the services share. A
script runs at one moment of the clock of Redis, in milliseconds, and nothing comes between.
-/

set_option autoImplicit false
set_option relaxedAutoImplicit false

namespace GuitarCoach

open Async (Method)

/-- A limit of `max` calls in `window` seconds. -/
structure RateLimitRule where
  window : Nat
  max : Nat
  windowPositive : 0 < window := by decide
  maxPositive : 0 < max := by decide

/-- What Redis keeps under a key, and when the key vanishes; `none` is a key without a TTL. -/
structure Counter where
  count : Nat
  expires : Option Instant
deriving DecidableEq

namespace Counter

def live (now : Instant) (c : Counter) : Bool := c.expires.all (now < ·)

/-- `INCR`: a key that is absent counts from 0 and gets no TTL, any other keeps its own. -/
def incr : Option Counter → Counter
  | none => ⟨1, none⟩
  | some c => { c with count := c.count + 1 }

def expire (seconds : Nat) (now : Instant) (c : Counter) : Counter :=
  { c with expires := some (now + seconds * 1000) }

/-- `TTL`, to the nearest second. -/
def ttl (now : Instant) (c : Counter) : Int :=
  c.expires.elim (-1) fun expires => (expires - now + 500) / 1000

end Counter

abbrev Counters := String → Option Counter

namespace RedisRateLimitStorage

/-- `CONSUME_SCRIPT`, with the reply `{count, ttl}`. -/
def consumeScript (key : String) (seconds : Nat) (now : Instant) (counters : Counters) :
    (Nat × Int) × Counters :=
  let counter := Counter.incr ((counters key).filter (·.live now))
  let counter := if counter.count = 1 then counter.expire seconds now else counter
  ((counter.count, counter.ttl now), Function.update counters key (some counter))

/-- A method that awaits Redis; a call is known by its key. -/
abbrev RedisPromise (α : Type) := Method Counters Instant Failure String α

def evalConsumeScript (key : String) (seconds : Nat) : RedisPromise (Nat × Int) :=
  .call {
    label := key
    run := fun now counters =>
      let (reply, counters) := consumeScript key seconds now counters
      (.ok reply, counters) }

structure ConsumeResult where
  allowed : Bool
  retryAfter : Option Int
deriving DecidableEq

/-- Fails open. -/
def consume (key : String) (rule : RateLimitRule) : RedisPromise ConsumeResult :=
  tryCatch
    (do
      let (count, ttl) ← evalConsumeScript key rule.window
      if count ≤ rule.max then return ⟨true, none⟩
      return ⟨false, some (if 0 < ttl then ttl else rule.window)⟩)
    fun _ => return ⟨true, none⟩

end RedisRateLimitStorage

namespace AiRateLimitGuard

open RedisRateLimitStorage (RedisPromise consume)

def windowSeconds : Nat := 60 * 60

def key (userId : Uuid) : String := "ai:" ++ userId.text ++ "|/ai"

/-- A request goes on, or is answered 429 with a `Retry-After` header. -/
inductive Activation
  | activated
  | tooManyRequests (retryAfter : Int)
deriving DecidableEq

def canActivate (maxPerHour : Nat) (positive : 0 < maxPerHour) (user : Option Uuid) :
    RedisPromise Activation := do
  match user with
  | none => return .activated
  | some userId =>
    let result ← consume (key userId) ⟨windowSeconds, maxPerHour, by decide, positive⟩
    if result.allowed then return .activated
    return .tooManyRequests (result.retryAfter.getD windowSeconds)

end AiRateLimitGuard

end GuitarCoach
