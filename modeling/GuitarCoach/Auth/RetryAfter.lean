/- digest: When Retry-After is the least whole number of seconds that the window still takes. -/

import GuitarCoach.Auth.RateLimitWindows

/-!
Redis gives the rest of a window to the nearest second, so the header can fall short of it by
half a second, and in the last half second it names a whole window.
-/

set_option autoImplicit false
set_option relaxedAutoImplicit false

namespace GuitarCoach

theorem AiRateLimitGuard.windowSeconds_pos : 0 < windowSeconds := by decide

/-- The limit that the guard of the AI endpoints passes to `consume`. -/
abbrev AiRateLimitGuard.rule (maxPerHour : Nat) (positive : 0 < maxPerHour) : RateLimitRule :=
  ⟨windowSeconds, maxPerHour, windowSeconds_pos, positive⟩

namespace RedisRateLimitStorage

open Async (Ends wp wp_ends)
open Async.Method (pure_eq bind_eq)

/-- The window of the key is open for another `r` milliseconds. -/
def Remains (key : String) (now : Instant) (r : Int) (counters : Counters) : Prop :=
  ∃ c, counters key = some c ∧ c.expires = some (now + r)

/-- `n` seconds are the fewest that cover `r` milliseconds, and whoever waits them out meets a
new window. -/
structure Suffices (rule : RateLimitRule) (key : String) (now : Instant) (r : Int)
    (counters : Counters) (n : Int) : Prop where
  least : IsLeast {m : Int | r ≤ m * 1000} n
  opens : ∀ later, now + n * 1000 ≤ later →
    (consumeScript key rule.window later counters).1.1 = 1

/-- Rounding the rest of the window up to seconds is what Redis does. -/
def RoundsUp (rule : RateLimitRule) (r : Int) : Prop :=
  r % 1000 = 0 ∨ 500 ≤ r % 1000 ∨ rule.window = 1

section Denied

variable {key : String} {rule : RateLimitRule} {now : Instant} {r : Int} {counters : Counters}

/-- What a denied client is told. -/
private def told (rule : RateLimitRule) (r : Int) : Int :=
  if 0 < (r + 500) / 1000 then (r + 500) / 1000 else rule.window

private theorem isLeast_iff {n : Int} :
    IsLeast {m : Int | r ≤ m * 1000} n ↔ r ≤ n * 1000 ∧ n * 1000 < r + 1000 := by
  constructor
  · rintro ⟨covers, least⟩
    have covers : r ≤ n * 1000 := covers
    refine ⟨covers, ?_⟩
    by_contra long
    have shorter : r ≤ (n - 1) * 1000 := by omega
    have le : n ≤ n - 1 := least shorter
    omega
  · rintro ⟨covers, short⟩
    refine ⟨covers, fun m hm => ?_⟩
    have hm : r ≤ m * 1000 := hm
    omega

/-- The nearest second is the next one unless less than half a second is left of it. -/
private theorem told_iff (remains : 0 < r) (within : r ≤ rule.window * 1000) :
    IsLeast {m : Int | r ≤ m * 1000} (told rule r) ↔ RoundsUp rule r := by
  have window := rule.windowPositive
  rw [isLeast_iff]
  unfold told RoundsUp
  split
  · next whole =>
    constructor
    · rintro ⟨covers, short⟩
      by_cases rest : r % 1000 = 0
      · exact .inl rest
      · exact .inr (.inl (by omega))
    · rintro (rest | rest | second)
      · exact ⟨by omega, by omega⟩
      · exact ⟨by omega, by omega⟩
      · have least : r ≤ 1000 := by omega
        have most : 500 ≤ r := by omega
        exact ⟨by omega, by omega⟩
  · next half =>
    have half : r < 500 := by omega
    constructor
    · rintro ⟨covers, short⟩
      exact .inr (.inr (by omega))
    · rintro (rest | rest | second)
      · omega
      · omega
      · exact ⟨by omega, by omega⟩

/-- The script counts the denied call too, and leaves the end of the window as it is. -/
private theorem denied_script (here : Remains key now r counters) (remains : 0 < r)
    (denied : rule.max < (consumeScript key rule.window now counters).1.1) :
    (consumeScript key rule.window now counters).1.2 = (r + 500) / 1000 ∧
      Remains key now r (consumeScript key rule.window now counters).2 := by
  obtain ⟨⟨count, _⟩, held, rfl⟩ := here
  have live : (counters key).filter (·.live now) = some ⟨count, some (now + r)⟩ := by
    rw [held]
    refine Option.filter_eq_some_iff.mpr ⟨rfl, ?_⟩
    show decide (now < now + r) = true
    exact decide_eq_true (lt_add_of_pos_right now remains)
  have positive := rule.maxPositive
  unfold consumeScript at denied ⊢
  rw [live] at denied ⊢
  dsimp only [Counter.incr] at denied ⊢
  have stays : count + 1 ≠ 1 := by
    intro first
    rw [if_pos first] at denied
    dsimp only [Counter.expire] at denied
    omega
  rw [if_neg stays]
  have rest : now + r - now = r := add_sub_cancel_left now r
  refine ⟨?_, _, Function.update_self _ _ _, rfl⟩
  show (now + r - now + 500) / 1000 = (r + 500) / 1000
  rw [rest]

/-- Whoever waits until the window is over opens the next one. -/
private theorem opens_later (here : Remains key now r counters) {n : Int} (covers : r ≤ n * 1000) :
    ∀ later, now + n * 1000 ≤ later →
      (consumeScript key rule.window later counters).1.1 = 1 := by
  intro later waited
  obtain ⟨c, held, expires⟩ := here
  refine (consumeScript_opens fun d found => ?_).1
  obtain rfl : c = d := Option.some.inj (held.symm.trans found)
  have closed : now + r ≤ later := le_trans (Int.add_le_add_left covers now) waited
  unfold Counter.live
  rw [expires, Option.all_some]
  exact decide_eq_false (not_lt.mpr closed)

private theorem suffices_iff (here : Remains key now r counters) {n : Int} :
    Suffices rule key now r counters n ↔ IsLeast {m : Int | r ≤ m * 1000} n :=
  ⟨fun h => h.least, fun least => ⟨least, opens_later here least.1⟩⟩

/-- What a denied client is told is tight just when the rest of the window is rounded up. -/
private theorem denied_iff (here : Remains key now r counters) (remains : 0 < r)
    (within : r ≤ rule.window * 1000)
    (denied : rule.max < (consumeScript key rule.window now counters).1.1) :
    (resultOf rule (consumeScript key rule.window now counters).1).retryAfter =
        some (told rule r) ∧
      (Suffices rule key now r (consumeScript key rule.window now counters).2 (told rule r) ↔
        RoundsUp rule r) := by
  obtain ⟨ttl, after⟩ := denied_script here remains denied
  constructor
  · unfold resultOf told
    rw [if_neg (not_le.mpr denied), ttl]
  · rw [suffices_iff after, told_iff remains within]

private theorem consume_denied {result : ConsumeResult} {after : Counters}
    (here : Remains key now r counters) (remains : 0 < r) (within : r ≤ rule.window * 1000)
    (ends : Ends (availableAt now) (consume key rule) counters (.ok result) after)
    (denied : result.allowed = false) :
    result.retryAfter = some (told rule r) ∧
      (Suffices rule key now r after (told rule r) ↔ RoundsUp rule r) := by
  obtain ⟨same, rfl⟩ := wp_ends consume_wp ends
  cases same
  rw [allowed_resultOf, decide_eq_false_iff_not, not_le] at denied
  exact denied_iff here remains within denied

/-- The guard passes the number on. -/
private theorem canActivate_denied {maxPerHour : Nat} {positive : 0 < maxPerHour} {userId : Uuid}
    {n : Int} {after : Counters}
    (here : Remains (AiRateLimitGuard.key userId) now r counters) (remains : 0 < r)
    (within : r ≤ (AiRateLimitGuard.rule maxPerHour positive).window * 1000)
    (ends : Ends (availableAt now)
      (AiRateLimitGuard.canActivate maxPerHour positive (some userId)) counters
      (.ok (.tooManyRequests n)) after) :
    Suffices (AiRateLimitGuard.rule maxPerHour positive)
        (AiRateLimitGuard.key userId) now r after n ↔
      RoundsUp (AiRateLimitGuard.rule maxPerHour positive) r := by
  have spec : wp (availableAt now)
      (AiRateLimitGuard.canActivate maxPerHour positive (some userId))
      (fun result after => ∀ n, result = .ok (.tooManyRequests n) →
        (Suffices (AiRateLimitGuard.rule maxPerHour positive)
            (AiRateLimitGuard.key userId) now r after n ↔
          RoundsUp (AiRateLimitGuard.rule maxPerHour positive) r))
      counters := by
    unfold AiRateLimitGuard.canActivate
    simp only [bind_eq, pure_eq, Async.wp_bind]
    refine Async.wp_mono consume_wp ?_
    rintro result after ⟨rfl, rfl⟩
    dsimp only [Async.onOk]
    split
    · intro n same
      cases same
    · next denied =>
      rw [allowed_resultOf, decide_eq_true_iff, not_le] at denied
      obtain ⟨retryAfter, tight⟩ := denied_iff here remains within denied
      intro n same
      rw [retryAfter] at same
      cases same
      exact tight
  exact wp_ends spec ends n rfl

/-- `retryAfter`, and the header of the guard, are the fewest seconds that cover the rest of the
window exactly when Redis rounds that rest up. -/
theorem retry_after_tight_iff {key : String} {rule : RateLimitRule} {now : Instant} {r : Int}
    {counters : Counters} (here : Remains key now r counters) (remains : 0 < r)
    (within : r ≤ rule.window * 1000) :
    (∀ result after, Ends (availableAt now) (consume key rule) counters (.ok result) after →
      result.allowed = false →
        ((∃ n, result.retryAfter = some n ∧ Suffices rule key now r after n) ↔
          RoundsUp rule r)) ∧
    ∀ maxPerHour positive userId n after, key = AiRateLimitGuard.key userId →
      rule = AiRateLimitGuard.rule maxPerHour positive →
      Ends (availableAt now) (AiRateLimitGuard.canActivate maxPerHour positive (some userId))
        counters (.ok (.tooManyRequests n)) after →
          (Suffices rule key now r after n ↔ RoundsUp rule r) := by
  constructor
  · intro result after ends denied
    obtain ⟨retryAfter, tight⟩ := consume_denied here remains within ends denied
    rw [← tight, retryAfter]
    constructor
    · rintro ⟨n, same, holds⟩
      cases same
      exact holds
    · exact fun holds => ⟨_, rfl, holds⟩
  · rintro maxPerHour positive userId n after rfl rfl ends
    exact canActivate_denied here remains within ends

end Denied

section Sample

private def oneAnHour : RateLimitRule := AiRateLimitGuard.rule 1 Nat.one_pos

/-- The one call of the hour has been made, and 1.4 seconds of the hour are left. -/
private def used : Counters := fun _ => some ⟨1, some 1400⟩

private theorem used_remains : Remains "/a" 0 1400 used := ⟨⟨1, some 1400⟩, rfl, rfl⟩

private theorem used_denied : resultOf oneAnHour (consumeScript "/a" oneAnHour.window 0 used).1 =
    ⟨false, some 1⟩ := by decide +kernel

theorem retry_after_tight_iff_used : ∃ result after,
    Ends (availableAt 0) (consume "/a" oneAnHour) used (.ok result) after ∧
      ((∃ n, result.retryAfter = some n ∧ Suffices oneAnHour "/a" 0 1400 after n) ↔
        RoundsUp oneAnHour 1400) := by
  have within : (1400 : Int) ≤ oneAnHour.window * 1000 := by decide
  have tight := retry_after_tight_iff used_remains (by decide) within
  refine ⟨_, _, consume_ends, tight.1 _ _ consume_ends ?_⟩
  rw [used_denied]

/-- A client is told to wait 1 second when 1.4 are left. -/
theorem retry_after_too_short :
    ¬∀ key rule now r counters result after, Remains key now r counters → 0 < r →
      r ≤ rule.window * 1000 →
      Ends (availableAt now) (consume key rule) counters (.ok result) after →
      result.allowed = false →
        ∃ n, result.retryAfter = some n ∧ Suffices rule key now r after n := by
  intro claim
  obtain ⟨n, told, holds⟩ := claim "/a" oneAnHour 0 1400 used _ _ used_remains (by decide)
    (by decide) consume_ends (by rw [used_denied])
  rw [used_denied] at told
  cases told
  have covers : (1400 : Int) ≤ 1 * 1000 := holds.least.1
  omega

end Sample

end RedisRateLimitStorage

end GuitarCoach
