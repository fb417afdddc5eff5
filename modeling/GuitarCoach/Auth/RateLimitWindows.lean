/- digest: The windows of a rate limit, and that the counters in Redis keep to them. -/

import GuitarCoach.Auth.RedisRateLimitStorage

/-!
A window opens with a call that finds none open and closes a fixed time later, whatever is
called meanwhile. The calls of a key fall into windows, and each window lets its first calls
through. Nothing here is about Redis until `Served`.
-/

set_option autoImplicit false
set_option relaxedAutoImplicit false

namespace GuitarCoach

open Async (Ends Policy wp wp_ends)
open Async.Method (pure_eq bind_eq tryCatch_eq)

/-- A window of a rule: the call that opens it and the later ones before it closes. -/
structure RateLimitWindow (rule : RateLimitRule) where
  opens : Instant
  later : List Instant
  inside : ∀ t ∈ later, opens ≤ t ∧ t < opens + rule.window * 1000

namespace RateLimitWindow

variable {rule : RateLimitRule}

def closes (w : RateLimitWindow rule) : Instant := w.opens + rule.window * 1000

def arrivals (w : RateLimitWindow rule) : List Instant := w.opens :: w.later

/-- The first `max` calls are allowed. -/
def verdicts (w : RateLimitWindow rule) : List Bool :=
  (List.range w.arrivals.length).map (· < rule.max)

/-- What Redis holds once these calls have come. -/
def counter (w : RateLimitWindow rule) : Counter := ⟨w.arrivals.length, some w.closes⟩

/-- A window with a single call. -/
def opened (rule : RateLimitRule) (now : Instant) : RateLimitWindow rule := ⟨now, [], by simp⟩

/-- One more call comes while the window is open. -/
def join (w : RateLimitWindow rule) (now : Instant) (after : w.opens ≤ now)
    (before : now < w.closes) : RateLimitWindow rule where
  opens := w.opens
  later := w.later ++ [now]
  inside t ht := by
    rcases List.mem_append.mp ht with ht | ht
    · exact w.inside t ht
    · rw [List.mem_singleton.mp ht]
      exact ⟨after, before⟩

section Join

variable {w : RateLimitWindow rule} {now : Instant} {after : w.opens ≤ now}
  {before : now < w.closes}

@[simp] theorem arrivals_join : (w.join now after before).arrivals = w.arrivals ++ [now] := rfl

@[simp] theorem closes_join : (w.join now after before).closes = w.closes := rfl

theorem verdicts_join : (w.join now after before).verdicts =
    w.verdicts ++ [decide (w.arrivals.length < rule.max)] := by
  unfold verdicts
  rw [arrivals_join, List.length_append, List.length_singleton, List.range_succ, List.map_append]
  rfl

variable (w) in
theorem counter_join : (w.join now after before).counter = Counter.incr (some w.counter) := by
  unfold counter
  rw [arrivals_join, closes_join, List.length_append, List.length_singleton]
  rfl

end Join

end RateLimitWindow

/-- The windows follow each other, and these are the arrivals and verdicts in them. -/
structure InWindows (rule : RateLimitRule) (windows : List (RateLimitWindow rule))
    (arrivals : List Instant) (verdicts : List Bool) : Prop where
  apart : windows.IsChain fun v w => v.closes ≤ w.opens
  arrivals : windows.flatMap (·.arrivals) = arrivals
  verdicts : windows.flatMap (·.verdicts) = verdicts

namespace InWindows

variable {rule : RateLimitRule} {windows : List (RateLimitWindow rule)}
  {w : RateLimitWindow rule} {arrivals : List Instant} {verdicts : List Bool} {now : Instant}

theorem nil : InWindows rule [] [] [] := ⟨.nil, rfl, rfl⟩

/-- A call after the last window has closed is the first of a new one. -/
theorem opened (h : InWindows rule windows arrivals verdicts)
    (closed : ∀ w ∈ windows.getLast?, w.closes ≤ now) :
    InWindows rule (windows ++ [.opened rule now]) (arrivals ++ [now]) (verdicts ++ [true]) := by
  have first : (RateLimitWindow.opened rule now).verdicts = [true] := by
    show [decide (0 < rule.max)] = [true]
    rw [decide_eq_true rule.maxPositive]
  refine ⟨List.isChain_append.mpr ⟨h.apart, .singleton _, ?_⟩, ?_, ?_⟩
  · intro v hv u hu
    obtain rfl := Option.some.inj hu
    exact closed v hv
  · rw [List.flatMap_append, h.arrivals]
    rfl
  · rw [List.flatMap_append, h.verdicts, List.flatMap_singleton, first]

/-- A call while the last window is open belongs to it. -/
theorem join (h : InWindows rule (windows ++ [w]) arrivals verdicts) {after : w.opens ≤ now}
    {before : now < w.closes} :
    InWindows rule (windows ++ [w.join now after before]) (arrivals ++ [now])
      (verdicts ++ [decide (w.arrivals.length < rule.max)]) := by
  obtain ⟨apart, harrivals, hverdicts⟩ := h
  obtain ⟨earlier, -, follows⟩ := List.isChain_append.mp apart
  refine ⟨List.isChain_append.mpr ⟨earlier, .singleton _, ?_⟩, ?_, ?_⟩
  · intro v hv u hu
    obtain rfl := Option.some.inj hu
    exact follows v hv w rfl
  · rw [← harrivals, List.flatMap_append, List.flatMap_append, List.flatMap_singleton,
      List.flatMap_singleton, RateLimitWindow.arrivals_join, List.append_assoc]
  · rw [← hverdicts, List.flatMap_append, List.flatMap_append, List.flatMap_singleton,
      List.flatMap_singleton, RateLimitWindow.verdicts_join, List.append_assoc]

end InWindows

namespace RedisRateLimitStorage

/-- What `consume` makes of the reply of the script. -/
def resultOf (rule : RateLimitRule) (reply : Nat × Int) : ConsumeResult :=
  if reply.1 ≤ rule.max then ⟨true, none⟩
  else ⟨false, some (if 0 < reply.2 then reply.2 else rule.window)⟩

/-- Redis is available: the script takes effect, at this time of its clock. -/
def availableAt (now : Instant) : Policy Counters Instant Failure String :=
  fun _ _ x => x = .took now

theorem allowed_resultOf (rule : RateLimitRule) (reply : Nat × Int) :
    (resultOf rule reply).allowed = decide (reply.1 ≤ rule.max) := by
  unfold resultOf
  split
  · next few => exact (decide_eq_true few).symm
  · next many => exact (decide_eq_false many).symm

section Consume

variable {key : String} {rule : RateLimitRule} {now : Instant} {counters : Counters}

theorem consume_wp : wp (availableAt now) (consume key rule)
    (fun r counters' => r = .ok (resultOf rule (consumeScript key rule.window now counters).1) ∧
      counters' = (consumeScript key rule.window now counters).2) counters := by
  unfold consume evalConsumeScript
  simp only [tryCatch_eq, bind_eq, pure_eq, Async.wp_handle, Async.wp_bind, Async.wp_call]
  rintro x rfl
  simp only [Async.Call.answer_took, Async.onOk]
  unfold resultOf
  split
  · exact ⟨rfl, rfl⟩
  · exact ⟨rfl, rfl⟩

theorem consume_ends : Ends (availableAt now) (consume key rule) counters
    (.ok (resultOf rule (consumeScript key rule.window now counters).1))
    (consumeScript key rule.window now counters).2 := by
  have answered : ∀ (l : String) (s : Counters), ∃ x, availableAt now l s x :=
    fun _ _ => ⟨.took now, rfl⟩
  obtain ⟨r, counters', ends⟩ := Async.exists_ends answered (consume key rule) counters
  obtain ⟨rfl, rfl⟩ := wp_ends consume_wp ends
  exact ends

end Consume

/-- A call of `consume`: when Redis ran its script, and what it returned. -/
structure Consumed where
  key : String
  now : Instant
  result : ConsumeResult
deriving DecidableEq

/-- Calls with any keys, one script after the other, from an empty Redis on. -/
inductive Served (rule : String → RateLimitRule) : List Consumed → Counters → Prop
  | idle : Served rule [] fun _ => none
  | next {calls : List Consumed} {before after : Counters} {key : String} {now : Instant}
      {result : ConsumeResult} (served : Served rule calls before)
      (later : ∀ c ∈ calls, c.now ≤ now)
      (ends : Ends (availableAt now) (consume key (rule key)) before (.ok result) after) :
      Served rule (calls ++ [⟨key, now, result⟩]) after

section Script

variable {key : String} {rule : RateLimitRule} {now : Instant} {counters : Counters}

/-- The script looks at no other key, and writes none. -/
theorem consumeScript_congr {other : Counters} (same : other key = counters key) :
    (consumeScript key rule.window now other).1 = (consumeScript key rule.window now counters).1 ∧
      (consumeScript key rule.window now other).2 key =
        (consumeScript key rule.window now counters).2 key := by
  unfold consumeScript
  simp only [same, Function.update_self, and_self]

theorem consumeScript_other {key' : String} (other : key' ≠ key) :
    (consumeScript key rule.window now counters).2 key' = counters key' :=
  Function.update_of_ne other _ _

/-- A call that finds no live counter opens a window. -/
theorem consumeScript_opens (absent : ∀ c, counters key = some c → c.live now = false) :
    (consumeScript key rule.window now counters).1.1 = 1 ∧
      (consumeScript key rule.window now counters).2 key =
        some (RateLimitWindow.opened rule now).counter := by
  have gone : (counters key).filter (·.live now) = none := by
    rw [Option.filter_eq_none_iff]
    intro c hc
    rw [absent c hc]
    exact Bool.false_ne_true
  unfold consumeScript
  rw [gone]
  exact ⟨rfl, Function.update_self _ _ _⟩

/-- A call in an open window counts, and leaves its end where it is. -/
theorem consumeScript_joins {w : RateLimitWindow rule} (stored : counters key = some w.counter)
    (after : w.opens ≤ now) (before : now < w.closes) :
    (consumeScript key rule.window now counters).1.1 = w.arrivals.length + 1 ∧
      (consumeScript key rule.window now counters).2 key =
        some (w.join now after before).counter := by
  have live : (counters key).filter (·.live now) = some w.counter := by
    rw [stored]
    refine Option.filter_eq_some_iff.mpr ⟨rfl, ?_⟩
    simp only [Counter.live, RateLimitWindow.counter, Option.all_some, decide_eq_true_eq]
    exact before
  have second : w.arrivals.length + 1 ≠ 1 := by
    simp [RateLimitWindow.arrivals]
  have stays : (Counter.incr (some w.counter)).count ≠ 1 := second
  unfold consumeScript
  rw [live]
  simp only [if_neg stays, Function.update_self]
  exact ⟨rfl, congrArg some (RateLimitWindow.counter_join w).symm⟩

end Script

section Windows

variable {rule : String → RateLimitRule} {calls : List Consumed} {counters : Counters}

/-- The calls of one key. -/
def ofKey (key : String) (calls : List Consumed) : List Consumed :=
  calls.filter fun c => c.key = key

theorem ofKey_next_same {key : String} {now : Instant} {result : ConsumeResult} :
    ofKey key (calls ++ [⟨key, now, result⟩]) = ofKey key calls ++ [⟨key, now, result⟩] := by
  simp [ofKey]

theorem ofKey_next_other {key key' : String} {now : Instant} {result : ConsumeResult}
    (other : key ≠ key') : ofKey key (calls ++ [⟨key', now, result⟩]) = ofKey key calls := by
  simp [ofKey, Ne.symm other]

/-- The calls of a key are in windows, of which Redis remembers the last. -/
theorem served_inWindows (served : Served rule calls counters) (key : String) :
    ∃ windows, InWindows (rule key) windows ((ofKey key calls).map (·.now))
        ((ofKey key calls).map (·.result.allowed)) ∧
      counters key = windows.getLast?.map (·.counter) := by
  induction served with
  | idle => exact ⟨[], .nil, rfl⟩
  | @next calls before _ key' now result served later ends ih =>
    obtain ⟨hresult, rfl⟩ := wp_ends consume_wp ends
    obtain rfl := Except.ok.inj hresult
    by_cases other : key ≠ key'
    · rw [ofKey_next_other other, consumeScript_other other]
      exact ih
    obtain rfl : key = key' := not_not.mp other
    obtain ⟨windows, inWindows, stored⟩ := ih
    rw [ofKey_next_same, List.map_append, List.map_append]
    -- the counter that is found is that of the last window
    by_cases closed : ∀ w ∈ windows.getLast?, w.closes ≤ now
    · have absent : ∀ c, before key = some c → c.live now = false := by
        intro c hc
        rw [stored] at hc
        obtain ⟨w, hw, rfl⟩ := Option.map_eq_some_iff.mp hc
        exact decide_eq_false (not_lt.mpr (closed w hw))
      obtain ⟨count, opened⟩ := @consumeScript_opens key (rule key) now before absent
      have allowed : (resultOf (rule key)
          (consumeScript key (rule key).window now before).1).allowed = true := by
        rw [allowed_resultOf, count]
        exact decide_eq_true (rule key).maxPositive
      refine ⟨windows ++ [.opened (rule key) now], ?_, ?_⟩
      · simpa [allowed] using inWindows.opened closed
      · rw [opened, List.getLast?_concat, Option.map_some]
    · push Not at closed
      obtain ⟨w, hw, before_end⟩ := closed
      obtain ⟨earlier, rfl⟩ := List.getLast?_eq_some_iff.mp hw
      rw [List.getLast?_concat, Option.map_some] at stored
      have after_start : w.opens ≤ now := by
        have arrived : w.opens ∈ (ofKey key calls).map (·.now) := by
          rw [← inWindows.arrivals]
          simp [RateLimitWindow.arrivals]
        obtain ⟨c, hc, same⟩ := List.mem_map.mp arrived
        rw [← same]
        exact later c (List.mem_filter.mp hc).1
      obtain ⟨count, joined⟩ := consumeScript_joins stored after_start before_end
      refine ⟨earlier ++ [w.join now after_start before_end], ?_, ?_⟩
      · have allowed : (resultOf (rule key)
            (consumeScript key (rule key).window now before).1).allowed =
              decide (w.arrivals.length < (rule key).max) := by
          rw [allowed_resultOf, count]
          exact decide_eq_decide.mpr Nat.succ_le_iff
        simpa [allowed] using inWindows.join
      · rw [joined, List.getLast?_concat, Option.map_some]

/-- The calls of a key return what they would without the calls of all others. -/
theorem served_alone (served : Served rule calls counters) (key : String) :
    ∃ alone, Served rule (ofKey key calls) alone ∧ alone key = counters key := by
  induction served with
  | idle => exact ⟨_, .idle, rfl⟩
  | @next calls before _ key' now result served later ends ih =>
    obtain ⟨hresult, rfl⟩ := wp_ends consume_wp ends
    obtain rfl := Except.ok.inj hresult
    obtain ⟨alone, rest, same⟩ := ih
    by_cases other : key ≠ key'
    · rw [ofKey_next_other other, consumeScript_other other]
      exact ⟨alone, rest, same⟩
    obtain rfl : key = key' := not_not.mp other
    obtain ⟨reply, stored⟩ := @consumeScript_congr key (rule key) now _ _ same
    rw [ofKey_next_same, ← reply]
    refine ⟨_, rest.next (fun c hc => later c (List.mem_filter.mp hc).1) consume_ends, stored⟩

/-- One more call of `consume`. -/
def consumeNext (rule : String → RateLimitRule) (done : List Consumed × Counters)
    (call : String × Instant) : List Consumed × Counters :=
  let (key, now) := call
  let (reply, counters) := consumeScript key (rule key).window now done.2
  (done.1 ++ [⟨key, now, resultOf (rule key) reply⟩], counters)

def consumeAll (rule : String → RateLimitRule) (arrivals : List (String × Instant)) :
    List Consumed × Counters :=
  arrivals.foldl (consumeNext rule) ([], fun _ => none)

/-- Calls with any keys, in the order of their times, are all served. -/
theorem served_consumeAll {arrivals : List (String × Instant)}
    (ordered : arrivals.Pairwise fun a b => a.2 ≤ b.2) :
    Served rule (consumeAll rule arrivals).1 (consumeAll rule arrivals).2 ∧
      (consumeAll rule arrivals).1.map (fun c => (c.key, c.now)) = arrivals := by
  induction arrivals using List.reverseRecOn with
  | nil => exact ⟨.idle, rfl⟩
  | append_singleton arrivals a ih =>
    obtain ⟨earlier, -, last⟩ := List.pairwise_append.mp ordered
    obtain ⟨served, same⟩ := ih earlier
    have later : ∀ c ∈ (consumeAll rule arrivals).1, c.now ≤ a.2 := by
      intro c hc
      have arrived : (c.key, c.now) ∈ arrivals := by
        rw [← same]
        exact List.mem_map_of_mem hc
      exact last _ arrived a (List.mem_singleton_self a)
    have next : consumeAll rule (arrivals ++ [a]) = consumeNext rule (consumeAll rule arrivals) a := by
      unfold consumeAll
      rw [List.foldl_append, List.foldl_cons, List.foldl_nil]
    rw [next]
    refine ⟨served.next later consume_ends, ?_⟩
    unfold consumeNext
    rw [List.map_append, same]
    rfl

/-- The calls of each key fall into windows that a call opens when it finds no counter and that
close `window` seconds later; each lets exactly its first `max` calls through, and Redis holds
the count and the end of the last. No other key has a part in it. -/
theorem rate_limit_windows (served : Served rule calls counters) (key : String) :
    (∃ windows, InWindows (rule key) windows ((ofKey key calls).map (·.now))
        ((ofKey key calls).map (·.result.allowed)) ∧
      counters key = windows.getLast?.map (·.counter)) ∧
    ∃ alone, Served rule (ofKey key calls) alone ∧ alone key = counters key :=
  ⟨served_inWindows served key, served_alone served key⟩

section Sample

/-- Two calls a minute. -/
private def twoAMinute : String → RateLimitRule := fun _ => { window := 60, max := 2 }

/-- The third call of one key in a minute is denied, and the next one is a minute later. -/
private def burst : List Consumed :=
  [⟨"/a", 0, ⟨true, none⟩⟩, ⟨"/a", 10, ⟨true, none⟩⟩, ⟨"/b", 20, ⟨true, none⟩⟩,
    ⟨"/a", 30, ⟨false, some 60⟩⟩, ⟨"/a", 60000, ⟨true, none⟩⟩]

private theorem burst_served :
    Served twoAMinute burst (consumeAll twoAMinute (burst.map fun c => (c.key, c.now))).2 := by
  have ordered : (burst.map fun c => (c.key, c.now)).Pairwise fun a b => a.2 ≤ b.2 := by decide
  have same : (consumeAll twoAMinute (burst.map fun c => (c.key, c.now))).1 = burst := by
    decide +kernel
  have served : Served twoAMinute _ _ := (served_consumeAll ordered).1
  rwa [same] at served

theorem rate_limit_windows_burst :
    (∃ windows, InWindows (twoAMinute "/a") windows [0, 10, 30, 60000] [true, true, false, true] ∧
      (consumeAll twoAMinute (burst.map fun c => (c.key, c.now))).2 "/a" =
        windows.getLast?.map (·.counter)) ∧
    ∃ alone, Served twoAMinute (ofKey "/a" burst) alone ∧
      alone "/a" = (consumeAll twoAMinute (burst.map fun c => (c.key, c.now))).2 "/a" :=
  rate_limit_windows burst_served "/a"

end Sample

end Windows

end RedisRateLimitStorage

namespace AiRateLimitGuard

open RedisRateLimitStorage (availableAt consumeScript resultOf consume consume_wp)

/-- Each user of the AI endpoints has a counter of its own. -/
theorem key_injective : Function.Injective key := by
  intro u v same
  have text := congrArg String.toList same
  simp only [key, String.toList_append, List.append_cancel_right_eq,
    List.append_cancel_left_eq] at text
  exact Uuid.text_injective (String.toList_injective text)

/-- The guard lets a request pass iff `consume` does, at the user's own key. -/
theorem canActivate_wp {maxPerHour : Nat} {positive : 0 < maxPerHour} {userId : Uuid}
    {now : Instant} {counters : Counters} :
    wp (availableAt now) (canActivate maxPerHour positive (some userId)) (fun r counters' =>
      (r = .ok .activated ↔ (resultOf ⟨windowSeconds, maxPerHour, by decide, positive⟩
        (consumeScript (key userId) windowSeconds now counters).1).allowed = true) ∧
      counters' = (consumeScript (key userId) windowSeconds now counters).2) counters := by
  unfold canActivate
  simp only [bind_eq, pure_eq, Async.wp_bind]
  refine Async.wp_mono consume_wp ?_
  rintro r counters' ⟨rfl, rfl⟩
  dsimp only [Async.onOk]
  split
  · next allowed => exact ⟨⟨fun _ => allowed, fun _ => rfl⟩, rfl⟩
  · next denied =>
    refine ⟨⟨fun activated => ?_, fun allowed => absurd allowed denied⟩, rfl⟩
    cases activated

end AiRateLimitGuard

end GuitarCoach
