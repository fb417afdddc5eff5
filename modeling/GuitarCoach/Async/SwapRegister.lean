/- digest: A register that names an object and is only changed by compare and swap. -/

import Mathlib.Data.Set.Basic
import Mathlib.Order.Nat

/-!
Actors put objects under new names, swap the register at most once each, and drop an object only
after a swap of theirs has left the register on another name. What matters is the order of the
events, so a log is a function of time, and each fact names the moments it is about.
-/

set_option autoImplicit false
set_option relaxedAutoImplicit false

namespace GuitarCoach.Async

/-- What happens to a register and to the objects. -/
structure SwapLog (α ν : Type) where
  register : Nat → Option ν
  objects : Nat → Set ν
  puts : α → ν → Nat → Prop
  swaps : α → Nat → Prop
  drops : α → ν → Nat → Prop

namespace SwapLog

variable {α ν : Type}

/-- Actor `i` has put the object `n` and its swap has left the register on something else. -/
def Loses (L : SwapLog α ν) (i : α) (n : ν) (w : Nat) : Prop :=
  L.swaps i w ∧ (∃ u < w, L.puts i n u) ∧ L.register (w + 1) ≠ some n

/-- Actor `i` has seen the register on `n`, and no longer is it there after its swap. -/
def Replaces (L : SwapLog α ν) (i : α) (n : ν) (w : Nat) : Prop :=
  L.swaps i w ∧ (∃ u ≤ w, L.register u = some n) ∧ L.register (w + 1) ≠ some n

structure Lawful (L : SwapLog α ν) : Prop where
  start : ∀ n, n ∈ L.objects 0 ↔ L.register 0 = some n
  register_cases : ∀ t, L.register (t + 1) = L.register t ∨
    ∃ i, L.swaps i t ∧ ∀ n, L.register (t + 1) = some n → ∃ u < t, L.puts i n u
  objects_iff : ∀ t n, n ∈ L.objects (t + 1) ↔
    (n ∈ L.objects t ∧ ∀ i, ¬L.drops i n t) ∨ ∃ i, L.puts i n t
  puts_new : ∀ i n t, L.puts i n t → n ∉ L.objects 0
  puts_once : ∀ i j n t u, L.puts i n t → L.puts j n u → i = j ∧ t = u
  swaps_once : ∀ i t u, L.swaps i t → L.swaps i u → t = u
  drops_reason : ∀ i n t, L.drops i n t → ∃ w < t, L.Loses i n w ∨ L.Replaces i n w

/-- By time `t` an actor has dropped what it has put and lost, and what it has replaced. -/
structure Finished (L : SwapLog α ν) (i : α) (t : Nat) : Prop where
  put : ∀ n u, u < t → L.puts i n u →
    (∃ v, u < v ∧ v < t ∧ L.drops i n v) ∨ ∃ w < t, L.register (w + 1) = some n
  replaced : ∀ n w, w < t → L.swaps i w → L.register w = some n → L.register (w + 1) ≠ some n →
    ∃ v, w < v ∧ v < t ∧ L.drops i n v

/-- What begins to hold does so at some step. -/
theorem exists_onset {P : Nat → Prop} {u t : Nat} (order : u ≤ t) (before : ¬P u) (after : P t) :
    ∃ w, u ≤ w ∧ w < t ∧ ¬P w ∧ P (w + 1) := by
  induction t, order using Nat.le_induction with
  | base => exact absurd after before
  | succ t order ih =>
    by_cases now : P t
    · obtain ⟨w, huw, hwt, onset⟩ := ih now
      exact ⟨w, huw, hwt.trans (Nat.lt_succ_self t), onset⟩
    · exact ⟨t, order, Nat.lt_succ_self t, now, after⟩

/-- A name of the register was there from the start, or came with a swap of its actor. -/
theorem named_origin {L : SwapLog α ν} {n : ν} {t : Nat} (now : L.register t = some n) :
    L.register 0 = some n ∨
      ∃ w < t, L.register w ≠ some n ∧ L.register (w + 1) = some n := by
  by_cases start : L.register 0 = some n
  · exact .inl start
  · obtain ⟨w, -, hw, change⟩ :=
      exists_onset (P := fun t => L.register t = some n) (Nat.zero_le t) start now
    exact .inr ⟨w, hw, change⟩

namespace Lawful

variable {L : SwapLog α ν} {i j : α} {n : ν} {t u v w : Nat}

private theorem setter (lawful : L.Lawful) (before : L.register w ≠ some n)
    (after : L.register (w + 1) = some n) : ∃ i, L.swaps i w ∧ ∃ u < w, L.puts i n u := by
  rcases lawful.register_cases w with same | ⟨i, swaps, put⟩
  · exact absurd (same.symm.trans after) before
  · exact ⟨i, swaps, put n after⟩

/-- A name comes to the register once. -/
private theorem set_once (lawful : L.Lawful) (before : L.register v ≠ some n)
    (after : L.register (v + 1) = some n) (before' : L.register w ≠ some n)
    (after' : L.register (w + 1) = some n) : v = w := by
  obtain ⟨i, swaps, u, -, puts⟩ := lawful.setter before after
  obtain ⟨j, swaps', u', -, puts'⟩ := lawful.setter before' after'
  obtain ⟨rfl, -⟩ := lawful.puts_once i j n u u' puts puts'
  exact lawful.swaps_once i v w swaps swaps'

/-- A name that has gone from the register never returns. -/
theorem no_return (lawful : L.Lawful) (before : L.register u = some n) (order : u ≤ w)
    (gone : L.register w ≠ some n) (later : w ≤ v) : L.register v ≠ some n := by
  intro back
  obtain ⟨b, hwb, -, change⟩ :=
    exists_onset (P := fun t => L.register t = some n) later gone back
  rcases named_origin before with start | ⟨b', hb', change'⟩
  · obtain ⟨i, -, p, -, puts⟩ := lawful.setter change.1 change.2
    exact lawful.puts_new i n p puts ((lawful.start n).mpr start)
  · have := lawful.set_once change.1 change.2 change'.1 change'.2
    omega

/-- Whoever lost never has its name in the register. -/
private theorem loses_never (lawful : L.Lawful) (loses : L.Loses i n w) (v : Nat) :
    L.register v ≠ some n := by
  intro there
  obtain ⟨swaps, ⟨u, -, puts⟩, lost⟩ := loses
  rcases named_origin there with start | ⟨b, -, change⟩
  · exact lawful.puts_new i n u puts ((lawful.start n).mpr start)
  · obtain ⟨j, swaps', u', -, puts'⟩ := lawful.setter change.1 change.2
    obtain ⟨rfl, -⟩ := lawful.puts_once i j n u u' puts puts'
    obtain rfl := lawful.swaps_once i w b swaps swaps'
    exact lost change.2

/-- A name is not in the register when its object is dropped, and never again. -/
theorem dropped_forgotten (lawful : L.Lawful) (drops : L.drops i n t) (later : t ≤ v) :
    L.register v ≠ some n := by
  obtain ⟨w, hw, loses | ⟨-, ⟨u, hu, before⟩, gone⟩⟩ := lawful.drops_reason i n t drops
  · exact lawful.loses_never loses v
  · exact lawful.no_return before (hu.trans (Nat.le_succ w)) gone (by omega)

private theorem kept (lawful : L.Lawful) (there : n ∈ L.objects u) (order : u ≤ t)
    (quiet : ∀ v, u ≤ v → v < t → ∀ i, ¬L.drops i n v) : n ∈ L.objects t := by
  induction t, order using Nat.le_induction with
  | base => exact there
  | succ t order ih =>
    have now := ih fun v huv hvt => quiet v huv (hvt.trans (Nat.lt_succ_self t))
    exact (lawful.objects_iff t n).mpr (.inl ⟨now, quiet t order (Nat.lt_succ_self t)⟩)

/-- The object that the register names exists. -/
theorem named_exists (lawful : L.Lawful) (named : L.register t = some n) : n ∈ L.objects t := by
  have quiet : ∀ v < t, ∀ i, ¬L.drops i n v := fun v hv i drops =>
    lawful.dropped_forgotten drops hv.le named
  rcases named_origin named with start | ⟨w, hw, change⟩
  · exact lawful.kept ((lawful.start n).mpr start) (Nat.zero_le t) fun v _ hv => quiet v hv
  · obtain ⟨i, -, u, hu, puts⟩ := lawful.setter change.1 change.2
    have put : n ∈ L.objects (u + 1) := (lawful.objects_iff u n).mpr (.inr ⟨i, puts⟩)
    exact lawful.kept put (by omega) fun v _ hv => quiet v hv

/-- An object that was dropped and is there has been put again. -/
private theorem put_again (lawful : L.Lawful) (drops : L.drops i n v) (there : n ∈ L.objects t)
    (order : v < t) : ∃ j u, v ≤ u ∧ u < t ∧ L.puts j n u := by
  induction t, order using Nat.le_induction with
  | base =>
    rcases (lawful.objects_iff v n).mp there with ⟨-, quiet⟩ | ⟨j, puts⟩
    · exact absurd drops (quiet i)
    · exact ⟨j, v, le_rfl, Nat.lt_succ_self v, puts⟩
  | succ t order ih =>
    rcases (lawful.objects_iff t n).mp there with ⟨there, -⟩ | ⟨j, puts⟩
    · obtain ⟨j, u, hvu, hut, puts⟩ := ih there
      exact ⟨j, u, hvu, hut.trans (Nat.lt_succ_self t), puts⟩
    · exact ⟨j, t, Nat.le_of_succ_le order, Nat.lt_succ_self t, puts⟩

private theorem object_origin (lawful : L.Lawful) (there : n ∈ L.objects t) :
    n ∈ L.objects 0 ∨ ∃ i u, u < t ∧ L.puts i n u := by
  induction t with
  | zero => exact .inl there
  | succ t ih =>
    rcases (lawful.objects_iff t n).mp there with ⟨there, -⟩ | ⟨i, puts⟩
    · rcases ih there with start | ⟨i, u, hu, puts⟩
      · exact .inl start
      · exact .inr ⟨i, u, hu.trans (Nat.lt_succ_self t), puts⟩
    · exact .inr ⟨i, t, Nat.lt_succ_self t, puts⟩

/-- A name that has gone from the register was dropped by the actor that replaced it. -/
private theorem dropped_of_gone (lawful : L.Lawful) (finished : ∀ i, L.Finished i t)
    (before : L.register u = some n) (order : u ≤ t) (gone : L.register t ≠ some n) :
    ∃ i v, u < v ∧ v < t ∧ L.drops i n v := by
  obtain ⟨w, huw, hwt, named, departs⟩ :=
    exists_onset (P := fun t => L.register t ≠ some n) order (not_not.mpr before) gone
  have named := not_not.mp named
  rcases lawful.register_cases w with same | ⟨i, swaps, -⟩
  · exact absurd (same.trans named) departs
  · obtain ⟨v, hwv, hvt, drops⟩ := (finished i).replaced n w hwt swaps named departs
    exact ⟨i, v, by omega, hvt, drops⟩

/-- When all actors have finished, the only object is the one the register names. -/
theorem settled (lawful : L.Lawful) (finished : ∀ i, L.Finished i t) :
    n ∈ L.objects t ↔ L.register t = some n := by
  refine ⟨fun there => ?_, lawful.named_exists⟩
  by_contra gone
  rcases lawful.object_origin there with start | ⟨i, u, hu, puts⟩
  · obtain ⟨j, v, -, hv, drops⟩ :=
      lawful.dropped_of_gone finished ((lawful.start n).mp start) (Nat.zero_le t) gone
    obtain ⟨k, p, -, -, puts⟩ := lawful.put_again drops there hv
    exact lawful.puts_new k n p puts start
  · have dropped : ∃ j v, u < v ∧ v < t ∧ L.drops j n v := by
      rcases (finished i).put n u hu puts with ⟨v, huv, hvt, drops⟩ | ⟨w, hw, named⟩
      · exact ⟨i, v, huv, hvt, drops⟩
      · obtain ⟨j, v, hwv, hvt, drops⟩ := lawful.dropped_of_gone finished named hw gone
        refine ⟨j, v, ?_, hvt, drops⟩
        -- the object was put before the register could name it
        rcases named_origin named with start | ⟨b, hb, change⟩
        · exact absurd ((lawful.start n).mpr start) (lawful.puts_new i n u puts)
        · obtain ⟨k, -, p, hp, puts'⟩ := lawful.setter change.1 change.2
          obtain ⟨-, rfl⟩ := lawful.puts_once i k n u p puts puts'
          omega
    obtain ⟨j, v, huv, hvt, drops⟩ := dropped
    obtain ⟨k, p, hp, -, puts'⟩ := lawful.put_again drops there hvt
    obtain ⟨-, rfl⟩ := lawful.puts_once i k n u p puts puts'
    omega

end Lawful

end SwapLog

end GuitarCoach.Async
