/- digest: How JavaScript rounds and writes natural numbers, different ones differently. -/

import GuitarCoach.Ecma.Codes
import Mathlib.Algebra.Group.Nat.Defs
import Mathlib.Data.List.DropRight
import Mathlib.Data.Nat.Log

/-!
A number is a double. It is written with the fewest digits that are read back as the same double,
filled up with zeros; from `10 ^ 21` on with an exponent.
-/

set_option autoImplicit false
set_option relaxedAutoImplicit false

namespace GuitarCoach.Ecma

/-- The nearest double, of two equally near the one with the even significand. -/
def roundToDouble (v : Nat) : Nat :=
  if v < 2 ^ 53 then v
  else
    let e := v.log2 - 52
    let q := v / 2 ^ e
    let r := v % 2 ^ e
    (if 2 ^ (e - 1) < r ∨ (r = 2 ^ (e - 1) ∧ q % 2 = 1) then q + 1 else q) * 2 ^ e

/-- A natural number that is a double. -/
def IsNumber (x : Nat) : Prop := roundToDouble x = x

/-- The nearest multiple of `10 ^ j` that is read as `x`, if there is one. -/
def atPlace (x j : Nat) : Option Nat :=
  let lo := x / 10 ^ j * 10 ^ j
  let hi := lo + 10 ^ j
  if roundToDouble lo = x then
    if roundToDouble hi = x ∧ (hi - x < x - lo ∨ (hi - x = x - lo ∧ x / 10 ^ j % 2 = 1)) then
      some hi
    else some lo
  else if roundToDouble hi = x then some hi
  else none

def shortestFrom (x : Nat) : Nat → Nat
  | 0 => x
  | j + 1 => (atPlace x (j + 1)).getD (shortestFrom x j)

/-- The value with the fewest digits that is read as `x`. -/
def shortest (x : Nat) : Nat := shortestFrom x (Nat.toDigits 10 x).length

/-- The significant digits, with a point after the first. -/
def pointed : List Char → List Char
  | [d] => [d]
  | d :: digits => d :: '.' :: digits
  | [] => []

/-- The digits of a value, or its significant digits and its exponent. -/
def render (v : Nat) : List Char :=
  let digits := Nat.toDigits 10 v
  if v < 10 ^ 21 then digits
  else pointed (digits.rdropWhile (· = '0')) ++ 'e' :: '+' :: Nat.toDigits 10 (digits.length - 1)

/-- `String(x)`. -/
def numberToString (x : Nat) : String := String.ofList (render (shortest x))

theorem isNumber_of_lt {x : Nat} (small : x < 2 ^ 53) : IsNumber x := if_pos small

/-! ### Rounding keeps the order -/

/-- Rounding stays between the powers of two around the value. -/
theorem roundToDouble_bounds {v : Nat} (large : 2 ^ 53 ≤ v) :
    2 ^ v.log2 ≤ roundToDouble v ∧ roundToDouble v ≤ 2 ^ (v.log2 + 1) := by
  have size : 53 ≤ v.log2 := (Nat.le_log2 (by omega)).mpr large
  have low : 2 ^ 52 * 2 ^ (v.log2 - 52) = 2 ^ v.log2 := by
    rw [← Nat.pow_add]
    congr 1
    omega
  have high : 2 ^ 53 * 2 ^ (v.log2 - 52) = 2 ^ (v.log2 + 1) := by
    rw [← Nat.pow_add]
    congr 1
    omega
  have least : 2 ^ 52 ≤ v / 2 ^ (v.log2 - 52) := by
    rw [Nat.le_div_iff_mul_le (Nat.two_pow_pos _), low]
    exact Nat.log2_self_le (by omega)
  have most : v / 2 ^ (v.log2 - 52) < 2 ^ 53 := by
    rw [Nat.div_lt_iff_lt_mul (Nat.two_pow_pos _), high]
    exact Nat.lt_log2_self
  unfold roundToDouble
  rw [if_neg (by omega)]
  dsimp only
  rw [← low, ← high]
  split
  · exact ⟨Nat.mul_le_mul_right _ (by omega), Nat.mul_le_mul_right _ most⟩
  · exact ⟨Nat.mul_le_mul_right _ least, Nat.mul_le_mul_right _ (by omega)⟩

/-- Rounding does not lead below the numbers that are all doubles. -/
theorem le_roundToDouble {v : Nat} (large : 2 ^ 53 ≤ v) : 2 ^ 53 ≤ roundToDouble v := by
  have size : 53 ≤ v.log2 := (Nat.le_log2 (by omega)).mpr large
  exact (Nat.pow_le_pow_right (by decide) size).trans (roundToDouble_bounds large).1

theorem roundToDouble_mono : Monotone roundToDouble := by
  intro u v le
  by_cases small : v < 2 ^ 53
  · rw [isNumber_of_lt small, isNumber_of_lt (by omega)]
    exact le
  have large : 2 ^ 53 ≤ v := Nat.le_of_not_lt small
  by_cases first : u < 2 ^ 53
  · rw [isNumber_of_lt first]
    exact (Nat.le_of_lt first).trans (le_roundToDouble large)
  have least : 2 ^ 53 ≤ u := Nat.le_of_not_lt first
  have logs : u.log2 ≤ v.log2 :=
    (Nat.le_log2 (by omega)).mpr ((Nat.log2_self_le (by omega)).trans le)
  by_cases same : u.log2 = v.log2
  · -- in one binade the significands decide, then what is cut off
    have quotients : u / 2 ^ (v.log2 - 52) ≤ v / 2 ^ (v.log2 - 52) := Nat.div_le_div_right le
    have whole := Nat.div_add_mod u (2 ^ (v.log2 - 52))
    have whole' := Nat.div_add_mod v (2 ^ (v.log2 - 52))
    unfold roundToDouble
    rw [if_neg first, if_neg small, same]
    dsimp only
    refine Nat.mul_le_mul_right _ ?_
    by_cases equal : u / 2 ^ (v.log2 - 52) = v / 2 ^ (v.log2 - 52)
    · rw [equal] at whole ⊢
      split <;> split <;> omega
    · split <;> split <;> omega
  · have below : 2 ^ (u.log2 + 1) ≤ 2 ^ v.log2 := Nat.pow_le_pow_right (by decide) (by omega)
    exact (roundToDouble_bounds least).2.trans (below.trans (roundToDouble_bounds large).1)

/-! ### What is written is read as the number -/

theorem atPlace_reads {x j v : Nat} (found : atPlace x j = some v) : roundToDouble v = x := by
  unfold atPlace at found
  dsimp only at found
  split at found
  · next low =>
    split at found
    · next high =>
      cases found
      exact high.1
    · cases found
      exact low
  · split at found
    · next high =>
      cases found
      exact high
    · cases found

theorem shortest_reads {x : Nat} (number : IsNumber x) : roundToDouble (shortest x) = x := by
  have all : ∀ j, roundToDouble (shortestFrom x j) = x := by
    intro j
    induction j with
    | zero => exact number
    | succ j ih =>
      rw [shortestFrom]
      cases found : atPlace x (j + 1) with
      | none => exact ih
      | some v => exact atPlace_reads found
  exact all _

/-! ### Different values are written differently -/

section Render

variable {v w : Nat} {c : Char} {s t : List Char}

private theorem toDigits_injective (same : Nat.toDigits 10 v = Nat.toDigits 10 w) : v = w := by
  have back := congrArg (fun digits => Nat.ofDigitChars 10 digits 0) same
  simpa only [Nat.ofDigitChars_ten_toDigits] using back

private theorem isDigit_of_mem (hc : c ∈ Nat.toDigits 10 v) : c.isDigit = true :=
  Nat.isDigit_of_mem_toDigits (by decide) (by decide) hc

private theorem mem_pointed (hc : c ∈ pointed s) : c ∈ s ∨ c = '.' := by
  rcases s with - | ⟨d, - | ⟨d', s⟩⟩
  · cases hc
  · exact .inl hc
  · simp only [pointed, List.mem_cons] at hc ⊢
    tauto

private theorem pointed_injective (hs : '.' ∉ s) (ht : '.' ∉ t) (same : pointed s = pointed t) :
    s = t := by
  rcases s with - | ⟨d, - | ⟨d', s⟩⟩ <;> rcases t with - | ⟨b, - | ⟨b', t⟩⟩ <;>
    simp_all [pointed]

/-- The digits of a value are its significant digits and zeros. -/
private theorem digits_eq (digits : List Char) : ∃ zeros,
    digits = digits.rdropWhile (· = '0') ++ List.replicate zeros '0' := by
  have whole := List.rdropWhile_append_rtakeWhile (p := fun c : Char => decide (c = '0')) (l := digits)
  have zeros : digits.rtakeWhile (· = '0') =
      List.replicate (digits.rtakeWhile (· = '0')).length '0' := by
    refine List.eq_replicate_iff.mpr ⟨rfl, fun c hc => ?_⟩
    simpa using List.mem_rtakeWhile_imp hc
  exact ⟨_, by rw [← zeros, whole]⟩

/-- Significant digits and a length belong to one value only. -/
private theorem digits_of_significant (same : s.rdropWhile (· = '0') = t.rdropWhile (· = '0'))
    (length : s.length = t.length) : s = t := by
  obtain ⟨k, hs⟩ := digits_eq s
  obtain ⟨l, ht⟩ := digits_eq t
  have lengths := length
  rw [hs, ht, same, List.length_append, List.length_append, List.length_replicate,
    List.length_replicate] at lengths
  have zeros : k = l := by omega
  rw [hs, ht, same, zeros]

private theorem isDigit_of_significant
    (hc : c ∈ (Nat.toDigits 10 v).rdropWhile (· = '0')) : c.isDigit = true :=
  isDigit_of_mem ((List.rdropWhile_prefix _ _).subset hc)

private theorem exponent_notMem :
    'e' ∉ pointed ((Nat.toDigits 10 v).rdropWhile (· = '0')) := by
  intro there
  rcases mem_pointed there with digit | point
  · exact absurd (isDigit_of_significant digit) (by decide)
  · exact absurd point (by decide)

private theorem render_small (small : v < 10 ^ 21) : render v = Nat.toDigits 10 v := if_pos small

private theorem render_large (large : ¬v < 10 ^ 21) : render v =
    pointed ((Nat.toDigits 10 v).rdropWhile (· = '0')) ++
      'e' :: '+' :: Nat.toDigits 10 ((Nat.toDigits 10 v).length - 1) := if_neg large

/-- Digits alone have no exponent. -/
private theorem small_ne_large (small : v < 10 ^ 21) (large : ¬w < 10 ^ 21) :
    render v ≠ render w := by
  intro same
  rw [render_small small, render_large large] at same
  have there : 'e' ∈ Nat.toDigits 10 v :=
    same ▸ List.mem_append_right _ List.mem_cons_self
  exact absurd (isDigit_of_mem there) (by decide)

theorem render_injective (same : render v = render w) : v = w := by
  by_cases smallV : v < 10 ^ 21 <;> by_cases smallW : w < 10 ^ 21
  · rw [render_small smallV, render_small smallW] at same
    exact toDigits_injective same
  · exact absurd same (small_ne_large smallV smallW)
  · exact absurd same.symm (small_ne_large smallW smallV)
  · rw [render_large smallV, render_large smallW] at same
    obtain ⟨digits, exponent⟩ := segment_cancel exponent_notMem exponent_notMem same
    have lengths := toDigits_injective (List.cons.inj exponent).2
    have someV := Nat.length_toDigits_pos (b := 10) (n := v)
    have someW := Nat.length_toDigits_pos (b := 10) (n := w)
    have significant := pointed_injective
      (fun point => absurd (isDigit_of_significant point) (by decide))
      (fun point => absurd (isDigit_of_significant point) (by decide)) digits
    exact toDigits_injective (digits_of_significant significant (by omega))

/-- Numbers are written with digits, and a point, an exponent and its sign. -/
theorem mem_render (hc : c ∈ render v) : c.isDigit = true ∨ c = '.' ∨ c = 'e' ∨ c = '+' := by
  by_cases small : v < 10 ^ 21
  · rw [render_small small] at hc
    exact .inl (isDigit_of_mem hc)
  · rw [render_large small, List.mem_append, List.mem_cons, List.mem_cons] at hc
    rcases hc with hc | rfl | rfl | hc
    · rcases mem_pointed hc with digit | point
      · exact .inl (isDigit_of_significant digit)
      · exact .inr (.inl point)
    · exact .inr (.inr (.inl rfl))
    · exact .inr (.inr (.inr rfl))
    · exact .inl (isDigit_of_mem hc)

end Render

/-- Different numbers are written differently. -/
theorem numberToString_injective {x y : Nat} (hx : IsNumber x) (hy : IsNumber y)
    (same : numberToString x = numberToString y) : x = y := by
  have values : shortest x = shortest y := render_injective (String.ofList_injective same)
  rw [← shortest_reads hx, ← shortest_reads hy, values]

theorem mem_numberToString {x : Nat} {c : Char} (hc : c ∈ (numberToString x).toList) :
    c.isDigit = true ∨ c = '.' ∨ c = 'e' ∨ c = '+' := by
  unfold numberToString at hc
  rw [String.toList_ofList] at hc
  exact mem_render hc

end GuitarCoach.Ecma
