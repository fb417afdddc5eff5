/- digest: JavaScript strings as UTF-16 code units: trimming, clipping, and counting characters. -/

import Mathlib.Data.List.DropRight

/-!
A string is the list of its code units, and its `length` is the length of the list. A clip can cut
a surrogate pair, and it can end a trimmed string in white space; a count that takes a surrogate
pair for one character differs from `length`.
-/

set_option autoImplicit false
set_option relaxedAutoImplicit false

namespace GuitarCoach.Ecma

abbrev Units := List UInt16

/-- The code units of a text. -/
def units (s : String) : Units :=
  s.toList.flatMap fun c =>
    if c.toNat ≤ 0xFFFF then [.ofNat c.toNat]
    else [.ofNat (0xD800 + (c.toNat - 0x10000) / 0x400),
      .ofNat (0xDC00 + (c.toNat - 0x10000) % 0x400)]

/-! ### White space -/

/-- White space and line terminators. -/
def isSpace (u : UInt16) : Bool :=
  let n := u.toNat
  (9 ≤ n && n ≤ 13) || n = 32 || n = 0xA0 || n = 0x1680 || (0x2000 ≤ n && n ≤ 0x200A) ||
    n = 0x2028 || n = 0x2029 || n = 0x202F || n = 0x205F || n = 0x3000 || n = 0xFEFF

def trim (s : Units) : Units := (s.dropWhile isSpace).rdropWhile isSpace

section Trim

variable {s : Units} {n : Nat}

/-- Nothing is trimmed from a string that neither begins nor ends in white space. -/
theorem trim_eq_self_iff : trim s = s ↔
    (∀ u, s.head? = some u → isSpace u = false) ∧ ∀ u, s.getLast? = some u → isSpace u = false := by
  cases s with
  | nil => exact iff_of_true rfl ⟨nofun, nofun⟩
  | cons u s =>
    have last : (u :: s).rdropWhile isSpace = u :: s ↔
        ∀ v, (u :: s).getLast? = some v → isSpace v = false := by
      rw [List.rdropWhile_eq_self_iff, List.getLast?_eq_some_getLast (List.cons_ne_nil u s)]
      simp
    unfold trim
    cases space : isSpace u with
    | true =>
      refine iff_of_false (fun same => ?_) fun ends => ?_
      · have shorter := (List.rdropWhile_prefix isSpace (l := (u :: s).dropWhile isSpace)).length_le
        rw [same, List.dropWhile_cons_of_pos space] at shorter
        have dropped := (List.dropWhile_suffix isSpace (l := s)).length_le
        rw [List.length_cons] at shorter
        omega
      · have first := ends.1 u rfl
        rw [space] at first
        cases first
    | false =>
      rw [List.dropWhile_cons_of_neg (by simp [space]), last]
      constructor
      · intro ends
        refine ⟨fun v same => ?_, ends⟩
        cases same
        exact space
      · exact fun ends => ends.2

/-- A string that is trimmed stays as it is. -/
theorem trim_trim (s : Units) : trim (trim s) = trim s := by
  refine trim_eq_self_iff.mpr ⟨fun u first => ?_, fun u last => ?_⟩
  · -- what is left begins where the leading white space ended
    obtain ⟨rest, whole⟩ : trim s <+: s.dropWhile isSpace := List.rdropWhile_prefix _ _
    have begins : (s.dropWhile isSpace).head? = some u := by
      rw [← whole, List.head?_append, first]
      rfl
    have stopped := List.head?_dropWhile_not isSpace s
    rw [begins] at stopped
    simpa using stopped
  · have some : trim s ≠ [] := by
      rintro empty
      rw [empty] at last
      cases last
    have ended := List.rdropWhile_last_not isSpace (s.dropWhile isSpace) some
    rw [List.getLast?_eq_some_getLast some] at last
    rw [← Option.some.inj last]
    exact Bool.eq_false_iff.mpr ended

/-- A clip of a trimmed string is trimmed unless it is cut after white space. -/
theorem trim_take_iff (trimmed : trim s = s) (positive : 0 < n) :
    trim (s.take n) = s.take n ↔
      (n < s.length → ∀ u, s[n - 1]? = some u → isSpace u = false) := by
  obtain ⟨first, last⟩ := trim_eq_self_iff.mp trimmed
  by_cases cut : n < s.length
  · have begins : (s.take n).head? = s.head? := by
      rw [List.head?_take, if_neg (by omega)]
    have ends : (s.take n).getLast? = s[n - 1]? := by
      rw [List.getLast?_eq_getElem?, List.length_take, Nat.min_eq_left cut.le,
        List.getElem?_take_of_lt (by omega)]
    rw [trim_eq_self_iff, begins, ends]
    exact ⟨fun ends _ => ends.2, fun clean => ⟨first, clean cut⟩⟩
  · rw [List.take_of_length_le (by omega)]
    exact iff_of_true trimmed fun long => absurd long cut

end Trim

/-! ### Characters -/

def isHigh (u : UInt16) : Bool := 0xD800 ≤ u && u ≤ 0xDBFF

def isLow (u : UInt16) : Bool := 0xDC00 ≤ u && u ≤ 0xDFFF

/-- A variation selector, which tells how the character before it is shown. -/
def isSelector (u : UInt16) : Bool := u = 0xFE0E || u = 0xFE0F

/-- How many surrogate pairs there are, read from the left. -/
def surrogatePairs : Units → Nat
  | u :: v :: s =>
    if isHigh u && isLow v then surrogatePairs s + 1 else surrogatePairs (v :: s)
  | _ => 0

/-- How many code units are shown as the variation selector after them says. -/
def presentationSequences : Units → Nat
  | u :: v :: s =>
    if !isSelector u && isSelector v then presentationSequences s + 1
    else presentationSequences (v :: s)
  | _ => 0

/-- The length, where a surrogate pair counts as one and the selector of a character as none. -/
def characters (s : Units) : Nat := s.length - presentationSequences s - surrogatePairs s

/-- One surrogate pair, or one code unit or pair with its selector. -/
def isSingle : Units → Bool
  | [u, v] => isHigh u && isLow v || !isSelector u && isSelector v
  | [u, v, w] => isHigh u && isLow v && isSelector w
  | _ => false

section Characters

variable {u v : UInt16} {s : Units} {n : Nat}

private theorem isSelector_eq_false (below : u.toNat ≤ 0xDFFF) : isSelector u = false := by
  simp only [isSelector, Bool.or_eq_false_iff, decide_eq_false_iff_not]
  constructor
  · rintro rfl
    exact absurd below (by decide)
  · rintro rfl
    exact absurd below (by decide)

private theorem isSelector_of_isHigh (high : isHigh u = true) : isSelector u = false := by
  simp only [isHigh, Bool.and_eq_true, decide_eq_true_eq, UInt16.le_iff_toNat_le] at high
  have below : u.toNat ≤ 0xDBFF := high.2
  exact isSelector_eq_false (by omega)

private theorem isSelector_of_isLow (low : isLow u = true) : isSelector u = false := by
  simp only [isLow, Bool.and_eq_true, decide_eq_true_eq, UInt16.le_iff_toNat_le] at low
  exact isSelector_eq_false low.2

private theorem surrogatePairs_pair (pair : (isHigh u && isLow v) = true) :
    surrogatePairs (u :: v :: s) = surrogatePairs s + 1 := by
  simp only [surrogatePairs, pair, if_true]

private theorem surrogatePairs_other (other : (isHigh u && isLow v) = false) :
    surrogatePairs (u :: v :: s) = surrogatePairs (v :: s) := by
  simp only [surrogatePairs, other, Bool.false_eq_true, if_false]

private theorem surrogatePairs_selector (selector : isSelector u = true) :
    surrogatePairs (u :: s) = surrogatePairs s := by
  have low : isHigh u = false := by
    cases high : isHigh u with
    | false => rfl
    | true =>
      rw [isSelector_of_isHigh high] at selector
      cases selector
  cases s with
  | nil => rfl
  | cons v s => exact surrogatePairs_other (by rw [low, Bool.false_and])

private theorem presentationSequences_shown (shown : (!isSelector u && isSelector v) = true) :
    presentationSequences (u :: v :: s) = presentationSequences s + 1 := by
  simp only [presentationSequences, shown, if_true]

private theorem presentationSequences_other (other : (!isSelector u && isSelector v) = false) :
    presentationSequences (u :: v :: s) = presentationSequences (v :: s) := by
  simp only [presentationSequences, other, Bool.false_eq_true, if_false]

/-- A character has at most three code units: a pair and its selector. -/
private theorem three_mul_discount_le (s : Units) :
    3 * (presentationSequences s + surrogatePairs s) ≤ 2 * s.length := by
  induction hn : s.length using Nat.strong_induction_on generalizing s with
  | _ n ih =>
    subst hn
    rcases s with - | ⟨u, - | ⟨v, s⟩⟩
    · exact le_refl 0
    · exact Nat.zero_le _
    have tail := ih (v :: s).length (by simp only [List.length_cons]; omega) (v :: s) rfl
    have rest := ih s.length (by simp only [List.length_cons]; omega) s rfl
    simp only [List.length_cons] at tail ⊢
    cases pair : isHigh u && isLow v with
    | true =>
      -- the selector after a pair is discounted together with the pair
      have plain := isSelector_of_isLow (Bool.and_eq_true_iff.mp pair).2
      rw [surrogatePairs_pair pair, presentationSequences_other (by simp [plain])]
      rcases s with - | ⟨w, s⟩
      · have none : presentationSequences [v] = 0 := rfl
        omega
      cases selector : isSelector w with
      | true =>
        have after := ih s.length (by simp only [List.length_cons]; omega) s rfl
        rw [presentationSequences_shown (by simp [plain, selector]),
          surrogatePairs_selector selector, List.length_cons]
        omega
      | false =>
        rw [presentationSequences_other (by simp [selector])]
        omega
    | false =>
      rw [surrogatePairs_other pair]
      cases shown : !isSelector u && isSelector v with
      | true =>
        rw [presentationSequences_shown shown,
          surrogatePairs_selector (Bool.and_eq_true_iff.mp shown).2]
        omega
      | false =>
        rw [presentationSequences_other shown]
        omega

/-- Three code units are one character if they are a pair and its selector. -/
private theorem three_units (u v w : UInt16) :
    2 ≤ characters [u, v, w] ↔ isSingle [u, v, w] = false := by
  have one : ∀ x : UInt16, presentationSequences [x] = 0 ∧ surrogatePairs [x] = 0 :=
    fun _ => ⟨rfl, rfl⟩
  simp only [characters, isSingle, List.length_cons, List.length_nil]
  cases pair : isHigh u && isLow v with
  | true =>
    have plain := isSelector_of_isLow (Bool.and_eq_true_iff.mp pair).2
    rw [surrogatePairs_pair pair, (one w).2, presentationSequences_other (by simp [plain]),
      Bool.true_and]
    cases selector : isSelector w with
    | true =>
      rw [presentationSequences_shown (by simp [plain, selector])]
      decide
    | false =>
      rw [presentationSequences_other (by simp [selector]), (one w).1]
      decide
  | false =>
    rw [surrogatePairs_other pair, Bool.false_and]
    refine iff_of_true ?_ rfl
    cases shown : !isSelector u && isSelector v with
    | true =>
      rw [presentationSequences_shown shown,
        surrogatePairs_selector (Bool.and_eq_true_iff.mp shown).2, (one w).1, (one w).2]
    | false =>
      rw [presentationSequences_other shown]
      have few := three_mul_discount_le [v, w]
      simp only [List.length_cons, List.length_nil] at few
      omega

theorem characters_le_length (s : Units) : characters s ≤ s.length :=
  (Nat.sub_le _ _).trans (Nat.sub_le _ _)

/-- Two code units are two characters, but for a single one. -/
theorem two_le_characters_iff (s : Units) :
    2 ≤ characters s ↔ 2 ≤ s.length ∧ isSingle s = false := by
  have discount := three_mul_discount_le s
  rcases s with - | ⟨u, - | ⟨v, - | ⟨w, - | ⟨x, s⟩⟩⟩⟩
  · exact iff_of_false (by decide) fun two => absurd two.1 (by decide)
  · exact iff_of_false (by simp [characters, presentationSequences, surrogatePairs]) fun two => absurd two.1 (by simp)
  · cases pair : isHigh u && isLow v <;> cases shown : !isSelector u && isSelector v <;>
      simp [characters, presentationSequences, surrogatePairs, isSingle, pair, shown]
  · rw [three_units]
    exact (and_iff_right (by simp)).symm
  · simp only [characters, List.length_cons] at discount ⊢
    exact iff_of_true (by omega) ⟨by omega, rfl⟩

/-- A clip of more than three code units makes no single character. -/
theorem isSingle_take (more : 3 < n) : isSingle (s.take n) = isSingle s := by
  by_cases whole : s.length ≤ n
  · rw [List.take_of_length_le whole]
  · have long : ∀ t : Units, 3 < t.length → isSingle t = false := by
      rintro (- | ⟨u, - | ⟨v, - | ⟨w, - | ⟨x, t⟩⟩⟩⟩) length
      · rfl
      · rfl
      · exact absurd length (by simp)
      · exact absurd length (by simp)
      · rfl
    rw [long s (by omega), long (s.take n) (by rw [List.length_take]; omega)]

end Characters

end GuitarCoach.Ecma
