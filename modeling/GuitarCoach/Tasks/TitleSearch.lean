/- digest: A search for a title finds the search string literally, wildcards and escapes included. -/

import GuitarCoach.Tasks.TasksService

set_option autoImplicit false
set_option relaxedAutoImplicit false

namespace GuitarCoach

/-! ### Patterns -/

section Like

variable {p t : List Char}

theorem like_any : like ('%' :: p) t = true ↔ ∃ skipped rest, t = skipped ++ rest ∧ like p rest = true := by
  rw [like, List.any_eq_true]
  constructor
  · rintro ⟨rest, suffix, matched⟩
    obtain ⟨skipped, same⟩ := (List.mem_tails _ _).mp suffix
    exact ⟨skipped, rest, same.symm, matched⟩
  · rintro ⟨skipped, rest, rfl, matched⟩
    exact ⟨rest, (List.mem_tails _ _).mpr (List.suffix_append skipped rest), matched⟩

private theorem literal {matched : List Char → Bool} (c d : Char) :
    (c == d && matched t) = true ↔ ∃ rest, d :: t = c :: rest ∧ matched rest = true := by
  rw [Bool.and_eq_true, beq_iff_eq]
  constructor
  · rintro ⟨rfl, matched⟩
    exact ⟨t, rfl, matched⟩
  · rintro ⟨rest, same, matched⟩
    cases same
    exact ⟨rfl, matched⟩

/-- A character after a backslash stands for itself. -/
theorem like_escaped (c : Char) :
    like ('\\' :: c :: p) t = true ↔ ∃ rest, t = c :: rest ∧ like p rest = true := by
  cases t with
  | nil => exact iff_of_false (by simp [like]) nofun
  | cons d t =>
    rw [like]
    exact literal c d

/-- So does a character that is none of the three special ones. -/
theorem like_plain {c : Char} (plain : ¬(c = '\\' ∨ c = '%' ∨ c = '_')) :
    like (c :: p) t = true ↔ ∃ rest, t = c :: rest ∧ like p rest = true := by
  have backslash : c ≠ '\\' := fun h => plain (.inl h)
  have percent : c ≠ '%' := fun h => plain (.inr (.inl h))
  have underscore : c ≠ '_' := fun h => plain (.inr (.inr h))
  cases t with
  | nil =>
    refine iff_of_false (fun matched => ?_) nofun
    rw [like] at matched
    · cases matched
    · exact percent
    · exact underscore
    · exact fun c' p' escaped => absurd escaped backslash
  | cons d t =>
    rw [like]
    · exact literal c d
    · exact percent
    · exact underscore
    · exact fun c' p' escaped => absurd escaped backslash

/-- Escaped text stands for itself, in front of any pattern. -/
private theorem like_escapes (q : List Char) : like ((q.flatMap fun c =>
      if c = '\\' ∨ c = '%' ∨ c = '_' then ['\\', c] else [c]) ++ p) t = true ↔
    ∃ rest, t = q ++ rest ∧ like p rest = true := by
  induction q generalizing t with
  | nil => simp
  | cons c q ih =>
    have tail : ∀ rest, (∃ last, rest = q ++ last ∧ like p last = true) ↔
        like ((q.flatMap fun c =>
          if c = '\\' ∨ c = '%' ∨ c = '_' then ['\\', c] else [c]) ++ p) rest = true :=
      fun rest => ih.symm
    have whole : (∃ last, t = c :: q ++ last ∧ like p last = true) ↔
        ∃ rest, t = c :: rest ∧ ∃ last, rest = q ++ last ∧ like p last = true := by
      constructor
      · rintro ⟨last, rfl, matched⟩
        exact ⟨q ++ last, rfl, last, rfl, matched⟩
      · rintro ⟨_, rfl, last, rfl, matched⟩
        exact ⟨last, rfl, matched⟩
    rw [whole, List.flatMap_cons, List.append_assoc]
    simp only [tail]
    split
    · exact like_escaped c
    · next plain => exact like_plain plain

/-- Escaped text between two `%` stands for any text that contains it. -/
private theorem like_within (q : List Char) : like ('%' :: (q.flatMap fun c =>
      if c = '\\' ∨ c = '%' ∨ c = '_' then ['\\', c] else [c]) ++ ['%']) t = true ↔
    q <:+: t := by
  have all : ∀ rest, like ['%'] rest = true :=
    fun rest => like_any.mpr ⟨rest, [], (List.append_nil rest).symm, rfl⟩
  rw [List.cons_append, like_any]
  simp only [like_escapes, all, and_true]
  constructor
  · rintro ⟨before, _, rfl, after, rfl⟩
    exact ⟨before, after, List.append_assoc _ _ _⟩
  · rintro ⟨before, after, rfl⟩
    exact ⟨before, q ++ after, List.append_assoc _ _ _, after, rfl⟩

end Like

/-! ### Searches -/

private theorem pattern_toList (q : String) : ("%" ++ escapeLike q ++ "%").toList =
    '%' :: (q.toList.flatMap fun c =>
      if c = '\\' ∨ c = '%' ∨ c = '_' then ['\\', c] else [c]) ++ ['%'] := by
  simp [escapeLike]

/-- The pattern of a search matches the titles that contain the search string, character by
character: no wildcard and no escape of it has a meaning. -/
theorem title_search_literal (q title : String) :
    like ("%" ++ escapeLike q ++ "%").toList title.toList = true ↔
      q.toList <:+: title.toList := by
  rw [pattern_toList]
  exact like_within q.toList

/-- The database compares letters by a form that each character has, and that leaves the special
characters and no others special. -/
structure Letters.Folds (letters : Letters) (fold : Char → Char) : Prop where
  lower : ∀ s, letters.lower s = String.ofList (s.toList.map fold)
  special : ∀ c, fold c = '\\' ∨ fold c = '%' ∨ fold c = '_' → c = '\\' ∨ c = '%' ∨ c = '_'
  same : ∀ c, c = '\\' ∨ c = '%' ∨ c = '_' → fold c = c

/-- Folding a pattern folds the text that it escapes. -/
theorem Letters.Folds.escapeLike {letters : Letters} {fold : Char → Char}
    (folds : letters.Folds fold) (q : String) : letters.lower ("%" ++ escapeLike q ++ "%") =
      "%" ++ GuitarCoach.escapeLike (letters.lower q) ++ "%" := by
  have each : ∀ c : Char, (if c = '\\' ∨ c = '%' ∨ c = '_' then ['\\', c] else [c]).map fold =
      if fold c = '\\' ∨ fold c = '%' ∨ fold c = '_' then ['\\', fold c] else [fold c] := by
    intro c
    by_cases special : c = '\\' ∨ c = '%' ∨ c = '_'
    · rw [if_pos special, folds.same c special, if_pos special]
      simp [folds.same c special, folds.same '\\' (.inl rfl)]
    · have plain := fun h => special (folds.special c h)
      rw [if_neg special, if_neg plain]
      rfl
  rw [folds.lower, folds.lower]
  apply String.toList_injective
  simp [GuitarCoach.escapeLike, List.map_flatMap, each, List.flatMap_map,
    folds.same '%' (.inr (.inl rfl))]

/-- In the service the letters are folded first. -/
theorem contains_literal {letters : Letters} {fold : Char → Char} (folds : letters.Folds fold)
    (q title : String) : contains letters (escapeLike q) title = true ↔
      (letters.lower q).toList <:+: (letters.lower title).toList := by
  unfold contains
  rw [folds.escapeLike, pattern_toList]
  exact like_within (letters.lower q).toList

end GuitarCoach
