/- digest: Pages of an ordered query partition the rows iff no tie lies across a boundary. -/

import GuitarCoach.Relational.Ordering

set_option autoImplicit false
set_option relaxedAutoImplicit false

namespace GuitarCoach.Relational

variable {ρ : Type}

/-- `skip` and `take` of one query. -/
def window (skip take : Nat) (rows : List ρ) : List ρ := (rows.drop skip).take take

/-- `Math.ceil(total / limit)`. -/
def totalPages (total limit : Nat) : Nat := (total + limit - 1) / limit

/-- Rows on either side of every boundary between pages differ in their sort key. -/
def NoTieAcross (le : ρ → ρ → Bool) (limit : Nat) (xs : List ρ) : Prop :=
  ∀ k, ∀ h : (k + 1) * limit < xs.length,
    le xs[(k + 1) * limit] (xs.get ⟨(k + 1) * limit - 1, by omega⟩) = false

/-- The pages `1..totalPages`, each cut from its own answer, one after the other. -/
def allPages (limit : Nat) (rows : List ρ) (answer : Nat → List ρ) : List ρ :=
  (List.range (totalPages rows.length limit)).flatMap fun k =>
    window (k * limit) limit (answer k)

theorem length_le_totalPages (total : Nat) {limit : Nat} (pos : 0 < limit) :
    total ≤ totalPages total limit * limit := by
  have h := Nat.div_add_mod (total + limit - 1) limit
  have hlt := Nat.mod_lt (total + limit - 1) pos
  rw [Nat.mul_comm] at h
  simp only [totalPages]
  omega

theorem lt_totalPages {total limit k : Nat} (pos : 0 < limit) (h : k * limit < total) :
    k < totalPages total limit := by
  by_contra hk
  have hmul := Nat.mul_le_mul_right limit (Nat.le_of_not_lt hk)
  have := length_le_totalPages total pos
  omega

theorem mul_lt_of_lt_totalPages {total limit k : Nat} (h : k < totalPages total limit) :
    k * limit < total := by
  rcases Nat.eq_zero_or_pos limit with rfl | pos
  · simp [totalPages] at h
  · have within : (k + 1) * limit ≤ total + limit - 1 :=
      (Nat.mul_le_mul_right _ h).trans (Nat.div_mul_le_self _ _)
    rw [Nat.succ_mul] at within
    omega

theorem flatMap_window (limit n : Nat) (xs : List ρ) :
    ((List.range n).flatMap fun k => window (k * limit) limit xs) = xs.take (n * limit) := by
  induction n with
  | zero => simp
  | succ n ih =>
    rw [List.range_succ, List.flatMap_append, ih, List.flatMap_singleton, Nat.succ_mul,
      List.take_add, window]

/-- Every row is on one of the pages. -/
theorem mem_windows {xs : List ρ} {limit : Nat} (pos : 0 < limit) {a : ρ} (ha : a ∈ xs) :
    ∃ k ∈ List.range (totalPages xs.length limit), a ∈ window (k * limit) limit xs := by
  rw [← List.mem_flatMap, flatMap_window,
    List.take_of_length_le (length_le_totalPages xs.length pos)]
  exact ha

private theorem filter_eq_take {le : ρ → ρ → Bool} {p : ρ → Bool}
    (down : ∀ a b, le a b = true → p b = true → p a = true) {xs : List ρ}
    (sorted : xs.Pairwise fun a b => le a b = true) :
    xs.filter p = xs.take (xs.filter p).length := by
  induction xs with
  | nil => rfl
  | cons a xs ih =>
    obtain ⟨ha, hxs⟩ := List.pairwise_cons.mp sorted
    cases hp : p a with
    | true => simpa [List.filter_cons_of_pos hp] using ih hxs
    | false =>
      have none_left : xs.filter p = [] := by
        refine List.filter_eq_nil_iff.mpr fun b hb hpb => ?_
        rw [down a b (ha b hb) hpb] at hp
        cases hp
      simp [hp, none_left]

/-- Two answers agree, as sets of rows, up to a position where the sort key changes. -/
private theorem take_perm {le : ρ → ρ → Bool} (order : IsPreorder le) {rows xs ys : List ρ}
    (hx : IsOrdered le rows xs) (hy : IsOrdered le rows ys) (b : Nat)
    (strict : ∀ h : b < xs.length, 0 < b → le xs[b] (xs.get ⟨b - 1, by omega⟩) = false) :
    (xs.take b).Perm (ys.take b) := by
  have hxy : xs.Perm ys := hx.perm.trans hy.perm.symm
  by_cases hlen : b < xs.length
  swap
  · have hxb : xs.length ≤ b := Nat.le_of_not_lt hlen
    rw [List.take_of_length_le hxb, List.take_of_length_le (hxy.length_eq ▸ hxb)]
    exact hxy
  by_cases hb : 0 < b
  swap
  · obtain rfl : b = 0 := by omega
    simp
  -- the rows up to the boundary are those that do not come after its last row
  have hpos : b - 1 < xs.length := by omega
  let p : ρ → Bool := fun a => le a xs[b - 1]
  have down : ∀ a c, le a c = true → p c = true → p a = true :=
    fun a c hac hc => order.trans _ _ _ hac hc
  have hxp : xs.filter p = xs.take b := by
    have hsplit : xs.filter p = (xs.take b).filter p ++ (xs.drop b).filter p := by
      rw [← List.filter_append, List.take_append_drop]
    have hle := List.pairwise_iff_getElem.mp hx.sorted
    have htake : (xs.take b).filter p = xs.take b := by
      refine List.filter_eq_self.mpr fun a ha => ?_
      obtain ⟨i, hi, rfl⟩ := List.getElem_of_mem ha
      rw [List.length_take] at hi
      rw [List.getElem_take]
      by_cases hib : i = b - 1
      · subst hib
        rcases order.total xs[b - 1] xs[b - 1] with h | h <;> exact h
      · exact hle i (b - 1) (by omega) hpos (by omega)
    have hdrop : (xs.drop b).filter p = [] := by
      refine List.filter_eq_nil_iff.mpr fun a ha hpa => ?_
      obtain ⟨i, hi, rfl⟩ := List.getElem_of_mem ha
      rw [List.length_drop] at hi
      rw [List.getElem_drop] at hpa
      have hbi : le xs[b] xs[b + i] = true := by
        by_cases hi0 : i = 0
        · subst hi0
          rcases order.total xs[b] xs[b] with h | h <;> exact h
        · exact hle b (b + i) hlen (by omega) (by omega)
      have hle : le xs[b] xs[b - 1] = true := order.trans _ _ _ hbi hpa
      exact Bool.false_ne_true ((strict hlen hb).symm.trans hle)
    rw [hsplit, htake, hdrop, List.append_nil]
  have hyp := filter_eq_take down hy.sorted
  have hperm := hxy.filter p
  have hcount : (ys.filter p).length = b := by
    rw [← hperm.length_eq, hxp, List.length_take]
    omega
  rw [hcount] at hyp
  rw [← hxp, ← hyp]
  exact hperm

private theorem window_perm {le : ρ → ρ → Bool} (order : IsPreorder le) {rows xs ys : List ρ}
    (hx : IsOrdered le rows xs) (hy : IsOrdered le rows ys) {limit : Nat}
    (boundary : NoTieAcross le limit xs) (k : Nat) :
    (window (k * limit) limit xs).Perm (window (k * limit) limit ys) := by
  have strict : ∀ n, ∀ h : n * limit < xs.length, 0 < n * limit →
      le xs[n * limit] (xs.get ⟨n * limit - 1, by omega⟩) = false := by
    intro n h hn
    cases n with
    | zero => simp at hn
    | succ n => exact boundary n h
  have before := take_perm order hx hy (k * limit) (strict k)
  have upto := take_perm order hx hy ((k + 1) * limit) (strict (k + 1))
  rw [Nat.succ_mul, List.take_add, List.take_add] at upto
  exact (List.perm_append_left_iff _).mp (upto.trans (before.symm.append_right _))

/-- Swapping two tied neighbours gives another permitted answer. -/
private theorem swap_isOrdered {le : ρ → ρ → Bool} {rows l r : List ρ} {c d : ρ}
    (h : IsOrdered le rows (l ++ c :: d :: r)) (tie : le d c = true) :
    IsOrdered le rows (l ++ d :: c :: r) where
  perm := (List.Perm.append_left l (.swap c d r)).trans h.perm
  sorted := by
    have hs := h.sorted
    simp only [List.pairwise_append, List.pairwise_cons, List.mem_cons, forall_eq_or_imp]
      at hs ⊢
    obtain ⟨hl, ⟨⟨-, hcr⟩, hdr, hr⟩, hlr⟩ := hs
    exact ⟨hl, ⟨⟨tie, hdr⟩, hcr, hr⟩, fun a ha => ⟨(hlr a ha).2.1, (hlr a ha).1, (hlr a ha).2.2⟩⟩

private theorem mem_window {xs : List ρ} (skip take : Nat) {i : Nat} (hi : i < xs.length)
    (hskip : skip ≤ i) (htake : i < skip + take) : xs[i] ∈ window skip take xs := by
  have hlen : i - skip < (window skip take xs).length := by
    simp only [window, List.length_take, List.length_drop]
    omega
  have hget : (window skip take xs)[i - skip] = xs[i] := by
    simp only [window, List.getElem_take, List.getElem_drop]
    congr 1
    omega
  exact hget ▸ List.getElem_mem hlen

private theorem of_mem_window {xs : List ρ} (nodup : xs.Nodup) {skip take i : Nat}
    (hi : i < xs.length) (h : xs[i] ∈ window skip take xs) : skip ≤ i ∧ i < skip + take := by
  obtain ⟨j, hj, same⟩ := List.getElem_of_mem h
  simp only [window, List.length_take, List.length_drop] at hj
  simp only [window, List.getElem_take, List.getElem_drop] at same
  have place : skip + j = i := (List.Nodup.getElem_inj_iff nodup).mp same
  omega

/-- Windows that together give each row exactly once, with offsets that do not fall, begin at the
multiples of their length. -/
theorem skip_eq_of_perm {xs : List ρ} (nodup : xs.Nodup) {limit : Nat} {skip : Nat → Nat}
    (mono : Monotone skip)
    (perm : ((List.range (totalPages xs.length limit)).flatMap fun k =>
      window (skip k) limit xs).Perm xs) :
    ∀ k < totalPages xs.length limit, skip k = k * limit := by
  intro k
  induction k using Nat.strongRecOn with
  | ind k before =>
    intro hk
    have inside : k * limit < xs.length := mul_lt_of_lt_totalPages hk
    -- the row at the multiple is on this page or on a later one
    obtain ⟨j, hj, there⟩ := List.mem_flatMap.mp (perm.mem_iff.mpr (List.getElem_mem inside))
    obtain ⟨low, high⟩ := of_mem_window nodup inside there
    have later : k ≤ j := by
      by_contra earlier
      rw [before j (by omega) (List.mem_range.mp hj)] at high
      have whole : (j + 1) * limit ≤ k * limit := Nat.mul_le_mul_right _ (by omega)
      rw [Nat.succ_mul] at whole
      omega
    have upper : skip k ≤ k * limit := (mono later).trans low
    refine Nat.le_antisymm upper ?_
    by_contra less
    -- a smaller offset would give a row of the page before once more
    cases k with
    | zero => simp at less
    | succ k =>
      have apart := (List.nodup_flatMap.mp (perm.nodup_iff.mpr nodup)).2
      have apart := List.pairwise_iff_getElem.mp apart k (k + 1) (by simpa using by omega)
        (by simpa using hk) (by omega)
      simp only [List.getElem_range, Function.onFun] at apart
      have last := before k (by omega) (by omega)
      have onward : skip k ≤ skip (k + 1) := mono (by omega)
      have short : skip (k + 1) < xs.length := by omega
      rw [Nat.succ_mul] at less
      exact apart (mem_window (skip k) limit short onward (by omega))
        (mem_window (skip (k + 1)) limit short le_rfl (by omega))

/-- When every page is cut from its own permitted answer, the pages are guaranteed to give
each row exactly once iff no two tied rows lie on either side of a page boundary. -/
theorem pages_perm_iff {le : ρ → ρ → Bool} (order : IsPreorder le) {rows xs : List ρ}
    (nodup : rows.Nodup) (hx : IsOrdered le rows xs) {limit : Nat} (pos : 0 < limit) :
    (∀ answer : Nat → List ρ, (∀ k, IsOrdered le rows (answer k)) →
        (allPages limit rows answer).Perm rows) ↔
      NoTieAcross le limit xs := by
  have hlen : xs.length = rows.length := hx.perm.length_eq
  constructor
  · intro partition k hk
    by_contra htie
    rw [Bool.not_eq_false, List.get_eq_getElem] at htie
    have hb : (k + 1) * limit - 1 < xs.length := by omega
    have hmul : (k + 1) * limit = k * limit + limit := Nat.succ_mul k limit
    -- the boundary rows `c` and `d`, and the answer that returns them the other way round
    obtain ⟨l, c, d, r, hl, hsplit⟩ : ∃ l c d r, l.length = (k + 1) * limit - 1 ∧
        xs = l ++ c :: d :: r := by
      refine ⟨xs.take ((k + 1) * limit - 1), xs[(k + 1) * limit - 1], xs[(k + 1) * limit],
        xs.drop ((k + 1) * limit + 1), by rw [List.length_take]; omega, ?_⟩
      have hnext : (k + 1) * limit - 1 + 1 = (k + 1) * limit := by omega
      calc xs = xs.take ((k + 1) * limit - 1) ++ xs.drop ((k + 1) * limit - 1) :=
            (List.take_append_drop _ _).symm
        _ = _ := by
            rw [List.drop_eq_getElem_cons hb]
            simp only [hnext]
            rw [List.drop_eq_getElem_cons hk]
    subst hsplit
    have hc : (l ++ c :: d :: r)[(k + 1) * limit - 1] = c := by
      simp [List.getElem_append_right, hl]
    have hd : (l ++ c :: d :: r)[(k + 1) * limit] = d := by
      have : (k + 1) * limit - l.length = 1 := by omega
      rw [List.getElem_append_right (by omega)]
      simp [this]
    rw [hc, hd] at htie
    have hy := swap_isOrdered hx htie
    let answer : Nat → List ρ := fun j => if j ≤ k then l ++ c :: d :: r else l ++ d :: c :: r
    have hperm := partition answer fun j => by
      by_cases hj : j ≤ k
      · simpa only [answer, hj, if_true] using hx
      · simpa only [answer, hj, if_false] using hy
    have hdisj := (List.nodup_flatMap.mp (hperm.nodup_iff.mpr nodup)).2
    have hpages : k + 1 < totalPages rows.length limit := lt_totalPages pos (hlen ▸ hk)
    have hapart := List.pairwise_iff_getElem.mp hdisj k (k + 1) (by simpa using by omega)
      (by simpa using hpages) (by omega)
    simp only [List.getElem_range, Function.onFun] at hapart
    have hfirst : c ∈ window (k * limit) limit (answer k) := by
      have := mem_window (k * limit) limit hb (by omega) (by omega)
      rw [hc] at this
      simpa only [answer, le_refl, if_true] using this
    have hsecond : c ∈ window ((k + 1) * limit) limit (answer (k + 1)) := by
      have hk' : (k + 1) * limit < (l ++ d :: c :: r).length := by
        simpa using hk
      have := mem_window ((k + 1) * limit) limit hk' le_rfl (by omega)
      have hget : (l ++ d :: c :: r)[(k + 1) * limit] = c := by
        have : (k + 1) * limit - l.length = 1 := by omega
        rw [List.getElem_append_right (by omega)]
        simp [this]
      rw [hget] at this
      have hnot : ¬k + 1 ≤ k := by omega
      simpa only [answer, hnot, if_false] using this
    exact hapart hfirst hsecond
  · intro boundary answer hanswer
    have hwindows : (allPages limit rows answer).Perm
        ((List.range (totalPages rows.length limit)).flatMap fun k =>
          window (k * limit) limit xs) :=
      List.Perm.flatMap_left _ fun k _ =>
        (window_perm order hx (hanswer k) boundary k).symm
    rw [flatMap_window, List.take_of_length_le (hlen ▸ length_le_totalPages _ pos)] at hwindows
    exact hwindows.trans hx.perm

/-- The pages `1..totalPages` all come back and, whatever each returns, give every row exactly
once. -/
structure Partitions {α : Type} (returns : Nat → α → Prop) (data : α → List ρ) (pages : α → Nat)
    (rows : List ρ) : Prop where
  first : ∃ a, returns 0 a
  others : ∀ a, returns 0 a → ∀ k < pages a, ∃ b, returns k b
  perm : ∀ answer : Nat → α, returns 0 (answer 0) →
    (∀ k < pages (answer 0), returns k (answer k)) →
      ((List.range (pages (answer 0))).flatMap fun k => data (answer k)).Perm rows

/-- The same for an endpoint that reads some pages and refuses the others, and whose page `k + 1`
returns a window of any permitted answer from an offset of its own, together with the number of
pages. -/
theorem answers_perm_iff {α : Type} {le : ρ → ρ → Bool} (order : IsPreorder le) {rows : List ρ}
    (nodup : rows.Nodup) {limit : Nat} (pos : 0 < limit) {returns : Nat → α → Prop}
    (data : α → List ρ) (pages : α → Nat) (reads : Nat → Prop) {skip : Nat → Nat}
    (mono : Monotone skip)
    (every : ∀ k rank, reads k → ∃ a, returns k a ∧
      data a = window (skip k) limit (orderBy rank le rows))
    (only : ∀ k a, returns k a → reads k ∧ pages a = totalPages rows.length limit ∧
      ∃ rank, data a = window (skip k) limit (orderBy rank le rows)) :
    Partitions returns data pages rows ↔ NoTieAcross le limit (orderBy id le rows) ∧
      reads 0 ∧ ∀ k < totalPages rows.length limit, reads k ∧ skip k = k * limit := by
  rw [← pages_perm_iff order nodup (orderBy_isOrdered order rows) pos]
  have count : ∀ {a}, returns 0 a → pages a = totalPages rows.length limit :=
    fun first => (only 0 _ first).2.1
  constructor
  · rintro ⟨⟨a, first⟩, others, perm⟩
    have all : ∀ k < totalPages rows.length limit, reads k := by
      intro k hk
      obtain ⟨b, hb⟩ := others a first k (by rwa [count first])
      exact (only k b hb).1
    -- whatever order each page sees, the windows give the rows once
    have windows : ∀ rank : Nat → Nat → Nat,
        ((List.range (totalPages rows.length limit)).flatMap fun k =>
          window (skip k) limit (orderBy (rank k) le rows)).Perm rows := by
      intro rank
      -- what a page beyond the last would return does not matter
      have page : ∀ k, ∃ b, reads k → returns k b ∧
          data b = window (skip k) limit (orderBy (rank k) le rows) := by
        intro k
        by_cases hk : reads k
        · obtain ⟨b, hb⟩ := every k (rank k) hk
          exact ⟨b, fun _ => hb⟩
        · exact ⟨a, fun here => absurd here hk⟩
      choose b hb using page
      have start := (hb 0 (only 0 a first).1).1
      have hperm := perm b start fun k hk => (hb k (all k (by rwa [count start] at hk))).1
      have same : ((List.range (pages (b 0))).flatMap fun k => data (b k)) =
          (List.range (totalPages rows.length limit)).flatMap fun k =>
            window (skip k) limit (orderBy (rank k) le rows) := by
        rw [count start]
        exact List.flatMap_congr fun k hk => (hb k (all k (List.mem_range.mp hk))).2
      exact same ▸ hperm
    have ordered : IsOrdered le rows (orderBy id le rows) := orderBy_isOrdered order rows
    have exactly : ∀ k < totalPages rows.length limit, skip k = k * limit := by
      have once := (windows fun _ => id).trans ordered.perm.symm
      rw [← ordered.perm.length_eq] at once ⊢
      exact skip_eq_of_perm (ordered.perm.nodup_iff.mpr nodup) mono once
    refine ⟨fun answer hanswer => ?_, (only 0 a first).1, fun k hk => ⟨all k hk, exactly k hk⟩⟩
    choose rank hrank using fun k => exists_rank order (hanswer k)
    have same : ((List.range (totalPages rows.length limit)).flatMap fun k =>
        window (skip k) limit (orderBy (rank k) le rows)) = allPages limit rows answer := by
      refine List.flatMap_congr fun k hk => ?_
      rw [exactly k (List.mem_range.mp hk), hrank]
    exact same ▸ windows rank
  · rintro ⟨partition, zero, all⟩
    refine ⟨?_, fun a first k hk => ?_, fun answer first hanswer => ?_⟩
    · obtain ⟨a, ha, -⟩ := every 0 id zero
      exact ⟨a, ha⟩
    · obtain ⟨b, hb, -⟩ := every k id (all k (by rwa [count first] at hk)).1
      exact ⟨b, hb⟩
    · rw [count first] at hanswer ⊢
      have page : ∀ k, ∃ rank, k < totalPages rows.length limit →
          data (answer k) = window (k * limit) limit (orderBy rank le rows) := by
        intro k
        by_cases hk : k < totalPages rows.length limit
        · obtain ⟨rank, hrank⟩ := (only k _ (hanswer k hk)).2.2
          rw [(all k hk).2] at hrank
          exact ⟨rank, fun _ => hrank⟩
        · exact ⟨id, fun here => absurd here hk⟩
      choose rank hrank using page
      have same : ((List.range (totalPages rows.length limit)).flatMap fun k => data (answer k)) =
          allPages limit rows fun k => orderBy (rank k) le rows :=
        List.flatMap_congr fun k hk => hrank k (List.mem_range.mp hk)
      rw [same]
      exact partition _ fun k => orderBy_isOrdered order rows

/-- Sorting by a time, newest first, is a total preorder. -/
theorem newestFirst_isPreorder (time : ρ → Int) :
    IsPreorder fun a b => decide (time b ≤ time a) where
  total a b := by
    simp only [decide_eq_true_eq]
    omega
  trans a b c hab hbc := by
    simp only [decide_eq_true_eq] at *
    omega

end GuitarCoach.Relational
