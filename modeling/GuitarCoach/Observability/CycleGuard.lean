/- digest: On acyclic values the cycle guard is invisible just when no object is shared. -/

import GuitarCoach.Observability.ObjectGraphs
import GuitarCoach.PartialMaps

/-!
`redact` never forgets an object that it has entered, so it takes a second reference for a cycle.
On a graph without cycles that is the only trace it leaves: the output is that of the recursion
without the guard exactly if no object is met at two places.
-/

set_option autoImplicit false
set_option relaxedAutoImplicit false

namespace GuitarCoach

open Value (reached objects_array objects_object)

variable {ν : Type}

/-! ### Objects met twice in a value -/

/-- No entry is under `__proto__`. -/
inductive Value.Plain : Value ν → Prop
  | primitive {p : Primitive} : Plain (.primitive p)
  | error {name message : String} {stack : Option String} : Plain (.error name message stack)
  | array {items : List (Value ν)} : (∀ v ∈ items, Plain v) → Plain (.array items)
  | object {i : ν} {entries : List (String × Value ν)} : (∀ e ∈ entries, e.1 ≠ "__proto__") →
    (∀ e ∈ entries, Plain e.2) → Plain (.object i entries)

section Guard

variable [DecidableEq ν]

/-- What was met first was not seen before, and is not met again. -/
private theorem apart_of_fresh {first later : List ν} {seen : Finset ν}
    (here : first.Nodup ∧ ∀ i ∈ first, i ∉ seen)
    (rest : later.Nodup ∧ ∀ i ∈ later, i ∉ seen ∪ first.toFinset) :
    (first ++ later).Nodup ∧ ∀ i ∈ first ++ later, i ∉ seen := by
  refine ⟨here.1.append rest.1 fun i met again => ?_, fun i hi before => ?_⟩
  · exact rest.2 i again (Finset.mem_union_right _ (List.mem_toFinset.mpr met))
  · rcases List.mem_append.mp hi with met | later
    · exact here.2 i met before
    · exact rest.2 i later (Finset.mem_union_left _ before)

private theorem items_fresh {items : List (Value ν)}
    (each : ∀ v ∈ items, ∀ seen : Finset ν, (redact v seen).1 = redactTree v →
      (reached v).Nodup ∧ ∀ i ∈ reached v, i ∉ seen) (seen : Finset ν)
    (same : (redactItems items seen).1 = redactTreeItems items) :
    (items.flatMap reached).Nodup ∧ ∀ i ∈ items.flatMap reached, i ∉ seen := by
  induction items generalizing seen with
  | nil => simp
  | cons v items ih =>
    rw [redactItems_cons, redactTreeItems] at same
    obtain ⟨first, rest⟩ := List.cons.inj same
    have here := each v List.mem_cons_self seen first
    rw [redact_tree v seen here.1 here.2] at rest
    have later := ih (fun w hw => each w (List.mem_cons_of_mem v hw)) _ rest
    rw [List.flatMap_cons]
    exact apart_of_fresh here later

private theorem entries_fresh {entries : List (String × Value ν)}
    (plain : ∀ e ∈ entries, e.1 ≠ "__proto__")
    (each : ∀ e ∈ entries, ∀ seen : Finset ν, (redact e.2 seen).1 = redactTree e.2 →
      (reached e.2).Nodup ∧ ∀ i ∈ reached e.2, i ∉ seen) (seen : Finset ν)
    (same : (redactEntries entries seen).1 = redactTreeEntries entries) :
    ((entries.filter fun e => !isSensitive e.1).flatMap fun e => reached e.2).Nodup ∧
      ∀ i ∈ (entries.filter fun e => !isSensitive e.1).flatMap fun e => reached e.2,
        i ∉ seen := by
  induction entries generalizing seen with
  | nil => simp
  | cons e entries ih =>
    obtain ⟨key, v⟩ := e
    have ordinary : key ≠ "__proto__" := plain (key, v) List.mem_cons_self
    have ih := ih (fun e he => plain e (List.mem_cons_of_mem _ he))
      fun e he => each e (List.mem_cons_of_mem _ he)
    cases sensitive : isSensitive key with
    | true =>
      rw [redactEntries_cons_sensitive sensitive, redactTreeEntries, if_pos sensitive, assign,
        assign, if_neg ordinary, if_neg ordinary] at same
      rw [List.filter_cons_of_neg (by simp [sensitive])]
      exact ih seen (List.cons.inj same).2
    | false =>
      rw [redactEntries_cons sensitive, redactTreeEntries, if_neg (by simp [sensitive]), assign,
        assign, if_neg ordinary, if_neg ordinary] at same
      obtain ⟨first, rest⟩ := List.cons.inj same
      have here := each (key, v) List.mem_cons_self seen (congrArg Prod.snd first)
      rw [redact_tree v seen here.1 here.2] at rest
      rw [List.filter_cons_of_pos (by simp [sensitive]), List.flatMap_cons]
      exact apart_of_fresh here (ih _ rest)

/-- Where the guard is invisible, every object is met for the first time. -/
private theorem fresh_of_same {v : Value ν} (plain : v.Plain) (seen : Finset ν)
    (same : (redact v seen).1 = redactTree v) :
    (reached v).Nodup ∧ ∀ i ∈ reached v, i ∉ seen := by
  induction plain generalizing seen with
  | primitive => exact ⟨List.nodup_nil, nofun⟩
  | error => exact ⟨List.nodup_nil, nofun⟩
  | @array items _ ih =>
    have met : reached (.array items) = items.flatMap reached := objects_array _ items
    rw [redact_array, redactTree] at same
    rw [met]
    exact items_fresh ih seen (Redacted.array.inj same)
  | @object i entries keys _ ih =>
    have met : reached (.object i entries) =
        i :: (entries.filter fun e => !isSensitive e.1).flatMap fun e => reached e.2 :=
      objects_object _ i entries
    rw [redact_object] at same
    split at same
    · cases same
    · next new =>
      rw [redactTree] at same
      obtain ⟨nodup, fresh⟩ := entries_fresh keys ih (insert i seen)
        (Redacted.object.inj same)
      rw [met, List.nodup_cons, List.forall_mem_cons]
      refine ⟨⟨fun again => ?_, nodup⟩, new, fun j hj before => ?_⟩
      · exact fresh i again (Finset.mem_insert_self i seen)
      · exact fresh j hj (Finset.mem_insert_of_mem before)

/-- The guard is invisible in a value just when no object is met twice. -/
theorem redact_eq_redactTree_iff {v : Value ν} (plain : v.Plain) :
    (redact v ∅).1 = redactTree v ↔ (reached v).Nodup := by
  constructor
  · intro same
    exact (fresh_of_same plain ∅ same).1
  · intro nodup
    rw [redact_tree v ∅ nodup fun i _ => Finset.notMem_empty i]

end Guard

/-! ### Graphs without cycles -/

namespace ObjectGraph

/-- The node `m` stands in the node `n`, under whatever key. -/
def Contains (g : ObjectGraph ν) (n m : ν) : Prop :=
  match g.node n with
  | .array items => .ref m ∈ items
  | .object entries => ∃ e ∈ entries, e.2 = .ref m

/-- The value is what stands at the slot, shared nodes written out at each of their places. -/
def Unfolds (g : ObjectGraph ν) (s : Slot ν) (v : Value ν) : Prop := ∃ room, g.unfold room s = some v

/-- `redact` returns this from the slot. -/
def RedactsTo [DecidableEq ν] (g : ObjectGraph ν) (s : Slot ν) (output : Redacted) : Prop :=
  ∃ room seen, g.redact room s ∅ = some (output, seen)

section Unfolding

variable {g : ObjectGraph ν}

theorem unfold_mono {room room' : Nat} (le : room ≤ room') {s : Slot ν} {v : Value ν}
    (unfolded : g.unfold room s = some v) : g.unfold room' s = some v := by
  induction room generalizing room' s v with
  | zero => cases unfolded
  | succ room ih =>
    obtain ⟨room', rfl⟩ : ∃ more, room' = more + 1 := ⟨room' - 1, by omega⟩
    have more : ∀ s v, g.unfold room s = some v → g.unfold room' s = some v :=
      fun s v => ih (by omega)
    cases s with
    | primitive p => exact unfolded
    | error name message stack => exact unfolded
    | ref n =>
      rw [unfold] at unfolded ⊢
      cases node : g.node n with
      | array items =>
        simp only [node] at unfolded ⊢
        obtain ⟨values, below, rfl⟩ := Option.map_eq_some_iff.mp unfolded
        rw [mapM_mono more below]
        rfl
      | object entries =>
        simp only [node] at unfolded ⊢
        obtain ⟨values, below, rfl⟩ := Option.map_eq_some_iff.mp unfolded
        rw [mapM_mono (fun e pair => ?_) below]
        · rfl
        · intro entry
          obtain ⟨v, value, rfl⟩ := Option.map_eq_some_iff.mp entry
          exact Option.map_eq_some_iff.mpr ⟨v, more e.2 v value, rfl⟩

theorem plain_of_unfold {room : Nat} {s : Slot ν} {v : Value ν}
    (unfolded : g.unfold room s = some v) : Value.Plain v := by
  induction room generalizing s v with
  | zero => cases unfolded
  | succ room ih =>
    cases s with
    | primitive p =>
      cases unfolded
      exact .primitive
    | error name message stack =>
      cases unfolded
      exact .error
    | ref n =>
      rw [unfold] at unfolded
      cases node : g.node n with
      | array items =>
        simp only [node] at unfolded
        obtain ⟨values, below, rfl⟩ := Option.map_eq_some_iff.mp unfolded
        refine .array fun v hv => ?_
        obtain ⟨s, -, value⟩ := mem_of_mapM below hv
        exact ih value
      | object entries =>
        simp only [node] at unfolded
        obtain ⟨values, below, rfl⟩ := Option.map_eq_some_iff.mp unfolded
        refine .object (fun pair hpair => ?_) fun pair hpair => ?_
        · obtain ⟨e, he, entry⟩ := mem_of_mapM below hpair
          obtain ⟨v, -, rfl⟩ := Option.map_eq_some_iff.mp entry
          exact g.plain n entries node e he
        · obtain ⟨e, he, entry⟩ := mem_of_mapM below hpair
          obtain ⟨v, value, rfl⟩ := Option.map_eq_some_iff.mp entry
          exact ih value

/-- A finite graph without cycles can be written out. -/
theorem exists_unfolds [Finite ν] (acyclic : ∀ n, ¬Relation.TransGen g.Contains n n)
    (s : Slot ν) : ∃ v, g.Unfolds s v := by
  have wellFounded : WellFounded (Relation.TransGen fun m n => g.Contains n m) := by
    have irreflexive : Std.Irrefl (Relation.TransGen fun m n => g.Contains n m) :=
      ⟨fun n cycle => acyclic n (Relation.transGen_swap.mp cycle)⟩
    have transitive : IsTrans ν (Relation.TransGen fun m n => g.Contains n m) :=
      ⟨fun _ _ _ => Relation.TransGen.trans⟩
    exact Finite.wellFounded_of_trans_of_irrefl _
  have nodes : ∀ n, ∃ room v, g.unfold room (.ref n) = some v := by
    intro n
    induction wellFounded.apply n with
    | intro n _ ih =>
      have slots : ∀ s, (∀ m, s = .ref m → g.Contains n m) →
          ∃ room v, g.unfold room s = some v := by
        intro s inside
        cases s with
        | primitive p => exact ⟨1, _, rfl⟩
        | error name message stack => exact ⟨1, _, rfl⟩
        | ref m => exact ih m (.single (inside m rfl))
      unfold Contains at slots
      cases node : g.node n with
      | array items =>
        simp only [node] at slots
        obtain ⟨room, values, below⟩ := mapM_room (f := g.unfold) (fun le => unfold_mono le) fun s hs =>
          slots s fun m same => same ▸ hs
        exact ⟨room + 1, .array values, by rw [unfold, node]; simp [below]⟩
      | object entries =>
        simp only [node] at slots
        obtain ⟨room, values, below⟩ := mapM_room
          (f := fun room (e : String × Slot ν) => (g.unfold room e.2).map (e.1, ·))
          (fun le entry => by
            obtain ⟨v, value, rfl⟩ := Option.map_eq_some_iff.mp entry
            exact Option.map_eq_some_iff.mpr ⟨v, unfold_mono le value, rfl⟩)
          fun e he => by
            obtain ⟨room, v, value⟩ := slots e.2 fun m same => ⟨e, he, same⟩
            exact ⟨room, (e.1, v), Option.map_eq_some_iff.mpr ⟨v, value, rfl⟩⟩
        exact ⟨room + 1, .object n values, by rw [unfold, node]; simp [below]⟩
  cases s with
  | primitive p => exact ⟨_, 1, rfl⟩
  | error name message stack => exact ⟨_, 1, rfl⟩
  | ref n =>
    obtain ⟨room, v, unfolded⟩ := nodes n
    exact ⟨v, room, unfolded⟩

variable [DecidableEq ν]

/-- Written out or not, what `redact` returns is the same. -/
theorem redactsTo_iff {s : Slot ν} {v : Value ν} (unfolds : g.Unfolds s v) (output : Redacted) :
    g.RedactsTo s output ↔ (GuitarCoach.redact v ∅).1 = output := by
  obtain ⟨room, unfolded⟩ := unfolds
  have returned := redact_unfold unfolded ∅
  constructor
  · rintro ⟨room', seen, returned'⟩
    have first := redact_mono (le_max_left room room') returned
    have second := redact_mono (le_max_right room room') returned'
    exact congrArg Prod.fst (Option.some.inj (first.symm.trans second))
  · rintro rfl
    exact ⟨room, _, returned⟩

end Unfolding

/-- On a finite graph without cycles, `redact` returns what the recursion without the guard
returns on the graph written out, just when no object stands at two places that it looks at. -/
theorem cycle_guard_invisible_iff [DecidableEq ν] [Finite ν] (g : ObjectGraph ν) (root : Slot ν)
    (acyclic : ∀ n, ¬Relation.TransGen g.Contains n n) : ∃ v, g.Unfolds root v ∧
      (g.RedactsTo root (redactTree v) ↔ (reached v).Nodup) := by
  obtain ⟨v, unfolds⟩ := exists_unfolds acyclic root
  refine ⟨v, unfolds, ?_⟩
  obtain ⟨room, unfolded⟩ := unfolds
  rw [redactsTo_iff ⟨room, unfolded⟩]
  exact redact_eq_redactTree_iff (plain_of_unfold unfolded)

/-- One object under two keys of another: `{ a: x, b: x }` where `x` is `{}`. -/
private def twice : ObjectGraph Bool where
  node
    | true => .object [("a", .ref false), ("b", .ref false)]
    | false => .object []
  plain n entries node e he := by
    cases n with
    | true =>
      cases node
      rcases List.mem_cons.mp he with rfl | he
      · decide
      · rcases List.mem_singleton.mp he with rfl
        decide
    | false =>
      cases node
      cases he

private theorem twice_acyclic (n : Bool) : ¬Relation.TransGen twice.Contains n n := by
  have down : ∀ n m, twice.Contains n m → n = true ∧ m = false := by
    intro n m contains
    cases n with
    | true =>
      obtain ⟨e, he, same⟩ := contains
      rcases List.mem_cons.mp he with rfl | he
      · exact ⟨rfl, (Slot.ref.inj same).symm⟩
      · rcases List.mem_singleton.mp he with rfl
        exact ⟨rfl, (Slot.ref.inj same).symm⟩
    | false =>
      obtain ⟨e, he, -⟩ := contains
      cases he
  intro cycle
  obtain ⟨_, first, -⟩ := Relation.TransGen.head'_iff.mp cycle
  obtain ⟨_, -, last⟩ := Relation.TransGen.tail'_iff.mp cycle
  have top := (down _ _ first).1
  have bottom := (down _ _ last).2
  rw [top] at bottom
  cases bottom

theorem cycle_guard_invisible_iff_twice : ∃ v, twice.Unfolds (.ref true) v ∧
    (twice.RedactsTo (.ref true) (redactTree v) ↔ (reached v).Nodup) :=
  cycle_guard_invisible_iff twice (.ref true) twice_acyclic

/-- The second reference to a shared object is written as a cycle. -/
theorem shared_object_taken_for_cycle : ¬∀ (ν : Type) [DecidableEq ν] [Finite ν]
    (g : ObjectGraph ν) (root : Slot ν), (∀ n, ¬Relation.TransGen g.Contains n n) →
      ∀ v, g.Unfolds root v → g.RedactsTo root (redactTree v) := by
  intro claim
  let v : Value Bool := .object true [("a", .object false []), ("b", .object false [])]
  have unfolds : twice.Unfolds (.ref true) v := ⟨2, rfl⟩
  have same := (redactsTo_iff unfolds _).mp (claim Bool twice (.ref true) twice_acyclic v unfolds)
  have plain : Value.Plain v := plain_of_unfold unfolds.choose_spec
  have once := (redact_eq_redactTree_iff plain).mp same
  revert once
  decide

end ObjectGraph

end GuitarCoach
