/- digest: redact on object graphs: it ends just when no array holds itself through arrays. -/

import GuitarCoach.Observability.Trees

/-!
The nodes of a graph are its objects and arrays, and a slot of one may refer to any node. Only
objects are remembered, so a cycle is cut at its objects, and one of arrays alone is followed
until the stack is full.
-/

set_option autoImplicit false
set_option relaxedAutoImplicit false

namespace GuitarCoach

/-- What a property or an array item holds. -/
inductive Slot (ν : Type)
  | primitive (p : Primitive)
  | error (name message : String) (stack : Option String)
  | ref (n : ν)

inductive Node (ν : Type)
  | array (items : List (Slot ν))
  | object (entries : List (String × Slot ν))

/-- A graph of arrays and plain objects. -/
structure ObjectGraph (ν : Type) where
  node : ν → Node ν
  plain : ∀ n entries, node n = .object entries → ∀ e ∈ entries, e.1 ≠ "__proto__"

namespace ObjectGraph

variable {ν : Type}

section Redact

variable [DecidableEq ν]

/-- The items of an array one after the other, each by `f`. -/
def redactItems (f : Slot ν → Finset ν → Option (Redacted × Finset ν)) :
    List (Slot ν) → Finset ν → Option (List Redacted × Finset ν)
  | [], seen => some ([], seen)
  | item :: items, seen => do
    let (first, seen) ← f item seen
    let (rest, seen) ← redactItems f items seen
    return (first :: rest, seen)

def redactEntries (f : Slot ν → Finset ν → Option (Redacted × Finset ν)) :
    List (String × Slot ν) → Finset ν → Option (List (String × Redacted) × Finset ν)
  | [], seen => some ([], seen)
  | (key, entryValue) :: entries, seen => do
    let (value, seen) ←
      if isSensitive key then some (.primitive (.string redactedText), seen)
      else f entryValue seen
    let (rest, seen) ← redactEntries f entries seen
    return (assign key value rest, seen)

/-- `redact` on a stack that has room for so many calls, `none` when it is exhausted. -/
def redact (g : ObjectGraph ν) :
    Nat → Slot ν → Finset ν → Option (Redacted × Finset ν)
  | 0, _, _ => none
  | _ + 1, .primitive p, seen => some (.primitive (redactPrimitive p), seen)
  | _ + 1, .error name message stack, seen => some (redactError name message stack, seen)
  | room + 1, .ref n, seen =>
    match g.node n with
    | .array items => do
      let (output, seen) ← redactItems (g.redact room) items seen
      return (.array output, seen)
    | .object entries =>
      if n ∈ seen then some (.primitive (.string "[CIRCULAR]"), seen)
      else do
        let (output, seen) ← redactEntries (g.redact room) entries (insert n seen)
        return (.object output, seen)

/-- `redact(root)` returns, and `JSON.stringify` takes what it returns. -/
def Logs (g : ObjectGraph ν) (root : Slot ν) : Prop :=
  ∃ room output seen text, g.redact room root ∅ = some (output, seen) ∧
    stringify output = .ok text

end Redact

/-! ### Places -/

/-- A place that `redact` looks at when it enters the node. -/
def Holds (g : ObjectGraph ν) (n : ν) (s : Slot ν) : Prop :=
  match g.node n with
  | .array items => s ∈ items
  | .object entries => ∃ e ∈ entries, isSensitive e.1 = false ∧ e.2 = s

/-- The array `n` has the node `m` among its items. -/
def Item (g : ObjectGraph ν) (n m : ν) : Prop := ∃ items, g.node n = .array items ∧ .ref m ∈ items

/-- The node can be reached without passing a sensitive key. -/
def Reaches (g : ObjectGraph ν) (root : Slot ν) (n : ν) : Prop :=
  ∃ first, root = .ref first ∧ Relation.ReflTransGen (fun n m => g.Holds n (.ref m)) first n

/-- The primitive stands at the root or in a node that can be reached. -/
def Shows (g : ObjectGraph ν) (root : Slot ν) (p : Primitive) : Prop :=
  root = .primitive p ∨ ∃ n, g.Reaches root n ∧ g.Holds n (.primitive p)

theorem Item.holds {g : ObjectGraph ν} {n m : ν} (item : g.Item n m) : g.Holds n (.ref m) := by
  obtain ⟨items, node, there⟩ := item
  unfold Holds
  rw [node]
  exact there

theorem reaches_step {g : ObjectGraph ν} {root : Slot ν} {n m : ν} (reached : g.Reaches root n)
    (holds : g.Holds n (.ref m)) : g.Reaches root m := by
  obtain ⟨first, rfl, path⟩ := reached
  exact ⟨first, rfl, path.tail holds⟩

private theorem shows_below {g : ObjectGraph ν} {n : ν} {s : Slot ν} {p : Primitive}
    (holds : g.Holds n s) (shown : g.Shows s p) : g.Shows (.ref n) p := by
  rcases shown with rfl | ⟨m, ⟨first, rfl, path⟩, there⟩
  · exact .inr ⟨n, ⟨n, rfl, .refl⟩, holds⟩
  · exact .inr ⟨m, ⟨n, rfl, .head holds path⟩, there⟩

/-! ### One call of redact -/

section Calls

variable {f f' : Slot ν → Finset ν → Option (Redacted × Finset ν)}

theorem redactItems_cons_some {item : Slot ν} {items : List (Slot ν)} {seen : Finset ν}
    {r : List Redacted × Finset ν} (returned : redactItems f (item :: items) seen = some r) :
    ∃ first rest, f item seen = some first ∧ redactItems f items first.2 = some rest ∧
      r = (first.1 :: rest.1, rest.2) := by
  obtain ⟨first, hfirst, returned⟩ := Option.bind_eq_some_iff.mp returned
  obtain ⟨rest, hrest, returned⟩ := Option.bind_eq_some_iff.mp returned
  exact ⟨first, rest, hfirst, hrest, (Option.some.inj returned).symm⟩

/-- A sensitive value is replaced and not looked at. -/
theorem redactEntries_cons_some {key : String} {s : Slot ν} {entries : List (String × Slot ν)}
    {seen : Finset ν} {r : List (String × Redacted) × Finset ν}
    (returned : redactEntries f ((key, s) :: entries) seen = some r) :
    ∃ first rest, redactEntries f entries first.2 = some rest ∧
      r = (assign key first.1 rest.1, rest.2) ∧
      ((isSensitive key = true ∧ first = (.primitive (.string redactedText), seen)) ∨
        (isSensitive key = false ∧ f s seen = some first)) := by
  rw [redactEntries] at returned
  split at returned
  · next hidden =>
    obtain ⟨first, hfirst, returned⟩ := Option.bind_eq_some_iff.mp returned
    obtain ⟨rest, hrest, returned⟩ := Option.bind_eq_some_iff.mp returned
    exact ⟨first, rest, hrest, (Option.some.inj returned).symm,
      .inl ⟨hidden, (Option.some.inj hfirst).symm⟩⟩
  · next shown =>
    obtain ⟨first, hfirst, returned⟩ := Option.bind_eq_some_iff.mp returned
    obtain ⟨rest, hrest, returned⟩ := Option.bind_eq_some_iff.mp returned
    exact ⟨first, rest, hrest, (Option.some.inj returned).symm,
      .inr ⟨Bool.eq_false_iff.mpr shown, hfirst⟩⟩

private theorem redactItems_mono (more : ∀ s seen r, f s seen = some r → f' s seen = some r)
    {items : List (Slot ν)} {seen : Finset ν} {r : List Redacted × Finset ν}
    (returned : redactItems f items seen = some r) : redactItems f' items seen = some r := by
  induction items generalizing seen r with
  | nil => exact returned
  | cons item items ih =>
    obtain ⟨first, rest, hfirst, hrest, rfl⟩ := redactItems_cons_some returned
    rw [redactItems, more _ _ _ hfirst]
    simp [ih hrest]

private theorem redactEntries_mono (more : ∀ s seen r, f s seen = some r → f' s seen = some r)
    {entries : List (String × Slot ν)} {seen : Finset ν} {r : List (String × Redacted) × Finset ν}
    (returned : redactEntries f entries seen = some r) : redactEntries f' entries seen = some r := by
  induction entries generalizing seen r with
  | nil => exact returned
  | cons e entries ih =>
    obtain ⟨key, s⟩ := e
    obtain ⟨first, rest, hrest, rfl, hfirst⟩ := redactEntries_cons_some returned
    rw [redactEntries]
    rcases hfirst with ⟨hidden, rfl⟩ | ⟨shown, hfirst⟩
    · simp [hidden, ih hrest]
    · simp [shown, more _ _ _ hfirst, ih hrest]

variable [DecidableEq ν]

/-- What a call on a node does: an array's items, the text for a node met before, or the entries
of a new one. -/
theorem redact_ref_some {g : ObjectGraph ν} {room : Nat} {n : ν} {seen : Finset ν}
    {r : Redacted × Finset ν} (returned : g.redact (room + 1) (.ref n) seen = some r) :
    (∃ items rest, g.node n = .array items ∧
      redactItems (g.redact room) items seen = some rest ∧ r = (.array rest.1, rest.2)) ∨
    (∃ entries, g.node n = .object entries ∧ n ∈ seen ∧
      r = (.primitive (.string "[CIRCULAR]"), seen)) ∨
    ∃ entries rest, g.node n = .object entries ∧ n ∉ seen ∧
      redactEntries (g.redact room) entries (insert n seen) = some rest ∧
      r = (.object rest.1, rest.2) := by
  rw [redact] at returned
  cases node : g.node n with
  | array items =>
    simp only [node] at returned
    obtain ⟨rest, hrest, returned⟩ := Option.bind_eq_some_iff.mp returned
    exact .inl ⟨items, rest, rfl, hrest, (Option.some.inj returned).symm⟩
  | object entries =>
    simp only [node] at returned
    split at returned
    · next met => exact .inr (.inl ⟨entries, rfl, met, (Option.some.inj returned).symm⟩)
    · next new =>
      obtain ⟨rest, hrest, returned⟩ := Option.bind_eq_some_iff.mp returned
      exact .inr (.inr ⟨entries, rest, rfl, new, hrest, (Option.some.inj returned).symm⟩)

/-- More room changes nothing. -/
theorem redact_mono {g : ObjectGraph ν} {room room' : Nat} (le : room ≤ room') {s : Slot ν}
    {seen : Finset ν} {r : Redacted × Finset ν} (returned : g.redact room s seen = some r) :
    g.redact room' s seen = some r := by
  induction room generalizing room' s seen r with
  | zero => cases returned
  | succ room ih =>
    cases room' with
    | zero => omega
    | succ room' =>
      have more := fun s seen r => @ih room' (by omega) s seen r
      cases s with
      | primitive p => exact returned
      | error name message stack => exact returned
      | ref n =>
        rcases redact_ref_some returned with ⟨items, rest, node, hrest, rfl⟩ |
          ⟨entries, node, met, rfl⟩ | ⟨entries, rest, node, new, hrest, rfl⟩
        · rw [redact]
          simp [node, redactItems_mono more hrest]
        · rw [redact]
          simp [node, met]
        · rw [redact]
          simp [node, new, redactEntries_mono more hrest]

end Calls

/-! ### What has been visited when a call returns -/

section Visited

variable {g : ObjectGraph ν} {S : Finset ν} {Q : Primitive → Prop}

/-- The slot has been redacted: its objects are among the visited ones `S`, and the BigInts that
it shows before any object have been written, so `Q` holds of them. -/
inductive Visited (g : ObjectGraph ν) (S : Finset ν) (Q : Primitive → Prop) : Slot ν → Prop
  | primitive {p : Primitive} : (∀ k, p = .bigint k → Q p) → Visited g S Q (.primitive p)
  | error {name message : String} {stack : Option String} :
    Visited g S Q (.error name message stack)
  | array {n : ν} {items : List (Slot ν)} : g.node n = .array items →
    (∀ s ∈ items, Visited g S Q s) → Visited g S Q (.ref n)
  | object {n : ν} {entries : List (String × Slot ν)} : g.node n = .object entries → n ∈ S →
    Visited g S Q (.ref n)

/-- All that the object shows has been redacted. -/
def Done (g : ObjectGraph ν) (S : Finset ν) (Q : Primitive → Prop) (n : ν) : Prop :=
  ∀ entries, g.node n = .object entries → ∀ e ∈ entries, isSensitive e.1 = false →
    Visited g S Q e.2

theorem Visited.mono {S' : Finset ν} (more : S ⊆ S') {s : Slot ν} (visited : Visited g S Q s) :
    Visited g S' Q s := by
  induction visited with
  | primitive written => exact .primitive written
  | error => exact .error
  | array node _ ih => exact .array node ih
  | object node there => exact .object node (more there)

theorem Done.mono {S' : Finset ν} (more : S ⊆ S') {n : ν} (done : Done g S Q n) :
    Done g S' Q n :=
  fun entries node e he shown => (done entries node e he shown).mono more

/-- In a finished run a visited node passes this on to what it holds. -/
private theorem Visited.holds (done : ∀ n ∈ S, Done g S Q n) {n : ν} {s : Slot ν}
    (visited : Visited g S Q (.ref n)) (holds : g.Holds n s) : Visited g S Q s := by
  unfold Holds at holds
  cases visited with
  | array node all =>
    rw [node] at holds
    exact all s holds
  | object node there =>
    rw [node] at holds
    obtain ⟨e, he, shown, rfl⟩ := holds
    exact done n there _ node e he shown

/-- A run from the root visits all that can be reached. -/
private theorem visited_of_reaches (done : ∀ n ∈ S, Done g S Q n) {root : Slot ν}
    (visited : Visited g S Q root) {n : ν} (reached : g.Reaches root n) :
    Visited g S Q (.ref n) := by
  obtain ⟨first, rfl, path⟩ := reached
  induction path with
  | refl => exact visited
  | tail _ holds ih => exact ih.holds done holds

/-- Arrays are visited only with all their items before. -/
private theorem acyclic_of_visited {n : ν} (visited : Visited g S Q (.ref n)) :
    ¬Relation.TransGen g.Item n n := by
  have accessible : Acc (fun m n => g.Item n m) n := by
    generalize slot : Slot.ref n = s at visited
    induction visited generalizing n with
    | primitive => cases slot
    | error => cases slot
    | array node all ih =>
      cases slot
      refine Acc.intro _ fun m item => ?_
      obtain ⟨items, node', there⟩ := item
      rw [node] at node'
      cases node'
      exact ih _ there rfl
    | object node there =>
      cases slot
      refine Acc.intro _ fun m item => ?_
      obtain ⟨items, node', -⟩ := item
      rw [node] at node'
      cases node'
  have apart : ∀ m, Acc (Relation.TransGen fun m n => g.Item n m) m →
      ¬Relation.TransGen (fun m n => g.Item n m) m m := by
    intro m accessible
    induction accessible with
    | intro m _ ih => exact fun loop => ih m loop loop
  exact fun cycle => apart n accessible.transGen (Relation.transGen_swap.mpr cycle)

/-- What a call of `f` leaves behind. -/
def Leaves (g : ObjectGraph ν) (f : Slot ν → Finset ν → Option (Redacted × Finset ν)) : Prop :=
  ∀ s seen output seen', f s seen = some (output, seen') → seen ⊆ seen' ∧
    ∀ Q : Primitive → Prop, (∀ p ∈ output.primitives, Q p) →
      Visited g seen' Q s ∧ ∀ n ∈ seen', n ∉ seen → Done g seen' Q n

private theorem items_leave {f : Slot ν → Finset ν → Option (Redacted × Finset ν)}
    (leaves : Leaves g f) {items : List (Slot ν)} {seen seen' : Finset ν}
    {outputs : List Redacted} (returned : redactItems f items seen = some (outputs, seen')) :
    seen ⊆ seen' ∧ ∀ Q : Primitive → Prop, (∀ p ∈ Redacted.primitivesOfItems outputs, Q p) →
      (∀ s ∈ items, Visited g seen' Q s) ∧ ∀ n ∈ seen', n ∉ seen → Done g seen' Q n := by
  induction items generalizing seen seen' outputs with
  | nil =>
    cases returned
    refine ⟨Finset.Subset.refl _, fun Q _ => ⟨nofun, fun n there new => absurd there new⟩⟩
  | cons s items ih =>
    obtain ⟨⟨first, mid⟩, ⟨rest, last⟩, hfirst, hrest, same⟩ := redactItems_cons_some returned
    cases same
    obtain ⟨grows, visits⟩ := leaves s seen first mid hfirst
    obtain ⟨grows', visits'⟩ := ih hrest
    refine ⟨grows.trans grows', fun Q written => ?_⟩
    simp only [Redacted.primitivesOfItems, List.mem_append, or_imp, forall_and] at written
    obtain ⟨here, done⟩ := visits Q written.1
    obtain ⟨later, done'⟩ := visits' Q written.2
    constructor
    · intro t ht
      rcases List.mem_cons.mp ht with rfl | ht
      · exact here.mono grows'
      · exact later t ht
    · intro n there new
      by_cases early : n ∈ mid
      · exact (done n early new).mono grows'
      · exact done' n there early

private theorem entries_leave {f : Slot ν → Finset ν → Option (Redacted × Finset ν)}
    (leaves : Leaves g f) {entries : List (String × Slot ν)} {seen seen' : Finset ν}
    {outputs : List (String × Redacted)} (plain : ∀ e ∈ entries, e.1 ≠ "__proto__")
    (returned : redactEntries f entries seen = some (outputs, seen')) :
    seen ⊆ seen' ∧ ∀ Q : Primitive → Prop, (∀ p ∈ Redacted.primitivesOfEntries outputs, Q p) →
      (∀ e ∈ entries, isSensitive e.1 = false → Visited g seen' Q e.2) ∧
        ∀ n ∈ seen', n ∉ seen → Done g seen' Q n := by
  induction entries generalizing seen seen' outputs with
  | nil =>
    cases returned
    refine ⟨Finset.Subset.refl _, fun Q _ => ⟨nofun, fun n there new => absurd there new⟩⟩
  | cons e entries ih =>
    obtain ⟨key, s⟩ := e
    obtain ⟨⟨first, mid⟩, ⟨rest, last⟩, hrest, same, hfirst⟩ := redactEntries_cons_some returned
    cases same
    obtain ⟨grows', visits'⟩ := ih (fun e he => plain e (List.mem_cons_of_mem _ he)) hrest
    have ordinary : key ≠ "__proto__" := plain (key, s) List.mem_cons_self
    rw [assign, if_neg ordinary]
    rcases hfirst with ⟨hidden, same⟩ | ⟨shown, hfirst⟩
    · cases same
      refine ⟨grows', fun Q written => ?_⟩
      simp only [Redacted.primitivesOfEntries, List.mem_append, or_imp, forall_and] at written
      obtain ⟨later, done'⟩ := visits' Q written.2
      refine ⟨fun e he shown => ?_, done'⟩
      rcases List.mem_cons.mp he with rfl | he
      · rw [hidden] at shown
        cases shown
      · exact later e he shown
    · obtain ⟨grows, visits⟩ := leaves s seen first mid hfirst
      refine ⟨grows.trans grows', fun Q written => ?_⟩
      simp only [Redacted.primitivesOfEntries, List.mem_append, or_imp, forall_and] at written
      obtain ⟨here, done⟩ := visits Q written.1
      obtain ⟨later, done'⟩ := visits' Q written.2
      constructor
      · intro e he shown
        rcases List.mem_cons.mp he with rfl | he
        · exact here.mono grows'
        · exact later e he shown
      · intro n there new
        by_cases early : n ∈ mid
        · exact (done n early new).mono grows'
        · exact done' n there early

variable [DecidableEq ν]

/-- When a call returns, all that it reaches has been redacted: the objects that it was the first
to enter are finished, and no array is left out. -/
theorem redact_leaves (g : ObjectGraph ν) (room : Nat) : Leaves g (g.redact room) := by
  induction room with
  | zero => exact fun s seen output seen' returned => nomatch returned
  | succ room ih =>
    intro s seen output seen' returned
    cases s with
    | primitive p =>
      cases returned
      refine ⟨Finset.Subset.refl _, fun Q written => ⟨.primitive fun k same => ?_,
        fun n there new => absurd there new⟩⟩
      subst same
      exact written _ (List.mem_singleton.mpr rfl)
    | error name message stack =>
      cases returned
      exact ⟨Finset.Subset.refl _, fun Q _ => ⟨.error, fun n there new => absurd there new⟩⟩
    | ref n =>
      rcases redact_ref_some returned with ⟨items, ⟨rest, last⟩, node, hrest, same⟩ |
        ⟨entries, node, met, same⟩ | ⟨entries, ⟨rest, last⟩, node, new, hrest, same⟩
      · cases same
        obtain ⟨grows, visits⟩ := items_leave ih hrest
        refine ⟨grows, fun Q written => ?_⟩
        obtain ⟨visited, done⟩ := visits Q written
        exact ⟨.array node visited, done⟩
      · cases same
        exact ⟨Finset.Subset.refl _, fun Q _ => ⟨.object node met,
          fun n there new => absurd there new⟩⟩
      · cases same
        obtain ⟨grows, visits⟩ := entries_leave ih (g.plain n entries node) hrest
        have entered := grows (Finset.mem_insert_self n seen)
        refine ⟨(Finset.subset_insert n seen).trans grows, fun Q written => ?_⟩
        obtain ⟨visited, done⟩ := visits Q written
        refine ⟨.object node entered, fun m there unseen => ?_⟩
        by_cases here : m = n
        · subst here
          intro entries' node'
          rw [node] at node'
          cases node'
          exact visited
        · apply done m there
          rw [Finset.mem_insert]
          rintro (same | before)
          · exact here same
          · exact unseen before

end Visited

/-! ### What is written was there -/

section Written

variable {g : ObjectGraph ν} {k : Int}

private theorem items_written {f : Slot ν → Finset ν → Option (Redacted × Finset ν)}
    (shows : ∀ s seen r, f s seen = some r → .bigint k ∈ r.1.primitives → g.Shows s (.bigint k))
    {items : List (Slot ν)} {seen : Finset ν} {r : List Redacted × Finset ν}
    (returned : redactItems f items seen = some r)
    (there : .bigint k ∈ Redacted.primitivesOfItems r.1) :
    ∃ s ∈ items, g.Shows s (.bigint k) := by
  induction items generalizing seen r with
  | nil =>
    cases returned
    cases there
  | cons s items ih =>
    obtain ⟨first, rest, hfirst, hrest, rfl⟩ := redactItems_cons_some returned
    rcases List.mem_append.mp there with here | later
    · exact ⟨s, List.mem_cons_self, shows s seen first hfirst here⟩
    · obtain ⟨t, ht, shown⟩ := ih hrest later
      exact ⟨t, List.mem_cons_of_mem s ht, shown⟩

private theorem entries_written {f : Slot ν → Finset ν → Option (Redacted × Finset ν)}
    (shows : ∀ s seen r, f s seen = some r → .bigint k ∈ r.1.primitives → g.Shows s (.bigint k))
    {entries : List (String × Slot ν)} {seen : Finset ν} {r : List (String × Redacted) × Finset ν}
    (returned : redactEntries f entries seen = some r)
    (there : .bigint k ∈ Redacted.primitivesOfEntries r.1) :
    ∃ e ∈ entries, isSensitive e.1 = false ∧ g.Shows e.2 (.bigint k) := by
  induction entries generalizing seen r with
  | nil =>
    cases returned
    cases there
  | cons e entries ih =>
    obtain ⟨key, s⟩ := e
    obtain ⟨first, rest, hrest, rfl, hfirst⟩ := redactEntries_cons_some returned
    have apart : .bigint k ∈ first.1.primitives ∨
        .bigint k ∈ Redacted.primitivesOfEntries rest.1 := by
      dsimp only [assign] at there
      split at there
      · exact .inr there
      · exact List.mem_append.mp there
    rcases apart with here | later
    · rcases hfirst with ⟨hidden, rfl⟩ | ⟨shown, hfirst⟩
      · rcases List.mem_singleton.mp here
      · exact ⟨(key, s), List.mem_cons_self, shown, shows s seen first hfirst here⟩
    · obtain ⟨t, ht, shown⟩ := ih hrest later
      exact ⟨t, List.mem_cons_of_mem _ ht, shown⟩

variable [DecidableEq ν]

private theorem shows_of_written (room : Nat) (s : Slot ν) (seen : Finset ν)
    (r : Redacted × Finset ν) (returned : g.redact room s seen = some r)
    (there : .bigint k ∈ r.1.primitives) : g.Shows s (.bigint k) := by
  induction room generalizing s seen r with
  | zero => cases returned
  | succ room ih =>
    cases s with
    | primitive p =>
      cases returned
      cases p with
      | bigint m =>
        have same := List.mem_singleton.mp there
        exact .inl (congrArg Slot.primitive same.symm)
      | _ => rcases List.mem_singleton.mp there
    | error name message stack =>
      cases returned
      cases stack <;> simp [redactError, Redacted.primitives, Redacted.primitivesOfEntries] at there
    | ref n =>
      rcases redact_ref_some returned with ⟨items, rest, node, hrest, rfl⟩ |
        ⟨entries, node, met, rfl⟩ | ⟨entries, rest, node, new, hrest, rfl⟩
      · obtain ⟨s, hs, shown⟩ := items_written ih hrest there
        refine shows_below ?_ shown
        unfold Holds
        rw [node]
        exact hs
      · rcases List.mem_singleton.mp there
      · obtain ⟨e, he, plain, shown⟩ := entries_written ih hrest there
        refine shows_below ?_ shown
        unfold Holds
        rw [node]
        exact ⟨e, he, plain, rfl⟩

end Written

/-! ### When a call returns -/

section Returns

variable [DecidableEq ν] {g : ObjectGraph ν}

/-- With room enough, `redact` returns for this slot. -/
def Returns (g : ObjectGraph ν) (s : Slot ν) (seen : Finset ν) : Prop :=
  ∃ room r, g.redact room s seen = some r

/-- What holds of a set of objects holds of every larger one. -/
private def Upward (P : Finset ν → Prop) : Prop := ∀ seen seen', P seen → seen ⊆ seen' → P seen'

private theorem items_return {P : Finset ν → Prop} (upward : Upward P) {items : List (Slot ν)}
    (each : ∀ s ∈ items, ∀ seen, P seen → g.Returns s seen) (seen : Finset ν) (holds : P seen) :
    ∃ room r, redactItems (g.redact room) items seen = some r := by
  induction items generalizing seen with
  | nil => exact ⟨0, ([], seen), rfl⟩
  | cons s items ih =>
    obtain ⟨room, first, hfirst⟩ := each s List.mem_cons_self seen holds
    have grows := (redact_leaves g room s seen first.1 first.2 hfirst).1
    obtain ⟨room', rest, hrest⟩ := ih (fun t ht => each t (List.mem_cons_of_mem s ht)) first.2
      (upward seen first.2 holds grows)
    have hfirst := redact_mono (le_max_left room room') hfirst
    have hrest := redactItems_mono (fun s seen r => redact_mono (le_max_right room room')) hrest
    exact ⟨max room room', (first.1 :: rest.1, rest.2), by rw [redactItems, hfirst]; simp [hrest]⟩

private theorem entries_return {P : Finset ν → Prop} (upward : Upward P)
    {entries : List (String × Slot ν)}
    (each : ∀ e ∈ entries, isSensitive e.1 = false → ∀ seen, P seen → g.Returns e.2 seen)
    (seen : Finset ν) (holds : P seen) :
    ∃ room r, redactEntries (g.redact room) entries seen = some r := by
  induction entries generalizing seen with
  | nil => exact ⟨0, ([], seen), rfl⟩
  | cons e entries ih =>
    obtain ⟨key, s⟩ := e
    have each' := fun e he => each e (List.mem_cons_of_mem (key, s) he)
    cases hidden : isSensitive key with
    | true =>
      obtain ⟨room, rest, hrest⟩ := ih each' seen holds
      exact ⟨room, (assign key (.primitive (.string redactedText)) rest.1, rest.2),
        by rw [redactEntries]; simp [hidden, hrest]⟩
    | false =>
      obtain ⟨room, first, hfirst⟩ := each (key, s) List.mem_cons_self hidden seen holds
      have grows := (redact_leaves g room s seen first.1 first.2 hfirst).1
      obtain ⟨room', rest, hrest⟩ := ih each' first.2 (upward seen first.2 holds grows)
      have hfirst := redact_mono (le_max_left room room') hfirst
      have hrest := redactEntries_mono (fun s seen r => redact_mono (le_max_right room room')) hrest
      exact ⟨max room room', (assign key first.1 rest.1, rest.2),
        by rw [redactEntries]; simp [hidden, hfirst, hrest]⟩

variable [Fintype ν]

/-- By induction on the objects not yet entered, and inside it on the arrays below an array. -/
private theorem returns_of_acyclic {root : Slot ν}
    (acyclic : ∀ n, g.Reaches root n → Acc (fun m n => g.Item n m) n) (left : Nat) :
    ∀ s seen, (∀ n, s = .ref n → g.Reaches root n) → (seenᶜ : Finset ν).card < left →
      g.Returns s seen := by
  have upward : ∀ k, Upward fun seen : Finset ν => seenᶜ.card < k := by
    intro k seen seen' below more
    have fewer := Finset.card_le_card (Finset.compl_subset_compl.mpr more)
    exact lt_of_le_of_lt fewer below
  induction left with
  | zero =>
    intro s seen _ none'
    omega
  | succ left ih =>
    have nodes : ∀ n, g.Reaches root n → ∀ seen : Finset ν, seenᶜ.card < left + 1 →
        g.Returns (.ref n) seen := by
      intro n reached
      induction acyclic n reached with
      | intro n _ below =>
        intro seen fewer
        cases node : g.node n with
        | array items =>
          have each : ∀ s ∈ items, ∀ seen : Finset ν, seenᶜ.card < left + 1 →
              g.Returns s seen := by
            intro s hs seen fewer
            cases s with
            | primitive p => exact ⟨1, _, rfl⟩
            | error name message stack => exact ⟨1, _, rfl⟩
            | ref m =>
              have item : g.Item n m := ⟨items, node, hs⟩
              exact below m item (reaches_step reached item.holds) seen fewer
          obtain ⟨room, r, returned⟩ := items_return (upward (left + 1)) each seen fewer
          exact ⟨room + 1, (.array r.1, r.2), by rw [redact]; simp [node, returned]⟩
        | object entries =>
          by_cases met : n ∈ seen
          · exact ⟨1, (.primitive (.string "[CIRCULAR]"), seen), by rw [redact]; simp [node, met]⟩
          · have fewer' : ((insert n seen)ᶜ : Finset ν).card < left := by
              have smaller : ((insert n seen)ᶜ : Finset ν) ⊂ seenᶜ := by
                rw [Finset.compl_ssubset_compl]
                exact Finset.ssubset_insert met
              have fewer'' := Finset.card_lt_card smaller
              omega
            have each : ∀ e ∈ entries, isSensitive e.1 = false → ∀ seen : Finset ν,
                seenᶜ.card < left → g.Returns e.2 seen := by
              intro e he shown seen fewer
              refine ih e.2 seen (fun m same => reaches_step reached ?_) fewer
              unfold Holds
              rw [node]
              exact ⟨e, he, shown, same⟩
            obtain ⟨room, r, returned⟩ := entries_return (upward left) each _ fewer'
            exact ⟨room + 1, (.object r.1, r.2), by rw [redact]; simp [node, met, returned]⟩
    intro s seen reached fewer
    cases s with
    | primitive p => exact ⟨1, _, rfl⟩
    | error name message stack => exact ⟨1, _, rfl⟩
    | ref n => exact nodes n (reached n rfl) seen fewer

omit [DecidableEq ν] in
/-- Without cycles there are finitely many arrays to pass in a row. -/
private theorem accessible_of_acyclic {root : Slot ν}
    (acyclic : ∀ n, g.Reaches root n → ¬Relation.TransGen g.Item n n) {n : ν}
    (reached : g.Reaches root n) : Acc (fun m n => g.Item n m) n := by
  let R : ν → ν → Prop := Relation.TransGen fun m n => g.Item n m ∧ g.Reaches root n
  have forward : ∀ m n, R m n → Relation.TransGen g.Item n m ∧ g.Reaches root n := by
    intro m n path
    induction path with
    | single step => exact ⟨.single step.1, step.2⟩
    | tail _ step ih => exact ⟨.head step.1 ih.1, step.2⟩
  have irreflexive : Std.Irrefl R := ⟨fun m loop =>
    acyclic m (forward m m loop).2 (forward m m loop).1⟩
  have transitive : IsTrans ν R := ⟨fun _ _ _ => Relation.TransGen.trans⟩
  have wellFounded : WellFounded R := Finite.wellFounded_of_trans_of_irrefl R
  induction wellFounded.apply n with
  | intro n _ ih =>
    exact Acc.intro n fun m item => ih m (.single ⟨item, reached⟩) (reaches_step reached item.holds)

end Returns

/-- `redact` returns a value that `JSON.stringify` takes just when, among what the root reaches
without passing a sensitive key, no array contains itself through arrays alone, and no BigInt
stands. -/
theorem logs_iff [DecidableEq ν] [Fintype ν] (g : ObjectGraph ν) (root : Slot ν) :
    g.Logs root ↔ (∀ n, g.Reaches root n → ¬Relation.TransGen g.Item n n) ∧
      ∀ k, ¬g.Shows root (.bigint k) := by
  constructor
  · rintro ⟨room, output, seen, text, returned, taken⟩
    have noBigints := (stringify_ok output).mp ⟨text, taken⟩
    obtain ⟨-, visits⟩ := redact_leaves g room root ∅ output seen returned
    obtain ⟨visited, done⟩ := visits (· ∈ output.primitives) fun p hp => hp
    have done : ∀ n ∈ seen, Done g seen (· ∈ output.primitives) n :=
      fun n hn => done n hn (Finset.notMem_empty n)
    refine ⟨fun n reached => acyclic_of_visited (visited_of_reaches done visited reached), ?_⟩
    rintro k (rfl | ⟨n, reached, holds⟩)
    · cases visited with
      | primitive written => exact noBigints k (written k rfl)
    · cases (visited_of_reaches done visited reached).holds done holds with
      | primitive written => exact noBigints k (written k rfl)
  · rintro ⟨acyclic, noBigints⟩
    obtain ⟨room, ⟨output, seen⟩, returned⟩ := returns_of_acyclic
      (fun n reached => accessible_of_acyclic acyclic reached) ((∅ : Finset ν)ᶜ.card + 1) root ∅
      (fun n same => ⟨n, same, .refl⟩) (Nat.lt_succ_self _)
    obtain ⟨text, taken⟩ := (stringify_ok output).mpr fun k there =>
      noBigints k (shows_of_written room root ∅ (output, seen) returned there)
    exact ⟨room, output, seen, text, returned, taken⟩

/-- An array that holds itself. -/
private def selfArray : ObjectGraph Unit where
  node _ := .array [.ref ()]
  plain _ _ node := nomatch node

/-- An array is not remembered, and one that holds itself is followed until the stack is full. -/
theorem self_array_never_logged :
    ¬∀ (ν : Type) [Fintype ν] [DecidableEq ν] (g : ObjectGraph ν) (root : Slot ν), g.Logs root := by
  intro claim
  obtain ⟨room, output, seen, text, returned, -⟩ := claim Unit selfArray (.ref ())
  have never : ∀ room seen, selfArray.redact room (.ref ()) seen = none := by
    intro room
    induction room with
    | zero => exact fun seen => rfl
    | succ room ih =>
      intro seen
      have items : redactItems (selfArray.redact room) [.ref ()] seen = none := by
        rw [redactItems, ih]
        rfl
      rw [redact]
      simp [selfArray] at items ⊢
      simp [items]
  rw [never] at returned
  cases returned

/-! ### Graphs without cycles are values -/

section Unfold

/-- The value at a slot, with the nodes of the graph as identities of its objects. -/
def unfold (g : ObjectGraph ν) : Nat → Slot ν → Option (Value ν)
  | 0, _ => none
  | _ + 1, .primitive p => some (.primitive p)
  | _ + 1, .error name message stack => some (.error name message stack)
  | room + 1, .ref n =>
    match g.node n with
    | .array items => (items.mapM (g.unfold room)).map .array
    | .object entries =>
      (entries.mapM fun e => (g.unfold room e.2).map (e.1, ·)).map (.object n)

variable [DecidableEq ν] {f : Slot ν → Option (Value ν)}
  {h : Slot ν → Finset ν → Option (Redacted × Finset ν)}

private theorem redactItems_unfold
    (each : ∀ s v seen, f s = some v → h s seen = some (GuitarCoach.redact v seen))
    {items : List (Slot ν)} {values : List (Value ν)} (unfolded : items.mapM f = some values)
    (seen : Finset ν) :
    redactItems h items seen = some (GuitarCoach.redactItems values seen) := by
  induction items generalizing values seen with
  | nil =>
    cases unfolded
    rfl
  | cons s items ih =>
    rw [List.mapM_cons] at unfolded
    obtain ⟨v, first, unfolded⟩ := Option.bind_eq_some_iff.mp unfolded
    obtain ⟨rest, later, unfolded⟩ := Option.bind_eq_some_iff.mp unfolded
    cases unfolded
    rw [redactItems, each s v seen first]
    simp [ih later, redactItems_cons]

private theorem redactEntries_unfold
    (each : ∀ s v seen, f s = some v → h s seen = some (GuitarCoach.redact v seen))
    {entries : List (String × Slot ν)} {values : List (String × Value ν)}
    (unfolded : (entries.mapM fun e => (f e.2).map (e.1, ·)) = some values) (seen : Finset ν) :
    redactEntries h entries seen = some (GuitarCoach.redactEntries values seen) := by
  induction entries generalizing values seen with
  | nil =>
    cases unfolded
    rfl
  | cons e entries ih =>
    obtain ⟨key, s⟩ := e
    rw [List.mapM_cons] at unfolded
    obtain ⟨pair, first, unfolded⟩ := Option.bind_eq_some_iff.mp unfolded
    obtain ⟨rest, later, unfolded⟩ := Option.bind_eq_some_iff.mp unfolded
    obtain ⟨v, value, rfl⟩ := Option.map_eq_some_iff.mp first
    have value : f s = some v := value
    cases unfolded
    rw [redactEntries]
    cases hidden : isSensitive key with
    | true => simp [ih later, redactEntries_cons_sensitive hidden]
    | false => simp [each s v seen value, ih later, redactEntries_cons hidden]

/-- On a value that a graph holds without cycles, the graph's `redact` is the value's. -/
theorem redact_unfold {g : ObjectGraph ν} {room : Nat} {s : Slot ν} {v : Value ν}
    (unfolded : g.unfold room s = some v) (seen : Finset ν) :
    g.redact room s seen = some (GuitarCoach.redact v seen) := by
  induction room generalizing s v seen with
  | zero => cases unfolded
  | succ room ih =>
    have each := fun s v seen (unfolded : g.unfold room s = some v) => ih unfolded seen
    cases s with
    | primitive p =>
      cases unfolded
      rfl
    | error name message stack =>
      cases unfolded
      rfl
    | ref n =>
      rw [unfold] at unfolded
      rw [redact]
      cases node : g.node n with
      | array items =>
        simp only [node] at unfolded ⊢
        obtain ⟨values, below, rfl⟩ := Option.map_eq_some_iff.mp unfolded
        rw [redactItems_unfold each below seen]
        rfl
      | object entries =>
        simp only [node] at unfolded ⊢
        obtain ⟨values, below, rfl⟩ := Option.map_eq_some_iff.mp unfolded
        rw [redact_object]
        split
        · rfl
        · rw [redactEntries_unfold each below (insert n seen)]
          rfl

end Unfold

end ObjectGraph

end GuitarCoach
