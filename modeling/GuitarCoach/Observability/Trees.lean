/- digest: The redaction of trees, in which no object is met twice. -/

import GuitarCoach.Observability.StructuredLogger

set_option autoImplicit false
set_option relaxedAutoImplicit false

namespace GuitarCoach

variable {ν : Type}

namespace Value

theorem objects_array (enters : String → Bool) (items : List (Value ν)) :
    (Value.array items).objects enters = items.flatMap (objects enters) := by
  unfold objects
  rw [collect, collectItems_eq]

theorem objects_object (enters : String → Bool) (i : ν) (entries : List (String × Value ν)) :
    (Value.object i entries).objects enters =
      i :: (entries.filter fun e => enters e.1).flatMap fun e => e.2.objects enters := by
  unfold objects
  rw [collect, collectEntries_eq, List.singleton_append]

private theorem flatMap_sublist {α β : Type} {f g : α → List β} {xs : List α}
    (each : ∀ x ∈ xs, (f x).Sublist (g x)) : (xs.flatMap f).Sublist (xs.flatMap g) := by
  induction xs with
  | nil => simp
  | cons x xs ih =>
    have first := each x List.mem_cons_self
    have rest := ih fun y hy => each y (List.mem_cons_of_mem x hy)
    simpa only [List.flatMap_cons] using first.append rest

/-- Entering fewer keys meets fewer objects, in the same order. -/
theorem objects_sublist (enters : String → Bool) (v : Value ν) :
    (v.objects enters).Sublist (v.objects fun _ => true) := by
  induction v using Value.induct with
  | primitive p => exact .slnil
  | error name message stack => exact .slnil
  | array items ih =>
    rw [objects_array, objects_array]
    exact flatMap_sublist ih
  | object i entries ih =>
    rw [objects_object, objects_object, List.filter_true]
    apply List.Sublist.cons_cons
    have fewer : (entries.filter fun e => enters e.1).Sublist entries := List.filter_sublist
    exact (flatMap_sublist fun e he => ih e (fewer.subset he)).trans (fewer.flatMap _)

/-- The objects that `redact` can enter: those below no sensitive key. -/
def reached (v : Value ν) : List ν := v.objects fun key => !isSensitive key

/-- No object occurs twice. -/
def IsTree (v : Value ν) : Prop := (v.objects fun _ => true).Nodup

/-- No object occurs twice in these values together. -/
def Forest (values : List (Value ν)) : Prop :=
  (values.flatMap (objects fun _ => true)).Nodup

end Value

open Value (reached objects_array objects_object)

/-! ### The redaction of a tree -/

mutual

/-- `redact` without the objects entered. -/
def redactTree : Value ν → Redacted
  | .primitive p => .primitive (redactPrimitive p)
  | .error name message stack => redactError name message stack
  | .array items => .array (redactTreeItems items)
  | .object _ entries => .object (redactTreeEntries entries)

def redactTreeItems : List (Value ν) → List Redacted
  | [] => []
  | item :: items => redactTree item :: redactTreeItems items

def redactTreeEntries : List (String × Value ν) → List (String × Redacted)
  | [] => []
  | (key, entryValue) :: entries =>
    assign key
      (if isSensitive key then .primitive (.string redactedText) else redactTree entryValue)
      (redactTreeEntries entries)

end

section Trees

variable [DecidableEq ν]

/-- What is met later is neither seen before nor met first. -/
private theorem fresh_later {first later : List ν} {seen : Finset ν}
    (tree : (first ++ later).Nodup) (fresh : ∀ i ∈ first ++ later, i ∉ seen) :
    ∀ i ∈ later, i ∉ seen ∪ first.toFinset := by
  intro i hi
  rw [Finset.mem_union, List.mem_toFinset]
  rintro (before | met)
  · exact fresh i (List.mem_append_right _ hi) before
  · exact (List.nodup_append.mp tree).2.2 i met i hi rfl

private theorem redactItems_tree {items : List (Value ν)}
    (each : ∀ v ∈ items, ∀ seen : Finset ν, (reached v).Nodup → (∀ i ∈ reached v, i ∉ seen) →
      redact v seen = (redactTree v, seen ∪ (reached v).toFinset)) (seen : Finset ν)
    (tree : (items.flatMap reached).Nodup) (fresh : ∀ i ∈ items.flatMap reached, i ∉ seen) :
    redactItems items seen = (redactTreeItems items, seen ∪ (items.flatMap reached).toFinset) := by
  induction items generalizing seen with
  | nil => simp [redactItems, redactTreeItems]
  | cons v items ih =>
    rw [List.flatMap_cons] at tree fresh
    obtain ⟨first, later, -⟩ := List.nodup_append.mp tree
    have head := each v List.mem_cons_self seen first fun i hi => fresh i (List.mem_append_left _ hi)
    have tail := ih (fun w hw => each w (List.mem_cons_of_mem v hw))
      (seen ∪ (reached v).toFinset) later (fresh_later tree fresh)
    rw [redactItems_cons, head, redactTreeItems, tail, List.flatMap_cons, List.toFinset_append, Finset.union_assoc]

private theorem redactEntries_tree {entries : List (String × Value ν)}
    (each : ∀ e ∈ entries, ∀ seen : Finset ν, (reached e.2).Nodup →
      (∀ i ∈ reached e.2, i ∉ seen) →
      redact e.2 seen = (redactTree e.2, seen ∪ (reached e.2).toFinset)) (seen : Finset ν)
    (tree : ((entries.filter fun e => !isSensitive e.1).flatMap fun e => reached e.2).Nodup)
    (fresh : ∀ i ∈ (entries.filter fun e => !isSensitive e.1).flatMap fun e => reached e.2,
      i ∉ seen) :
    redactEntries entries seen = (redactTreeEntries entries,
      seen ∪ ((entries.filter fun e => !isSensitive e.1).flatMap fun e =>
        reached e.2).toFinset) := by
  induction entries generalizing seen with
  | nil => simp [redactEntries, redactTreeEntries]
  | cons e entries ih =>
    obtain ⟨key, v⟩ := e
    have each' := fun e he => each e (List.mem_cons_of_mem (key, v) he)
    cases sensitive : isSensitive key with
    | true =>
      rw [List.filter_cons_of_neg (by simp [sensitive])] at tree fresh ⊢
      have tail := ih each' seen tree fresh
      rw [redactEntries_cons_sensitive sensitive, redactTreeEntries, if_pos sensitive, tail]
    | false =>
      rw [List.filter_cons_of_pos (by simp [sensitive]), List.flatMap_cons] at tree fresh
      obtain ⟨first, later, -⟩ := List.nodup_append.mp tree
      have head := each (key, v) List.mem_cons_self seen first fun i hi =>
        fresh i (List.mem_append_left _ hi)
      have tail := ih each' (seen ∪ (reached v).toFinset) later (fresh_later tree fresh)
      rw [List.filter_cons_of_pos (by simp [sensitive]), List.flatMap_cons, List.toFinset_append,
        ← Finset.union_assoc]
      rw [redactEntries_cons sensitive, redactTreeEntries, if_neg (by simp [sensitive]), head, tail]

/-- In a tree no object is met a second time. -/
theorem redact_tree (v : Value ν) (seen : Finset ν) (tree : (reached v).Nodup)
    (fresh : ∀ i ∈ reached v, i ∉ seen) :
    redact v seen = (redactTree v, seen ∪ (reached v).toFinset) := by
  induction v using Value.induct generalizing seen with
  | primitive p => simp [redact, redactTree, reached, Value.objects, Value.collect]
  | error name message stack => simp [redact, redactTree, reached, Value.objects, Value.collect]
  | array items ih =>
    have met : reached (.array items) = items.flatMap reached := objects_array _ items
    rw [met] at tree fresh ⊢
    rw [redact_array, redactItems_tree ih seen tree fresh, redactTree]
  | object i entries ih =>
    have met : reached (.object i entries) =
        i :: (entries.filter fun e => !isSensitive e.1).flatMap fun e => reached e.2 :=
      objects_object _ i entries
    rw [met] at tree fresh ⊢
    obtain ⟨new, rest⟩ := List.nodup_cons.mp tree
    have unseen : i ∉ seen := fresh i List.mem_cons_self
    have below := redactEntries_tree ih (insert i seen) rest (by
      intro j hj
      rw [Finset.mem_insert]
      rintro (rfl | seen)
      · exact new hj
      · exact fresh j (List.mem_cons_of_mem i hj) seen)
    rw [redact_object, if_neg unseen, below, redactTree, List.toFinset_cons, Finset.union_insert,
      Finset.insert_union]

end Trees

/-! ### What is shown of a tree -/

namespace Redacted

mutual

/-- The primitives of a redacted value, keys left out. -/
def primitives : Redacted → List Primitive
  | .primitive p => [p]
  | .array items => primitivesOfItems items
  | .object entries => primitivesOfEntries entries

def primitivesOfItems : List Redacted → List Primitive
  | [] => []
  | item :: items => primitives item ++ primitivesOfItems items

def primitivesOfEntries : List (String × Redacted) → List Primitive
  | [] => []
  | (_, value) :: entries => primitives value ++ primitivesOfEntries entries

end

end Redacted

/-! ### JSON.stringify throws at a BigInt only -/

private theorem stringifyItems_ok {items : List Redacted}
    (each : ∀ v ∈ items, (∃ text, stringify v = .ok text) ↔ ∀ n, .bigint n ∉ v.primitives) :
    (∃ texts, stringifyItems items = .ok texts) ↔
      ∀ n, .bigint n ∉ Redacted.primitivesOfItems items := by
  induction items with
  | nil => simp [stringifyItems, Redacted.primitivesOfItems]
  | cons v items ih =>
    have first := each v List.mem_cons_self
    have rest := ih fun w hw => each w (List.mem_cons_of_mem v hw)
    simp only [Redacted.primitivesOfItems, List.mem_append, not_or, forall_and, ← first, ← rest,
      stringifyItems]
    cases stringify v <;> cases stringifyItems items <;> simp [bind, Except.bind, pure, Except.pure]

private theorem stringifyEntries_ok {entries : List (String × Redacted)}
    (each : ∀ e ∈ entries, (∃ text, stringify e.2 = .ok text) ↔ ∀ n, .bigint n ∉ e.2.primitives) :
    (∃ texts, stringifyEntries entries = .ok texts) ↔
      ∀ n, .bigint n ∉ Redacted.primitivesOfEntries entries := by
  induction entries with
  | nil => simp [stringifyEntries, Redacted.primitivesOfEntries]
  | cons e entries ih =>
    obtain ⟨key, v⟩ := e
    have first := each (key, v) List.mem_cons_self
    have rest := ih fun w hw => each w (List.mem_cons_of_mem (key, v) hw)
    simp only [Redacted.primitivesOfEntries, List.mem_append, not_or, forall_and, ← first, ← rest,
      stringifyEntries]
    cases stringify v <;> cases stringifyEntries entries <;>
      simp [bind, Except.bind, pure, Except.pure]

theorem stringify_ok (v : Redacted) :
    (∃ text, stringify v = .ok text) ↔ ∀ n, .bigint n ∉ v.primitives := by
  induction v using Redacted.induct with
  | primitive p => cases p <;> simp [stringify, Redacted.primitives]
  | array items ih =>
    rw [Redacted.primitives, ← stringifyItems_ok ih, stringify]
    cases stringifyItems items <;> simp [bind, Except.bind, pure, Except.pure]
  | object entries ih =>
    rw [Redacted.primitives, ← stringifyEntries_ok ih, stringify]
    cases stringifyEntries entries <;> simp [bind, Except.bind, pure, Except.pure]

namespace Value

/-- The keys whose values are redacted and become properties. -/
def shows (key : String) : Bool := !isSensitive key && key ≠ "__proto__"

/-- What passes the redaction of strings: primitives, and the messages of errors. -/
def showing : Reading ν Primitive :=
  ⟨fun p => [p], fun _ message _ => [.string message], fun _ => [], shows⟩

/-- What is copied as it is: names and stacks of errors. -/
def copying : Reading ν Primitive :=
  ⟨fun _ => [], fun name _ stack => .string name :: stack.toList.map .string, fun _ => [], shows⟩

def shown : Value ν → List Primitive := collect showing

def copied : Value ν → List Primitive := collect copying

end Value

section Shown

open Value (showing copying collectItems collectEntries)

variable {C : Primitive → Prop}

private theorem primitives_assign (key : String) (value : Redacted)
    (later : List (String × Redacted)) :
    (∀ p ∈ Redacted.primitivesOfEntries (assign key value later), C p) ↔
      (key ≠ "__proto__" → ∀ p ∈ value.primitives, C p) ∧
        ∀ p ∈ Redacted.primitivesOfEntries later, C p := by
  unfold assign
  by_cases proto : key = "__proto__"
  · simp [proto]
  · simp [proto, Redacted.primitivesOfEntries, or_imp, forall_and]

private theorem forall_items_iff {items : List (Value ν)}
    (each : ∀ v ∈ items, (∀ p ∈ (redactTree v).primitives, C p) ↔
      (∀ p ∈ v.shown, C (redactPrimitive p)) ∧ ∀ p ∈ v.copied, C p) :
    (∀ p ∈ Redacted.primitivesOfItems (redactTreeItems items), C p) ↔
      (∀ p ∈ collectItems showing items, C (redactPrimitive p)) ∧
        ∀ p ∈ collectItems copying items, C p := by
  induction items with
  | nil => simp [redactTreeItems, Redacted.primitivesOfItems, collectItems]
  | cons v items ih =>
    have first := each v List.mem_cons_self
    have rest := ih fun w hw => each w (List.mem_cons_of_mem v hw)
    unfold Value.shown Value.copied at first
    simp only [redactTreeItems, Redacted.primitivesOfItems, collectItems, List.mem_append, or_imp,
      forall_and]
    rw [first, rest]
    tauto

theorem forall_entries_iff (redacted : C (.string redactedText))
    {entries : List (String × Value ν)}
    (each : ∀ e ∈ entries, (∀ p ∈ (redactTree e.2).primitives, C p) ↔
      (∀ p ∈ e.2.shown, C (redactPrimitive p)) ∧ ∀ p ∈ e.2.copied, C p) :
    (∀ p ∈ Redacted.primitivesOfEntries (redactTreeEntries entries), C p) ↔
      (∀ p ∈ collectEntries showing entries, C (redactPrimitive p)) ∧
        ∀ p ∈ collectEntries copying entries, C p := by
  induction entries with
  | nil => simp [redactTreeEntries, Redacted.primitivesOfEntries, collectEntries]
  | cons e entries ih =>
    obtain ⟨key, v⟩ := e
    have first := each (key, v) List.mem_cons_self
    have rest := ih fun w hw => each w (List.mem_cons_of_mem (key, v) hw)
    unfold Value.shown Value.copied at first
    dsimp only at first
    rw [redactTreeEntries, primitives_assign, rest, collectEntries, collectEntries]
    show _ ↔ (∀ p ∈ (if Value.shows key = true then _ else _) ++ _, _) ∧
      ∀ p ∈ (if Value.shows key = true then _ else _) ++ _, _
    cases hidden : isSensitive key with
    | true =>
      have unseen : Value.shows key = false := by simp [Value.shows, hidden]
      simp [unseen, Redacted.primitives, redacted]
    | false =>
      by_cases proto : key = "__proto__"
      · have unseen : Value.shows key = false := by simp [Value.shows, proto]
        rw [unseen]
        simp [proto]
      · have seen : Value.shows key = true := by simp [Value.shows, proto, hidden]
        simp only [seen, if_true, List.mem_append, or_imp, forall_and, Bool.false_eq_true, if_false]
        rw [first]
        tauto

/-- A property that placeholders have holds of all primitives of a redacted tree when it holds of
all that is copied and, once redacted, of all that is shown. -/
theorem forall_primitives_iff (undefined : C .undefined) (redacted : C (.string redactedText))
    (v : Value ν) :
    (∀ p ∈ (redactTree v).primitives, C p) ↔
      (∀ p ∈ v.shown, C (redactPrimitive p)) ∧ ∀ p ∈ v.copied, C p := by
  induction v using Value.induct with
  | primitive p => simp [redactTree, Redacted.primitives, Value.shown, Value.copied, Value.collect,
      showing, copying]
  | error name message stack =>
    cases stack <;> simp [redactTree, redactError, Redacted.primitives,
      Redacted.primitivesOfEntries, Value.shown, Value.copied, Value.collect, redactPrimitive,
      showing, copying, undefined] <;> tauto
  | array items ih => exact forall_items_iff ih
  | object i entries ih =>
    unfold Value.shown Value.copied
    rw [redactTree, Redacted.primitives, forall_entries_iff redacted ih]
    rfl

end Shown

/-! ### The entry of a call -/

theorem Value.lt_newIdentity {values : List (Value Nat)} {i : Nat}
    (there : i ∈ values.flatMap (Value.objects fun _ => true)) : i < Value.newIdentity values := by
  unfold Value.newIdentity
  generalize values.flatMap (Value.objects fun _ => true) = met at there ⊢
  induction met with
  | nil => cases there
  | cons j rest ih =>
    rw [List.foldr_cons]
    rcases List.mem_cons.mp there with rfl | later
    · omega
    · have below := ih later
      omega

namespace StructuredLoggerService

private theorem objects_collapseMeta (args : List (Value ν)) (enters : String → Bool) :
    (collapseMeta args).objects enters = args.flatMap (Value.objects enters) := by
  cases args with
  | nil => rfl
  | cons v args =>
    cases args with
    | nil => rw [collapseMeta, List.flatMap_singleton]
    | cons w args => exact objects_array enters (v :: w :: args)

private theorem objects_parseArgs (args : List (Value ν)) (enters : String → Bool) :
    ((parseArgs args).2.objects enters).Sublist (args.flatMap (Value.objects enters)) := by
  unfold parseArgs
  split
  · rw [objects_collapseMeta]
    exact (List.dropLast_sublist args).flatMap _
  · rw [objects_collapseMeta]

private theorem objects_messageFields (message : Value ν) (enters : String → Bool) :
    ((messageFields message).flatMap fun e => e.2.objects enters).Sublist
      (message.objects enters) := by
  cases message with
  | error name message stack => exact .slnil
  | _ => simp [messageFields]

private theorem objects_metaFields (value : Value ν) (enters : String → Bool) :
    ((metaFields value).flatMap fun e => e.2.objects enters).Sublist (value.objects enters) := by
  unfold metaFields
  split
  · exact .slnil
  · simp

variable (logger : StructuredLoggerService) (now : String)
  (requestContext : Option RequestContextData) (level : LogLevel)

/-- The object literal is a tree when the message and the arguments are. -/
theorem fields_isTree {message : Value Nat} {args : List (Value Nat)}
    (forest : Value.Forest (message :: args)) :
    (Value.object (Value.newIdentity (message :: args))
      (logger.fields now requestContext level message args)).IsTree := by
  have inside : ((logger.fields now requestContext level message args).flatMap
      fun e => e.2.objects fun _ => true).Sublist
        ((message :: args).flatMap (Value.objects fun _ => true)) := by
    rw [fields, List.flatMap_append, List.flatMap_append, List.flatMap_cons]
    have texts : ∀ s : Option String, (text? s : Value Nat).objects (fun _ => true) = [] :=
      fun s => rfl
    simp only [List.flatMap_cons, List.flatMap_nil, texts, List.nil_append]
    exact (objects_messageFields message _).append
      ((objects_metaFields _ _).trans (objects_parseArgs args _))
  unfold Value.IsTree
  rw [objects_object, List.filter_true]
  apply List.nodup_cons.mpr
  constructor
  · intro there
    exact (Value.lt_newIdentity (inside.subset there)).false
  · exact forest.sublist inside

theorem entry_tree {message : Value Nat} {args : List (Value Nat)}
    (forest : Value.Forest (message :: args)) :
    logger.entry now requestContext level message args =
      .object (redactTreeEntries (logger.fields now requestContext level message args)) := by
  have tree := logger.fields_isTree now requestContext level forest
  rw [entry, redact_tree _ ∅ (tree.sublist (Value.objects_sublist _ _))
    fun i _ => Finset.notMem_empty i, redactTree]

end StructuredLoggerService

end GuitarCoach
