/- digest: What is logged does not depend on the values under sensitive keys. -/

import GuitarCoach.Observability.Trees

/-!
Two values are compared place by place, and `ρ` relates the identities of the objects at equal
places. Where it relates them one to one, `redact` meets an object again in one value exactly
when it does in the other.
-/

set_option autoImplicit false
set_option relaxedAutoImplicit false

namespace GuitarCoach

open Relator (BiUnique)
open Value (reached objects_array objects_object)

variable {ν : Type}

mutual

/-- The same shape, equal but for the values under sensitive keys, and with objects related by
`ρ` at equal places. -/
def Alike (ρ : ν → ν → Prop) : Value ν → Value ν → Prop
  | .primitive p, .primitive q => p = q
  | .error name message stack, .error name' message' stack' =>
    name = name' ∧ message = message' ∧ stack = stack'
  | .array items, .array items' => AlikeItems ρ items items'
  | .object i entries, .object j entries' => ρ i j ∧ AlikeEntries ρ entries entries'
  | _, _ => False

def AlikeItems (ρ : ν → ν → Prop) : List (Value ν) → List (Value ν) → Prop
  | [], [] => True
  | v :: items, w :: items' => Alike ρ v w ∧ AlikeItems ρ items items'
  | _, _ => False

def AlikeEntries (ρ : ν → ν → Prop) :
    List (String × Value ν) → List (String × Value ν) → Prop
  | [], [] => True
  | (key, v) :: entries, (key', w) :: entries' =>
    key = key' ∧ (isSensitive key = true ∨ Alike ρ v w) ∧ AlikeEntries ρ entries entries'
  | _, _ => False

end

/-- The same shape, and equal everywhere but for the values under sensitive keys. -/
def EqualOutside (v w : Value ν) : Prop := Alike (fun _ _ => True) v w

namespace Alike

variable {ρ : ν → ν → Prop}

theorem items_iff {items items' : List (Value ν)} :
    AlikeItems ρ items items' ↔ List.Forall₂ (Alike ρ) items items' := by
  induction items generalizing items' with
  | nil => cases items' <;> simp [AlikeItems]
  | cons v items ih => cases items' <;> simp [AlikeItems, ih]

theorem entries_iff {entries entries' : List (String × Value ν)} :
    AlikeEntries ρ entries entries' ↔ List.Forall₂ (fun e e' => e.1 = e'.1 ∧
      (isSensitive e.1 = true ∨ Alike ρ e.2 e'.2)) entries entries' := by
  induction entries generalizing entries' with
  | nil => cases entries' <;> simp [AlikeEntries]
  | cons e entries ih => cases entries' <;> simp [AlikeEntries, ih, and_assoc]

/-- A value is like itself when its objects are related to themselves. -/
theorem refl (v : Value ν) (same : ∀ i ∈ reached v, ρ i i) : Alike ρ v v := by
  induction v using Value.induct with
  | primitive p => exact rfl
  | error name message stack => exact ⟨rfl, rfl, rfl⟩
  | array items ih =>
    have met : reached (.array items) = items.flatMap reached := objects_array _ items
    rw [met] at same
    refine items_iff.mpr (List.forall₂_same.mpr fun v hv => ih v hv fun i hi => ?_)
    exact same i (List.mem_flatMap.mpr ⟨v, hv, hi⟩)
  | object i entries ih =>
    have met : reached (.object i entries) =
        i :: (entries.filter fun e => !isSensitive e.1).flatMap fun e => reached e.2 :=
      objects_object _ i entries
    rw [met] at same
    refine ⟨same i List.mem_cons_self, entries_iff.mpr (List.forall₂_same.mpr fun e he => ?_)⟩
    refine ⟨rfl, ?_⟩
    cases hidden : isSensitive e.1 with
    | true => exact .inl rfl
    | false =>
      refine .inr (ih e he fun j hj => same j (List.mem_cons_of_mem i ?_))
      exact List.mem_flatMap.mpr ⟨e, List.mem_filter.mpr ⟨he, by simp [hidden]⟩, hj⟩

section Places

private theorem items_zip {items items' : List (Value ν)}
    (each : ∀ v ∈ items, ∀ w, EqualOutside v w →
      (reached v).length = (reached w).length ∧
        ∀ ρ : ν → ν → Prop, (∀ p ∈ (reached v).zip (reached w), ρ p.1 p.2) → Alike ρ v w)
    (alike : AlikeItems (fun _ _ => True) items items') :
    (items.flatMap reached).length = (items'.flatMap reached).length ∧
      ∀ ρ : ν → ν → Prop,
        (∀ p ∈ (items.flatMap reached).zip (items'.flatMap reached), ρ p.1 p.2) →
          AlikeItems ρ items items' := by
  induction items generalizing items' with
  | nil =>
    cases items' with
    | nil => exact ⟨rfl, fun _ _ => trivial⟩
    | cons w items' => exact alike.elim
  | cons v items ih =>
    cases items' with
    | nil => exact alike.elim
    | cons w items' =>
      obtain ⟨same, first⟩ := each v List.mem_cons_self w alike.1
      obtain ⟨same', rest⟩ := ih (fun u hu => each u (List.mem_cons_of_mem v hu)) alike.2
      simp only [List.flatMap_cons]
      refine ⟨by rw [List.length_append, List.length_append, same, same'], fun ρ pairs => ?_⟩
      rw [List.zip_append same] at pairs
      exact ⟨first ρ fun p hp => pairs p (List.mem_append_left _ hp),
        rest ρ fun p hp => pairs p (List.mem_append_right _ hp)⟩

private theorem entries_zip {entries entries' : List (String × Value ν)}
    (each : ∀ e ∈ entries, ∀ w, EqualOutside e.2 w →
      (reached e.2).length = (reached w).length ∧
        ∀ ρ : ν → ν → Prop, (∀ p ∈ (reached e.2).zip (reached w), ρ p.1 p.2) → Alike ρ e.2 w)
    (alike : AlikeEntries (fun _ _ => True) entries entries') :
    ((entries.filter fun e => !isSensitive e.1).flatMap fun e => reached e.2).length =
        ((entries'.filter fun e => !isSensitive e.1).flatMap fun e => reached e.2).length ∧
      ∀ ρ : ν → ν → Prop,
        (∀ p ∈ ((entries.filter fun e => !isSensitive e.1).flatMap fun e => reached e.2).zip
          ((entries'.filter fun e => !isSensitive e.1).flatMap fun e => reached e.2),
          ρ p.1 p.2) → AlikeEntries ρ entries entries' := by
  induction entries generalizing entries' with
  | nil =>
    cases entries' with
    | nil => exact ⟨rfl, fun _ _ => trivial⟩
    | cons e' entries' => exact alike.elim
  | cons e entries ih =>
    cases entries' with
    | nil => exact alike.elim
    | cons e' entries' =>
      obtain ⟨key, v⟩ := e
      obtain ⟨key', w⟩ := e'
      obtain ⟨rfl, first, later⟩ := alike
      obtain ⟨same', rest⟩ := ih (fun u hu => each u (List.mem_cons_of_mem (key, v) hu)) later
      cases hidden : isSensitive key with
      | true =>
        rw [List.filter_cons_of_neg (by simp [hidden]), List.filter_cons_of_neg (by simp [hidden])]
        exact ⟨same', fun ρ pairs => ⟨rfl, .inl hidden, rest ρ pairs⟩⟩
      | false =>
        have first : EqualOutside v w := first.resolve_left (by simp [hidden])
        obtain ⟨same, first⟩ := each (key, v) List.mem_cons_self w first
        rw [List.filter_cons_of_pos (by simp [hidden]), List.filter_cons_of_pos (by simp [hidden])]
        simp only [List.flatMap_cons]
        refine ⟨by rw [List.length_append, List.length_append, same, same'], fun ρ pairs => ?_⟩
        rw [List.zip_append same] at pairs
        exact ⟨rfl, .inr (first ρ fun p hp => pairs p (List.mem_append_left _ hp)),
          rest ρ fun p hp => pairs p (List.mem_append_right _ hp)⟩

/-- The objects at equal places are those with equal indices among the objects reached. -/
theorem of_zip {v w : Value ν} (alike : EqualOutside v w) :
    (reached v).length = (reached w).length ∧
      ∀ ρ : ν → ν → Prop, (∀ p ∈ (reached v).zip (reached w), ρ p.1 p.2) → Alike ρ v w := by
  induction v using Value.induct generalizing w with
  | primitive p =>
    cases w with
    | primitive q => exact ⟨rfl, fun ρ _ => alike⟩
    | _ => exact alike.elim
  | error name message stack =>
    cases w with
    | error name' message' stack' => exact ⟨rfl, fun ρ _ => alike⟩
    | _ => exact alike.elim
  | array items ih =>
    cases w with
    | array items' =>
      obtain ⟨same, rest⟩ := items_zip (fun v hv w => ih v hv) alike
      unfold reached at same rest ⊢
      rw [objects_array, objects_array]
      exact ⟨same, rest⟩
    | _ => exact alike.elim
  | object i entries ih =>
    cases w with
    | object j entries' =>
      obtain ⟨same, rest⟩ := entries_zip (fun e he w => ih e he) alike.2
      unfold reached at same rest ⊢
      rw [objects_object, objects_object]
      refine ⟨by rw [List.length_cons, List.length_cons, same], fun ρ pairs => ?_⟩
      rw [List.zip_cons_cons] at pairs
      exact ⟨pairs (i, j) List.mem_cons_self,
        rest ρ fun p hp => pairs p (List.mem_cons_of_mem _ hp)⟩
    | _ => exact alike.elim

end Places

end Alike

/-! ### Two runs of redact -/

/-- The objects entered are the same up to `ρ`. -/
def SeenAlike (ρ : ν → ν → Prop) (seen seen' : Finset ν) : Prop :=
  ∀ i j, ρ i j → (i ∈ seen ↔ j ∈ seen')

section Redact

variable [DecidableEq ν] {ρ : ν → ν → Prop}

private theorem SeenAlike.enter (unique : BiUnique ρ) {seen seen' : Finset ν} {i j : ν}
    (alike : SeenAlike ρ seen seen') (related : ρ i j) :
    SeenAlike ρ (insert i seen) (insert j seen') := by
  intro i' j' related'
  rw [Finset.mem_insert, Finset.mem_insert, alike i' j' related']
  have same : i' = i ↔ j' = j := by
    constructor
    · rintro rfl
      exact unique.2 related' related
    · rintro rfl
      exact unique.1 related' related
  rw [same]

private theorem redactItems_alike {items items' : List (Value ν)}
    (each : ∀ v ∈ items, ∀ w, ∀ seen seen' : Finset ν, Alike ρ v w → SeenAlike ρ seen seen' →
      (redact v seen).1 = (redact w seen').1 ∧
        SeenAlike ρ (redact v seen).2 (redact w seen').2) (seen seen' : Finset ν)
    (alike : AlikeItems ρ items items') (entered : SeenAlike ρ seen seen') :
    (redactItems items seen).1 = (redactItems items' seen').1 ∧
      SeenAlike ρ (redactItems items seen).2 (redactItems items' seen').2 := by
  induction items generalizing items' seen seen' with
  | nil =>
    cases items' with
    | nil => exact ⟨rfl, entered⟩
    | cons w items' => exact alike.elim
  | cons v items ih =>
    cases items' with
    | nil => exact alike.elim
    | cons w items' =>
      obtain ⟨first, entered⟩ := each v List.mem_cons_self w seen seen' alike.1 entered
      obtain ⟨rest, entered⟩ := ih (fun u hu => each u (List.mem_cons_of_mem v hu)) _ _ alike.2
        entered
      rw [redactItems_cons, redactItems_cons]
      exact ⟨by rw [first, rest], entered⟩

private theorem redactEntries_alike {entries entries' : List (String × Value ν)}
    (each : ∀ e ∈ entries, ∀ w, ∀ seen seen' : Finset ν, Alike ρ e.2 w →
      SeenAlike ρ seen seen' → (redact e.2 seen).1 = (redact w seen').1 ∧
        SeenAlike ρ (redact e.2 seen).2 (redact w seen').2) (seen seen' : Finset ν)
    (alike : AlikeEntries ρ entries entries') (entered : SeenAlike ρ seen seen') :
    (redactEntries entries seen).1 = (redactEntries entries' seen').1 ∧
      SeenAlike ρ (redactEntries entries seen).2 (redactEntries entries' seen').2 := by
  induction entries generalizing entries' seen seen' with
  | nil =>
    cases entries' with
    | nil => exact ⟨rfl, entered⟩
    | cons e' entries' => exact alike.elim
  | cons e entries ih =>
    cases entries' with
    | nil => exact alike.elim
    | cons e' entries' =>
      obtain ⟨key, v⟩ := e
      obtain ⟨key', w⟩ := e'
      obtain ⟨rfl, first, later⟩ := alike
      have ih := fun seen seen' =>
        ih (fun u hu => each u (List.mem_cons_of_mem (key, v) hu)) seen seen' later
      -- the cut is made at the key, before the value is looked at
      cases hidden : isSensitive key with
      | true =>
        obtain ⟨rest, entered⟩ := ih _ _ entered
        rw [redactEntries_cons_sensitive hidden, redactEntries_cons_sensitive hidden]
        exact ⟨by rw [rest], entered⟩
      | false =>
        have first := first.resolve_left (by simp [hidden])
        obtain ⟨same, entered⟩ := each (key, v) List.mem_cons_self w seen seen' first entered
        obtain ⟨rest, entered⟩ := ih _ _ entered
        rw [redactEntries_cons hidden, redactEntries_cons hidden]
        exact ⟨by rw [same, rest], entered⟩

/-- Values that differ only under sensitive keys are redacted alike. -/
theorem redact_alike (unique : BiUnique ρ) {v w : Value ν} (alike : Alike ρ v w)
    {seen seen' : Finset ν} (entered : SeenAlike ρ seen seen') :
    (redact v seen).1 = (redact w seen').1 ∧
      SeenAlike ρ (redact v seen).2 (redact w seen').2 := by
  induction v using Value.induct generalizing w seen seen' with
  | primitive p =>
    cases w with
    | primitive q =>
      have alike : p = q := alike
      rw [redact, redact, alike]
      exact ⟨rfl, entered⟩
    | _ => exact alike.elim
  | error name message stack =>
    cases w with
    | error name' message' stack' =>
      obtain ⟨rfl, rfl, rfl⟩ := alike
      exact ⟨rfl, entered⟩
    | _ => exact alike.elim
  | array items ih =>
    cases w with
    | array items' =>
      obtain ⟨same, entered⟩ := redactItems_alike
        (fun v hv w _ _ alike entered => ih v hv alike entered) seen seen' alike entered
      rw [redact_array, redact_array]
      exact ⟨by rw [same], entered⟩
    | _ => exact alike.elim
  | object i entries ih =>
    cases w with
    | object j entries' =>
      obtain ⟨related, alike⟩ := alike
      rw [redact_object, redact_object]
      by_cases met : i ∈ seen
      · rw [if_pos met, if_pos ((entered i j related).mp met)]
        exact ⟨rfl, entered⟩
      · rw [if_neg met, if_neg fun there => met ((entered i j related).mpr there)]
        obtain ⟨same, entered⟩ := redactEntries_alike
          (fun e he w _ _ alike entered => ih e he alike entered) _ _ alike
          (entered.enter unique related)
        exact ⟨by rw [same], entered⟩
    | _ => exact alike.elim

end Redact

/-! ### Two calls of the logger -/

private theorem forall₂_last {α : Type} {R : α → α → Prop} {xs ys : List α}
    (related : List.Forall₂ R xs ys) :
    (xs = [] ∧ ys = []) ∨ ∃ xs' x ys' y, xs = xs' ++ [x] ∧ ys = ys' ++ [y] ∧
      List.Forall₂ R xs' ys' ∧ R x y := by
  induction related with
  | nil => exact .inl ⟨rfl, rfl⟩
  | @cons x y xs ys first rest ih =>
    right
    rcases ih with ⟨rfl, rfl⟩ | ⟨xs', x', ys', y', rfl, rfl, rest', last⟩
    · exact ⟨[], x, [], y, rfl, rfl, .nil, first⟩
    · exact ⟨x :: xs', x', y :: ys', y', rfl, rfl, .cons first rest', last⟩

namespace StructuredLoggerService

section Arguments

variable {ρ : ν → ν → Prop}

private theorem collapseMeta_alike {args args' : List (Value ν)}
    (alike : List.Forall₂ (Alike ρ) args args') :
    Alike ρ (collapseMeta args) (collapseMeta args') := by
  cases alike with
  | nil => exact rfl
  | cons first rest =>
    cases rest with
    | nil => exact first
    | cons second rest => exact Alike.items_iff.mpr (.cons first (.cons second rest))

private theorem parseArgs_alike {args args' : List (Value ν)}
    (alike : List.Forall₂ (Alike ρ) args args') :
    (parseArgs args).1 = (parseArgs args').1 ∧
      Alike ρ (parseArgs args).2 (parseArgs args').2 := by
  rcases forall₂_last alike with ⟨rfl, rfl⟩ | ⟨init, last, init', last', rfl, rfl, rest, same⟩
  · exact ⟨rfl, rfl⟩
  · have whole := collapseMeta_alike alike
    have others := collapseMeta_alike rest
    unfold parseArgs
    rw [List.getLast?_concat, List.getLast?_concat, List.dropLast_concat, List.dropLast_concat]
    cases last with
    | primitive p =>
      cases last' with
      | primitive q =>
        have same : p = q := same
        subst same
        cases p with
        | string s => exact ⟨rfl, others⟩
        | _ => exact ⟨rfl, whole⟩
      | _ => exact same.elim
    | _ =>
      cases last' with
      | primitive q => exact same.elim
      | _ => exact ⟨rfl, whole⟩

private theorem messageFields_alike {v w : Value ν} (alike : Alike ρ v w) :
    AlikeEntries ρ (messageFields v) (messageFields w) := by
  cases v with
  | error name message stack =>
    cases w with
    | error name' message' stack' =>
      obtain ⟨rfl, rfl, rfl⟩ := alike
      exact ⟨rfl, .inr rfl, rfl, .inr rfl, trivial⟩
    | _ => exact alike.elim
  | _ =>
    cases w with
    | error name' message' stack' => exact alike.elim
    | _ => exact ⟨rfl, .inr alike, trivial⟩

private theorem metaFields_alike {v w : Value ν} (alike : Alike ρ v w) :
    AlikeEntries ρ (metaFields v) (metaFields w) := by
  cases v with
  | primitive p =>
    cases w with
    | primitive q =>
      have alike : p = q := alike
      subst alike
      cases p with
      | undefined => trivial
      | _ => exact ⟨rfl, .inr rfl, trivial⟩
    | _ => exact alike.elim
  | _ =>
    cases w with
    | primitive q => exact alike.elim
    | _ => exact ⟨rfl, .inr alike, trivial⟩

end Arguments

variable (logger : StructuredLoggerService) (now : String)
  (requestContext : Option RequestContextData) (level : LogLevel)

private theorem fields_alike {ρ : Nat → Nat → Prop} {v w : Value Nat}
    {args args' : List (Value Nat)} (alike : Alike ρ v w)
    (rest : List.Forall₂ (Alike ρ) args args') :
    AlikeEntries ρ (logger.fields now requestContext level v args)
      (logger.fields now requestContext level w args') := by
  obtain ⟨context, metadata⟩ := parseArgs_alike rest
  rw [Alike.entries_iff]
  unfold fields
  rw [context]
  apply List.rel_append
  · apply List.rel_append
    · repeat' apply List.Forall₂.cons ⟨rfl, Or.inr rfl⟩
      exact .nil
    · exact Alike.entries_iff.mp (messageFields_alike alike)
  · exact Alike.entries_iff.mp (metaFields_alike metadata)

/-- Two calls whose values differ only under sensitive keys write the same line. -/
theorem write_alike {ρ : Nat → Nat → Prop} (unique : BiUnique ρ) {v w : Value Nat}
    {args args' : List (Value Nat)} (alike : Alike ρ v w)
    (rest : List.Forall₂ (Alike ρ) args args')
    (new : ρ (Value.newIdentity (v :: args)) (Value.newIdentity (w :: args'))) :
    logger.write now requestContext level v args =
      logger.write now requestContext level w args' := by
  have same : logger.entry now requestContext level v args =
      logger.entry now requestContext level w args' := by
    have fields := logger.fields_alike now requestContext level alike rest
    have entered : SeenAlike ρ ∅ ∅ := fun i j _ => by simp
    exact (redact_alike unique (v := .object _ _) (w := .object _ _) ⟨new, fields⟩ entered).1
  unfold write
  rw [same]

end StructuredLoggerService

/-! ### A tree among other values -/

/-- No object of the value occurs in the other values. -/
def Value.Apart (v : Value ν) (others : List (Value ν)) : Prop :=
  ∀ i ∈ others.flatMap (Value.objects fun _ => true), i ∉ v.objects fun _ => true

private theorem zip_right {xs ys : List ν} (nodup : xs.Nodup) {i j k : ν}
    (first : (i, j) ∈ xs.zip ys) (second : (i, k) ∈ xs.zip ys) : j = k := by
  obtain ⟨a, ha, hfirst⟩ := List.mem_iff_getElem.mp first
  obtain ⟨b, hb, hsecond⟩ := List.mem_iff_getElem.mp second
  rw [List.getElem_zip, Prod.mk.injEq] at hfirst hsecond
  have same : a = b := (List.Nodup.getElem_inj_iff nodup).mp (hfirst.1.trans hsecond.1.symm)
  subst same
  exact hfirst.2.symm.trans hsecond.2

private theorem zip_left {xs ys : List ν} (nodup : ys.Nodup) {i j k : ν}
    (first : (i, k) ∈ xs.zip ys) (second : (j, k) ∈ xs.zip ys) : i = j := by
  obtain ⟨a, ha, hfirst⟩ := List.mem_iff_getElem.mp first
  obtain ⟨b, hb, hsecond⟩ := List.mem_iff_getElem.mp second
  rw [List.getElem_zip, Prod.mk.injEq] at hfirst hsecond
  have same : a = b := (List.Nodup.getElem_inj_iff nodup).mp (hfirst.2.trans hsecond.2.symm)
  subst same
  exact hfirst.1.symm.trans hsecond.1

/-- A new object, the objects of a tree at equal places, and every other object to itself. -/
private def Paired (n m : ν) (xs ys others : List ν) (i j : ν) : Prop :=
  (i = n ∧ j = m) ∨ (i, j) ∈ xs.zip ys ∨ (i = j ∧ i ∈ others)

private theorem paired_unique {n m : ν} {xs ys others : List ν} (tree : xs.Nodup)
    (tree' : ys.Nodup) (new : n ∉ xs ∧ n ∉ others) (new' : m ∉ ys ∧ m ∉ others)
    (apart : ∀ i ∈ others, i ∉ xs) (apart' : ∀ i ∈ others, i ∉ ys) :
    BiUnique (Paired n m xs ys others) := by
  constructor
  · rintro i j k (⟨rfl, rfl⟩ | first | ⟨rfl, first⟩) (⟨rfl, same⟩ | second | ⟨rfl, second⟩)
    · rfl
    · exact absurd (List.of_mem_zip second).2 new'.1
    · exact absurd second new'.2
    · exact absurd (List.of_mem_zip first).2 (same ▸ new'.1)
    · exact zip_left tree' first second
    · exact absurd (List.of_mem_zip first).2 (apart' _ second)
    · exact absurd first (same ▸ new'.2)
    · exact absurd (List.of_mem_zip second).2 (apart' _ first)
    · rfl
  · rintro i j k (⟨rfl, rfl⟩ | first | ⟨rfl, first⟩) (⟨same, rfl⟩ | second | ⟨rfl, second⟩)
    · rfl
    · exact absurd (List.of_mem_zip second).1 new.1
    · exact absurd second new.2
    · exact absurd (List.of_mem_zip first).1 (same ▸ new.1)
    · exact zip_right tree first second
    · exact absurd (List.of_mem_zip first).1 (apart _ second)
    · exact absurd first (same ▸ new.2)
    · exact absurd (List.of_mem_zip second).1 (apart _ first)
    · rfl

/-- An identity is new when no object of the values has it. -/
private theorem new_identity {values : List (Value Nat)} {v : Value Nat}
    {others : List (Value Nat)} (called : ∀ u, u = v ∨ u ∈ others → u ∈ values) :
    Value.newIdentity values ∉ reached v ∧
      Value.newIdentity values ∉ others.flatMap (Value.objects fun _ => true) := by
  constructor
  · intro there
    have there := (Value.objects_sublist _ v).subset there
    have below := Value.lt_newIdentity (List.mem_flatMap.mpr ⟨v, called v (.inl rfl), there⟩)
    exact below.false
  · intro there
    obtain ⟨u, hu, there⟩ := List.mem_flatMap.mp there
    have below := Value.lt_newIdentity (List.mem_flatMap.mpr ⟨u, called u (.inr hu), there⟩)
    exact below.false

/-- One tree is exchanged for the other, and the other values stay. -/
private theorem exchanged {v w : Value Nat} {others values values' : List (Value Nat)}
    (tree : v.IsTree) (tree' : w.IsTree) (alike : EqualOutside v w) (apart : v.Apart others)
    (apart' : w.Apart others) (called : ∀ u, u = v ∨ u ∈ others → u ∈ values)
    (called' : ∀ u, u = w ∨ u ∈ others → u ∈ values') :
    ∃ ρ : Nat → Nat → Prop, BiUnique ρ ∧
      ρ (Value.newIdentity values) (Value.newIdentity values') ∧ Alike ρ v w ∧
        ∀ u ∈ others, Alike ρ u u := by
  refine ⟨Paired (Value.newIdentity values) (Value.newIdentity values') (reached v) (reached w)
    (others.flatMap (Value.objects fun _ => true)), ?_, .inl ⟨rfl, rfl⟩, ?_, ?_⟩
  · have inside := (Value.objects_sublist (fun key => !isSensitive key) v).subset
    have inside' := (Value.objects_sublist (fun key => !isSensitive key) w).subset
    exact paired_unique (tree.sublist (Value.objects_sublist _ v))
      (tree'.sublist (Value.objects_sublist _ w)) (new_identity called) (new_identity called')
      (fun i hi there => apart i hi (inside there)) fun i hi there => apart' i hi (inside' there)
  · exact (Alike.of_zip alike).2 _ fun p hp => .inr (.inl hp)
  · intro u hu
    apply Alike.refl
    intro i hi
    have there := (Value.objects_sublist _ u).subset hi
    exact .inr (.inr ⟨rfl, List.mem_flatMap.mpr ⟨u, hu, there⟩⟩)

/-- Values under sensitive keys, at any depth of a tree, influence neither `redact` nor the line
that is logged at a given time, wherever in the call the tree stands. -/
theorem sensitive_values_unseen {v w : Value Nat} (tree : v.IsTree) (tree' : w.IsTree)
    (alike : EqualOutside v w) :
    (redact v ∅).1 = (redact w ∅).1 ∧
      ∀ (logger : StructuredLoggerService) (now : String)
        (requestContext : Option RequestContextData) (level : LogLevel),
        (∀ args, v.Apart args → w.Apart args →
          logger.write now requestContext level v args =
            logger.write now requestContext level w args) ∧
        ∀ message before after, v.Apart (message :: (before ++ after)) →
          w.Apart (message :: (before ++ after)) →
          logger.write now requestContext level message (before ++ v :: after) =
            logger.write now requestContext level message (before ++ w :: after) := by
  refine ⟨?_, fun logger now requestContext level => ⟨?_, ?_⟩⟩
  · obtain ⟨ρ, unique, -, alike, -⟩ := @exchanged v w [] [v] [w] tree tree' alike
      (fun _ hi => nomatch hi) (fun _ hi => nomatch hi) (by simp) (by simp)
    exact (redact_alike unique alike fun i j _ => by simp).1
  · intro args apart apart'
    obtain ⟨ρ, unique, new, alike, same⟩ := exchanged tree tree' alike apart apart'
      (fun u hu => List.mem_cons.mpr hu) (fun u hu => List.mem_cons.mpr hu)
    exact logger.write_alike now requestContext level unique alike (List.forall₂_same.mpr same) new
  · intro message before after apart apart'
    obtain ⟨ρ, unique, new, alike, same⟩ := @exchanged v w _ (message :: (before ++ v :: after))
      (message :: (before ++ w :: after)) tree tree' alike apart apart'
      (by simp only [List.mem_cons, List.mem_append]; tauto)
      (by simp only [List.mem_cons, List.mem_append]; tauto)
    have args : List.Forall₂ (Alike ρ) (before ++ v :: after) (before ++ w :: after) := by
      apply List.rel_append
      · exact List.forall₂_same.mpr fun u hu => same u (by simp [hu])
      · exact .cons alike (List.forall₂_same.mpr fun u hu => same u (by simp [hu]))
    exact logger.write_alike now requestContext level unique (same message List.mem_cons_self) args
      new

private def signIn (secret : Value Nat) : Value Nat :=
  .object 0 [("userId", .primitive (.string "u1")), ("apiKey", secret),
    ("items", .array [.object 1 [("refreshToken", secret)]])]

theorem sensitive_values_unseen_signIn :
    (redact (signIn (.primitive .null)) ∅).1 =
        (redact (signIn (.error "Error" "sk-1" none)) ∅).1 ∧
      ∀ (logger : StructuredLoggerService) (now : String)
        (requestContext : Option RequestContextData) (level : LogLevel),
        (∀ args, (signIn (.primitive .null)).Apart args →
          (signIn (.error "Error" "sk-1" none)).Apart args →
          logger.write now requestContext level (signIn (.primitive .null)) args =
            logger.write now requestContext level (signIn (.error "Error" "sk-1" none)) args) ∧
        ∀ message before after, (signIn (.primitive .null)).Apart (message :: (before ++ after)) →
          (signIn (.error "Error" "sk-1" none)).Apart (message :: (before ++ after)) →
          logger.write now requestContext level message
              (before ++ signIn (.primitive .null) :: after) =
            logger.write now requestContext level message
              (before ++ signIn (.error "Error" "sk-1" none) :: after) := by
  apply sensitive_values_unseen
  · unfold Value.IsTree
    decide
  · unfold Value.IsTree
    decide
  · have hidden : isSensitive "apiKey" = true ∧ isSensitive "refreshToken" = true := by decide
    exact ⟨trivial, rfl, .inr rfl, rfl, .inl hidden.1, rfl,
      .inr ⟨⟨trivial, rfl, .inl hidden.2, trivial⟩, trivial⟩, trivial⟩

end GuitarCoach
