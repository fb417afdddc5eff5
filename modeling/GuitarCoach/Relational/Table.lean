/- digest: Tables of rows whose primary key is unique by construction. -/

import Mathlib.Data.List.Nodup
import Mathlib.Data.List.Perm.Subperm

set_option autoImplicit false
set_option relaxedAutoImplicit false

namespace GuitarCoach.Relational

variable {ρ κ : Type}

/-- The rows in the order of their insertion; no two of them have the same key. -/
structure Table (key : ρ → κ) where
  rows : List ρ
  unique : (rows.map key).Nodup

namespace Table

variable {key : ρ → κ}

theorem ext_rows {t u : Table key} (h : t.rows = u.rows) : t = u := by
  cases t
  cases u
  cases h
  rfl

def empty : Table key := ⟨[], List.nodup_nil⟩

@[simp] theorem rows_empty : (empty : Table key).rows = [] := rfl

theorem eq_of_key {t : Table key} {a b : ρ} (ha : a ∈ t.rows) (hb : b ∈ t.rows)
    (h : key a = key b) : a = b :=
  List.inj_on_of_nodup_map t.unique ha hb h

theorem nodup (t : Table key) : t.rows.Nodup := t.unique.of_map

def deleteWhere (t : Table key) (p : ρ → Bool) : Table key :=
  ⟨t.rows.filter fun a => !p a, t.unique.sublist (List.filter_sublist.map key)⟩

@[simp] theorem rows_deleteWhere (t : Table key) (p : ρ → Bool) :
    (t.deleteWhere p).rows = t.rows.filter fun a => !p a := rfl

theorem mem_deleteWhere {t : Table key} {p : ρ → Bool} {a : ρ} :
    a ∈ (t.deleteWhere p).rows ↔ a ∈ t.rows ∧ p a = false := by
  simp

theorem deleteWhere_congr {t : Table key} {p q : ρ → Bool} (same : ∀ a ∈ t.rows, p a = q a) :
    t.deleteWhere p = t.deleteWhere q :=
  ext_rows (List.filter_congr fun a ha => by rw [same a ha])

@[simp] theorem deleteWhere_none (t : Table key) : (t.deleteWhere fun _ => false) = t :=
  ext_rows (by simp)

theorem deleteWhere_deleteWhere (t : Table key) (p q : ρ → Bool) :
    (t.deleteWhere p).deleteWhere q = t.deleteWhere fun a => p a || q a := by
  refine ext_rows ?_
  simp only [rows_deleteWhere, List.filter_filter]
  exact List.filter_congr fun a _ => by cases p a <;> cases q a <;> rfl

/-- An update never touches the key. -/
def updateWhere (t : Table key) (p : ρ → Bool) (f : ρ → ρ) (same : ∀ a, key (f a) = key a) :
    Table key :=
  ⟨t.rows.map fun a => if p a then f a else a, by
    have hkeys : (t.rows.map fun a => if p a then f a else a).map key = t.rows.map key := by
      rw [List.map_map]
      refine List.map_congr_left fun a _ => ?_
      simp only [Function.comp_apply]
      split
      · exact same a
      · rfl
    exact hkeys ▸ t.unique⟩

@[simp] theorem rows_updateWhere (t : Table key) (p : ρ → Bool) (f : ρ → ρ)
    (same : ∀ a, key (f a) = key a) :
    (t.updateWhere p f same).rows = t.rows.map fun a => if p a then f a else a := rfl

@[simp] theorem updateWhere_none (t : Table key) (f : ρ → ρ) (same : ∀ a, key (f a) = key a) :
    t.updateWhere (fun _ => false) f same = t :=
  ext_rows (by simp)

theorem updateWhere_congr {t : Table key} {p q : ρ → Bool} {f : ρ → ρ}
    {same : ∀ a, key (f a) = key a} (agree : ∀ a ∈ t.rows, p a = q a) :
    t.updateWhere p f same = t.updateWhere q f same :=
  ext_rows (List.map_congr_left fun a ha => by rw [agree a ha])

/-- Rows are updated alike whether or not others have been deleted. -/
theorem deleteWhere_updateWhere {t : Table key} {p q : ρ → Bool} {f : ρ → ρ}
    {same : ∀ a, key (f a) = key a} (stays : ∀ a, p (f a) = p a) :
    (t.updateWhere q f same).deleteWhere p = (t.deleteWhere p).updateWhere q f same := by
  refine ext_rows ?_
  rw [rows_deleteWhere, rows_updateWhere, rows_updateWhere, rows_deleteWhere, List.filter_map]
  refine congrArg (List.map _) (List.filter_congr fun a _ => ?_)
  rw [Function.comp_apply]
  split
  · rw [stays a]
  · rfl

section Keys

variable [DecidableEq κ]

def find (t : Table key) (k : κ) : Option ρ := t.rows.find? fun a => key a = k

def has (t : Table key) (k : κ) : Bool := t.rows.any fun a => key a = k

/-- `none` when the key is taken. -/
def insert (t : Table key) (a : ρ) : Option (Table key) :=
  if fresh : key a ∉ t.rows.map key then
    some ⟨t.rows ++ [a], by
      rw [List.map_append, List.map_singleton]
      exact List.nodup_append.mpr ⟨t.unique, List.nodup_singleton _, fun k hk l hl =>
        List.mem_singleton.mp hl ▸ fun same => fresh (same ▸ hk)⟩⟩
  else none

theorem find_eq_some {t : Table key} {k : κ} {a : ρ} :
    t.find k = some a ↔ a ∈ t.rows ∧ key a = k := by
  constructor
  · intro h
    exact ⟨List.mem_of_find?_eq_some h, by simpa using List.find?_some h⟩
  · rintro ⟨ha, rfl⟩
    cases hf : t.find (key a) with
    | none => simpa using List.find?_eq_none.mp hf a ha
    | some b =>
      have hb := List.mem_of_find?_eq_some hf
      have hk : key b = key a := by simpa using List.find?_some hf
      rw [eq_of_key hb ha hk]

theorem find_eq_none {t : Table key} {k : κ} :
    t.find k = none ↔ ∀ a ∈ t.rows, key a ≠ k := by
  simp [find, List.find?_eq_none]

/-- The row a key finds is the only one with that key. -/
theorem filter_of_find {t : Table key} {k : κ} {a : ρ} (found : t.find k = some a) :
    t.rows.filter (fun b => key b = k) = [a] := by
  obtain ⟨ha, rfl⟩ := find_eq_some.mp found
  refine List.perm_singleton.mp ((List.perm_ext_iff_of_nodup (t.nodup.filter _)
    (List.nodup_singleton a)).mpr fun b => ?_)
  rw [List.mem_filter, List.mem_singleton, decide_eq_true_iff]
  constructor
  · exact fun h => eq_of_key h.1 ha h.2
  · rintro rfl
    exact ⟨ha, rfl⟩

@[simp] theorem has_iff {t : Table key} {k : κ} :
    t.has k = true ↔ ∃ a ∈ t.rows, key a = k := by
  simp [has]

theorem has_of_append {t u : Table key} {l : List ρ} {k : κ} (rows : u.rows = t.rows ++ l)
    (there : t.has k = true) : u.has k = true := by
  obtain ⟨a, ha, hk⟩ := has_iff.mp there
  exact has_iff.mpr ⟨a, rows ▸ List.mem_append_left l ha, hk⟩

theorem insert_eq_some {t u : Table key} {a : ρ} :
    t.insert a = some u ↔ key a ∉ t.rows.map key ∧ u.rows = t.rows ++ [a] := by
  unfold insert
  split
  · next fresh =>
    simp only [Option.some.injEq, fresh, not_false_eq_true, true_and]
    exact ⟨fun h => h ▸ rfl, fun h => ext_rows h.symm⟩
  · next taken => exact ⟨fun h => (nomatch h), fun h => absurd h.1 taken⟩

theorem insert_of_fresh {t : Table key} {a : ρ} (fresh : key a ∉ t.rows.map key) :
    ∃ u, t.insert a = some u ∧ u.rows = t.rows ++ [a] := by
  simp [insert, fresh]

theorem has_updateWhere {t : Table key} {p : ρ → Bool} {f : ρ → ρ}
    (same : ∀ a, key (f a) = key a) {k : κ} (there : t.has k = true) :
    (t.updateWhere p f same).has k = true := by
  obtain ⟨a, ha, rfl⟩ := has_iff.mp there
  refine has_iff.mpr ⟨_, List.mem_map.mpr ⟨a, ha, rfl⟩, ?_⟩
  split
  · exact same a
  · rfl

theorem updateWhere_has {t : Table key} {p : ρ → Bool} {f : ρ → ρ}
    {same : ∀ a, key (f a) = key a} {k : κ} : (t.updateWhere p f same).has k = t.has k := by
  have keys : ((t.updateWhere p f same).rows.map key) = t.rows.map key := by
    rw [rows_updateWhere, List.map_map]
    refine List.map_congr_left fun a _ => ?_
    rw [Function.comp_apply]
    split
    · exact same a
    · rfl
  have mem : k ∈ (t.updateWhere p f same).rows.map key ↔ k ∈ t.rows.map key := by rw [keys]
  rw [List.mem_map, List.mem_map] at mem
  rw [Bool.eq_iff_iff, has_iff, has_iff]
  exact mem

theorem has_deleteKeys {t : Table key} {keys : List κ} {k : κ} :
    (t.deleteWhere fun a => decide (key a ∈ keys)).has k = true ↔ t.has k = true ∧ k ∉ keys := by
  rw [has_iff, has_iff]
  constructor
  · rintro ⟨a, ha, rfl⟩
    obtain ⟨ha, stays⟩ := mem_deleteWhere.mp ha
    exact ⟨⟨a, ha, rfl⟩, of_decide_eq_false stays⟩
  · rintro ⟨⟨a, ha, rfl⟩, stays⟩
    exact ⟨a, mem_deleteWhere.mpr ⟨ha, decide_eq_false stays⟩, rfl⟩

section Commute

variable {t u : Table key} {a : ρ} {p q : ρ → Bool} {f : ρ → ρ} {same : ∀ a, key (f a) = key a}

/-- A new row that is deleted with others leaves no trace. -/
theorem deleteWhere_insert_gone (inserted : t.insert a = some u) (goes : p a = true) :
    u.deleteWhere p = t.deleteWhere p := by
  have rows := (insert_eq_some.mp inserted).2
  refine ext_rows ?_
  simp [rows, goes]

theorem insert_deleteWhere (inserted : t.insert a = some u) (stays : p a = false) :
    (t.deleteWhere p).insert a = some (u.deleteWhere p) := by
  obtain ⟨fresh, rows⟩ := insert_eq_some.mp inserted
  refine insert_eq_some.mpr ⟨fun there => fresh ?_, by simp [rows, stays]⟩
  obtain ⟨b, hb, hk⟩ := List.mem_map.mp there
  exact List.mem_map.mpr ⟨b, (mem_deleteWhere.mp hb).1, hk⟩

theorem insert_updateWhere (inserted : t.insert a = some u) (stays : q a = false) :
    (t.updateWhere q f same).insert a = some (u.updateWhere q f same) := by
  obtain ⟨fresh, rows⟩ := insert_eq_some.mp inserted
  refine insert_eq_some.mpr ⟨fun there => fresh ?_, by simp [rows, stays]⟩
  obtain ⟨b, hb, hk⟩ := List.mem_map.mp there
  obtain ⟨c, hc, rfl⟩ := List.mem_map.mp hb
  refine List.mem_map.mpr ⟨c, hc, ?_⟩
  rw [← hk]
  split
  · exact (same c).symm
  · rfl

end Commute

end Keys

/-- Deleting by the keys of the rows a predicate selects is deleting by the predicate. -/
theorem deleteWhere_keys [DecidableEq κ] (t : Table key) (p : ρ → Bool) :
    (t.deleteWhere fun a => decide (key a ∈ (t.rows.filter p).map key)) = t.deleteWhere p := by
  refine deleteWhere_congr fun a ha => ?_
  rw [Bool.eq_iff_iff, decide_eq_true_iff, List.mem_map]
  constructor
  · rintro ⟨b, hb, hk⟩
    obtain ⟨hb, hp⟩ := List.mem_filter.mp hb
    rwa [← eq_of_key hb ha hk]
  · exact fun hp => ⟨a, List.mem_filter.mpr ⟨ha, hp⟩, rfl⟩

/-- As many rows as keys were asked for means that the keys differ and each has one of the rows. -/
theorem length_eq_iff_covers [DecidableEq κ] {t : Table key} {keys : List κ} {p : ρ → Bool} :
    (t.rows.filter fun a => key a ∈ keys && p a).length = keys.length ↔
      keys.Nodup ∧ ∀ k ∈ keys, ∃ a ∈ t.rows, key a = k ∧ p a = true := by
  have unique : ((t.rows.filter fun a => key a ∈ keys && p a).map key).Nodup :=
    t.unique.sublist (List.filter_sublist.map key)
  have mem : ∀ {k}, k ∈ (t.rows.filter fun a => key a ∈ keys && p a).map key ↔
      k ∈ keys ∧ ∃ a ∈ t.rows, key a = k ∧ p a = true := by
    intro k
    simp only [List.mem_map, List.mem_filter, Bool.and_eq_true, decide_eq_true_eq]
    constructor
    · rintro ⟨a, ⟨ha, hk, hp⟩, rfl⟩
      exact ⟨hk, a, ha, rfl, hp⟩
    · rintro ⟨hk, a, ha, rfl, hp⟩
      exact ⟨a, ⟨ha, hk, hp⟩, rfl⟩
  have found : ((t.rows.filter fun a => key a ∈ keys && p a).map key).Subperm keys :=
    unique.subperm fun k hk => (mem.mp hk).1
  constructor
  · intro all
    have perm := found.perm_of_length_le (by simp [all])
    exact ⟨perm.nodup_iff.mp unique, fun k hk => (mem.mp (perm.mem_iff.mpr hk)).2⟩
  · rintro ⟨nodup, covered⟩
    have asked : keys.Subperm ((t.rows.filter fun a => key a ∈ keys && p a).map key) :=
      nodup.subperm fun k hk => mem.mpr ⟨hk, covered k hk⟩
    have length := Nat.le_antisymm found.length_le asked.length_le
    rwa [List.length_map] at length

theorem covers_of_length [DecidableEq κ] (t : Table key) (keys : List κ) (p : ρ → Bool)
    (all : (t.rows.filter fun a => key a ∈ keys && p a).length = keys.length) :
    ∀ k ∈ keys, ∃ a ∈ t.rows, key a = k ∧ p a = true :=
  (length_eq_iff_covers.mp all).2

end Table

end GuitarCoach.Relational
