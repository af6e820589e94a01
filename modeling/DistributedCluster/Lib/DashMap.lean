import Mathlib.Data.List.AList
/-!
# Concurrent hash maps

A map whose operations are atomic, with the entries in some order. Nothing
promises an order: a property of what iteration yields is stated up to
permutation.
-/

abbrev DashMap (K V : Type) := AList (fun _ : K => V)

namespace DashMap

variable {K V : Type}

def iter (m : DashMap K V) : List (K × V) := m.entries.map fun e => (e.1, e.2)

def values (m : DashMap K V) : List V := m.entries.map fun e => e.2

def len (m : DashMap K V) : Nat := m.entries.length

def isEmpty (m : DashMap K V) : Bool := m.entries.isEmpty

theorem iter_keys (m : DashMap K V) : m.iter.map Prod.fst = m.keys := by
  simp [iter, AList.keys, List.keys, Function.comp_def]

theorem iter_keys_nodup (m : DashMap K V) : (m.iter.map Prod.fst).Nodup := by
  rw [iter_keys]
  exact m.keys_nodup

theorem isEmpty_iff (m : DashMap K V) : m.isEmpty = true ↔ m = ∅ := by
  rw [isEmpty, List.isEmpty_iff]
  exact ⟨fun h => AList.ext h, fun h => h ▸ rfl⟩

theorem iter_eq_nil (m : DashMap K V) : m.iter = [] ↔ m = ∅ := by
  rw [← isEmpty_iff, isEmpty, List.isEmpty_iff, iter, List.map_eq_nil_iff]

variable [DecidableEq K]

theorem mem_iter {m : DashMap K V} {k : K} {v : V} : (k, v) ∈ m.iter ↔ m.lookup k = some v := by
  rw [← Option.mem_def, AList.mem_lookup_iff]
  simp [iter]

theorem mem_values {m : DashMap K V} {v : V} : v ∈ m.values ↔ ∃ k, m.lookup k = some v := by
  simp only [← mem_iter, values, iter, List.mem_map, Prod.mk.injEq]
  constructor
  · rintro ⟨e, he, rfl⟩
    exact ⟨e.1, e, he, rfl, rfl⟩
  · rintro ⟨k, e, he, -, rfl⟩
    exact ⟨e, he, rfl⟩

theorem ne_empty_iff {m : DashMap K V} : m ≠ ∅ ↔ ∃ k v, m.lookup k = some v := by
  rw [ne_eq, ← iter_eq_nil, ← ne_eq, List.ne_nil_iff_exists_cons]
  constructor
  · rintro ⟨⟨k, v⟩, l, h⟩
    exact ⟨k, v, mem_iter.1 (h ▸ List.mem_cons_self)⟩
  · rintro ⟨k, v, h⟩
    obtain ⟨a, l, h⟩ := List.exists_cons_of_ne_nil (List.ne_nil_of_mem (mem_iter.2 h))
    exact ⟨a, l, h⟩

theorem lookup_insert_eq (m : DashMap K V) (k k' : K) (v : V) :
    (m.insert k v).lookup k' = if k' = k then some v else m.lookup k' := by
  by_cases h : k' = k
  · rw [h, AList.lookup_insert, if_pos rfl]
  · rw [AList.lookup_insert_ne h, if_neg h]

/-- The map that is `f` on `keys`. -/
def ofKeys (keys : List K) (h : keys.Nodup) (f : K → V) : DashMap K V where
  entries := keys.map fun k => ⟨k, f k⟩
  nodupKeys := by
    rw [List.NodupKeys, List.keys, List.map_map]
    exact (List.map_id keys).symm ▸ h

omit [DecidableEq K] in
theorem values_ofKeys (keys : List K) (h : keys.Nodup) (f : K → V) : (ofKeys keys h f).values = keys.map f := by
  simp [values, ofKeys]

theorem lookup_ofKeys (keys : List K) (h : keys.Nodup) (f : K → V) (k : K) :
    (ofKeys keys h f).lookup k = if k ∈ keys then some (f k) else none := by
  ext v
  rw [← mem_iter]
  simp only [iter, ofKeys, List.map_map, List.mem_map, Function.comp_apply, Prod.mk.injEq]
  constructor
  · rintro ⟨k', hk, rfl, rfl⟩
    rw [if_pos hk]
  · intro hv
    split at hv
    · exact ⟨k, ‹_›, rfl, Option.some.inj hv⟩
    · cases hv

/-! ## Maps of maps -/

/-- All entries, whatever map they are in. -/
def flatten {P : Type} (m : DashMap P (DashMap K V)) : List (K × V) := m.values.flatMap iter

theorem mem_flatten {P : Type} [DecidableEq P] {m : DashMap P (DashMap K V)} {p : P} {k : K} {v : V}
    (h : ((m.lookup p).bind fun inner => inner.lookup k) = some v) : (k, v) ∈ m.flatten := by
  obtain ⟨inner, hinner, hv⟩ := Option.bind_eq_some_iff.1 h
  exact List.mem_flatMap.2 ⟨inner, mem_values.2 ⟨p, hinner⟩, mem_iter.2 hv⟩

/-! ## Updates of every value -/

def mapValues (f : V → V) (m : DashMap K V) : DashMap K V where
  entries := m.entries.map fun e => ⟨e.1, f e.2⟩
  nodupKeys := by
    rw [List.NodupKeys, List.keys, List.map_map]
    exact m.nodupKeys

omit [DecidableEq K] in
theorem iter_mapValues (f : V → V) (m : DashMap K V) :
    (m.mapValues f).iter = m.iter.map fun e => (e.1, f e.2) := by
  simp [iter, mapValues]

theorem lookup_mapValues (f : V → V) (m : DashMap K V) (k : K) :
    (m.mapValues f).lookup k = (m.lookup k).map f := by
  ext v
  rw [← mem_iter, iter_mapValues]
  simp only [List.mem_map, Prod.mk.injEq, Option.map_eq_some_iff, ← mem_iter]
  constructor
  · rintro ⟨e, he, rfl, rfl⟩
    exact ⟨e.2, he, rfl⟩
  · rintro ⟨u, hu, rfl⟩
    exact ⟨(k, u), hu, rfl, rfl⟩

end DashMap
