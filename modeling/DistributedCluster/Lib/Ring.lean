import Mathlib.Data.List.Rotate
import Mathlib.Data.List.Sort
import Mathlib.Data.Int.CardIntervalMod
/-!
# Ownership on a ring

Nodes in increasing order, closed to a ring. The owners of slot `p` are the `r`
nodes from position `p` on, counted around the ring.
-/

structure NodeRing (α : Type) [LinearOrder α] where
  ids : List α
  sorted : ids.Pairwise (· < ·)

namespace NodeRing

variable {α : Type} [LinearOrder α]

def owners (ring : NodeRing α) (r p : Nat) : List α := (ring.ids.rotate p).take r

theorem ids_nodup (ring : NodeRing α) : ring.ids.Nodup := ring.sorted.imp ne_of_lt

theorem owners_nodup (ring : NodeRing α) (r p : Nat) : (ring.owners r p).Nodup :=
  (List.nodup_rotate.2 ring.ids_nodup).sublist (List.take_sublist _ _)

theorem owners_length (ring : NodeRing α) (r p : Nat) : (ring.owners r p).length = min r ring.ids.length := by
  rw [owners, List.length_take, List.length_rotate]

theorem mem_of_mem_owners {ring : NodeRing α} {r p : Nat} {a : α} (h : a ∈ ring.owners r p) : a ∈ ring.ids :=
  List.mem_rotate.1 (List.mem_of_mem_take h)

theorem owners_eq_nil {ring : NodeRing α} {r p : Nat} : ring.owners r p = [] ↔ r = 0 ∨ ring.ids = [] := by
  rw [owners, List.take_eq_nil_iff, List.rotate_eq_nil_iff]

/-- The owners, counted by index. -/
theorem owners_eq_map (ring : NodeRing α) (r p : Nat) (h : 0 < ring.ids.length) :
    ring.owners r p = (List.range (min r ring.ids.length)).map fun offset =>
      ring.ids.get ⟨(p % ring.ids.length + offset) % ring.ids.length, Nat.mod_lt _ h⟩ := by
  refine List.ext_getElem (by simp [owners]) fun i h₁ h₂ => ?_
  have hi : (i + p) % ring.ids.length = (p % ring.ids.length + i) % ring.ids.length := by
    rw [Nat.mod_add_mod, Nat.add_comm]
  simp only [owners, List.getElem_take, List.getElem_rotate, List.getElem_map, List.getElem_range,
    List.get_eq_getElem, hi]

/-! ## Counted by position -/

variable {ring : NodeRing α} {r p : Nat} {a : α}

def position (ring : NodeRing α) (a : α) : Nat := ring.ids.idxOf a

theorem position_lt (ha : a ∈ ring.ids) : ring.position a < ring.ids.length := List.idxOf_lt_length_iff.2 ha

/-- The owner at `offset`, counted around the ring. -/
theorem getElem?_owners (ring : NodeRing α) {r offset : Nat} (p : Nat) (hr : offset < r) (hn : offset < ring.ids.length) :
    (ring.owners r p)[offset]? = ring.ids[(p + offset) % ring.ids.length]? := by
  rw [owners, List.getElem?_take_of_lt hr, List.getElem?_rotate hn, Nat.add_comm offset p]

theorem head?_owners (ring : NodeRing α) {r : Nat} (p : Nat) (hr : 0 < r) (hn : 0 < ring.ids.length) :
    (ring.owners r p).head? = ring.ids[p % ring.ids.length]? := by
  rw [List.head?_eq_getElem?, getElem?_owners ring p hr hn, Nat.add_zero]

theorem head?_owners_eq_some (ha : a ∈ ring.ids) (hr : 0 < r) :
    (ring.owners r p).head? = some a ↔ p % ring.ids.length = ring.position a := by
  have hi : ring.position a < ring.ids.length := position_lt ha
  have hn : 0 < ring.ids.length := Nat.zero_lt_of_lt hi
  rw [head?_owners ring p hr hn, List.getElem?_eq_some_iff]
  constructor
  · rintro ⟨hp, rfl⟩
    rw [position, ring.ids_nodup.idxOf_getElem]
  · intro hp
    refine ⟨Nat.mod_lt _ hn, ?_⟩
    simp only [hp, position, List.getElem_idxOf]

/-- The number of slots below `k` that start at a node. -/
theorem countP_head?_owners (ha : a ∈ ring.ids) (hr : 0 < r) (k : Nat) :
    (List.range k).countP (fun p => (ring.owners r p).head? = some a) =
      k / ring.ids.length + if ring.position a < k % ring.ids.length then 1 else 0 := by
  have hi : ring.position a < ring.ids.length := position_lt ha
  have hmod : ∀ p, (ring.owners r p).head? = some a ↔ p ≡ ring.position a [MOD ring.ids.length] := by
    intro p
    rw [head?_owners_eq_some ha hr, Nat.ModEq, Nat.mod_eq_of_lt hi]
  have hcount := Nat.count_modEq_card k (Nat.zero_lt_of_lt hi) (ring.position a)
  rw [Nat.mod_eq_of_lt hi] at hcount
  rw [← hcount, Nat.count]
  exact List.countP_congr fun p _ => by simp [hmod]

/-- One node is the first owner. -/
theorem countP_first (ring : NodeRing α) {r : Nat} (p : Nat) (hr : 0 < r) (hn : ring.ids ≠ []) :
    ring.ids.countP (fun a => (ring.owners r p).head? = some a) = 1 := by
  obtain ⟨first, later, hcons⟩ := List.exists_cons_of_ne_nil (l := ring.owners r p) fun h =>
    (owners_eq_nil.1 h).elim hr.ne' hn
  have hmem : first ∈ ring.ids := mem_of_mem_owners (p := p) (r := r) (by rw [hcons]; exact List.mem_cons_self)
  rw [← List.count_eq_one_of_mem ring.ids_nodup hmem, List.count]
  refine List.countP_congr fun a _ => ?_
  simp only [hcons, List.head?_cons, Option.some.injEq, decide_eq_true_eq, beq_iff_eq]
  exact eq_comm

/-- The others that own the slot. -/
theorem countP_later (ring : NodeRing α) (r p : Nat) :
    ring.ids.countP (fun a => a ∈ (ring.owners r p).tail) = min r ring.ids.length - 1 := by
  have hnodup : (ring.owners r p).tail.Nodup := (ring.owners_nodup r p).sublist (List.tail_sublist _)
  have hperm : (ring.ids.filter fun a => a ∈ (ring.owners r p).tail).Perm (ring.owners r p).tail := by
    refine (List.perm_ext_iff_of_nodup (ring.ids_nodup.filter _) hnodup).2 fun a => ?_
    simp only [List.mem_filter, decide_eq_true_eq, and_iff_right_iff_imp]
    exact fun h => mem_of_mem_owners (List.mem_of_mem_tail h)
  rw [List.countP_eq_length_filter, hperm.length_eq, List.length_tail, owners_length]

/-! ## One node fewer -/

/-- The ring without one of its nodes. -/
def without (ring : NodeRing α) (a : α) : NodeRing α := ⟨ring.ids.erase a, ring.sorted.sublist List.erase_sublist⟩

theorem length_without (ha : a ∈ ring.ids) : (ring.without a).ids.length = ring.ids.length - 1 := List.length_erase_of_mem ha

theorem getElem?_without (ring : NodeRing α) (a : α) (i : Nat) :
    (ring.without a).ids[i]? = if i < ring.position a then ring.ids[i]? else ring.ids[i + 1]? := by
  change (ring.ids.erase a)[i]? = _
  rw [← List.eraseIdx_idxOf_eq_erase, List.getElem?_eraseIdx, position]

theorem add_mod_eq_iff {m q t : Nat} (ht : t < m) : (q + t) % m = t ↔ m ∣ q := by
  constructor
  · intro h
    have hmod : q + t ≡ 0 + t [MOD m] := by
      rw [Nat.ModEq, h, Nat.zero_add, Nat.mod_eq_of_lt ht]
    exact Nat.modEq_zero_iff_dvd.1 (Nat.ModEq.add_right_cancel' t hmod)
  · rintro ⟨k, rfl⟩
    rw [Nat.mul_add_mod, Nat.mod_eq_of_lt ht]

/-- A turn around the larger ring is a turn around the smaller one and a step. -/
theorem mod_pred {n : Nat} (hn : 1 ≤ n) (p : Nat) : p % (n - 1) = (p / n + p % n) % (n - 1) := by
  have hmul : n * (p / n) = (n - 1) * (p / n) + p / n := by
    rw [← Nat.succ_mul]
    congr 1
    omega
  have hp : p = (n - 1) * (p / n) + (p / n + p % n) := by
    have hdiv := Nat.div_add_mod p n
    omega
  conv_lhs => rw [hp]
  rw [Nat.mul_add_mod]

theorem getElem?_inj {i j : Nat} (hi : i < ring.ids.length) : ring.ids[i]? = ring.ids[j]? ↔ i = j := by
  refine ⟨fun h => ?_, fun h => h ▸ rfl⟩
  rw [List.getElem?_eq_getElem hi, eq_comm, List.getElem?_eq_some_iff] at h
  obtain ⟨hj, h⟩ := h
  exact ((ring.ids_nodup.getElem_inj_iff).1 h).symm

theorem getElem?_eq_some_iff (ha : a ∈ ring.ids) {i : Nat} : ring.ids[i]? = some a ↔ i = ring.position a := by
  rw [List.getElem?_eq_some_iff]
  constructor
  · rintro ⟨_, rfl⟩
    rw [position, ring.ids_nodup.idxOf_getElem]
  · rintro rfl
    exact ⟨position_lt ha, List.getElem_idxOf (position_lt ha)⟩

/-- When `a` leaves, the first owner of a slot is the second one so far, or stays
where it is another node: exactly where the smaller ring has turned far enough. -/
theorem takes_over_iff (ha : a ∈ ring.ids) (hn : 2 ≤ ring.ids.length) (hr : 2 ≤ r) (p : Nat) :
    (((ring.owners r p).head? = some a → ((ring.without a).owners r p).head? = (ring.owners r p)[1]?) ∧
      ((ring.owners r p).head? ≠ some a → ((ring.without a).owners r p).head? = (ring.owners r p).head?)) ↔
    ring.ids.length - 1 ∣ if p % ring.ids.length ≤ ring.position a then p / ring.ids.length else p / ring.ids.length + 1 := by
  have hj : ring.position a < ring.ids.length := position_lt ha
  have hi : p % ring.ids.length < ring.ids.length := Nat.mod_lt _ (by omega)
  have hlength : (ring.without a).ids.length = ring.ids.length - 1 := length_without ha
  have hk : p % (ring.ids.length - 1) < ring.ids.length - 1 := Nat.mod_lt _ (by omega)
  have hturn := mod_pred (by omega : 1 ≤ ring.ids.length) p
  rw [head?_owners ring p (by omega) (by omega), head?_owners (ring.without a) p (by omega) (by omega),
    getElem?_owners ring p (by omega) (by omega), hlength, getElem?_without]
  generalize hq : p / ring.ids.length = q at *
  generalize hI : p % ring.ids.length = i at *
  generalize hK : p % (ring.ids.length - 1) = k at *
  have hhead : ring.ids[i]? = some a ↔ i = ring.position a := getElem?_eq_some_iff ha
  have hplace : (if k < ring.position a then ring.ids[k]? else ring.ids[k + 1]?) =
      ring.ids[if k < ring.position a then k else k + 1]? := by split <;> rfl
  have hbound : (if k < ring.position a then k else k + 1) < ring.ids.length := by split <;> omega
  have hnext : (p + 1) % ring.ids.length = if i + 1 = ring.ids.length then 0 else i + 1 := by
    rw [Nat.add_mod, hI, Nat.mod_eq_of_lt (show 1 < ring.ids.length by omega)]
    split
    · rename_i hlast
      rw [hlast, Nat.mod_self]
    · exact Nat.mod_eq_of_lt (by omega)
  rw [ne_eq, hhead, hplace, hnext, getElem?_inj hbound, getElem?_inj hbound]
  rcases Nat.lt_trichotomy i (ring.position a) with hlt | heq | hgt
  · rw [show (if i ≤ ring.position a then q else q + 1) = q from if_pos hlt.le,
      ← add_mod_eq_iff (show i < ring.ids.length - 1 by omega), ← hturn]
    split <;> split <;> omega
  · rw [show (if i ≤ ring.position a then q else q + 1) = q from if_pos heq.le]
    by_cases hlast : i + 1 = ring.ids.length
    · -- the last node's slots pass to the first
      have hself : k = q % (ring.ids.length - 1) := by
        rw [hturn, show i = ring.ids.length - 1 by omega, Nat.add_mod_right]
      rw [show (if i + 1 = ring.ids.length then 0 else i + 1) = 0 from if_pos hlast,
        ← add_mod_eq_iff (show 0 < ring.ids.length - 1 by omega), Nat.add_zero q, ← hself]
      split <;> omega
    · rw [show (if i + 1 = ring.ids.length then 0 else i + 1) = i + 1 from if_neg hlast,
        ← add_mod_eq_iff (show i < ring.ids.length - 1 by omega), ← hturn]
      split <;> omega
  · rw [show (if i ≤ ring.position a then q else q + 1) = q + 1 from if_neg (by omega),
      ← add_mod_eq_iff (show i - 1 < ring.ids.length - 1 by omega),
      show q + 1 + (i - 1) = q + i by omega, ← hturn]
    split <;> split <;> omega

end NodeRing
