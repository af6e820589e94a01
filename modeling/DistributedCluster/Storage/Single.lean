import DistributedCluster.Storage.Ownership
import DistributedCluster.Storage.Read
/-!
# A node alone

A node that holds nobody alive but itself owns every partition. It sends
nothing: a read returns what it stores, and a put stores.
-/

namespace DistributedMap

open Async

def single (n : NodeId) : NodeRing NodeId := ⟨[n], by simp⟩

variable {cfg : MapConfig} {net : Network} {n : NodeId}

theorem owners_single (p : Nat) : cfg.owners (single n) p = [n] := by
  have hmem : n ∈ (single n).ids := List.mem_cons_self
  obtain ⟨primary, backups, howners⟩ := MapConfig.owners_cons cfg hmem p
  have hlength : (cfg.owners (single n) p).length = min cfg.partitioner.replication_factor 1 := NodeRing.owners_length ..
  have hprimary : primary ∈ cfg.owners (single n) p := by
    rw [howners]
    exact List.mem_cons_self
  have hpos := cfg.partitioner.replication_factor_pos
  rw [howners, List.length_cons] at hlength
  obtain rfl : primary = n := by simpa [single] using MapConfig.mem_of_mem_owners hprimary
  rw [howners, List.eq_nil_of_length_eq_zero (l := backups) (by omega)]

variable {K V : Type} [DecidableEq K] {s s' : MapCluster K V}

/-- Node `n` holds nobody alive but itself. -/
def Single (n : NodeId) (s : MapCluster K V) : Prop := PartitionManager.HoldsAlive (s.view n) (single n)

omit [DecidableEq K] in
theorem Single.get_owners (h : Single n s) (p : Nat) : cfg.partitioner.get_owners (s.view n) p = [n] := by
  rw [PartitionManager.get_owners_eq _ (PartitionManager.HoldsAlive.sees h)]
  exact owners_single p

theorem runs_get_owners_single (h : Single n s) {p : Nat} {owners : List NodeId} :
    Runs (MapSem cfg net) Eq (get_owners cfg n p) s owners s' ↔ owners = [n] ∧ s' = s := by
  unfold DistributedMap.get_owners
  rw [runs_bind]
  constructor
  · rintro ⟨view, s₁, hview, hdone⟩
    obtain ⟨rfl, rfl⟩ := runs_perform.1 hview
    obtain ⟨rfl, rfl⟩ := runs_pure.1 hdone
    exact ⟨h.get_owners p, rfl⟩
  · rintro ⟨rfl, rfl⟩
    exact ⟨_, s', runs_perform.2 ⟨rfl, rfl⟩, runs_pure.2 ⟨(h.get_owners p).symm, rfl⟩⟩

variable [Key K] [Json V]

/-- A node alone reads what it stores. -/
theorem get_single (h : Single n s) {key : K} {r : Option V} (hrun : Runs (MapSem cfg net) Eq (get cfg n key) s r s') :
    r = s.stored n (cfg.partition_of key) key ∧ s' = s := by
  obtain ⟨found, s₁, hlookup, hrest⟩ := runs_bind.1 hrun
  obtain ⟨hfound, rfl⟩ : found = s.stored n (cfg.partition_of key) key ∧ s₁ = s := runs_perform.1 hlookup
  rw [← hfound]
  cases found with
  | some value =>
    obtain ⟨rfl, rfl⟩ := runs_pure.1 hrest
    exact ⟨rfl, rfl⟩
  | none =>
    obtain ⟨owners, s₂, howners, hfetch⟩ := runs_bind.1 hrest
    obtain ⟨rfl, rfl⟩ := (runs_get_owners_single h).1 howners
    -- the only owner has just been asked
    dsimp only at hfetch
    rw [if_pos rfl] at hfetch
    obtain ⟨rfl, rfl⟩ := runs_pure.1 hfetch
    exact ⟨rfl, rfl⟩

/-- A node alone stores what it puts, and nothing else. -/
theorem put_single (h : Single n s) {key : K} {value : V} {r : Result Unit}
    (hrun : Runs (MapSem cfg net) Eq (put cfg n key value) s r s') :
    r = .ok () ∧ s'.view = s.view ∧ ∀ k, s'.stored n (cfg.partition_of k) k =
      if k = key then some value else s.stored n (cfg.partition_of k) k := by
  obtain ⟨op_id, s₁, huuid, hput⟩ := runs_bind.1 hrun
  obtain ⟨hnew, rfl⟩ := runs_perform.1 huuid
  obtain ⟨b, s₂, hprocess, hrest⟩ := runs_bind.1 hput
  have hfresh : ¬ (s.use op_id).recorded n op_id := fun hrec => hnew (s.ops_used n hrec)
  obtain ⟨rfl, hview, hstored, -⟩ := should_process_new hfresh hprocess
  obtain ⟨owners, s₃, howners, hstores⟩ := runs_bind.1 hrest
  have hsingle : Single n s₂ := by
    rw [Single, hview]
    exact h
  obtain ⟨rfl, rfl⟩ := (runs_get_owners_single hsingle).1 howners
  dsimp only at hstores
  rw [if_neg (not_not.2 rfl)] at hstores
  obtain ⟨_, s₄, hstore, hdone⟩ := runs_bind.1 hstores
  obtain rfl : s₄ = s₃.store_local n (cfg.partition_of key) key value := runs_perform.1 hstore
  obtain ⟨rfl, rfl⟩ := runs_pure.1 hdone
  refine ⟨rfl, hview, fun k => ?_⟩
  rw [s₃.stored_store_local, hstored]
  by_cases hk : k = key
  · subst hk
    simp
  · simp [hk]

end DistributedMap
