import DistributedCluster.Storage.Effects
/-!
# What a failed write leaves behind

A write stores first and replicates afterwards, and nothing is taken back. When it
ends with an error, the value may have arrived wherever the call got to.
-/

namespace DistributedMap

open Async

variable {K V : Type} [DecidableEq K] [Key K] [Json V] {cfg : MapConfig} {net : Network} {n : NodeId} {key : K} {value : V}
  {op_id : String} {s s' : MapCluster K V} {e : Error}

/-- Attempts of requests only arrive at nodes in `reached`. -/
def OnlyAt (reached : NodeId → Prop) : (e : MapAct K V) → MapCluster K V → (MapI K V).Ans e → Prop
  | .send _ _ _ _, _, fate => ∀ m, fate = .unheard m ∨ fate = .replied m → reached m
  | _, _, _ => True

/-- What the map does while requests only arrive at nodes in `reached`. -/
abbrev ReachedSem (cfg : MapConfig) (net : Network) (reached : NodeId → Prop) : Sem (MapI K V) (MapCluster K V) :=
  (MapSem cfg net).restrict (OnlyAt reached)

/-- Who stores a write that `n` handles: whom its requests reach, and itself as the primary. -/
def Recipient (cfg : MapConfig) (view : NodeId → MembershipService) (reached : NodeId → Prop) (n : NodeId) (partition : Nat)
    (m : NodeId) : Prop :=
  reached m ∨ m = n ∧ primary_for cfg view n partition = n

omit [Key K] [Json V] in
theorem reaching_reachedSem (reached : NodeId → Prop) (view : NodeId → MembershipService) (n : NodeId) (partition : Nat) :
    Reaching (ReachedSem cfg net reached : Sem (MapI K V) (MapCluster K V)) (Recipient cfg view reached n partition) :=
  fun _ _ _ _ _ _ _ hact m hm => .inl (hact.2 m hm)

/-- However it ends, a write is stored only where it got to. -/
theorem touched_where {reached : NodeId → Prop} {r : Result Unit}
    (hrun : Runs (ReachedSem cfg net reached) Eq (put_with_op cfg n key value op_id) s r s') :
    TouchedAt (Recipient cfg s.view reached n (cfg.partition_of key)) (cfg.partition_of key) key value s s' :=
  wp_guarantee (put_with_op_touches (reaching_reachedSem reached s.view n _) (fun hself => .inr ⟨rfl, hself⟩) value op_id s
    rfl) hrun

theorem put_with_op_fails {view : NodeId → MembershipService} (hself : primary_for cfg view n (cfg.partition_of key) = n) :
    Triple (MapSem cfg net) Eq (Touched (cfg.partition_of key) key value) (fun s => s.view = view)
      (put_with_op cfg n key value op_id)
      fun r s => (∃ e, r = .error e) → Held (· = view) n (cfg.partition_of key) key value s := by
  have hprocess : Touches (MapSem cfg net) (fun _ => True) (cfg.partition_of key) key value (should_process n op_id) :=
    should_process_touches n op_id
  refine (hprocess.touched.frame (stable_eq _) (fun _ _ h hs => h.view.trans hs) fun _ _ => trivial).bind fun b => ?_
  cases b with
  | false => exact Triple.pure (stable_eq _) fun _ _ ⟨_, herr⟩ => by cases herr
  | true =>
    have hget : Triple (MapSem cfg net) Eq (Touched (cfg.partition_of key) key value) (fun s => s.view = view)
        (get_owners (K := K) (V := V) cfg n (cfg.partition_of key)) fun owners s =>
          owners = cfg.partitioner.get_owners (view n) (cfg.partition_of key) ∧ s.view = view :=
      triple_get_owners (stable_eq _) (fun _ => stable_eq _) fun s hs => ⟨by rw [hs], hs⟩
    refine hget.bind fun owners => Triple.assume fun howners => ?_
    have hstore : Triple (MapSem cfg net) Eq (Touched (cfg.partition_of key) key value) (fun s => s.view = view)
        (store_local n (cfg.partition_of key) key value) fun _ => Held (· = view) n (cfg.partition_of key) key value :=
      triple_store_local (stable_eq _) (fun _ => stable_eq _) fun s hs =>
        ⟨.store_local s n, hs, by rw [s.stored_store_local, if_pos ⟨rfl, rfl, rfl⟩]⟩
    unfold primary_for at hself
    rw [← howners] at hself
    cases owners with
    | nil => exact hstore.bind fun _ => Triple.pure (stable_eq _) fun _ _ ⟨_, herr⟩ => by cases herr
    | cons primary backups =>
      dsimp only [List.head?_cons, Option.getD_some] at hself ⊢
      rw [if_neg (not_not.2 hself.symm)]
      refine hstore.bind fun _ => ?_
      exact ((replicate_all_touches (reaching_all cfg net) n op_id backups).touched.frame (stable_eq _) held_stable
        fun _ _ => trivial).post fun _ _ hs _ => hs

/-- After a failed write a node has the value it had or the new one; the new one only
if it handled the write as its primary or a request of the write reached it. The
primary that handled it keeps the new one. -/
theorem failed_put {reached : NodeId → Prop}
    (hrun : Runs (ReachedSem cfg net reached) Eq (put_with_op cfg n key value op_id) s (.error e) s') :
    (∀ m p k, s'.stored m p k = s.stored m p k ∨
        (reached m ∨ m = n ∧ primary_for cfg s.view n (cfg.partition_of key) = n) ∧ p = cfg.partition_of key ∧ k = key ∧
          s'.stored m p k = some value) ∧
      (primary_for cfg s.view n (cfg.partition_of key) = n → s'.stored n (cfg.partition_of key) key = some value) := by
  have hrun' : Runs (MapSem cfg net) Eq (put_with_op cfg n key value op_id) s (.error e) s' :=
    hrun.of_sem fun _ _ _ _ hact => hact.1
  exact ⟨(touched_where hrun).stored, fun hself => ((put_with_op_fails hself).runs rfl hrun' ⟨e, rfl⟩).2⟩

section Example

open CompactJson

/-- Node a, the primary of `"k"`, writes while all requests are lost. -/
def lost_put : Result Unit × MapCluster String Bool :=
  exec (MapInt all_lost) (put_with_op pair_cfg node_a "k" true "op") (.empty (demo_view pair))

theorem runs_lost_put (reached : NodeId → Prop) : Runs (ReachedSem pair_cfg .lossy reached) Eq
    (put_with_op pair_cfg node_a "k" true "op") (.empty (demo_view pair)) (.error .request) lost_put.2 := by
  have hreached : ∀ (e : MapAct String Bool) s, OnlyAt reached e s (MapInt all_lost e s).1 := by
    intro e s
    cases e with
    | send n addr req i => exact fun m hm => by rcases hm with h | h <;> cases h
    | _ => trivial
  have herr : lost_put.1 = .error .request := by decide +kernel
  have hint : ∀ e s, ReachedSem pair_cfg .lossy reached e s (MapInt all_lost e s).1 (MapInt all_lost e s).2 :=
    fun e s => ⟨MapInt_sem allows_all_lost e s, hreached e s⟩
  exact herr ▸ exec_runs hint (put_with_op pair_cfg node_a "k" true "op") (.empty (demo_view pair))

theorem failed_put_lost :
    (∀ m p k, lost_put.2.stored m p k = (MapCluster.empty (demo_view pair) : MapCluster String Bool).stored m p k ∨
        (False ∨ m = node_a ∧ primary_for pair_cfg (demo_view pair) node_a (pair_cfg.partition_of "k") = node_a) ∧
          p = pair_cfg.partition_of "k" ∧ k = "k" ∧ lost_put.2.stored m p k = some true) ∧
      (primary_for pair_cfg (demo_view pair) node_a (pair_cfg.partition_of "k") = node_a →
        lost_put.2.stored node_a (pair_cfg.partition_of "k") "k" = some true) :=
  failed_put (runs_lost_put fun _ => False)

/-- The primary has the value, although the write failed. -/
theorem value_of_failed_put :
    ¬ ∀ (cfg : MapConfig) (net : Network) (n : NodeId) (key : String) (value : Bool) (op_id : String)
      (s s' : MapCluster String Bool) (e : Error), Runs (MapSem cfg net) Eq (put_with_op cfg n key value op_id) s (.error e) s' →
        ∀ m p, s'.stored m p key = s.stored m p key := by
  intro h
  have hrun : Runs (MapSem pair_cfg .lossy) Eq (put_with_op pair_cfg node_a "k" true "op") (.empty (demo_view pair))
      (.error .request) lost_put.2 := (runs_lost_put fun _ => False).of_sem fun _ _ _ _ hact => hact.1
  have hsame := h pair_cfg .lossy node_a "k" true "op" _ _ _ hrun node_a (pair_cfg.partition_of "k")
  exact absurd hsame (by decide +kernel)

end Example

end DistributedMap
