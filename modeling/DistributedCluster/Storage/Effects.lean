import DistributedCluster.Storage.Agreement
import DistributedCluster.Storage.Rules
/-!
# What a write can touch

Whatever the views and the network, a write leaves other keys alone and puts
nothing but its value under its own, also when it ends with an error. If it is
acknowledged and all nodes agree, the primary has the value.
-/

namespace DistributedMap

open Async

variable {K V : Type} [DecidableEq K]

/-- Some nodes may have stored `value` for `key`, and nothing else has changed. -/
structure Touched (partition : Nat) (key : K) (value : V) (s s' : MapCluster K V) : Prop where
  view : s'.view = s.view
  stored : ∀ m p k, s'.stored m p k = s.stored m p k ∨
    p = partition ∧ k = key ∧ s'.stored m p k = some value

/-- What was stored, was stored at nodes in `reach`. -/
structure TouchedAt (reach : NodeId → Prop) (partition : Nat) (key : K) (value : V) (s s' : MapCluster K V) : Prop where
  view : s'.view = s.view
  stored : ∀ m p k, s'.stored m p k = s.stored m p k ∨
    reach m ∧ p = partition ∧ k = key ∧ s'.stored m p k = some value

variable {partition : Nat} {key : K} {value : V} {reach : NodeId → Prop}

instance : IsPreorder (MapCluster K V) (TouchedAt reach partition key value) where
  refl _ := ⟨rfl, fun _ _ _ => .inl rfl⟩
  trans _ _ _ h h' := ⟨h'.view.trans h.view, fun m p k => by
    rcases h'.stored m p k with hs' | hs'
    · rw [hs']
      exact h.stored m p k
    · exact .inr hs'⟩

instance : IsPreorder (MapCluster K V) (Touched partition key value) where
  refl _ := ⟨rfl, fun _ _ _ => .inl rfl⟩
  trans _ _ _ h h' := ⟨h'.view.trans h.view, fun m p k => by
    rcases h'.stored m p k with hs' | hs'
    · rw [hs']
      exact h.stored m p k
    · exact .inr hs'⟩

theorem TouchedAt.touched {s s' : MapCluster K V} (h : TouchedAt reach partition key value s s') :
    Touched partition key value s s' :=
  ⟨h.view, fun m p k => (h.stored m p k).imp_right And.right⟩

/-- Nothing that is stored has changed. -/
theorem TouchedAt.same {s s' : MapCluster K V} (hview : s'.view = s.view)
    (h : ∀ m p k, s'.stored m p k = s.stored m p k) : TouchedAt reach partition key value s s' :=
  ⟨hview, fun m p k => .inl (h m p k)⟩

theorem TouchedAt.store_local (s : MapCluster K V) {n : NodeId} (hn : reach n) :
    TouchedAt reach partition key value s (s.store_local n partition key value) :=
  ⟨rfl, fun m p k => by
    rw [s.stored_store_local]
    split
    · rename_i h
      exact .inr ⟨h.1 ▸ hn, h.2.1, h.2.2, rfl⟩
    · exact .inl rfl⟩

theorem Touched.clear_ops (s : MapCluster K V) (n : NodeId) : Touched partition key value s (s.clear_ops n) :=
  ⟨rfl, fun m p k => .inl (s.stored_clear_ops n m p k)⟩

theorem Touched.insert_op (s : MapCluster K V) (n : NodeId) (op_id : String) :
    Touched partition key value s (s.insert_op n op_id) :=
  ⟨rfl, fun m p k => .inl (s.stored_insert_op n m op_id p k)⟩

theorem Touched.store_local (s : MapCluster K V) (n : NodeId) :
    Touched partition key value s (s.store_local n partition key value) :=
  have h : TouchedAt (fun _ => True) partition key value s (s.store_local n partition key value) := .store_local s trivial
  h.touched

theorem Touched.send (s : MapCluster K V) (n : NodeId) (addr : SocketAddr) (req : Request) :
    Touched partition key value s (s.send n addr req) := ⟨rfl, fun _ _ _ => .inl rfl⟩

/-! ## Each operation -/

section Programs

variable {cfg : MapConfig} {net : Network}

section Touching

variable {S : Sem (MapI K V) (MapCluster K V)} [hS : StepsOf S cfg net]

/-- Every action of `p` touches only the key, and only at nodes in `reach`. -/
abbrev Touches (S : Sem (MapI K V) (MapCluster K V)) (reach : NodeId → Prop) (partition : Nat) (key : K) (value : V)
    {α : Type} (p : MapM K V α) : Prop :=
  Triple S Eq (TouchedAt reach partition key value) (fun _ => True) p fun _ _ => True

omit [DecidableEq K] in
theorem stable_true : Stable (Eq : MapCluster K V → MapCluster K V → Prop) fun _ => True := fun _ _ _ _ => trivial

omit hS in
theorem reaching_all (cfg : MapConfig) (net : Network) :
    Reaching (MapSem cfg net : Sem (MapI K V) (MapCluster K V)) fun _ => True := fun _ _ _ _ _ _ _ _ _ _ => trivial

omit hS in
/-- The same for whoever does not ask where. -/
theorem Touches.touched {α : Type} {p : MapM K V α} (h : Touches S reach partition key value p) :
    Triple S Eq (Touched partition key value) (fun _ => True) p fun _ _ => True :=
  fun s hs => wp_weaken (fun _ _ h => h.touched) (h s hs)

omit hS in
theorem touches_pure {α : Type} (a : α) : Touches S reach partition key value (pure a : MapM K V α) :=
  Triple.pure stable_true fun _ _ => trivial

include hS

theorem should_process_touches (n : NodeId) (op_id : String) :
    Touches S reach partition key value (should_process n op_id) :=
  triple_should_process (M := fun _ => True) stable_true stable_true (fun _ => stable_true) (fun _ _ _ => trivial)
    (fun _ _ _ => trivial) (fun s _ => ⟨.same rfl (s.stored_clear_ops n), trivial⟩)
    fun s _ => ⟨.same rfl fun m => s.stored_insert_op n m op_id, trivial⟩

theorem store_local_touches {n : NodeId} (hn : reach n) :
    Touches S reach partition key value (store_local n partition key value) :=
  triple_store_local stable_true (fun _ => stable_true) fun s _ => ⟨.store_local s hn, trivial⟩

theorem get_owners_touches (n : NodeId) : Touches S reach partition key value (get_owners (K := K) (V := V) cfg n partition) :=
  triple_get_owners stable_true (fun _ => stable_true) fun _ _ => trivial

theorem store_replica_touches {m : NodeId} (hm : reach m) (op_id : String) :
    Touches S reach partition key value (store_replica m partition op_id key value) := by
  refine (should_process_touches m op_id).bind fun b => ?_
  cases b with
  | true => exact (store_local_touches hm).bind fun _ => touches_pure _
  | false => exact touches_pure _

variable [Key K] [Json V]

theorem handle_replicate_touches {m : NodeId} (hm : reach m) (op_id : String) {text : String}
    (h : Json.to_json value = .ok text) :
    Touches S reach partition key value
      (handle_replicate (K := K) (V := V) m ⟨partition, op_id, Key.to_string key, text⟩) :=
  triple_handle_write (fun _ => stable_true) h (store_replica_touches hm op_id)

theorem replicate_all_touches (hreach : Reaching S reach) (n : NodeId) (op_id : String) (bs : List NodeId) :
    Touches S reach partition key value (replicate_all n partition op_id key value bs) :=
  triple_replicate_all (P := fun _ _ => True) (fun _ => stable_true)
    (fun b _ => (triple_post_write_any hreach stable_true (fun _ _ _ _ => ⟨.same rfl fun _ _ _ => rfl, trivial⟩)
      fun _ htext m hm => handle_replicate_touches hm op_id htext).post fun r _ _ => by cases r <;> trivial)
    (fun _ _ => trivial) bs

theorem store_as_primary_touches (hreach : Reaching S reach) {n : NodeId} (hn : reach n) (op_id : String) :
    Touches S reach partition key value (store_as_primary cfg n partition op_id key value) := by
  refine (should_process_touches n op_id).bind fun b => ?_
  cases b with
  | true =>
    refine (store_local_touches hn).bind fun _ => ?_
    exact (get_owners_touches n).bind fun owners => replicate_all_touches hreach n op_id owners.tail
  | false => exact touches_pure _

theorem forward_put_touches (hreach : Reaching S reach) (n primary : NodeId) (op_id : String) :
    Touches S reach partition key value (forward_put cfg n primary partition op_id key value) :=
  triple_post_write_any hreach stable_true (fun _ _ _ _ => ⟨.same rfl fun _ _ _ => rfl, trivial⟩)
    fun _ htext _ hm => triple_handle_write (fun _ => stable_true) htext (store_as_primary_touches hreach hm op_id)

/-- The first owner in the view of `n`, or `n` itself if there is none. -/
def primary_for (cfg : MapConfig) (view : NodeId → MembershipService) (n : NodeId) (partition : Nat) : NodeId :=
  (cfg.partitioner.get_owners (view n) partition).head?.getD n

/-- The handling node itself stores the value only if it takes itself for the primary. -/
theorem put_with_op_touches {view : NodeId → MembershipService} {n : NodeId} {key : K} (hreach : Reaching S reach)
    (hself : primary_for cfg view n (cfg.partition_of key) = n → reach n) (value : V) (op_id : String) :
    Triple S Eq (TouchedAt reach (cfg.partition_of key) key value) (fun s => s.view = view)
      (put_with_op cfg n key value op_id) fun _ _ => True := by
  have hprocess : Triple S Eq (TouchedAt reach (cfg.partition_of key) key value) (fun s => s.view = view)
      (should_process n op_id) fun _ s => s.view = view :=
    (should_process_touches n op_id).frame (stable_eq _) (fun _ _ h hs => h.view.trans hs) fun _ _ => trivial
  refine hprocess.bind fun b => ?_
  cases b with
  | false => exact Triple.pure stable_true fun _ _ => trivial
  | true =>
    have howners : Triple S Eq (TouchedAt reach (cfg.partition_of key) key value) (fun s => s.view = view)
        (get_owners (K := K) (V := V) cfg n (cfg.partition_of key)) fun owners _ =>
          owners = cfg.partitioner.get_owners (view n) (cfg.partition_of key) ∧ True :=
      triple_get_owners (stable_eq _) (fun _ => stable_eq _) fun s hs => ⟨by rw [hs], trivial⟩
    refine howners.bind fun owners => Triple.assume fun howners => ?_
    unfold primary_for at hself
    rw [← howners] at hself
    cases owners with
    | nil => exact (store_local_touches (hself rfl)).bind fun _ => touches_pure _
    | cons primary backups =>
      dsimp only
      split
      · exact forward_put_touches hreach n primary op_id
      · rename_i heq
        have hn : reach n := hself (not_not.1 heq).symm
        exact (store_local_touches hn).bind fun _ => replicate_all_touches hreach n op_id backups

end Touching

variable [Key K] [Json V]

/-- A `put` alone touches only its key, however it ends. -/
theorem touched_of_put {n : NodeId} {key : K} {value : V} {s s' : MapCluster K V} {r : Result Unit}
    (h : Runs (MapSem cfg net) Eq (put cfg n key value) s r s') : Touched (cfg.partition_of key) key value s s' := by
  obtain ⟨op_id, s₁, huuid, hput⟩ := runs_bind.1 h
  obtain ⟨-, rfl⟩ := runs_perform.1 huuid
  have htouched : TouchedAt (fun _ => True) (cfg.partition_of key) key value (s.use op_id) s' :=
    wp_guarantee (put_with_op_touches (reaching_all cfg net) (fun _ => trivial) value op_id (s.use op_id) rfl) hput
  exact ⟨htouched.view, htouched.touched.stored⟩

/-! ## What an acknowledgement promises -/

section Acknowledged

open CompactJson

variable {φ : (NodeId → MembershipService) → Prop} {view : NodeId → MembershipService} {primary : NodeId} {op_id : String}

/-- The views are as `φ` says, and the primary has the value. -/
def Held (φ : (NodeId → MembershipService) → Prop) (primary : NodeId) (partition : Nat) (key : K) (value : V)
    (s : MapCluster K V) : Prop :=
  φ s.view ∧ s.stored primary partition key = some value

/-- The views are as `φ` says, and the primary has the value if it knows the operation. -/
def HeldIfKnown (φ : (NodeId → MembershipService) → Prop) (primary : NodeId) (partition : Nat) (op_id : String) (key : K)
    (value : V) (s : MapCluster K V) : Prop :=
  φ s.view ∧ (s.recorded primary op_id → s.stored primary partition key = some value)

/-- What `n` sends to `m` arrives at `m`, if it arrives. -/
def Routed (cfg : MapConfig) (view : NodeId → MembershipService) (n m : NodeId) : Prop :=
  ∀ node, (view n).get_member m = some node → ∀ m', cfg.host n node.http_addr = some m' → m' = m

omit [Key K] [Json V] in
theorem held_stable : Stable (Touched partition key value) (Held φ primary partition key value) := by
  rintro s s' h ⟨hs, hstored⟩
  refine ⟨h.view ▸ hs, ?_⟩
  rcases h.stored primary partition key with hsame | ⟨-, -, hnew⟩
  · rw [hsame, hstored]
  · exact hnew

/-- Whether it is the first delivery or a repeated one, the primary has the value
afterwards, also when the replication fails. -/
theorem store_as_primary_holds :
    Triple (MapSem cfg net) Eq (Touched partition key value) (HeldIfKnown φ primary partition op_id key value)
      (store_as_primary cfg primary partition op_id key value)
      fun _ => Held φ primary partition key value := by
  have hprocess : Triple (MapSem cfg net) Eq (Touched partition key value)
      (HeldIfKnown φ primary partition op_id key value) (should_process primary op_id) fun b s =>
        (b = false → s.stored primary partition key = some value) ∧ φ s.view := by
    refine triple_should_process (M := fun s => φ s.view) (stable_eq _) (stable_eq _)
      (fun _ => stable_eq _) ?_ (fun s hs _ => hs.1) ?_ ?_
    · intro s hs hfound
      exact ⟨fun _ => hs.2 (of_decide_eq_true hfound.1.symm), hs.1⟩
    · exact fun s hs => ⟨.clear_ops s primary, hs⟩
    · exact fun s hs => ⟨.insert_op s primary op_id, fun h => (by cases h), hs⟩
  refine hprocess.bind fun b => ?_
  cases b with
  | false => exact Triple.pure (stable_eq _) fun s hs => ⟨hs.2, hs.1 rfl⟩
  | true =>
    have hstore : Triple (MapSem cfg net) Eq (Touched partition key value)
        (fun s => (true = false → s.stored primary partition key = some value) ∧ φ s.view)
        (store_local primary partition key value) fun _ => Held φ primary partition key value :=
      triple_store_local (stable_eq _) (fun _ => stable_eq _) fun s hs =>
        ⟨.store_local s primary, hs.2, by rw [s.stored_store_local, if_pos ⟨rfl, rfl, rfl⟩]⟩
    refine hstore.bind fun _ => ?_
    have howners : Touches (MapSem cfg net) (fun _ => True) partition key value (get_owners (K := K) (V := V) cfg primary partition) :=
      get_owners_touches primary
    refine (howners.touched.frame (stable_eq _) held_stable fun _ _ => trivial).bind fun owners => ?_
    exact (replicate_all_touches (reaching_all cfg net) primary op_id owners.tail).touched.frame (stable_eq _) held_stable
      fun _ _ => trivial

/-- An attempt whose answer is lost leaves the primary with the value, so that the
next one is acknowledged without a write. -/
theorem forward_put_holds {n : NodeId} (hrouted : Routed cfg view n primary) :
    Triple (MapSem cfg net) Eq (Touched partition key value) (HeldIfKnown (· = view) primary partition op_id key value)
      (forward_put cfg n primary partition op_id key value)
      fun r s => r = .ok () → Held (· = view) primary partition key value s := by
  refine triple_post_write (stable_eq _) (fun _ => stable_eq _) ?_ ?_ ?_ ?_ ?_ ?_
  · exact fun _ _ _ h => by cases h
  · intro s node hs hnode m hm
    rw [show s.view = view from hs.1] at hnode
    exact hrouted node hnode m hm
  · exact fun s addr req hs => ⟨.send s n addr req, hs⟩
  · exact fun _ _ _ _ _ _ _ _ h => by cases h
  · intro text htext
    refine triple_handle_write (fun _ => stable_eq _) htext (store_as_primary_holds.post fun r s hs => ?_)
    cases r with
    | ok _ => exact fun _ => hs
    | error e => exact fun h => by cases h
  · intro _ text htext
    exact triple_handle_write (fun _ => stable_eq _) htext
      (store_as_primary_holds.post fun _ _ hs => ⟨hs.1, fun _ => hs.2⟩)

theorem put_with_op_holds {n : NodeId} {key : K} {value : V}
    (hrouted : primary_for cfg view n (cfg.partition_of key) ≠ n →
      Routed cfg view n (primary_for cfg view n (cfg.partition_of key))) :
    Triple (MapSem cfg net) Eq (Touched (cfg.partition_of key) key value)
      (fun s => s.view = view ∧ ∀ m, ¬ s.recorded m op_id) (put_with_op cfg n key value op_id)
      fun r s => r = .ok () →
        Held (· = view) (primary_for cfg view n (cfg.partition_of key)) (cfg.partition_of key) key value s := by
  have hprocess : Triple (MapSem cfg net) Eq (Touched (cfg.partition_of key) key value)
      (fun s => s.view = view ∧ ∀ m, ¬ s.recorded m op_id) (should_process n op_id) fun b s =>
        b = true ∧ s.view = view ∧ ∀ m, m ≠ n → ¬ s.recorded m op_id := by
    refine triple_should_process (M := fun s => s.view = view ∧ ∀ m, ¬ s.recorded m op_id) (stable_eq _)
      (stable_eq _) (fun _ => stable_eq _) ?_ (fun s hs _ => hs) ?_ ?_
    · exact fun s hs hfound => absurd (of_decide_eq_true hfound.1.symm) (hs.2 n)
    · exact fun s hs => ⟨.clear_ops s n, hs.1, fun m hm => hs.2 m ((s.recorded_clear_ops n m op_id).1 hm).2⟩
    · refine fun s hs => ⟨.insert_op s n op_id, rfl, hs.1, fun m hne hrec => ?_⟩
      rcases (s.recorded_insert_op n m op_id op_id).1 hrec with ⟨he, -⟩ | hold
      · exact hne he
      · exact hs.2 m hold
  refine hprocess.bind fun b => Triple.assume ?_
  rintro rfl
  have hget : Triple (MapSem cfg net) Eq (Touched (cfg.partition_of key) key value)
      (fun s => s.view = view ∧ ∀ m, m ≠ n → ¬ s.recorded m op_id) (get_owners (K := K) (V := V) cfg n (cfg.partition_of key))
      fun owners s => owners = cfg.partitioner.get_owners (view n) (cfg.partition_of key) ∧
        s.view = view ∧ ∀ m, m ≠ n → ¬ s.recorded m op_id :=
    triple_get_owners (stable_eq _) (fun _ => stable_eq _) fun s hs => ⟨by rw [hs.1], hs⟩
  refine hget.bind fun owners => Triple.assume fun howners => ?_
  have hstore : Triple (MapSem cfg net) Eq (Touched (cfg.partition_of key) key value)
      (fun s => s.view = view ∧ ∀ m, m ≠ n → ¬ s.recorded m op_id) (store_local n (cfg.partition_of key) key value)
      fun _ => Held (· = view) n (cfg.partition_of key) key value :=
    triple_store_local (stable_eq _) (fun _ => stable_eq _) fun s hs =>
      ⟨.store_local s n, hs.1, by rw [s.stored_store_local, if_pos ⟨rfl, rfl, rfl⟩]⟩
  unfold primary_for at hrouted ⊢
  rw [← howners] at hrouted ⊢
  cases owners with
  | nil => exact hstore.bind fun _ => Triple.pure (stable_eq _) fun _ hs _ => hs
  | cons primary backups =>
    dsimp only [List.head?_cons, Option.getD_some] at hrouted ⊢
    split
    · -- the primary has not recorded the operation, so it stores the value
      rename_i hne
      exact (forward_put_holds (hrouted hne.symm)).pre fun s hs => ⟨hs.1, fun hrec => absurd hrec (hs.2 primary hne.symm)⟩
    · rename_i heq
      obtain rfl : n = primary := not_not.1 heq
      refine hstore.bind fun _ => ?_
      exact ((replicate_all_touches (reaching_all cfg net) n op_id backups).touched.frame (stable_eq _) held_stable fun _ _ => trivial).post
        fun _ _ hs _ => hs

/-- After an acknowledged `put` the primary in the view of the node has the value. -/
theorem stored_of_put {n : NodeId} {key : K} {value : V} {s s' : MapCluster K V}
    (hrouted : primary_for cfg s.view n (cfg.partition_of key) ≠ n →
      Routed cfg s.view n (primary_for cfg s.view n (cfg.partition_of key)))
    (h : Runs (MapSem cfg net) Eq (put cfg n key value) s (.ok ()) s') :
    s'.stored (primary_for cfg s.view n (cfg.partition_of key)) (cfg.partition_of key) key = some value := by
  obtain ⟨op, s₁, huuid, hput⟩ := runs_bind.1 h
  obtain ⟨hop, rfl⟩ := runs_perform.1 huuid
  have hnew : (s.use op).view = s.view ∧ ∀ m, ¬ (s.use op).recorded m op := ⟨rfl, fun m hm => hop (s.ops_used m hm)⟩
  exact ((put_with_op_holds hrouted).runs hnew hput rfl).2

/-- At every address a node meets itself, as if all of them were wildcards. -/
def self_cfg : MapConfig := { pair_cfg with host := fun n _ => some n }

/-- A node that asks itself instead of the primary has seen the operation already:
the put is acknowledged and no node has the value. -/
theorem acknowledged_nowhere :
    ∃ s', Runs (MapSem self_cfg .reliable) Eq (put self_cfg node_b "k" true) (.empty (demo_view pair)) (.ok ()) s' ∧
      ∀ m p k, s'.stored m p k = none := by
  let ended := exec (MapInt (answered self_cfg)) (put self_cfg node_b "k" true) (.empty (demo_view pair))
  have hrun : Runs (MapSem self_cfg .reliable) Eq (put self_cfg node_b "k" true) (.empty (demo_view pair)) ended.1 ended.2 :=
    exec_runs (MapInt_sem (allows_answered .reliable)) _ _
  have hok : ended.1 = .ok () := by decide +kernel
  have hmeets : Meets (MapInt (answered self_cfg)) (fun e _ _ => MapAct.is_store e = false) (put self_cfg node_b "k" true)
      (.empty (demo_view pair)) := by
    decide +kernel
  have hstored : ended.2.stored = (MapCluster.empty (demo_view pair)).stored := stored_exec hmeets
  refine ⟨ended.2, hok ▸ hrun, fun m p k => ?_⟩
  rw [hstored, MapCluster.stored_empty]

theorem routed_of_agreed {ring : NodeRing NodeId} (hview : Agreed cfg ring view) {n m : NodeId} (hn : n ∈ ring.ids)
    (hm : m ∈ ring.ids) : Routed cfg view n m := by
  intro node hnode m' hm'
  obtain ⟨node', hnode', hhost⟩ := hview.reach n hn m hm
  rw [hnode] at hnode'
  obtain rfl := Option.some.inj hnode'
  rw [hm'] at hhost
  exact Option.some.inj hhost

/-- If all nodes agree, that is the primary. -/
theorem held_of_put {ring : NodeRing NodeId} {n : NodeId} (hn : n ∈ ring.ids) {key : K} {value : V} {s s' : MapCluster K V}
    (hs : Agreed cfg ring s.view) (hp : (cfg.owners ring (cfg.partition_of key)).head? = some primary)
    (h : Runs (MapSem cfg net) Eq (put cfg n key value) s (.ok ()) s') :
    s'.stored primary (cfg.partition_of key) key = some value := by
  have hprimary : primary_for cfg s.view n (cfg.partition_of key) = primary := by
    rw [primary_for, hs.get_owners hn, hp, Option.getD_some]
  have hmem : primary ∈ ring.ids := MapConfig.mem_of_mem_owners (List.mem_of_mem_head? hp)
  have hstored := stored_of_put (fun _ => hprimary ▸ routed_of_agreed hs hn hmem) h
  rwa [hprimary] at hstored

end Acknowledged

end Programs

end DistributedMap
