import DistributedCluster.Storage.Effects
import DistributedCluster.Storage.Ownership
/-!
# Forwarded writes under different views

The sender of a write forwards it to the first owner in its own view. The
receiver stores it and sends it to all owners in its view but the first, which
it takes to be itself.
-/

/-- Node `n` holds exactly the nodes of `ring` alive, itself among them, and
reaches each of them. -/
structure Knows (cfg : MapConfig) (ring : NodeRing NodeId) (n : NodeId) (view : MembershipService) : Prop where
  alive : PartitionManager.HoldsAlive view ring
  self : n ∈ ring.ids
  reach : ∀ m ∈ ring.ids, ∃ node, view.get_member m = some node ∧ cfg.host n node.http_addr = some m

section Knows

variable {cfg : MapConfig} {ring : NodeRing NodeId} {n m : NodeId} {view : MembershipService}
  (h : Knows cfg ring n view)

include h

theorem Knows.get_owners (p : Nat) : cfg.partitioner.get_owners view p = cfg.owners ring p :=
  PartitionManager.get_owners_eq _ h.alive.sees _

theorem Knows.host_of_member {node : Node} (hm : m ∈ ring.ids) (hnode : view.get_member m = some node) :
    cfg.host n node.http_addr = some m := by
  obtain ⟨node', hnode', hhost⟩ := h.reach m hm
  rw [hnode] at hnode'
  obtain rfl := Option.some.inj hnode'
  exact hhost

theorem Knows.member_ne_none (hm : m ∈ ring.ids) : view.get_member m ≠ none := by
  obtain ⟨node, hnode, -⟩ := h.reach m hm
  rw [hnode]
  simp

end Knows

theorem knows_demo {all ring : NodeRing NodeId} {replication_factor : Nat} {n : NodeId} (hn : n ∈ ring.ids)
    (hsub : ∀ a ∈ ring.ids, a ∈ all.ids)
    (hinj : ∀ a ∈ all.ids, ∀ b ∈ all.ids, http_of (demo_addr a) = http_of (demo_addr b) → a = b) :
    Knows (demo_cfg all replication_factor) ring n (demo_view ring n) where
  alive := PartitionManager.holdsAlive_settled ..
  self := hn
  reach m hm := (agreed_demo replication_factor hsub hinj).reach n hn m hm

namespace DistributedMap

open Async

variable {K V : Type} [DecidableEq K] {cfg : MapConfig} {ring : NodeRing NodeId} {view : NodeId → MembershipService}
  {n receiver b m : NodeId} {partition : Nat} {op_id : String} {key : K} {value : V} {s s' : MapCluster K V}

/-- What others may do meanwhile: anything but write the key, use the operation
id or change a view. -/
structure Apart (op_id : String) (partition : Nat) (key : K) (s s' : MapCluster K V) : Prop where
  view : s'.view = s.view
  recorded : ∀ m, s'.recorded m op_id → s.recorded m op_id
  stored : ∀ m, s'.stored m partition key = s.stored m partition key

instance : IsPreorder (MapCluster K V) (Apart op_id partition key) where
  refl _ := ⟨rfl, fun _ h => h, fun _ => rfl⟩
  trans _ _ _ h h' := ⟨h'.view.trans h.view, fun m hm => h.recorded m (h'.recorded m hm),
    fun m => (h'.stored m).trans (h.stored m)⟩

/-- The nodes of `O` have the value, except some of `bs` that can still take it. -/
structure Waiting (view : NodeId → MembershipService) (op_id : String) (partition : Nat) (key : K) (value : V)
    (O : Set NodeId) (bs : List NodeId) (s : MapCluster K V) : Prop where
  view : s.view = view
  value : ∀ m ∈ O, s.stored m partition key = some value ∨ m ∈ bs ∧ ¬ s.recorded m op_id

/-- What a program of the write reaches beside the others, while no message is lost. -/
abbrev Reaches {α : Type} (cfg : MapConfig) (op_id : String) (partition : Nat) (key : K) (value : V)
    (P : MapCluster K V → Prop) (p : MapM K V α) (Q : α → MapCluster K V → Prop) : Prop :=
  Triple (MapSem cfg .reliable) (Apart op_id partition key) (Touched partition key value) P p Q

variable {O : Set NodeId} {bs : List NodeId}

theorem waiting_stable : Stable (Apart op_id partition key) (Waiting view op_id partition key value O bs) := by
  intro s s' h hs
  refine ⟨h.view.trans hs.view, fun m hm => ?_⟩
  rw [h.stored]
  exact (hs.value m hm).imp_right fun hm => ⟨hm.1, fun hrec => hm.2 (h.recorded m hrec)⟩

theorem acked_stable {P : MapCluster K V → Prop} (hP : Stable (Apart op_id partition key) P) (r : Result Unit) :
    Stable (Apart op_id partition key) fun s => r = .ok () ∧ P s :=
  fun _ _ h hs => ⟨hs.1, hP _ _ h hs.2⟩

/-! ## The copies at the owners -/

theorem store_local_reaches :
    Reaches cfg op_id partition key value (Waiting view op_id partition key value (O \ {b}) bs)
      (store_local b partition key value) fun _ => Waiting view op_id partition key value O bs := by
  refine triple_store_local waiting_stable (fun _ => waiting_stable) fun s hs => ⟨.store_local s b, hs.view, fun m hm => ?_⟩
  rw [s.stored_store_local]
  by_cases hmb : m = b
  · simp [hmb]
  · rw [if_neg fun h => hmb h.1]
    exact (hs.value m ⟨hm, hmb⟩).imp_right fun h => ⟨h.1, fun hrec => h.2 ((s.recorded_store_local b m ..).1 hrec)⟩

/-- Whoever has recorded the operation has the value already. -/
theorem store_replica_reaches :
    Reaches cfg op_id partition key value (Waiting view op_id partition key value O (b :: bs))
      (store_replica b partition op_id key value)
      fun r s => r = .ok () ∧ Waiting view op_id partition key value O bs s := by
  have hprocess : Reaches cfg op_id partition key value (Waiting view op_id partition key value O (b :: bs))
      (should_process b op_id) fun new => Waiting view op_id partition key value (if new then O \ {b} else O) bs := by
    refine triple_should_process (M := Waiting view op_id partition key value O (b :: bs)) waiting_stable waiting_stable
      (fun _ => waiting_stable) ?_ (fun s hs _ => hs) ?_ ?_
    · intro s hs hfound
      have hrec : s.recorded b op_id := of_decide_eq_true hfound.1.symm
      refine ⟨hs.view, fun m hm => (hs.value m hm).imp_right fun ⟨hmem, hnew⟩ => ⟨?_, hnew⟩⟩
      exact (List.mem_cons.1 hmem).resolve_left fun he => hnew (he ▸ hrec)
    · refine fun s hs => ⟨.clear_ops s b, hs.view, fun m hm => ?_⟩
      rw [s.stored_clear_ops]
      exact (hs.value m hm).imp_right fun hm => ⟨hm.1, fun hrec => hm.2 ((s.recorded_clear_ops b m op_id).1 hrec).2⟩
    · refine fun s hs => ⟨.insert_op s b op_id, hs.view, fun m ⟨hm, hne⟩ => ?_⟩
      rw [s.stored_insert_op]
      refine (hs.value m hm).imp_right fun ⟨hmem, hnew⟩ => ⟨(List.mem_cons.1 hmem).resolve_left hne, fun hrec => ?_⟩
      rcases (s.recorded_insert_op b m op_id op_id).1 hrec with ⟨he, -⟩ | hold
      · exact hne he
      · exact hnew hold
  refine hprocess.bind fun new => ?_
  cases new with
  | false => exact Triple.pure (acked_stable waiting_stable _) fun s hs => ⟨rfl, hs⟩
  | true =>
    exact store_local_reaches.bind fun _ => Triple.pure (acked_stable waiting_stable _) fun s hs => ⟨rfl, hs⟩

section Requests

variable [Key K] [Json V] {ringR ringS : NodeRing NodeId}

omit [Key K] in
/-- A write sent to a node that the sender knows, while no message is lost. -/
theorem triple_post_write_answered {R G : MapCluster K V → MapCluster K V → Prop} [Std.Refl R] [Std.Refl G]
    {P Q : MapCluster K V → Prop} {target : NodeId} {not_found : String} {make : String → Request}
    {serve : String → NodeId → MapM K V StatusCode} {failed : StatusCode → String} (hP : Stable R P) (hQ : Stable R Q)
    (hknows : ∀ s, P s → Knows cfg ring n (s.view n)) (ht : target ∈ ring.ids)
    (hsend : ∀ s addr req, P s → G s (s.send n addr req) ∧ P (s.send n addr req))
    (hserve : ∀ text, Json.to_json value = .ok text →
      Triple (MapSem cfg .reliable) R G P (serve text target) fun status s => status = .OK ∧ Q s) :
    Triple (MapSem cfg .reliable) R G P (post_write n target not_found value make serve failed)
      fun r s => r = .ok () ∧ Q s := by
  refine triple_post_write hP (fun r s s' h hs => ⟨hs.1, hQ s s' h hs.2⟩) ?_ ?_ hsend ?_ ?_ ?_
  · exact fun s hs hnone => absurd hnone ((hknows s hs).member_ne_none ht)
  · intro s node hs hnode m hm
    rw [(hknows s hs).host_of_member ht hnode] at hm
    exact (Option.some.inj hm).symm
  · intro s node hs hnode hlost
    rcases hlost with hnone | hlossy
    · rw [(hknows s hs).host_of_member ht hnode] at hnone
      cases hnone
    · exact absurd hlossy Network.reliable_ne_lossy
  · intro text htext
    refine (hserve text htext).post fun status s hs => ?_
    obtain ⟨rfl, hs⟩ := hs
    exact ⟨rfl, hs⟩
  · exact fun hlossy => absurd hlossy Network.reliable_ne_lossy

theorem replicate_all_reaches (hR : Knows cfg ringR receiver (view receiver)) (hbs : ∀ b ∈ bs, b ∈ ringR.ids) :
    Reaches cfg op_id partition key value (Waiting view op_id partition key value O bs)
      (replicate_all receiver partition op_id key value bs)
      fun r s => r = .ok () ∧ Waiting view op_id partition key value O [] s := by
  refine Triple.pre (triple_replicate_all
    (P := fun bs s => (∀ b ∈ bs, b ∈ ringR.ids) ∧ Waiting view op_id partition key value O bs s)
    (acked_stable waiting_stable) (fun b bs => Triple.assume fun hbs => ?_) (fun s hs => ⟨rfl, hs.2⟩) bs) fun s hs => ⟨hbs, hs⟩
  have hone : Reaches cfg op_id partition key value (Waiting view op_id partition key value O (b :: bs))
      (replicate_to_backup receiver b partition op_id key value)
      fun r s => r = .ok () ∧ Waiting view op_id partition key value O bs s := by
    refine triple_post_write_answered waiting_stable waiting_stable (fun s hs => hs.view.symm ▸ hR)
      (hbs b List.mem_cons_self) (fun s addr req hs => ⟨.send s receiver addr req, hs.view, hs.value⟩) fun text htext => ?_
    refine triple_handle_write (fun _ _ _ h hs => ⟨hs.1, waiting_stable _ _ h hs.2⟩) htext
      (store_replica_reaches.post fun r s hs => ?_)
    obtain ⟨rfl, hs⟩ := hs
    exact ⟨rfl, hs⟩
  refine hone.post fun r s hs => ?_
  obtain ⟨rfl, hs⟩ := hs
  exact ⟨fun b hb => hbs b (List.mem_cons_of_mem _ hb), hs⟩

/-- Each owner in the receiver's view has the value already, or the receiver will
store it there. -/
structure Taking (cfg : MapConfig) (view : NodeId → MembershipService) (ringR : NodeRing NodeId) (receiver : NodeId)
    (op_id : String) (partition : Nat) (key : K) (value : V) (s : MapCluster K V) : Prop where
  view : s.view = view
  value : ∀ m ∈ cfg.owners ringR partition, s.stored m partition key = some value ∨
    ¬ s.recorded receiver op_id ∧ ¬ s.recorded m op_id ∧ (m = receiver ∨ m ∈ (cfg.owners ringR partition).tail)

omit [Key K] [Json V] in
theorem taking_stable : Stable (Apart op_id partition key) (Taking cfg view ringR receiver op_id partition key value) := by
  intro s s' h hs
  refine ⟨h.view.trans hs.view, fun m hm => ?_⟩
  rw [h.stored]
  exact (hs.value m hm).imp_right fun hm =>
    ⟨fun hrec => hm.1 (h.recorded _ hrec), fun hrec => hm.2.1 (h.recorded m hrec), hm.2.2⟩

/-- The receiver stores the value itself, wherever it stands in its own list. -/
theorem store_as_primary_reaches (hR : Knows cfg ringR receiver (view receiver)) :
    Reaches cfg op_id partition key value (Taking cfg view ringR receiver op_id partition key value)
      (store_as_primary cfg receiver partition op_id key value)
      fun r s => r = .ok () ∧ Waiting view op_id partition key value {m | m ∈ cfg.owners ringR partition} [] s := by
  let O : Set NodeId := {m | m ∈ cfg.owners ringR partition}
  let bs := (cfg.owners ringR partition).tail
  have hprocess : Reaches cfg op_id partition key value (Taking cfg view ringR receiver op_id partition key value)
      (should_process receiver op_id) fun new =>
        Waiting view op_id partition key value (if new then O \ {receiver} else O) (if new then bs else []) := by
    refine triple_should_process
      (M := fun s => s.view = view ∧ ∀ m ∈ O, m ≠ receiver → s.stored m partition key = some value ∨
        m ∈ bs ∧ ¬ s.recorded m op_id) taking_stable ?_ (fun _ => waiting_stable) ?_ ?_ ?_ ?_
    · intro s s' h hs
      refine ⟨h.view.trans hs.1, fun m hm hne => ?_⟩
      rw [h.stored]
      exact (hs.2 m hm hne).imp_right fun hm => ⟨hm.1, fun hrec => hm.2 (h.recorded m hrec)⟩
    · intro s hs hfound
      have hrec : s.recorded receiver op_id := of_decide_eq_true hfound.1.symm
      exact ⟨hs.view, fun m hm => (hs.value m hm).imp_right fun hm => absurd hrec hm.1⟩
    · -- a new operation: the others are waited for
      exact fun s hs _ => ⟨hs.view, fun m hm hne => (hs.value m hm).imp_right fun hm => ⟨hm.2.2.resolve_left hne, hm.2.1⟩⟩
    · refine fun s hs => ⟨.clear_ops s receiver, hs.1, fun m hm hne => ?_⟩
      rw [s.stored_clear_ops]
      exact (hs.2 m hm hne).imp_right fun hm => ⟨hm.1, fun hrec => hm.2 ((s.recorded_clear_ops receiver m op_id).1 hrec).2⟩
    · refine fun s hs => ⟨.insert_op s receiver op_id, hs.1, fun m ⟨hm, hne⟩ => ?_⟩
      rw [s.stored_insert_op]
      refine (hs.2 m hm hne).imp_right fun hm => ⟨hm.1, fun hrec => ?_⟩
      rcases (s.recorded_insert_op receiver m op_id op_id).1 hrec with ⟨he, -⟩ | hold
      · exact hne he
      · exact hm.2 hold
  refine hprocess.bind fun new => ?_
  cases new with
  | false => exact Triple.pure (acked_stable waiting_stable _) fun s hs => ⟨rfl, hs⟩
  | true =>
    refine (store_local_reaches (O := O)).bind fun _ => ?_
    have howners : Reaches cfg op_id partition key value (Waiting view op_id partition key value O bs)
        (get_owners (K := K) (V := V) cfg receiver partition) fun owners s =>
          owners = cfg.owners ringR partition ∧ Waiting view op_id partition key value O bs s :=
      triple_get_owners waiting_stable (fun _ => waiting_stable.assume _) fun s hs =>
        ⟨by rw [hs.view, hR.get_owners], hs⟩
    refine howners.bind fun owners => Triple.assume ?_
    rintro rfl
    exact replicate_all_reaches hR fun b hb => MapConfig.mem_of_mem_owners (List.mem_of_mem_tail hb)

theorem forward_put_reaches (hS : Knows cfg ringS n (view n)) (hmem : receiver ∈ ringS.ids)
    (hR : Knows cfg ringR receiver (view receiver)) :
    Reaches cfg op_id partition key value (Taking cfg view ringR receiver op_id partition key value)
      (forward_put cfg n receiver partition op_id key value)
      fun r s => r = .ok () ∧ Waiting view op_id partition key value {m | m ∈ cfg.owners ringR partition} [] s := by
  refine triple_post_write_answered taking_stable waiting_stable (fun s hs => hs.view.symm ▸ hS) hmem
    (fun s addr req hs => ⟨.send s n addr req, hs.view, hs.value⟩) fun text htext => ?_
  refine triple_handle_write (fun _ _ _ h hs => ⟨hs.1, waiting_stable _ _ h hs.2⟩) htext
    ((store_as_primary_reaches hR).post fun r s hs => ?_)
  obtain ⟨rfl, hs⟩ := hs
  exact ⟨rfl, hs⟩

/-- The sender records the operation before it forwards the write. -/
theorem put_with_op_reaches (hS : Knows cfg ringS n (view n)) (hR : Knows cfg ringR receiver (view receiver))
    (hprimary : (cfg.owners ringS (cfg.partition_of key)).head? = some receiver) (hne : n ≠ receiver) :
    Reaches cfg op_id (cfg.partition_of key) key value (fun s => ¬ s.recorded n op_id ∧
        Taking cfg view ringR receiver op_id (cfg.partition_of key) key value s ∧
        (n ∈ cfg.owners ringR (cfg.partition_of key) → s.stored n (cfg.partition_of key) key = some value))
      (put_with_op cfg n key value op_id)
      fun _ => Waiting view op_id (cfg.partition_of key) key value {m | m ∈ cfg.owners ringR (cfg.partition_of key)} [] := by
  have hmem : receiver ∈ ringS.ids := MapConfig.mem_of_mem_owners (List.mem_of_mem_head? hprimary)
  have hstable : Stable (Apart op_id (cfg.partition_of key) key) fun s : MapCluster K V =>
      Taking cfg view ringR receiver op_id (cfg.partition_of key) key value s ∧
        (n ∈ cfg.owners ringR (cfg.partition_of key) → s.stored n (cfg.partition_of key) key = some value) :=
    fun s s' h hs => ⟨taking_stable s s' h hs.1, fun hn => (h.stored n).trans (hs.2 hn)⟩
  have hprocess : Reaches cfg op_id (cfg.partition_of key) key value (fun s => ¬ s.recorded n op_id ∧
        Taking cfg view ringR receiver op_id (cfg.partition_of key) key value s ∧
        (n ∈ cfg.owners ringR (cfg.partition_of key) → s.stored n (cfg.partition_of key) key = some value))
      (should_process n op_id) fun new s => new = true ∧
        Taking cfg view ringR receiver op_id (cfg.partition_of key) key value s := by
    refine triple_should_process
      (M := fun s => Taking cfg view ringR receiver op_id (cfg.partition_of key) key value s ∧
        (n ∈ cfg.owners ringR (cfg.partition_of key) → s.stored n (cfg.partition_of key) key = some value))
      (fun s s' h hs => ⟨fun hrec => hs.1 (h.recorded n hrec), hstable s s' h hs.2⟩) hstable
      (fun _ => taking_stable.assume _) ?_ (fun _ hs _ => hs.2) ?_ ?_
    · exact fun s hs hfound => absurd (of_decide_eq_true hfound.1.symm) hs.1
    · refine fun s hs => ⟨.clear_ops s n, ⟨hs.1.view, fun m hm => ?_⟩, fun hn => (s.stored_clear_ops ..).trans (hs.2 hn)⟩
      rw [s.stored_clear_ops]
      exact (hs.1.value m hm).imp_right fun h => ⟨fun hrec => h.1 ((s.recorded_clear_ops n _ op_id).1 hrec).2,
        fun hrec => h.2.1 ((s.recorded_clear_ops n _ op_id).1 hrec).2, h.2.2⟩
    · refine fun s hs => ⟨.insert_op s n op_id, rfl, hs.1.view, fun m hm => ?_⟩
      have hother : ∀ {x}, x ≠ n → ¬ s.recorded x op_id → ¬ (s.insert_op n op_id).recorded x op_id := by
        intro x hx hnew hrec
        rcases (s.recorded_insert_op n x op_id op_id).1 hrec with ⟨he, -⟩ | hold
        · exact hx he
        · exact hnew hold
      rw [s.stored_insert_op]
      by_cases hmn : m = n
      · -- the sender will drop its copy of the write, so it must have the value
        subst hmn
        exact .inl (hs.2 hm)
      · exact (hs.1.value m hm).imp_right fun h => ⟨hother (Ne.symm hne) h.1, hother hmn h.2.1, h.2.2⟩
  refine hprocess.bind fun new => Triple.assume ?_
  rintro rfl
  obtain ⟨primary, backups, howners⟩ := MapConfig.owners_cons cfg hS.self (cfg.partition_of key)
  obtain rfl : primary = receiver := by
    rw [howners] at hprimary
    exact Option.some.inj hprimary
  have hget : Reaches cfg op_id (cfg.partition_of key) key value
      (Taking cfg view ringR primary op_id (cfg.partition_of key) key value)
      (get_owners (K := K) (V := V) cfg n (cfg.partition_of key)) fun owners s => owners = primary :: backups ∧
        Taking cfg view ringR primary op_id (cfg.partition_of key) key value s :=
    triple_get_owners taking_stable (fun _ => taking_stable.assume _) fun s hs =>
      ⟨by rw [hs.view, hS.get_owners, howners], hs⟩
  refine hget.bind fun owners => Triple.assume ?_
  rintro rfl
  dsimp only
  rw [if_pos hne]
  exact (forward_put_reaches hS hmem hR).post fun _ _ hs => hs.2

/-! ## Copies that stay as they are -/

/-- Node `m` stores what it did, and the nodes of `D` have recorded the operation. -/
structure Away (view : NodeId → MembershipService) (op_id : String) (partition : Nat) (key : K) (m : NodeId) (old : Option V)
    (D : Set NodeId) (s : MapCluster K V) : Prop where
  view : s.view = view
  stored : s.stored m partition key = old
  recorded : ∀ d ∈ D, s.recorded d op_id

variable {old : Option V} {D : Set NodeId}

/-- What a program of the write returns while it stores nothing at node `m`. -/
abbrev StaysAway {α : Type} (cfg : MapConfig) (view : NodeId → MembershipService) (op_id : String) (partition : Nat)
    (key : K) (m : NodeId) (old : Option V) (D : Set NodeId) (p : MapM K V α) (Q : α → Prop) : Prop :=
  Keeps (MapSem cfg .reliable) (Away view op_id partition key m old D) p Q

omit [Key K] [Json V] in
theorem should_process_away :
    StaysAway cfg view op_id partition key m old D (should_process n op_id) fun new => n ∈ D → new = false := by
  have hcontains : StaysAway cfg view op_id partition key m old D (contains_op (K := K) (V := V) n op_id)
      fun found => n ∈ D → found = true :=
    Keeps.perform fun s x s' hs hact => by
      obtain ⟨rfl, rfl⟩ := hact
      exact ⟨fun hn => decide_eq_true (hs.recorded n hn), hs⟩
  refine hcontains.bind fun found hfound => ?_
  cases found with
  | true => exact Keeps.pure fun _ => rfl
  | false =>
    have hn : n ∉ D := fun hn => by simpa using hfound hn
    have htrim : StaysAway cfg view op_id partition key m old D (trim_ops n) fun _ => True := by
      have hcount : StaysAway cfg view op_id partition key m old D (count_ops n) fun _ => True :=
        Keeps.perform fun s x s' hs hact => by
          obtain ⟨-, rfl⟩ := hact
          exact ⟨trivial, hs⟩
      refine hcount.bind fun count _ => ?_
      split
      · refine Keeps.perform fun s x s' hs hact => ?_
        obtain rfl : s' = s.clear_ops n := hact
        refine ⟨trivial, hs.view, (s.stored_clear_ops ..).trans hs.stored, fun d hd => ?_⟩
        exact (s.recorded_clear_ops n d op_id).2 ⟨fun he => hn (he ▸ hd), hs.recorded d hd⟩
      · exact Keeps.pure trivial
    have hinsert : StaysAway cfg view op_id partition key m old D (insert_op n op_id) fun _ => True :=
      Keeps.perform fun s x s' hs hact => by
        obtain rfl : s' = s.insert_op n op_id := hact
        exact ⟨trivial, hs.view, (s.stored_insert_op ..).trans hs.stored, fun d hd =>
          (s.recorded_insert_op n d op_id op_id).2 (.inr (hs.recorded d hd))⟩
    exact htrim.bind fun _ _ => hinsert.bind fun _ _ => Keeps.pure fun h => absurd h hn

omit [Key K] [Json V] in
theorem store_local_away (hb : b ≠ m) :
    StaysAway cfg view op_id partition key m old D (store_local b partition key value) fun _ => True :=
  Keeps.perform fun s x s' hs hact => by
    obtain rfl : s' = s.store_local b partition key value := hact
    refine ⟨trivial, hs.view, ?_, fun d hd => (s.recorded_store_local b d ..).2 (hs.recorded d hd)⟩
    rw [s.stored_store_local, if_neg fun h => hb h.1.symm]
    exact hs.stored

omit [Key K] [Json V] in
theorem store_replica_away (hb : b = m → m ∈ D) :
    StaysAway cfg view op_id partition key m old D (store_replica b partition op_id key value) fun r => r = .ok () := by
  refine should_process_away.bind fun new hnew => ?_
  cases new with
  | false => exact Keeps.pure rfl
  | true =>
    have hne : b ≠ m := by
      rintro rfl
      cases hnew (hb rfl)
    exact (store_local_away hne).bind fun _ _ => Keeps.pure rfl

omit [Key K] [Json V] in
theorem away_stable : Stable (Keep (Away view op_id partition key m old D)) (Away view op_id partition key m old D) :=
  fun _ _ h hs => h hs

/-- A handler that answers well stays away. -/
theorem post_write_away {target : NodeId} {not_found : String} {make : String → Request}
    {write : K → V → MapM K V (Result Unit)} {failed : StatusCode → String} {serve : String → NodeId → MapM K V StatusCode}
    (hknows : Knows cfg ring n (view n)) (ht : target ∈ ring.ids)
    (hserve : ∀ text, serve text target = handle_write (Key.to_string key) text write)
    (hwrite : StaysAway cfg view op_id partition key m old D (write key value) fun r => r = .ok ()) :
    StaysAway cfg view op_id partition key m old D (post_write n target not_found value make serve failed)
      fun r => r = .ok () := by
  refine triple_post_write_answered away_stable away_stable (fun s hs => hs.view.symm ▸ hknows) ht
    (fun s addr req hs => ?_) fun text htext => ?_
  · have hsent : Away view op_id partition key m old D (s.send n addr req) := ⟨hs.view, hs.stored, hs.recorded⟩
    exact ⟨fun _ => hsent, hsent⟩
  · rw [hserve]
    refine triple_handle_write (fun _ => stable_keep _) htext (hwrite.post fun r hr => ?_)
    rw [hr]
    rfl

theorem replicate_all_away (hR : Knows cfg ringR receiver (view receiver)) (hbs : ∀ b ∈ bs, b ∈ ringR.ids)
    (hm : m ∈ bs → m ∈ D) :
    StaysAway cfg view op_id partition key m old D (replicate_all receiver partition op_id key value bs)
      fun r => r = .ok () := by
  induction bs with
  | nil => exact Keeps.pure rfl
  | cons b bs ih =>
    have hone : StaysAway cfg view op_id partition key m old D (replicate_to_backup receiver b partition op_id key value)
        fun r => r = .ok () :=
      post_write_away hR (hbs b List.mem_cons_self) (fun _ => rfl) (store_replica_away fun he => hm (he ▸ List.mem_cons_self))
    refine hone.bind ?_
    rintro _ rfl
    exact ih (fun b hb => hbs b (List.mem_cons_of_mem _ hb)) fun h => hm (List.mem_cons_of_mem _ h)

/-- The receiver has the operation already, or it passes over node `m`. -/
theorem store_as_primary_away (hR : Knows cfg ringR receiver (view receiver))
    (hm : receiver ∈ D ∨ receiver ≠ m ∧ (m ∈ (cfg.owners ringR partition).tail → m ∈ D)) :
    StaysAway cfg view op_id partition key m old D (store_as_primary cfg receiver partition op_id key value)
      fun r => r = .ok () := by
  refine should_process_away.bind fun new hnew => ?_
  cases new with
  | false => exact Keeps.pure rfl
  | true =>
    obtain ⟨hne, htail⟩ := hm.resolve_left fun h => by simpa using hnew h
    have howners : StaysAway cfg view op_id partition key m old D (get_owners (K := K) (V := V) cfg receiver partition)
        fun owners => owners = cfg.owners ringR partition :=
      triple_get_owners away_stable (fun _ => stable_keep _) fun s hs => ⟨by rw [hs.view, hR.get_owners], hs⟩
    refine (store_local_away hne).bind fun _ _ => howners.bind ?_
    rintro _ rfl
    exact replicate_all_away hR (fun b hb => MapConfig.mem_of_mem_owners (List.mem_of_mem_tail hb)) htail

/-- The write can be acknowledged without a copy at a node that has recorded the
operation, or at a first owner that is not the receiver. -/
theorem exists_away (hS : Knows cfg ringS n (s.view n)) (hR : Knows cfg ringR receiver (s.view receiver))
    (hprimary : (cfg.owners ringS (cfg.partition_of key)).head? = some receiver) (hne : n ≠ receiver)
    (hnew : ¬ s.recorded n op_id)
    (hm : s.recorded receiver op_id ∨ s.recorded m op_id ∨ m = n ∨
      m ≠ receiver ∧ m ∉ (cfg.owners ringR (cfg.partition_of key)).tail) :
    ∃ s', Runs (MapSem cfg .reliable) Eq (put_with_op cfg n key value op_id) s (.ok ()) s' ∧
      s'.stored m (cfg.partition_of key) key = s.stored m (cfg.partition_of key) key := by
  obtain ⟨r, s', hrun⟩ := Runs.total (R := Eq) (MapSem_total cfg .reliable) (put_with_op cfg n key value op_id) s
  obtain ⟨new, s₁, hprocess, hrest⟩ := runs_bind.1 hrun
  obtain ⟨rfl, hview, hstored, hrecorded⟩ := should_process_new hnew hprocess
  obtain ⟨owners, s₂, howners, hforward⟩ := runs_bind.1 hrest
  obtain ⟨view₁, s₃, hmembership, hdone⟩ := runs_bind.1 howners
  obtain ⟨rfl, rfl⟩ := runs_perform.1 hmembership
  obtain ⟨rfl, rfl⟩ := runs_pure.1 hdone
  obtain ⟨primary, backups, hcons⟩ := MapConfig.owners_cons cfg hS.self (cfg.partition_of key)
  obtain rfl : primary = receiver := by
    rw [hcons] at hprimary
    exact Option.some.inj hprimary
  have hlist : cfg.owners ringS (cfg.partitioner.get_partition (Key.to_string key)) = primary :: backups := hcons
  rw [hview, hS.get_owners, hlist] at hforward
  dsimp only at hforward
  rw [if_pos hne] at hforward
  let D : Set NodeId := {x | s₃.recorded x op_id}
  have hstays : primary ∈ D ∨ primary ≠ m ∧ (m ∈ (cfg.owners ringR (cfg.partition_of key)).tail → m ∈ D) := by
    by_cases hp : primary = m
    · refine .inl ((hrecorded primary).2 (.inr ?_))
      rcases hm with h | h | h | h
      · exact h
      · exact hp ▸ h
      · exact absurd (hp.trans h).symm hne
      · exact absurd hp.symm h.1
    · rcases hm with h | h | h | h
      · exact .inl ((hrecorded primary).2 (.inr h))
      · exact .inr ⟨hp, fun _ => (hrecorded m).2 (.inr h)⟩
      · exact .inr ⟨hp, fun _ => (hrecorded m).2 (.inl h)⟩
      · exact .inr ⟨hp, fun htail => absurd htail h.2⟩
  have hmem : primary ∈ ringS.ids := MapConfig.mem_of_mem_owners (List.mem_of_mem_head? hprimary)
  have hkeeps : StaysAway cfg s.view op_id (cfg.partition_of key) key m (s.stored m (cfg.partition_of key) key) D
      (forward_put cfg n primary (cfg.partition_of key) op_id key value) fun r => r = .ok () :=
    post_write_away hS hmem (fun _ => rfl) (store_as_primary_away hR hstays)
  obtain ⟨rfl, haway⟩ := hkeeps.runs ⟨hview, hstored m _ key, fun _ hd => hd⟩ hforward
  exact ⟨s', hrun, haway.stored⟩

/-- A forwarded write that is acknowledged reaches every owner in the receiver's
view, whatever runs beside it, if and only if each of them has the value, or is the
receiver or a later owner and processes the operation as a new one. -/
theorem forwarded_put_iff (hS : Knows cfg ringS n (s.view n)) (hR : Knows cfg ringR receiver (s.view receiver))
    (hprimary : (cfg.owners ringS (cfg.partition_of key)).head? = some receiver) (hne : n ≠ receiver)
    (hnew : ¬ s.recorded n op_id) :
    (∀ s', Runs (MapSem cfg .reliable) (Apart op_id (cfg.partition_of key) key) (put_with_op cfg n key value op_id) s
          (.ok ()) s' →
        ∀ m ∈ cfg.owners ringR (cfg.partition_of key), s'.stored m (cfg.partition_of key) key = some value) ↔
      ∀ m ∈ cfg.owners ringR (cfg.partition_of key), s.stored m (cfg.partition_of key) key = some value ∨
        ¬ s.recorded receiver op_id ∧ ¬ s.recorded m op_id ∧ m ≠ n ∧
          (m = receiver ∨ m ∈ (cfg.owners ringR (cfg.partition_of key)).tail) := by
  constructor
  · intro h m hmem
    by_contra hcon
    obtain ⟨hvalue, hrefused⟩ := not_or.1 hcon
    obtain ⟨s', hrun, hsame⟩ := exists_away (m := m) (s := s) hS hR hprimary hne hnew (by tauto)
    exact hvalue (hsame.symm.trans (h s' hrun.alone m hmem))
  · intro h s' hrun m hmem
    have hstart : ¬ s.recorded n op_id ∧ Taking cfg s.view ringR receiver op_id (cfg.partition_of key) key value s ∧
        (n ∈ cfg.owners ringR (cfg.partition_of key) → s.stored n (cfg.partition_of key) key = some value) := by
      refine ⟨hnew, ⟨rfl, fun m hm => (h m hm).imp_right fun h => ⟨h.1, h.2.1, h.2.2.2⟩⟩, fun hn => ?_⟩
      exact (h n hn).resolve_right fun h => h.2.2.1 rfl
    have hend := (put_with_op_reaches hS hR hprimary hne).runs hstart hrun
    exact (hend.value m hmem).resolve_right fun h => List.not_mem_nil h.1

end Requests

end DistributedMap
