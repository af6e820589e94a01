import DistributedCluster.Storage.Agreement
import DistributedCluster.Storage.Rules
/-!
# What a write does when all nodes agree

All nodes hold the same members alive. A write then stores the value at every
owner, except that a node that recorded the operation earlier skips its own copy.
This is so if every message arrives, and also over a lossy network if the write
entered at the primary and was acknowledged.
-/

namespace DistributedMap

open Async

variable {K V : Type} [DecidableEq K]

/-! ## One write among others -/

/-- The write that is followed: its operation, its key in its partition, and
whether the others may forget recorded operations (`exact` says they do not). -/
structure Tracked (K V : Type) where
  cfg : MapConfig
  ring : NodeRing NodeId
  op_id : String
  partition : Nat
  key : K
  value : V
  exact : Prop

/-- Which values each node may hold. -/
abbrev Values (V : Type) := NodeId → Option V → Prop

namespace Tracked

variable (t : Tracked K V)

/-- What the rest of the cluster may do meanwhile: anything but a write of the
key, a use of the operation id or a change of membership. -/
structure Elsewhere (s s' : MapCluster K V) : Prop where
  agreed : Agreed t.cfg t.ring s.view → Agreed t.cfg t.ring s'.view
  recorded : ∀ m, s'.recorded m t.op_id → s.recorded m t.op_id
  kept : t.exact → ∀ m, s.recorded m t.op_id → s'.recorded m t.op_id
  stored : ∀ m, s'.stored m t.partition t.key = s.stored m t.partition t.key

/-- What the write may do: nothing to another key or operation id. -/
structure Only (s s' : MapCluster K V) : Prop where
  view : s'.view = s.view
  stored : ∀ m p k, ¬ (p = t.partition ∧ k = t.key) → s'.stored m p k = s.stored m p k
  recorded : ∀ m op, op ≠ t.op_id → s'.recorded m op → s.recorded m op

instance : IsPreorder (MapCluster K V) t.Elsewhere where
  refl _ := ⟨id, fun _ h => h, fun _ _ h => h, fun _ => rfl⟩
  trans _ _ _ h h' := ⟨fun ha => h'.agreed (h.agreed ha), fun m hm => h.recorded m (h'.recorded m hm),
    fun he m hm => h'.kept he m (h.kept he m hm), fun m => (h'.stored m).trans (h.stored m)⟩

instance : IsPreorder (MapCluster K V) t.Only where
  refl _ := ⟨rfl, fun _ _ _ _ => rfl, fun _ _ _ h => h⟩
  trans _ _ _ h h' := ⟨h'.view.trans h.view, fun m p k hk => (h'.stored m p k hk).trans (h.stored m p k hk),
    fun m op ho hm => h.recorded m op ho (h'.recorded m op ho hm)⟩

/-- `A` are the nodes that may have recorded the operation, `F` says what value
each node may hold. -/
structure Inv (A : Set NodeId) (F : Values V) (s : MapCluster K V) : Prop where
  agreed : Agreed t.cfg t.ring s.view
  recorded : ∀ m, s.recorded m t.op_id → m ∈ A
  kept : t.exact → ∀ m ∈ A, s.recorded m t.op_id
  value : ∀ m, F m (s.stored m t.partition t.key)

variable {t}

theorem Inv.stable (A : Set NodeId) (F : Values V) : Stable t.Elsewhere (t.Inv A F) :=
  fun _ _ h hi => ⟨h.agreed hi.agreed, fun m hm => hi.recorded m (h.recorded m hm),
    fun he m hm => h.kept he m (hi.kept he m hm), fun m => (h.stored m).symm ▸ hi.value m⟩

theorem Inv.mono {A : Set NodeId} {F F' : Values V} (hF : ∀ m x, F m x → F' m x) {s : MapCluster K V}
    (h : t.Inv A F s) : t.Inv A F' s :=
  { h with value := fun m => hF m _ (h.value m) }

/-! ## Steps -/

theorem Only.clear_ops (s : MapCluster K V) (n : NodeId) : t.Only s (s.clear_ops n) :=
  ⟨rfl, fun m p k _ => s.stored_clear_ops n m p k, fun m op _ h => ((s.recorded_clear_ops n m op).1 h).2⟩

theorem Only.insert_op (s : MapCluster K V) (n : NodeId) : t.Only s (s.insert_op n t.op_id) :=
  ⟨rfl, fun m p k _ => s.stored_insert_op n m t.op_id p k,
    fun m op ho h => ((s.recorded_insert_op n m t.op_id op).1 h).resolve_left fun he => ho he.2⟩

theorem Only.store_local (s : MapCluster K V) (n : NodeId) (v : V) :
    t.Only s (s.store_local n t.partition t.key v) :=
  ⟨rfl, fun m p k hk => by rw [s.stored_store_local, if_neg fun h => hk h.2],
    fun m op _ h => (s.recorded_store_local n m t.partition t.key v op).1 h⟩

theorem Only.send (s : MapCluster K V) (n : NodeId) (addr : SocketAddr) (req : Request) :
    t.Only s (s.send n addr req) :=
  ⟨rfl, fun _ _ _ _ => rfl, fun _ _ _ h => h⟩

/-! ## What each operation does -/

/-- A promise about a program of the followed write. -/
abbrev Does {α : Type} (t : Tracked K V) (net : Network) (P : MapCluster K V → Prop) (p : MapM K V α)
    (Q : α → MapCluster K V → Prop) : Prop :=
  Triple (MapSem t.cfg net) t.Elsewhere t.Only P p Q

/-- The write was acknowledged and `P` holds, or the network lost it. -/
def Acked (net : Network) (P : MapCluster K V → Prop) (r : Result Unit) (s : MapCluster K V) : Prop :=
  (r = .ok () ∧ P s) ∨ (net = .lossy ∧ ∃ e, r = .error e)

theorem Acked.stable {net : Network} {P : MapCluster K V → Prop} (hP : Stable t.Elsewhere P) (r : Result Unit) :
    Stable t.Elsewhere (Acked net P r) :=
  fun s s' hR h => h.imp (fun h => ⟨h.1, hP s s' hR h.2⟩) id

omit [DecidableEq K] in
theorem Acked.reliable {P : MapCluster K V → Prop} {r : Result Unit} {s : MapCluster K V}
    (h : Acked .reliable P r s) : r = .ok () ∧ P s :=
  h.resolve_right fun h => Network.reliable_ne_lossy h.1

variable {net : Network}

/-- A node that recorded the operation refuses it, if nobody made it forget. -/
theorem should_process_does (A : Set NodeId) (F : Values V) (n : NodeId) :
    t.Does net (t.Inv A F) (should_process n t.op_id) fun b s =>
      ((n ∉ A → b = true) ∧ (n ∈ A → t.exact → b = false)) ∧ t.Inv (insert n A) F s := by
  refine triple_should_process (M := fun s => (n ∈ A → ¬ t.exact) ∧ t.Inv A F s) (Inv.stable A F)
    ((Inv.stable A F).assume _)
    (fun _ => (Inv.stable _ F).assume _) ?_ ?_ ?_ ?_
  · intro s hs hfound
    have hn : n ∈ A := hs.recorded n (of_decide_eq_true hfound.1.symm)
    refine ⟨⟨fun h => absurd hn h, fun _ _ => rfl⟩, ?_⟩
    rw [Set.insert_eq_of_mem hn]
    exact hs
  · exact fun s hs hr => ⟨fun hn he => hr (hs.kept he n hn), hs⟩
  · rintro s ⟨hn, hs⟩
    refine ⟨Only.clear_ops s n, hn, hs.agreed, fun m hm => hs.recorded m ((s.recorded_clear_ops n m _).1 hm).2,
      fun he m hm => (s.recorded_clear_ops n m _).2 ⟨?_, hs.kept he m hm⟩, fun m => ?_⟩
    · rintro rfl
      exact hn hm he
    · rw [s.stored_clear_ops]
      exact hs.value m
  · rintro s ⟨hn, hs⟩
    refine ⟨Only.insert_op s n, ⟨fun _ => rfl, fun h he => absurd he (hn h)⟩, hs.agreed, fun m hm => ?_,
      fun he m hm => ?_, fun m => ?_⟩
    · rcases (s.recorded_insert_op n m _ _).1 hm with ⟨rfl, -⟩ | hm
      · exact Set.mem_insert m A
      · exact Set.mem_insert_of_mem n (hs.recorded m hm)
    · rw [s.recorded_insert_op]
      exact (Set.mem_insert_iff.1 hm).imp (fun h => ⟨h, rfl⟩) fun h => hs.kept he m h
    · rw [s.stored_insert_op]
      exact hs.value m

/-- The values once node `n` has stored the value. -/
def written (t : Tracked K V) (F : Values V) (n : NodeId) : Values V := fun m x =>
  if m = n then x = some t.value else F m x

/-- The values once the nodes `D` were asked to store the value. -/
def offered (t : Tracked K V) (A : Set NodeId) (F : Values V) (D : List NodeId) : Values V := fun m x =>
  if m ∈ D then (m ∉ A ∧ x = some t.value) ∨ (m ∈ A ∧ (F m x ∨ (¬ t.exact ∧ x = some t.value)))
  else F m x

theorem store_local_does (A : Set NodeId) (F : Values V) (n : NodeId) :
    t.Does net (t.Inv A F) (store_local n t.partition t.key t.value) fun _ => t.Inv A (t.written F n) := by
  refine triple_store_local (Inv.stable A F) (fun _ => Inv.stable _ _) fun s hs =>
    ⟨Only.store_local s n t.value, hs.agreed, fun m hm => hs.recorded m ((s.recorded_store_local ..).1 hm),
      fun he m hm => (s.recorded_store_local ..).2 (hs.kept he m hm), fun m => ?_⟩
  rw [s.stored_store_local]
  by_cases hm : m = n
  · simp [written, hm]
  · simpa [written, hm] using hs.value m

section Replication

variable [Key K] [Json V]

omit [Key K] [Json V] in
theorem store_replica_does (A : Set NodeId) (F : Values V) (n : NodeId) :
    t.Does net (t.Inv A F) (store_replica n t.partition t.op_id t.key t.value) fun r s =>
      r = .ok () ∧ t.Inv (insert n A) (t.offered A F [n]) s := by
  refine (should_process_does A F n).bind fun b => ?_
  refine Triple.assume fun ⟨hnew, hold⟩ => ?_
  cases b with
  | true =>
    refine (store_local_does _ F n).bind fun _ => Triple.pure ((Inv.stable _ _).assume _) fun s hs => ⟨rfl, hs.mono ?_⟩
    intro m x hx
    by_cases hm : m = n
    · subst hm
      simp only [written, if_true] at hx
      by_cases hA : m ∈ A
      · exact by simp [offered, hA, hx, show ¬ t.exact from fun he => nomatch hold hA he]
      · simp [offered, hA, hx]
    · simpa [written, offered, hm] using hx
  | false =>
    refine Triple.pure ((Inv.stable _ _).assume _) fun s hs => ⟨rfl, hs.mono ?_⟩
    intro m x hx
    by_cases hm : m = n
    · subst hm
      have hA : m ∈ A := by
        by_contra hA
        cases hnew hA
      simp [offered, hA, hx]
    · simpa [offered, hm] using hx

theorem handle_replicate_does (A : Set NodeId) (F : Values V) (n : NodeId) {text : String}
    (h : Json.to_json t.value = .ok text) :
    t.Does net (t.Inv A F)
      (handle_replicate (K := K) (V := V) n ⟨t.partition, t.op_id, Key.to_string t.key, text⟩) fun c s =>
      c = .OK ∧ t.Inv (insert n A) (t.offered A F [n]) s :=
  triple_handle_write (fun _ => (Inv.stable _ _).assume _) h
    ((store_replica_does A F n).post fun r s hs => by
      obtain ⟨rfl, hs⟩ := hs
      exact ⟨rfl, hs⟩)

omit [Key K] in
/-- With every node reachable, a write sent to `target` does what the handler
there does; the handler must not mind a second delivery. -/
theorem post_write_does {A A' : Set NodeId} {F F' : Values V} {n target : NodeId} {not_found : String}
    {make : String → Request} {serve : String → NodeId → MapM K V StatusCode} {failed : StatusCode → String}
    (hn : n ∈ t.ring.ids) (ht : target ∈ t.ring.ids)
    (hserve : ∀ text, Json.to_json t.value = .ok text →
      t.Does net (t.Inv A F) (serve text target) fun c s => c = .OK ∧ t.Inv A' F' s)
    (hagain : net = .lossy → ∀ text, Json.to_json t.value = .ok text →
      t.Does net (t.Inv A' F') (serve text target) fun c s => c = .OK ∧ t.Inv A' F' s) :
    t.Does net (t.Inv A F) (post_write n target not_found t.value make serve failed) (Acked net (t.Inv A' F')) := by
  have hreach : ∀ s node, t.Inv A F s ∨ t.Inv A' F' s → (s.view n).get_member target = some node →
      t.cfg.host n node.http_addr = some target := by
    intro s node hs hnode
    obtain ⟨node', hnode', haddr⟩ := (hs.elim Inv.agreed Inv.agreed).reach n hn target ht
    rw [hnode] at hnode'
    cases hnode'
    exact haddr
  have hstable : Stable t.Elsewhere fun s => t.Inv A F s ∨ t.Inv A' F' s :=
    fun s s' hR hs => hs.imp (Inv.stable A F s s' hR) (Inv.stable A' F' s s' hR)
  -- an attempt without an answer may have been served
  have hboth : net = .lossy → ∀ text, Json.to_json t.value = .ok text →
      t.Does net (fun s => t.Inv A F s ∨ t.Inv A' F' s) (serve text target) fun c s => c = .OK ∧ t.Inv A' F' s :=
    fun hnet text htext s hs => hs.elim (hserve text htext s) (hagain hnet text htext s)
  by_cases hnet : net = .lossy
  · refine Triple.pre (triple_post_write hstable (Acked.stable (Inv.stable A' F')) ?_ ?_ ?_ ?_ ?_ ?_) fun s hs => .inl hs
    · intro s hs hnone
      obtain ⟨node, hnode, -⟩ := (hs.elim Inv.agreed Inv.agreed).reach n hn target ht
      rw [hnone] at hnode
      cases hnode
    · intro s node hs hnode m hm
      rw [hreach s node hs hnode] at hm
      exact (Option.some.inj hm).symm
    · exact fun s addr req hs => ⟨Only.send s n addr req, hs.imp (fun hs => ⟨hs.agreed, hs.recorded, hs.kept, hs.value⟩)
        fun hs => ⟨hs.agreed, hs.recorded, hs.kept, hs.value⟩⟩
    · exact fun s node _ _ _ e s' _ => .inr ⟨hnet, e, rfl⟩
    · intro text htext
      refine (hboth hnet text htext).post fun c s hs => ?_
      obtain ⟨rfl, hs⟩ := hs
      exact .inl ⟨rfl, hs⟩
    · exact fun _ text htext => (hboth hnet text htext).post fun c s hs => .inr hs.2
  · refine triple_post_write (Inv.stable A F) (Acked.stable (Inv.stable A' F')) ?_ ?_ ?_ ?_ ?_ ?_
    · intro s hs hnone
      obtain ⟨node, hnode, -⟩ := hs.agreed.reach n hn target ht
      rw [hnone] at hnode
      cases hnode
    · intro s node hs hnode m hm
      rw [hreach s node (.inl hs) hnode] at hm
      exact (Option.some.inj hm).symm
    · exact fun s addr req hs => ⟨Only.send s n addr req, hs.agreed, hs.recorded, hs.kept, hs.value⟩
    · intro s node hs hnode hlost
      rcases hlost with hnone | hlossy
      · rw [hreach s node (.inl hs) hnode] at hnone
        cases hnone
      · exact absurd hlossy hnet
    · intro text htext
      refine (hserve text htext).post fun c s hs => ?_
      obtain ⟨rfl, hs⟩ := hs
      exact .inl ⟨rfl, hs⟩
    · exact fun hlossy => absurd hlossy hnet

omit [DecidableEq K] [Key K] [Json V] in
/-- Asked again, a node that recorded the operation changes nothing. -/
theorem offered_again {A : Set NodeId} {F : Values V} {b : NodeId} (he : t.exact) (m : NodeId) (x : Option V)
    (h : t.offered (insert b A) (t.offered A F [b]) [b] m x) : t.offered A F [b] m x := by
  by_cases hm : m = b
  · subst hm
    simpa [offered, he] using h
  · simpa [offered, hm] using h

theorem replicate_to_backup_does (A : Set NodeId) (F : Values V) (hnet : net = .lossy → t.exact) {n b : NodeId}
    (hn : n ∈ t.ring.ids) (hb : b ∈ t.ring.ids) :
    t.Does net (t.Inv A F) (replicate_to_backup n b t.partition t.op_id t.key t.value)
      (Acked net (t.Inv (insert b A) (t.offered A F [b]))) := by
  refine post_write_does hn hb (fun _ htext => handle_replicate_does A F b htext) fun hl _ htext => ?_
  refine (handle_replicate_does _ _ b htext).post fun c s hs => ⟨hs.1, ?_⟩
  rw [Set.insert_eq_of_mem (Set.mem_insert b A)] at hs
  exact hs.2.mono (offered_again (hnet hl))

omit [DecidableEq K] [Key K] [Json V] in
theorem offered_append {A : Set NodeId} {F : Values V} {D : List NodeId} {b : NodeId} (hb : b ∉ D) (m : NodeId)
    (x : Option V) (h : t.offered (A ∪ {m | m ∈ D}) (t.offered A F D) [b] m x) :
    t.offered A F (D ++ [b]) m x := by
  by_cases hm : m = b
  · subst hm
    simpa [offered, hb] using h
  · simpa [offered, hm] using h

theorem replicate_all_does (A : Set NodeId) (F : Values V) (hnet : net = .lossy → t.exact) {n : NodeId}
    (hn : n ∈ t.ring.ids) {bs : List NodeId} (hbs : ∀ b ∈ bs, b ∈ t.ring.ids) (hnd : bs.Nodup) :
    t.Does net (t.Inv A F) (replicate_all n t.partition t.op_id t.key t.value bs)
      (Acked net (t.Inv (A ∪ {m | m ∈ bs}) (t.offered A F bs))) := by
  -- while `rest` remains, the backups before it have been asked
  refine Triple.pre (triple_replicate_all
    (P := fun rest s => ∃ D, D ++ rest = bs ∧ t.Inv (A ∪ {m | m ∈ D}) (t.offered A F D) s)
    (Acked.stable (Inv.stable _ _)) ?_ ?_ bs) ?_
  · intro b rest
    rintro s ⟨D, hD, hs⟩
    have hb : b ∈ t.ring.ids := hbs b (by simp [← hD])
    have hbD : b ∉ D := by
      rw [← hD, List.nodup_append] at hnd
      exact fun h => hnd.2.2 b h b List.mem_cons_self rfl
    refine wp_mono ?_ (replicate_to_backup_does _ _ hnet hn hb s hs)
    rintro r s' (⟨rfl, hs'⟩ | ⟨hl, e, rfl⟩)
    swap
    · exact .inr ⟨hl, e, rfl⟩
    refine ⟨D ++ [b], by simp [← hD], ?_⟩
    have hA : A ∪ {m | m ∈ D ++ [b]} = insert b (A ∪ {m | m ∈ D}) := by
      ext m
      simp only [Set.mem_union, Set.mem_ofPred_eq, List.mem_append, List.mem_singleton, Set.mem_insert_iff]
      tauto
    rw [hA]
    exact hs'.mono fun m x => offered_append hbD m x
  · rintro s ⟨D, hD, hs⟩
    rw [List.append_nil] at hD
    subst hD
    exact .inl ⟨rfl, hs⟩
  · refine fun s hs => ⟨[], rfl, ?_⟩
    have hA : A ∪ {m | m ∈ ([] : List NodeId)} = A := by simp
    rw [hA]
    exact hs.mono fun m x hx => by simpa [offered] using hx

/-- The backups of the written partition. -/
def backups (t : Tracked K V) : List NodeId := (t.cfg.owners t.ring t.partition).tail

omit [DecidableEq K] [Key K] [Json V] in
theorem mem_of_mem_backups {b : NodeId} (h : b ∈ t.backups) : b ∈ t.ring.ids :=
  MapConfig.mem_of_mem_owners (List.mem_of_mem_tail h)

theorem store_as_primary_does {A : Set NodeId} (F : Values V) {n : NodeId} (hn : n ∈ t.ring.ids) (hA : n ∉ A) :
    t.Does .reliable (t.Inv A F) (store_as_primary t.cfg n t.partition t.op_id t.key t.value) fun r s =>
      r = .ok () ∧ t.Inv (insert n A ∪ {m | m ∈ t.backups})
        (t.offered (insert n A) (t.written F n) t.backups) s := by
  refine (should_process_does A F n).bind fun b => ?_
  refine Triple.assume fun ⟨hnew, _⟩ => ?_
  rw [hnew hA]
  refine (store_local_does _ F n).bind fun _ => ?_
  refine Triple.bind (Q := fun owners s => owners = t.cfg.owners t.ring t.partition ∧
    t.Inv (insert n A) (t.written F n) s) (triple_get_owners (Inv.stable _ _)
      (fun _ => (Inv.stable _ _).assume _) fun s hs => ⟨hs.agreed.get_owners hn _, hs⟩) fun owners => ?_
  refine Triple.assume fun howners => ?_
  rw [howners]
  exact (replicate_all_does _ _ (fun hl => absurd hl Network.reliable_ne_lossy) hn (fun b => mem_of_mem_backups)
    (t.cfg.owners_nodup t.ring t.partition).tail).post fun r s hs => hs.reliable

theorem forward_put_does {A : Set NodeId} (F : Values V) {n primary : NodeId} (hn : n ∈ t.ring.ids)
    (hp : primary ∈ t.ring.ids) (hA : primary ∉ A) :
    t.Does .reliable (t.Inv A F) (forward_put t.cfg n primary t.partition t.op_id t.key t.value) fun r s =>
      r = .ok () ∧ t.Inv (insert primary A ∪ {m | m ∈ t.backups})
        (t.offered (insert primary A) (t.written F primary) t.backups) s := by
  refine (post_write_does hn hp (fun _ htext => ?_) fun hl => absurd hl Network.reliable_ne_lossy).post
    fun r s hs => hs.reliable
  exact triple_handle_write (fun _ => (Inv.stable _ _).assume _) htext ((store_as_primary_does F hp hA).post
    fun r s hs => by
      obtain ⟨rfl, hs⟩ := hs
      exact ⟨rfl, hs⟩)

/-! ## The whole write -/

/-- The values after a write that entered at `n`: the owners hold the new one,
except `n` itself when it is a backup. -/
def outcome (t : Tracked K V) (n : NodeId) (old : NodeId → Option V) : Values V := fun m x =>
  if m = n ∧ m ∈ t.backups then x = old m ∨ (¬ t.exact ∧ x = some t.value)
  else if m ∈ t.cfg.owners t.ring t.partition then x = some t.value
  else x = old m

omit [DecidableEq K] [Key K] [Json V] in
theorem outcome_of_offered {n primary : NodeId} {old : NodeId → Option V} {A : Set NodeId}
    (howners : t.cfg.owners t.ring t.partition = primary :: t.backups) (hn : n ∈ A)
    (hA : ∀ m ∈ A, m = n ∨ m = primary) (m : NodeId) (x : Option V)
    (h : t.offered A (t.written (fun m x => x = old m) primary) t.backups m x) : t.outcome n old m x := by
  have hnd := t.cfg.owners_nodup t.ring t.partition
  rw [howners, List.nodup_cons] at hnd
  by_cases hm : m ∈ t.backups
  · have hmp : m ≠ primary := fun he => hnd.1 (he ▸ hm)
    by_cases hmn : m = n
    · subst hmn
      simpa [outcome, offered, written, hm, hn, hmp] using h
    · have hmA : m ∉ A := fun hmA => (hA m hmA).elim hmn hmp
      simpa [outcome, offered, howners, hm, hmA, hmn] using h
  · by_cases hmp : m = primary
    · obtain rfl := hmp
      simpa [outcome, offered, written, howners, hm] using h
    · simpa [outcome, offered, written, howners, hm, hmp] using h

/-- A write with a fresh operation id that is acknowledged has its outcome, over
a reliable network or entering at the primary. -/
theorem put_with_op_does {n : NodeId} (hn : n ∈ t.ring.ids) (hp : t.cfg.partition_of t.key = t.partition)
    (hnet : net = .lossy → t.exact ∧ (t.cfg.owners t.ring t.partition).head? = some n)
    (old : NodeId → Option V) :
    t.Does net (t.Inv ∅ fun m x => x = old m) (put_with_op t.cfg n t.key t.value t.op_id)
      (Acked net fun s => ∃ A, t.Inv A (t.outcome n old) s) := by
  obtain ⟨primary, backups, howners⟩ := MapConfig.owners_cons t.cfg hn t.partition
  have hb : t.backups = backups := by rw [Tracked.backups, howners, List.tail_cons]
  refine (should_process_does ∅ _ n).bind fun b => ?_
  refine Triple.assume fun ⟨hnew, _⟩ => ?_
  rw [hnew (Set.notMem_empty n)]
  simp only [if_true, show t.cfg.partitioner.get_partition (Key.to_string t.key) = t.partition from hp]
  refine Triple.bind (Q := fun owners s => owners = primary :: backups ∧
    t.Inv (insert n ∅) (fun m x => x = old m) s) (triple_get_owners (Inv.stable _ _)
      (fun _ => (Inv.stable _ _).assume _) fun s hs => ⟨(hs.agreed.get_owners hn _).trans howners, hs⟩)
    fun owners => ?_
  refine Triple.assume fun h => ?_
  subst h
  subst hb
  dsimp only
  split
  · rename_i hne
    have hmem : primary ∈ t.ring.ids := MapConfig.mem_of_mem_owners (howners ▸ List.mem_cons_self)
    cases net with
    | lossy =>
      rw [howners, List.head?_cons] at hnet
      exact absurd (Option.some.inj (hnet rfl).2).symm hne
    | reliable =>
      refine (forward_put_does _ hn hmem (by simpa using Ne.symm hne)).post fun r s hs =>
        .inl ⟨hs.1, _, hs.2.mono ?_⟩
      exact outcome_of_offered howners (by simp) (by simp)
  · rename_i heq
    have heq := not_not.1 heq
    subst heq
    refine (store_local_does _ _ n).bind fun _ => ?_
    refine (replicate_all_does _ _ (fun hl => (hnet hl).1) hn (fun b => mem_of_mem_backups)
      (t.cfg.owners_nodup t.ring t.partition).tail).post fun r s hs => hs.imp (fun hs => ⟨hs.1, _, hs.2.mono ?_⟩) id
    exact outcome_of_offered howners (by simp) (by simp)

end Replication

end Tracked
end DistributedMap
