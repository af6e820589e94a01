import DistributedCluster.Storage.Read
/-!
# Anti-entropy

`sync_partitions` of `main.rs`. A primary that has nothing of a partition pulls
it from its first backup, a backup always pulls from the primary; what is pulled
overwrites. `Synced` says what one round of one node changes while nobody else
writes.
-/

namespace DistributedMap

open Async

variable {K V : Type} [DecidableEq K] [Key K] [Json V]

section Program

variable (cfg : MapConfig)

/-- Fetch the partition and apply what came, if anything came. -/
def resync (n source_owner : NodeId) (partition : Nat) : MapM K V Unit := do
  match ← fetch_partition n source_owner partition with
  | .ok entries => if entries.isEmpty then pure () else apply_partition_entries n partition entries
  | .error _ => pure ()

def sync_partition (n : NodeId) (partition : Nat) : MapM K V Unit := do
  let owners ← get_owners cfg n partition
  match owners with
  | [] => pure ()
  | primary :: backups =>
    if primary = n then do
      if ← has_partition n partition then pure ()
      else
        match backups with
        | [] => pure ()
        | source_owner :: _ => resync n source_owner partition
    else resync n primary partition

def sync_each (n : NodeId) : List Nat → MapM K V Unit
  | [] => pure ()
  | partition :: partitions => do
    sync_partition cfg n partition
    sync_each n partitions

/-- The partitions whose owners are as `mine` says; the view is looked at once for each. -/
def partitions_where (n : NodeId) (mine : List NodeId → Bool) : MapM K V (List Nat) :=
  (List.range cfg.partitioner.num_partitions).filterM fun partition => do
    pure (mine (← get_owners cfg n partition))

def my_primary_partitions (n : NodeId) : MapM K V (List Nat) := partitions_where cfg n fun owners => owners.head? == some n

def my_backup_partitions (n : NodeId) : MapM K V (List Nat) := partitions_where cfg n fun owners => owners.tail.contains n

/-- The partitions of the node, in no particular order. -/
def target_partitions (n : NodeId) : MapM K V (List Nat) := do
  let primary_partitions ← my_primary_partitions cfg n
  let backup_partitions ← my_backup_partitions cfg n
  iterate n (primary_partitions ++ backup_partitions).dedup

def sync_partitions (n : NodeId) : MapM K V (Result Unit) := do
  let partitions ← target_partitions cfg n
  sync_each cfg n partitions
  pure (.ok ())

end Program

/-! ## The effect of one round -/

/-- `n` takes over what `m` has of the partition. -/
def pull (s : MapCluster K V) (n m : NodeId) (partition : Nat) : MapCluster K V :=
  (s.dump_partition m partition).foldl (fun s e => s.store_local n partition e.1 e.2) s

/-- Where `n` pulls the partition from, if it does. -/
def sync_source (cfg : MapConfig) (ring : NodeRing NodeId) (s : MapCluster K V) (n : NodeId) (partition : Nat) :
    Option NodeId :=
  match cfg.owners ring partition with
  | [] => none
  | primary :: backups =>
    if primary = n then if s.has_partition n partition then none else backups.head?
    else some primary

def sync_one (cfg : MapConfig) (ring : NodeRing NodeId) (n : NodeId) (s : MapCluster K V) (partition : Nat) :
    MapCluster K V :=
  match sync_source cfg ring s n partition with
  | none => s
  | some m => pull s n m partition

omit [DecidableEq K] [Key K] [Json V] in
theorem dump_keys_nodup (s : MapCluster K V) (n : NodeId) (p : Nat) :
    ((s.dump_partition n p).map Prod.fst).Nodup := by
  unfold MapCluster.dump_partition
  split
  · exact DashMap.iter_keys_nodup _
  · exact List.nodup_nil

omit [Key K] [Json V] in
theorem stored_foldl_other (n m : NodeId) (p p' : Nat) (k : K) (entries : List (K × V))
    (h : ¬ (m = n ∧ p' = p ∧ k ∈ entries.map Prod.fst)) (s : MapCluster K V) :
    (entries.foldl (fun s e => s.store_local n p e.1 e.2) s).stored m p' k = s.stored m p' k := by
  induction entries generalizing s with
  | nil => rfl
  | cons e es ih =>
    rw [List.foldl_cons, ih (fun he => h ⟨he.1, he.2.1, List.mem_cons_of_mem _ he.2.2⟩), s.stored_store_local,
      if_neg]
    rintro ⟨hm, hp, rfl⟩
    exact h ⟨hm, hp, List.mem_cons_self⟩

omit [Key K] [Json V] in
theorem stored_foldl_mem (n : NodeId) (p : Nat) (k : K) (v : V) (entries : List (K × V))
    (hn : (entries.map Prod.fst).Nodup) (h : (k, v) ∈ entries) (s : MapCluster K V) :
    (entries.foldl (fun s e => s.store_local n p e.1 e.2) s).stored n p k = some v := by
  induction entries generalizing s with
  | nil => cases h
  | cons e es ih =>
    rw [List.map_cons, List.nodup_cons] at hn
    rw [List.foldl_cons]
    rcases List.mem_cons.1 h with rfl | h
    · rw [stored_foldl_other n n p p k es (fun he => hn.1 he.2.2), s.stored_store_local, if_pos ⟨rfl, rfl, rfl⟩]
    · exact ih hn.2 h _

omit [Key K] [Json V] in
/-- The pulled copies take precedence over one's own. -/
theorem stored_pull (s : MapCluster K V) (n m m' : NodeId) (p p' : Nat) (k : K) :
    (pull s n m p).stored m' p' k =
      if m' = n ∧ p' = p then (s.stored m p k).or (s.stored n p k) else s.stored m' p' k := by
  by_cases h : m' = n ∧ p' = p
  · obtain ⟨rfl, rfl⟩ := h
    rw [if_pos ⟨rfl, rfl⟩, pull]
    cases hk : s.stored m p' k with
    | some v =>
      exact stored_foldl_mem m' p' k v _ (dump_keys_nodup s m p') (MapCluster.mem_dump_partition.2 hk) s
    | none =>
      rw [Option.none_or]
      refine stored_foldl_other m' m' p' p' k _ (fun hkeys => ?_) s
      obtain ⟨e, he, hek⟩ := List.mem_map.1 hkeys.2.2
      subst hek
      rw [MapCluster.mem_dump_partition.1 he] at hk
      cases hk
  · rw [if_neg h]
    exact stored_foldl_other n m' p p' k _ (fun he => h ⟨he.1, he.2.1⟩) s

omit [Key K] [Json V] in
theorem view_foldl (n : NodeId) (p : Nat) (entries : List (K × V)) (s : MapCluster K V) :
    (entries.foldl (fun s e => s.store_local n p e.1 e.2) s).view = s.view := by
  induction entries generalizing s with
  | nil => rfl
  | cons e es ih => exact ih _

/-! ## The program has that effect -/

omit [Key K] [Json V] in
theorem SameData.store_local {s s' : MapCluster K V} (h : SameData s s') (n : NodeId) (p : Nat) (k : K) (v : V) :
    SameData (s.store_local n p k v) (s'.store_local n p k v) :=
  ⟨by simp only [MapCluster.store_local, h.node], h.view⟩

omit [DecidableEq K] [Key K] [Json V] in
theorem SameData.dump_partition {s s' : MapCluster K V} (h : SameData s s') (n : NodeId) (p : Nat) :
    s'.dump_partition n p = s.dump_partition n p := by
  simp only [MapCluster.dump_partition, h.node]

omit [DecidableEq K] [Key K] [Json V] in
theorem SameData.has_partition {s s' : MapCluster K V} (h : SameData s s') (n : NodeId) (p : Nat) :
    s'.has_partition n p = s.has_partition n p := by
  simp only [MapCluster.has_partition, h.node]

section Effect

variable {cfg : MapConfig} {ring : NodeRing NodeId} {s₀ : MapCluster K V} {n : NodeId}

/-- A promise about a program that runs while nobody else writes: it leads from
the data of `s₀` to that of `s₁`. -/
abbrev Leads (cfg : MapConfig) (s₀ : MapCluster K V) {α : Type} (p : MapM K V α) (s₁ : MapCluster K V) : Prop :=
  Triple (MapSem cfg .reliable) SameData (fun _ _ => True) (SameData s₀) p fun _ s => SameData s₁ s

instance : Std.Refl (fun (_ _ : MapCluster K V) => True) := ⟨fun _ => trivial⟩

omit [Key K] [Json V] in
theorem reads_weaken {α : Type} {net : Network} {p : MapM K V α} {Q : α → Prop} (h : Reads cfg net s₀ p Q) :
    Triple (MapSem cfg net) SameData (fun _ _ => True) (SameData s₀) p fun a s => Q a ∧ SameData s₀ s :=
  fun s hs => wp_weaken (fun _ _ _ => trivial) (h s hs)

omit [Key K] [Json V] in
theorem leads_apply (p : Nat) (entries : List (K × V)) :
    Leads cfg s₀ (apply_partition_entries n p entries)
      (entries.foldl (fun s e => s.store_local n p e.1 e.2) s₀) := by
  induction entries generalizing s₀ with
  | nil => exact Triple.pure (SameData.stable _) fun _ hs => hs
  | cons e es ih =>
    obtain ⟨k, v⟩ := e
    have hstore : Triple (MapSem cfg .reliable) SameData (fun _ _ => True) (SameData s₀)
        (store_local n p k v) fun _ => SameData (s₀.store_local n p k v) :=
      triple_store_local (SameData.stable _) (fun _ => SameData.stable _) fun s hs => ⟨trivial, hs.store_local n p k v⟩
    exact hstore.bind fun _ => ih

omit [DecidableEq K] in
theorem parse_entries (entries : List (K × V)) :
    (entries.filterMap entry_json).mapM (m := Except Error) (parse_entry (K := K) (V := V)) = .ok entries := by
  induction entries with
  | nil => rfl
  | cons e es ih =>
    obtain ⟨text, hto, -⟩ := Json.round_trip e.2
    have hjson : entry_json e = some ⟨Key.to_string e.1, text⟩ := by simp only [entry_json, hto]
    have hparse : parse_entry (K := K) (V := V) ⟨Key.to_string e.1, text⟩ = .ok e := by
      simp only [parse_entry, parse_write_ok hto]
    rw [List.filterMap_cons_some hjson, List.mapM_cons, hparse, ih]
    rfl

/-- A fetch yields the other node's entries. -/
theorem reads_fetch_partition (hs : Agreed cfg ring s₀.view) (hn : n ∈ ring.ids) {m : NodeId} (hm : m ∈ ring.ids)
    (p : Nat) : Reads cfg .reliable s₀ (fetch_partition n m p) fun r => r = .ok (s₀.dump_partition m p) := by
  obtain ⟨node, hnode, haddr⟩ := hs.reach n hn m hm
  have htarget : ∀ m', cfg.host n node.http_addr = some m' → m' = m := fun m' hm' => by
    rw [haddr] at hm'
    exact (Option.some.inj hm').symm
  have hdump : Reads cfg .reliable s₀ (handle_partition_dump (K := K) (V := V) m p) fun d =>
      d = ⟨p, (s₀.dump_partition m p).filterMap entry_json⟩ := by
    refine reads_bind (Q := fun entries => entries = s₀.dump_partition m p) ?_ fun entries he => ?_
    · exact triple_read (.dump_partition m p) (fun s => s.dump_partition m p) (SameData.stable s₀)
        (fun _ => (SameData.stable s₀).assume _) (fun _ _ _ h => h) fun s hs =>
          ⟨hs.dump_partition m p, hs⟩
    · rw [he]
      exact reads_pure rfl
  refine reads_bind (reads_get_member m) fun o ho => ?_
  rw [ho, hnode]
  refine reads_bind (Q := fun r => r = .ok ⟨p, (s₀.dump_partition m p).filterMap entry_json⟩) ?_ fun r hr => ?_
  · refine triple_request (SameData.stable s₀) (fun _ => (SameData.stable s₀).assume _) htarget
      (fun s hs => ⟨⟨rfl, rfl⟩, hs.node, hs.view⟩) ?_ ?_ (fun hl => absurd hl Network.reliable_ne_lossy) (by decide)
    · exact hdump.post fun d s hd => ⟨by rw [hd.1], hd.2⟩
    · intro hlost
      rcases hlost with hnone | hl
      · rw [haddr] at hnone
        cases hnone
      · exact absurd hl Network.reliable_ne_lossy
  · rw [hr]
    exact reads_pure (parse_entries _)

theorem leads_resync (hs : Agreed cfg ring s₀.view) (hn : n ∈ ring.ids) {m : NodeId} (hm : m ∈ ring.ids) (p : Nat) :
    Leads cfg s₀ (resync n m p) (pull s₀ n m p) := by
  refine (reads_weaken (reads_fetch_partition hs hn hm p)).bind fun r => Triple.assume fun hr => ?_
  rw [hr]
  simp only [List.isEmpty_iff]
  split
  · rename_i hempty
    refine Triple.pure (SameData.stable _) fun s hs => ?_
    rw [pull, hempty]
    exact hs
  · exact leads_apply p _

theorem leads_sync_partition (hs : Agreed cfg ring s₀.view) (hn : n ∈ ring.ids) (p : Nat) :
    Leads cfg s₀ (sync_partition cfg n p) (sync_one cfg ring n s₀ p) := by
  obtain ⟨primary, backups, howners⟩ := MapConfig.owners_cons cfg hn p
  have hmem : ∀ m ∈ primary :: backups, m ∈ ring.ids := fun m hm => MapConfig.mem_of_mem_owners (howners ▸ hm)
  refine (reads_weaken (reads_get_owners p)).bind fun owners => Triple.assume fun h => ?_
  rw [h, hs.get_owners hn, howners]
  simp only [sync_one, sync_source, howners]
  by_cases hp : primary = n
  · rw [if_pos hp, if_pos hp]
    have hhas : Triple (MapSem cfg .reliable) SameData (fun _ _ => True) (SameData s₀) (has_partition n p)
        fun b s => b = s₀.has_partition n p ∧ SameData s₀ s :=
      triple_read (.has_partition n p) (fun s => s.has_partition n p) (SameData.stable s₀)
        (fun _ => (SameData.stable s₀).assume _) (fun _ _ _ h => h) fun s hs =>
          ⟨hs.has_partition n p, hs⟩
    refine hhas.bind fun b => Triple.assume fun hb => ?_
    rw [hb]
    cases s₀.has_partition n p with
    | true => exact Triple.pure (SameData.stable s₀) fun _ hs => hs
    | false =>
      cases backups with
      | nil => exact Triple.pure (SameData.stable s₀) fun _ hs => hs
      | cons source _ => exact leads_resync hs hn (hmem source (by simp)) p
  · rw [if_neg hp, if_neg hp]
    exact leads_resync hs hn (hmem primary List.mem_cons_self) p

omit [Key K] [Json V] in
theorem view_sync_one (s : MapCluster K V) (p : Nat) : (sync_one cfg ring n s p).view = s.view := by
  unfold sync_one
  split
  · rfl
  · exact view_foldl n p _ s

theorem leads_sync_each (hs : Agreed cfg ring s₀.view) (hn : n ∈ ring.ids) (partitions : List Nat) :
    Leads cfg s₀ (sync_each cfg n partitions) (partitions.foldl (sync_one cfg ring n) s₀) := by
  induction partitions generalizing s₀ with
  | nil => exact Triple.pure (SameData.stable _) fun _ hs => hs
  | cons p ps ih =>
    exact (leads_sync_partition hs hn p).bind fun _ => ih (by rw [view_sync_one]; exact hs)

/-! ## One round of one node -/

/-- What `n` has of a key after its round. -/
def pulled (cfg : MapConfig) (ring : NodeRing NodeId) (s : MapCluster K V) (n : NodeId) (p : Nat) (k : K) :
    Option V :=
  match sync_source cfg ring s n p with
  | none => s.stored n p k
  | some m => (s.stored m p k).or (s.stored n p k)

/-- Node `n` has run `sync_partitions` once. -/
structure Synced (cfg : MapConfig) (ring : NodeRing NodeId) (n : NodeId) (s s' : MapCluster K V) : Prop where
  view : s'.view = s.view
  stored : ∀ m p k, s'.stored m p k =
    if m = n ∧ p < cfg.partitioner.num_partitions ∧ n ∈ cfg.owners ring p then pulled cfg ring s n p k
    else s.stored m p k

omit [Key K] [Json V]

theorem stored_sync_one (s : MapCluster K V) (m : NodeId) (p p' : Nat) (k : K) :
    (sync_one cfg ring n s p).stored m p' k =
      if m = n ∧ p' = p then pulled cfg ring s n p k else s.stored m p' k := by
  cases hsource : sync_source cfg ring s n p with
  | some source =>
    simp only [sync_one, pulled, hsource]
    exact stored_pull s n source m p p' k
  | none =>
    simp only [sync_one, pulled, hsource]
    split
    · rename_i h
      rw [h.1, h.2]
    · rfl

theorem has_partition_congr {s s' : MapCluster K V} {p : Nat} (h : ∀ k, s'.stored n p k = s.stored n p k) :
    s'.has_partition n p = s.has_partition n p := by
  rw [Bool.eq_iff_iff, MapCluster.has_partition_iff, MapCluster.has_partition_iff]
  simp only [h]

theorem pulled_congr {s s' : MapCluster K V} {p : Nat} (h : ∀ m k, s'.stored m p k = s.stored m p k) (k : K) :
    pulled cfg ring s' n p k = pulled cfg ring s n p k := by
  have hsource : sync_source cfg ring s' n p = sync_source cfg ring s n p := by
    simp only [sync_source, has_partition_congr (h n)]
  simp only [pulled, hsource, h]

theorem stored_sync_each (partitions : List Nat) (hn : partitions.Nodup) (s : MapCluster K V) (m : NodeId) (p : Nat)
    (k : K) :
    (partitions.foldl (sync_one cfg ring n) s).stored m p k =
      if m = n ∧ p ∈ partitions then pulled cfg ring s n p k else s.stored m p k := by
  induction partitions generalizing s with
  | nil => simp
  | cons q qs ih =>
    rw [List.nodup_cons] at hn
    rw [List.foldl_cons, ih hn.2]
    by_cases hq : p = q
    · subst hq
      simp [hn.1, stored_sync_one]
    · -- the rounds of the other partitions do not touch `p`
      have hsame : ∀ m' k', (sync_one cfg ring n s q).stored m' p k' = s.stored m' p k' := fun m' k' => by
        rw [stored_sync_one, if_neg fun h => hq h.2]
      simp [hq, hsame, pulled_congr hsame]

theorem view_sync_each (partitions : List Nat) (s : MapCluster K V) :
    (partitions.foldl (sync_one cfg ring n) s).view = s.view := by
  induction partitions generalizing s with
  | nil => rfl
  | cons q qs ih => rw [List.foldl_cons, ih, view_sync_one]

/-- While the view stays as it is, the looks add up to one list. -/
theorem reads_partitions_where (hs : Agreed cfg ring s₀.view) (hn : n ∈ ring.ids) (mine : List NodeId → Bool) :
    Reads cfg .reliable s₀ (partitions_where cfg n mine) fun partitions => partitions = cfg.partitions_where ring mine := by
  have hlook : ∀ p, Reads cfg .reliable s₀ (do pure (mine (← get_owners cfg n p))) fun x => x = mine (cfg.owners ring p) :=
    fun p => reads_bind (reads_get_owners p) fun owners howners =>
      reads_pure (congrArg mine (howners.trans (hs.get_owners hn p)))
  exact (Triple.filterM (SameData.stable s₀) hlook _).post fun _ _ h => ⟨h.1.eq_filter, h.2⟩

/-- The partitions a node looks after are those it owns. -/
theorem reads_target_partitions (hs : Agreed cfg ring s₀.view) (hn : n ∈ ring.ids) :
    Reads cfg .reliable s₀ (target_partitions cfg n) fun targets =>
      targets.Nodup ∧ ∀ p, p ∈ targets ↔ p < cfg.partitioner.num_partitions ∧ n ∈ cfg.owners ring p := by
  have hiterate : ∀ set, Reads cfg .reliable s₀ (iterate n set) fun l => l.Perm set := fun set =>
    Triple.perform (SameData.stable s₀) (fun _ => (SameData.stable s₀).assume _) fun s l s' hs hstep => by
      obtain ⟨hl, rfl⟩ := hstep
      exact ⟨refl s', hl, hs⟩
  refine reads_bind (reads_partitions_where hs hn _) fun primaries hprimaries => ?_
  refine reads_bind (reads_partitions_where hs hn _) fun backups hbackups => ?_
  refine (hiterate _).post fun targets _ h => ⟨⟨h.1.nodup_iff.2 (List.nodup_dedup _), fun p => ?_⟩, h.2⟩
  rw [h.1.mem_iff, hprimaries, hbackups, MapConfig.mem_target_partitions]

variable [Key K] [Json V]

theorem synced_of_sync_partitions (hs : Agreed cfg ring s₀.view) (hn : n ∈ ring.ids) :
    Triple (MapSem cfg .reliable) SameData (fun _ _ => True) (SameData s₀)
      (sync_partitions (K := K) (V := V) cfg n) fun r s => r = .ok () ∧ Synced cfg ring n s₀ s := by
  refine (reads_weaken (reads_target_partitions hs hn)).bind fun targets => Triple.assume fun htargets => ?_
  obtain ⟨hnd, hmem⟩ := htargets
  refine (leads_sync_each hs hn targets).bind fun _ => ?_
  refine fun s hs' s₁ hR => ⟨rfl, ?_⟩
  have hdata := SameData.stable _ s s₁ hR hs'
  exact ⟨hdata.view.trans (view_sync_each targets s₀), fun m p k => by
    simp only [hdata.stored, stored_sync_each targets hnd, hmem]⟩

end Effect

/-! ## Rounds of many nodes -/

/-- The nodes of `order` run `sync_partitions` one after the other. -/
inductive Syncs (cfg : MapConfig) : MapCluster K V → List NodeId → MapCluster K V → Prop
  | nil (s) : Syncs cfg s [] s
  | snoc {s order s₁ s₂} (n : NodeId) {r : Result Unit} : Syncs cfg s order s₁ →
      Runs (MapSem cfg .reliable) Eq (sync_partitions (K := K) (V := V) cfg n) s₁ r s₂ →
      Syncs cfg s (order ++ [n]) s₂

theorem Syncs.append {cfg : MapConfig} {s s₁ s₂ : MapCluster K V} {order order' : List NodeId}
    (h : Syncs cfg s order s₁) (h' : Syncs cfg s₁ order' s₂) : Syncs cfg s (order ++ order') s₂ := by
  induction h' with
  | nil =>
    rw [List.append_nil]
    exact h
  | snoc n _ hrun ih =>
    rw [← List.append_assoc]
    exact .snoc n ih hrun

/-- What every round keeps holds after all of them. -/
theorem syncs_induction {cfg : MapConfig} {ring : NodeRing NodeId} {s s' : MapCluster K V}
    {P : List NodeId → MapCluster K V → Prop} (hs : Agreed cfg ring s.view) (h0 : P [] s)
    (hstep : ∀ order n s₁ s₂, n ∈ ring.ids → Synced cfg ring n s₁ s₂ → P order s₁ → P (order ++ [n]) s₂)
    {order : List NodeId} (horder : ∀ n ∈ order, n ∈ ring.ids) (h : Syncs cfg s order s') : P order s' := by
  have hboth : s'.view = s.view ∧ P order s' := by
    induction h with
    | nil => exact ⟨rfl, h0⟩
    | snoc n hpre hrun ih =>
      obtain ⟨hview, hP⟩ := ih fun m hm => horder m (List.mem_append_left _ hm)
      have hn : n ∈ ring.ids := horder n (by simp)
      have hsync := ((synced_of_sync_partitions (hview ▸ hs) hn).runs (refl _) hrun.alone).2
      exact ⟨hsync.view.trans hview, hstep _ n _ _ hn hsync hP⟩
  exact hboth.2

theorem view_of_syncs {cfg : MapConfig} {ring : NodeRing NodeId} {s s' : MapCluster K V} (hs : Agreed cfg ring s.view)
    {order : List NodeId} (horder : ∀ n ∈ order, n ∈ ring.ids) (h : Syncs cfg s order s') : s'.view = s.view :=
  syncs_induction (P := fun _ s' => s'.view = s.view) hs rfl (fun _ _ _ _ _ hsync ih => hsync.view.trans ih) horder h

theorem exists_syncs (cfg : MapConfig) (order : List NodeId) (s : MapCluster K V) : ∃ s', Syncs cfg s order s' := by
  induction order using List.reverseRecOn with
  | nil => exact ⟨s, .nil s⟩
  | append_singleton order n ih =>
    obtain ⟨s₁, h₁⟩ := ih
    obtain ⟨r, s₂, h₂⟩ := Runs.total (R := Eq) (MapSem_total cfg .reliable)
      (sync_partitions (K := K) (V := V) cfg n) s₁
    exact ⟨s₂, .snoc n h₁ h₂⟩

theorem exists_round {cfg : MapConfig} {ring : NodeRing NodeId} {s : MapCluster K V} (hs : Agreed cfg ring s.view)
    {n : NodeId} (hn : n ∈ ring.ids) : ∃ s', Syncs cfg s [n] s' ∧ Synced cfg ring n s s' := by
  obtain ⟨r, s', hrun⟩ := Runs.total (R := Eq) (MapSem_total cfg .reliable)
    (sync_partitions (K := K) (V := V) cfg n) s
  have hsync := (synced_of_sync_partitions hs hn).runs (refl _) hrun.alone
  exact ⟨s', .snoc n (.nil s) hrun, hsync.2⟩

end DistributedMap
