import DistributedCluster.Storage.Convergence
/-!
# A change of the members

Acknowledged writes, then another set of nodes alive, then rounds of
`sync_partitions` until every node has run one, then a read. New owners pull
from new owners only, so a partition that changes hands altogether is lost to
them, and only the old owners still answer for it.
-/

namespace DistributedMap

open Async

variable {K V : Type} [DecidableEq K]

/-- Whom a node that has nothing of the partition pulls it from. -/
def donor (cfg : MapConfig) (ring : NodeRing NodeId) (partition : Nat) (n : NodeId) : Option NodeId :=
  match cfg.owners ring partition with
  | [] => none
  | primary :: backups =>
    if n = primary then backups.head?
    else if n ∈ backups then some primary
    else none

section Rounds

variable {cfg : MapConfig} {ring : NodeRing NodeId} {s s₁ s₂ : MapCluster K V} {p : Nat} {n : NodeId}

theorem donor_mem {m : NodeId} (h : donor cfg ring p n = some m) :
    n ∈ cfg.owners ring p ∧ m ∈ cfg.owners ring p := by
  unfold donor at h
  split at h
  · cases h
  · rename_i primary backups howners
    rw [howners]
    split at h
    · rename_i hn
      exact ⟨hn ▸ List.mem_cons_self, List.mem_cons_of_mem _ (List.mem_of_mem_head? h)⟩
    · split at h
      · rename_i hb
        cases h
        exact ⟨List.mem_cons_of_mem _ hb, List.mem_cons_self⟩
      · cases h

omit [DecidableEq K] in
/-- An owner pulls from its donor, unless it is the primary and has something. -/
theorem sync_source_of_mem (hn : n ∈ cfg.owners ring p)
    (h : s.has_partition n p → (cfg.owners ring p).head? ≠ some n) :
    sync_source cfg ring s n p = donor cfg ring p n := by
  unfold sync_source donor
  cases howners : cfg.owners ring p with
  | nil => rfl
  | cons primary backups =>
    rw [howners] at hn h
    by_cases hp : primary = n
    · have hempty : s.has_partition n p = false := by
        rw [Bool.eq_false_iff]
        exact fun hhas => h hhas (by rw [List.head?_cons, hp])
      simp [hp, hempty]
    · have hb : n ∈ backups := (List.mem_cons.1 hn).resolve_left (Ne.symm hp)
      simp [hp, Ne.symm hp, hb]

/-- Where the copies of a round come from. -/
theorem pulled_from (k : K) {v : V} (h : pulled cfg ring s n p k = some v) :
    s.stored n p k = some v ∨ ∃ m ∈ cfg.owners ring p, s.stored m p k = some v := by
  unfold pulled at h
  cases hsource : sync_source cfg ring s n p with
  | none =>
    rw [hsource] at h
    exact .inl h
  | some m =>
    rw [hsource] at h
    have hm : m ∈ cfg.owners ring p := by
      unfold sync_source at hsource
      split at hsource
      · cases hsource
      · rename_i primary backups howners
        rw [howners]
        split at hsource
        · split at hsource
          · cases hsource
          · exact List.mem_cons_of_mem _ (List.mem_of_mem_head? hsource)
        · cases hsource
          exact List.mem_cons_self
    rcases Option.or_eq_some_iff.1 h with h | ⟨-, h⟩
    · exact .inr ⟨m, hm, h⟩
    · exact .inl h

/-- Every copy at `s₁` was its node's own at `s`, or an owner has it from an
owner. -/
def Spread (cfg : MapConfig) (ring : NodeRing NodeId) (s s₁ : MapCluster K V) : Prop :=
  ∀ m p k v, s₁.stored m p k = some v →
    s.stored m p k = some v ∨ m ∈ cfg.owners ring p ∧ ∃ m' ∈ cfg.owners ring p, s.stored m' p k = some v

theorem spread_step (hsync : Synced cfg ring n s₁ s₂) (h : Spread cfg ring s s₁) : Spread cfg ring s s₂ := by
  intro m p k v hv
  rw [hsync.stored] at hv
  split at hv
  · rename_i hm
    obtain ⟨rfl, -, hm⟩ := hm
    rcases pulled_from k hv with hv | ⟨m', hm', hv⟩
    · exact h m p k v hv
    · exact .inr ⟨hm, (h m' p k v hv).elim (fun hv => ⟨m', hm', hv⟩) fun hv => hv.2⟩
  · exact h m p k v hv

theorem Spread.eq_none (h : Spread cfg ring s s₁) {m : NodeId} {k : K} (hm : s.stored m p k = none)
    (hall : ∀ m' ∈ cfg.owners ring p, s.stored m' p k = none) : s₁.stored m p k = none := by
  by_contra hne
  obtain ⟨v, hv⟩ := Option.ne_none_iff_exists'.1 hne
  rcases h m p k v hv with hv | ⟨-, m', hm', hv⟩
  · rw [hm] at hv
    cases hv
  · rw [hall m' hm'] at hv
    cases hv

/-! ## A value that all old owners hold -/

/-- What the rounds keep of a key whose value `v` the nodes of `old` hold: no
other value comes up, the old owners hold it, and so does whoever had its turn
and an old owner as donor. A primary with such a donor has nothing or the value. -/
structure Preserved (cfg : MapConfig) (ring : NodeRing NodeId) (old : List NodeId) (p : Nat) (k : K) (v : V)
    (done : List NodeId) (s : MapCluster K V) : Prop where
  only : ∀ m, s.stored m p k = none ∨ s.stored m p k = some v
  kept : ∀ m ∈ old, s.stored m p k = some v
  lead : ∀ n m, donor cfg ring p n = some m → m ∈ old → (cfg.owners ring p).head? = some n →
    s.has_partition n p → s.stored n p k = some v
  turn : ∀ n ∈ done, ∀ m, donor cfg ring p n = some m → m ∈ old → s.stored n p k = some v

variable {old done : List NodeId} {k : K} {v : V}

theorem Preserved.pulled_only (h : Preserved cfg ring old p k v done s) (n : NodeId) :
    pulled cfg ring s n p k = none ∨ pulled cfg ring s n p k = some v := by
  cases hpulled : pulled cfg ring s n p k with
  | none => exact .inl rfl
  | some v' =>
    have hsome : ∃ m, s.stored m p k = some v' := by
      rcases pulled_from k hpulled with hv | ⟨m, -, hv⟩
      · exact ⟨n, hv⟩
      · exact ⟨m, hv⟩
    obtain ⟨m, hv⟩ := hsome
    rcases h.only m with hm | hm
    · rw [hm] at hv
      cases hv
    · exact .inr (hv.symm.trans hm)

/-- Whoever holds the value holds it after its round. -/
theorem Preserved.pulled_of_stored (h : Preserved cfg ring old p k v done s) (hv : s.stored n p k = some v) :
    pulled cfg ring s n p k = some v := by
  refine (h.pulled_only n).resolve_left fun hnone => ?_
  unfold pulled at hnone
  split at hnone
  · rw [hv] at hnone
    cases hnone
  · rw [hv] at hnone
    exact absurd (Option.or_eq_none_iff.1 hnone).2 (by simp)

theorem preserved_turn (hp : p < cfg.partitioner.num_partitions) (hsync : Synced cfg ring n s₁ s₂)
    (h : Preserved cfg ring old p k v done s₁) {m : NodeId} (hd : donor cfg ring p n = some m) (hm : m ∈ old) :
    s₂.stored n p k = some v := by
  have hn := (donor_mem hd).1
  rw [hsync.stored, if_pos ⟨rfl, hp, hn⟩]
  by_cases hl : s₁.has_partition n p ∧ (cfg.owners ring p).head? = some n
  · exact h.pulled_of_stored (h.lead n m hd hm hl.2 hl.1)
  · have hsource : sync_source cfg ring s₁ n p = some m :=
      (sync_source_of_mem hn fun hhas hhead => hl ⟨hhas, hhead⟩).trans hd
    simp [pulled, hsource, h.kept m hm]

theorem preserved_step (hp : p < cfg.partitioner.num_partitions) (hsync : Synced cfg ring n s₁ s₂)
    (h : Preserved cfg ring old p k v done s₁) : Preserved cfg ring old p k v (done ++ [n]) s₂ := by
  have hother : ∀ m, m ≠ n → ∀ k, s₂.stored m p k = s₁.stored m p k := fun m hm k => by
    rw [hsync.stored, if_neg fun he => hm he.1]
  refine ⟨fun m => ?_, fun m hm => ?_, fun n' m hd hm hhead hhas => ?_, fun n' hn' m hd hm => ?_⟩
  · rw [hsync.stored]
    split
    · exact h.pulled_only n
    · exact h.only m
  · rw [hsync.stored]
    split
    · rename_i he
      exact h.pulled_of_stored (he.1 ▸ h.kept m hm)
    · exact h.kept m hm
  · by_cases hn : n' = n
    · exact hn ▸ preserved_turn hp hsync h (hn ▸ hd) hm
    · rw [has_partition_congr (hother n' hn)] at hhas
      rw [hother n' hn]
      exact h.lead n' m hd hm hhead hhas
  · by_cases hn : n' = n
    · exact hn ▸ preserved_turn hp hsync h (hn ▸ hd) hm
    · rw [hother n' hn]
      exact h.turn n' ((List.mem_append.1 hn').resolve_right (by simpa using hn)) m hd hm

/-! ## A node that gets nothing -/

/-- The first round of a node whose donor has no copy brings none. -/
theorem stored_first_round (hsync : Synced cfg ring n s s₁) (hempty : ∀ k, s.stored n p k = none)
    (hdonor : ∀ m, donor cfg ring p n = some m → s.stored m p k = none) : s₁.stored n p k = none := by
  rw [hsync.stored]
  split
  · rename_i hn
    have hhas : ¬ s.has_partition n p := by
      rw [MapCluster.has_partition_iff]
      rintro ⟨k, v, hv⟩
      rw [hempty] at hv
      cases hv
    have hsource : sync_source cfg ring s n p = donor cfg ring p n :=
      sync_source_of_mem hn.2.2 fun h => absurd h hhas
    unfold pulled
    rw [hsource]
    split
    · exact hempty k
    · rename_i m hm
      rw [hdonor m hm, hempty]
      rfl
  · exact hempty k

variable [Key K] [Json V]

/-- The copies of a node stay as they are while it has no round. -/
theorem stored_of_not_mem (hview : Agreed cfg ring s.view) {order : List NodeId} (horder : ∀ m ∈ order, m ∈ ring.ids)
    (hn : n ∉ order) (h : Syncs cfg s order s₁) (p : Nat) (k : K) : s₁.stored n p k = s.stored n p k := by
  refine syncs_induction (P := fun done s₁ => n ∉ done → s₁.stored n p k = s.stored n p k) hview (fun _ => rfl)
    (fun done m s₁ s₂ _ hsync ih hmem => ?_) horder h hn
  rw [List.mem_append, not_or, List.mem_singleton] at hmem
  rw [hsync.stored, if_neg fun he => hmem.2 he.1, ih hmem.1]

theorem spread_of_syncs (hview : Agreed cfg ring s.view) {order : List NodeId} (horder : ∀ m ∈ order, m ∈ ring.ids)
    (h : Syncs cfg s order s₁) : Spread cfg ring s s₁ :=
  syncs_induction (P := fun _ s₁ => Spread cfg ring s s₁) hview (fun _ _ _ _ hv => .inl hv)
    (fun _ _ _ _ _ hsync ih => spread_step hsync ih) horder h

theorem preserved_of_syncs (hview : Agreed cfg ring s.view) (hp : p < cfg.partitioner.num_partitions)
    {order : List NodeId} (horder : ∀ m ∈ order, m ∈ ring.ids) (h0 : Preserved cfg ring old p k v [] s)
    (h : Syncs cfg s order s₁) : Preserved cfg ring old p k v order s₁ :=
  syncs_induction (P := fun done s₁ => Preserved cfg ring old p k v done s₁) hview h0
    (fun _ _ _ _ _ hsync ih => preserved_step hp hsync ih) horder h

end Rounds

/-! ## Reading after the change -/

section Change

variable [Key K] [Json V] {cfg : MapConfig} {ring ring' : NodeRing NodeId} {view view' : NodeId → MembershipService}
  {s : MapCluster K V} {key : K} {ws : List (Write K V)}

/-- Writes that enter at their primaries, the change from `ring` to `ring'`, and
rounds of all nodes of `ring'`: whatever they are, a read of the key returns the
last acknowledged value. -/
def Survives (cfg : MapConfig) (ring ring' : NodeRing NodeId) (view view' : NodeId → MembershipService) (V : Type)
    [Json V] (key : K) : Prop :=
  ∀ (net : Network) (ws : List (Write K V)) (s : MapCluster K V) (order : List NodeId) (s₁ : MapCluster K V)
    (n : NodeId) (v : V) (r : Option V) (s₂ : MapCluster K V),
    (∀ w ∈ ws, (cfg.owners ring (cfg.partition_of w.key)).head? = some w.node) → (ws.map Write.op_id).Nodup →
    Puts cfg net (MapCluster.empty view) ws s → (∀ m, m ∈ order ↔ m ∈ ring'.ids) →
    Syncs cfg { s with view := view' } order s₁ → n ∈ ring'.ids → lastValue ws key = some v →
    Runs (MapSem cfg .reliable) Eq (get cfg n key) s₁ r s₂ → r = some v

/-- An old owner is among the new ones and the key can be asked for, or every
node is an old owner or has one as its donor. -/
def HandedOver (cfg : MapConfig) (ring ring' : NodeRing NodeId) (key : K) : Prop :=
  let old := cfg.owners ring (cfg.partition_of key)
  (UrlSafe cfg key ∧ ∃ m ∈ old, m ∈ cfg.owners ring' (cfg.partition_of key)) ∨
    ∀ n ∈ ring'.ids, n ∈ old ∨ ∃ m ∈ old, donor cfg ring' (cfg.partition_of key) n = some m

omit [Json V] in
theorem preserved_start (hl : Left cfg ring view ws s)
    (hprimary : ∀ w ∈ ws, (cfg.owners ring (cfg.partition_of w.key)).head? = some w.node) {v : V}
    (hlast : lastValue ws key = some v) :
    Preserved cfg ring' (cfg.owners ring (cfg.partition_of key)) (cfg.partition_of key) key v []
      { s with view := view' } := by
  have hkept : ∀ m ∈ cfg.owners ring (cfg.partition_of key), s.stored m (cfg.partition_of key) key = some v :=
    fun m hm => (stored_owner hl hprimary hm).trans hlast
  refine ⟨fun m => ?_, hkept, fun n m _ _ _ hhas => ?_, fun n hn => by cases hn⟩
  · by_cases hm : m ∈ cfg.owners ring (cfg.partition_of key)
    · exact .inr (hkept m hm)
    · exact .inl (stored_other hl hm)
  · by_cases hn : n ∈ cfg.owners ring (cfg.partition_of key)
    · exact hkept n hn
    · -- a stranger to the partition has nothing of it
      obtain ⟨k, v', hv⟩ := MapCluster.has_partition_iff.1 hhas
      exact absurd (hv.symm.trans (stored_stranger hl hn k)) (by simp)

theorem findSome_eq_some {α β : Type} {f : α → Option β} {b : β} {l : List α} (honly : ∀ a, f a = none ∨ f a = some b)
    (h : ∃ a ∈ l, f a = some b) : l.findSome? f = some b := by
  cases hf : l.findSome? f with
  | none =>
    obtain ⟨a, ha, hb⟩ := h
    rw [List.findSome?_eq_none_iff.1 hf a ha] at hb
    cases hb
  | some b' =>
    obtain ⟨a, -, hb⟩ := List.exists_of_findSome?_eq_some hf
    rcases honly a with hn | hs
    · rw [hn] at hb
      cases hb
    · rw [← hb, hs]

theorem survives_of_handedOver (hview : Agreed cfg ring view) (hview' : Agreed cfg ring' view')
    (h : HandedOver cfg ring ring' key) : Survives cfg ring ring' view view' V key := by
  intro net ws s order s₁ n v r s₂ hprimary hops hputs horder hsyncs hn hlast hrun
  have hin : ∀ w ∈ ws, w.node ∈ ring.ids := fun w hw =>
    MapConfig.mem_of_mem_owners (List.mem_of_mem_head? (hprimary w hw))
  have hl := left_of_puts hview (fun w hw _ => hprimary w hw) hin hops hputs
  have hpart : cfg.partition_of key < cfg.partitioner.num_partitions := PartitionManager.get_partition_lt ..
  have hp := preserved_of_syncs hview' hpart (fun m hm => (horder m).1 hm)
    (preserved_start hl hprimary hlast) hsyncs
  have hviews : s₁.view = view' := view_of_syncs hview' (fun m hm => (horder m).1 hm) hsyncs
  rw [(get_returns (hviews ▸ hview') hn hrun).1, read_value]
  rcases hp.only n with hnone | hsome
  · rw [hnone, Option.none_or]
    rcases h with ⟨hsafe, m, hm, hm'⟩ | hall
    · -- some owner holds the value, and `n` asks all of them
      rw [show answer cfg s₁ key = fun m => s₁.stored m (cfg.partition_of key) key from
        funext fun m => answer_of_urlSafe hsafe s₁ m]
      have hne : m ≠ n := fun he => by
        have hm := hp.kept m hm
        rw [he, hnone] at hm
        cases hm
      exact findSome_eq_some hp.only ⟨m, mem_asks hm' hne, hp.kept m hm⟩
    · have hheld : s₁.stored n (cfg.partition_of key) key = some v := by
        rcases hall n hn with hold | ⟨m, hm, hd⟩
        · exact hp.kept n hold
        · exact hp.turn n ((horder n).2 hn) m hd hm
      rw [hnone] at hheld
      cases hheld
  · rw [hsome, Option.some_or]

/-- One write, and the partition has changed hands or the key cannot be asked for:
no new owner answers with a value. -/
theorem lost_answer {w : Write K V} {s₁ : MapCluster K V} (hl : Left cfg ring view [w] s)
    (hspread : Spread cfg ring' s s₁)
    (hlost : ¬ (UrlSafe cfg w.key ∧ ∃ m ∈ cfg.owners ring (cfg.partition_of w.key),
      m ∈ cfg.owners ring' (cfg.partition_of w.key)))
    {m : NodeId} (hm : m ∈ cfg.owners ring' (cfg.partition_of w.key)) : answer cfg s₁ w.key m = none := by
  by_cases hsafe : UrlSafe cfg w.key
  · have hnone : ∀ m' ∈ cfg.owners ring' (cfg.partition_of w.key), s.stored m' (cfg.partition_of w.key) w.key = none :=
      fun m' hm' => stored_stranger hl (fun hm => hlost ⟨hsafe, m', hm, hm'⟩) _
    rw [answer_of_urlSafe hsafe]
    exact hspread.eq_none (hnone m hm) hnone
  · refine answer_of_not_urlSafe hsafe fun k hk => ?_
    have hnone : ∀ m', s.stored m' (cfg.partition_of k) k = none := fun m' =>
      (hl.stored m' k).trans (lastValue_filter_false fun w' hw' hk' => by
        rw [List.mem_singleton.1 hw'] at hk'
        exact absurd hk'.symm hk)
    exact hspread.eq_none (hnone m) fun m' _ => hnone m'

/-- The node `n`, which neither is an old owner nor has one as its donor, runs its
round first and then reads. -/
theorem lost_read (hview : Agreed cfg ring view) (hview' : Agreed cfg ring' view') {w : Write K V}
    (hw : (cfg.owners ring (cfg.partition_of w.key)).head? = some w.node) {n : NodeId} (hn : n ∈ ring'.ids)
    (hold : n ∉ cfg.owners ring (cfg.partition_of w.key))
    (hdonor : ∀ m ∈ cfg.owners ring (cfg.partition_of w.key), donor cfg ring' (cfg.partition_of w.key) n ≠ some m)
    (hlost : ¬ (UrlSafe cfg w.key ∧ ∃ m ∈ cfg.owners ring (cfg.partition_of w.key),
      m ∈ cfg.owners ring' (cfg.partition_of w.key))) :
    ∃ s order s₁ s₂, Puts cfg .reliable (MapCluster.empty view) [w] s ∧ (∀ m, m ∈ order ↔ m ∈ ring'.ids) ∧
      Syncs cfg { s with view := view' } order s₁ ∧ Runs (MapSem cfg .reliable) Eq (get cfg n w.key) s₁ none s₂ := by
  have hin : ∀ w' ∈ [w], w'.node ∈ ring.ids := by
    simpa using MapConfig.mem_of_mem_owners (List.mem_of_mem_head? hw)
  have hops : ([w].map Write.op_id).Nodup := List.nodup_singleton _
  obtain ⟨s, hputs⟩ := exists_puts hview [w] hin hops
  have hl := left_of_puts hview (fun w _ => sound_of_reliable w) hin hops hputs
  let changed : MapCluster K V := { s with view := view' }
  have horder : ∀ m, m ∈ [n] ++ ring'.ids.erase n ↔ m ∈ ring'.ids := fun m =>
    (List.perm_cons_erase hn).mem_iff.symm
  obtain ⟨s₁, h₁, hround⟩ := exists_round (s := changed) hview' hn
  obtain ⟨s₂, h₂⟩ := exists_syncs cfg (ring'.ids.erase n) s₁
  have hsyncs := h₁.append h₂
  have hview₁ : Agreed cfg ring' s₁.view := hround.view ▸ hview'
  have hview₂ : Agreed cfg ring' s₂.view := by
    rw [view_of_syncs hview' (fun m hm => (horder m).1 hm) hsyncs]
    exact hview'
  have hspread := spread_of_syncs hview' (fun m hm => (horder m).1 hm) hsyncs
  -- `n` gets nothing in its round and has no other
  have hown : s₂.stored n (cfg.partition_of w.key) w.key = none := by
    rw [stored_of_not_mem hview₁ (fun m hm => List.mem_of_mem_erase hm) ring'.ids_nodup.not_mem_erase h₂]
    exact stored_first_round hround (fun k => stored_stranger hl hold k) fun m hm =>
      stored_stranger hl (fun hmem => hdonor m hmem hm) _
  obtain ⟨r, s₃, hrun⟩ := Runs.total (R := Eq) (MapSem_total cfg .reliable) (get cfg n w.key) s₂
  obtain rfl := (get_returns hview₂ hn hrun).1
  have hanswer : (asks cfg ring' n (cfg.partition_of w.key)).findSome? (answer cfg s₂ w.key) = none :=
    List.findSome?_eq_none_iff.2 fun m hm => lost_answer hl hspread hlost (mem_of_mem_asks hm)
  refine ⟨s, _, s₂, s₃, hputs, horder, hsyncs, ?_⟩
  rw [read_value, hown, Option.none_or, hanswer] at hrun
  exact hrun

/-- A key survives the change from `ring` to `ring'` if and only if it is handed
over. -/
theorem survives_iff [Nonempty V] (hview : Agreed cfg ring view) (hview' : Agreed cfg ring' view') {n : NodeId}
    (hn : n ∈ ring.ids) : Survives cfg ring ring' view view' V key ↔ HandedOver cfg ring ring' key := by
  constructor
  · intro h
    by_contra hcon
    obtain ⟨hlost, hall⟩ := not_or.1 hcon
    obtain ⟨m, hm⟩ := not_forall.1 hall
    obtain ⟨hm, hno⟩ := Classical.not_imp.1 hm
    obtain ⟨hold, hdonor⟩ := not_or.1 hno
    obtain ⟨value⟩ := ‹Nonempty V›
    obtain ⟨primary, backups, howners⟩ := MapConfig.owners_cons cfg hn (cfg.partition_of key)
    let w : Write K V := ⟨primary, key, value, "op"⟩
    have hw : (cfg.owners ring (cfg.partition_of w.key)).head? = some w.node := by rw [howners, List.head?_cons]
    obtain ⟨s, order, s₁, s₂, hputs, horder, hsyncs, hrun⟩ := lost_read hview hview' hw hm hold
      (fun m' hm' hd => hdonor ⟨m', hm', hd⟩) hlost
    have hlast : lastValue [w] key = some value := by simp [lastValue, w]
    have hread := h .reliable [w] s order s₁ m value none s₂ (by simpa using hw) (List.nodup_singleton _) hputs
      horder hsyncs hm hlast hrun
    cases hread
  · exact survives_of_handedOver hview hview'

end Change

section Example

open CompactJson

theorem agreed_quartet {ring : NodeRing NodeId} (h : ∀ a ∈ ring.ids, a ∈ quartet.ids) :
    Agreed quartet_cfg ring (demo_view ring) := agreed_demo 2 h (by decide)

/-- `"e"` is owned by c and d, and by a and b once d is gone. -/
theorem quartet_owners : quartet_cfg.owners quartet (quartet_cfg.partition_of "e") = [node_c, node_d] ∧
    quartet_cfg.owners trio (quartet_cfg.partition_of "e") = [node_a, node_b] := by decide +kernel

theorem survives_join_iff :
    Survives quartet_cfg trio quartet (demo_view trio) (demo_view quartet) Bool "e" ↔
      HandedOver quartet_cfg trio quartet "e" :=
  survives_iff (agreed_quartet (by decide)) (agreed_quartet (by decide)) (n := node_a) (by decide)

/-- When d crashes, a and b pull from each other only and do not find `"e"`. -/
theorem not_always_preserved :
    ¬ ∀ (cfg : MapConfig) (ring ring' : NodeRing NodeId) (view view' : NodeId → MembershipService) (key : String),
      2 ≤ cfg.partitioner.replication_factor →
      ((∃ x ∈ ring'.ids, ring.ids = ring'.ids.erase x) ∨ ∃ x ∈ ring.ids, ring'.ids = ring.ids.erase x) →
      Agreed cfg ring view → Agreed cfg ring' view' → Survives cfg ring ring' view view' Bool key := by
  intro h
  have hview : Agreed quartet_cfg quartet (demo_view quartet) := agreed_quartet (by decide)
  have hview' : Agreed quartet_cfg trio (demo_view trio) := agreed_quartet (by decide)
  have hsurvives := h quartet_cfg quartet trio (demo_view quartet) (demo_view trio) "e" (by decide)
    (.inr ⟨node_d, by decide, by decide⟩) hview hview'
  let w : Write String Bool := ⟨node_c, "e", true, "1"⟩
  have hw : (quartet_cfg.owners quartet (quartet_cfg.partition_of w.key)).head? = some w.node := by
    rw [quartet_owners.1]
    rfl
  obtain ⟨s, order, s₁, s₂, hputs, horder, hsyncs, hrun⟩ := lost_read hview hview' hw (n := node_a) (by decide)
    (by rw [quartet_owners.1]; decide) (by decide +kernel) fun hsafe => by
      rw [quartet_owners.1, quartet_owners.2] at hsafe
      exact absurd hsafe.2 (by decide)
  have hread := hsurvives .reliable [w] s order s₁ node_a true none s₂ (by simpa using hw) (by decide) hputs horder
    hsyncs (by decide) (by decide) hrun
  cases hread

end Example

end DistributedMap
