import DistributedCluster.Storage.Read
import DistributedCluster.Storage.Replication
/-!
# Writes one after the other

A history of writes over a reliable network, each finished before the next one
starts. What a node keeps of a key is the last write that reached it, and a
write reaches every owner but the backup it entered at. A read prefers the
local copy, so a node returns the last write unless it is such a backup.
-/

namespace DistributedMap

open Async

variable {K V : Type} [DecidableEq K]

structure Write (K V : Type) where
  node : NodeId
  key : K
  value : V
  op_id : String

/-- The last value written to `key`. -/
def lastValue (ws : List (Write K V)) (key : K) : Option V :=
  ws.foldl (fun last w => if w.key = key then some w.value else last) none

theorem lastValue_snoc (ws : List (Write K V)) (w : Write K V) (key : K) :
    lastValue (ws ++ [w]) key = if w.key = key then some w.value else lastValue ws key := by
  simp [lastValue]

theorem lastValue_filter_snoc (P : Write K V → Prop) [DecidablePred P] (ws : List (Write K V)) (w : Write K V)
    (key : K) :
    lastValue ((ws ++ [w]).filter fun w => P w) key =
      if w.key = key ∧ P w then some w.value else lastValue (ws.filter fun w => P w) key := by
  by_cases hP : P w
  · simp [List.filter_append, hP, lastValue_snoc]
  · simp [List.filter_append, hP]

/-- Only the writes of the key itself matter. -/
theorem lastValue_filter_congr {P Q : Write K V → Prop} [DecidablePred P] [DecidablePred Q]
    {ws : List (Write K V)} {key : K} (h : ∀ w ∈ ws, w.key = key → (P w ↔ Q w)) :
    lastValue (ws.filter fun w => P w) key = lastValue (ws.filter fun w => Q w) key := by
  induction ws using List.reverseRecOn with
  | nil => rfl
  | append_singleton ws w ih =>
    rw [lastValue_filter_snoc, lastValue_filter_snoc, ih fun w' hw' => h w' (List.mem_append_left _ hw')]
    have hw := h w (by simp)
    by_cases hk : w.key = key
    · simp [hk, hw hk]
    · simp [hk]

theorem lastValue_filter_true {P : Write K V → Prop} [DecidablePred P] {ws : List (Write K V)} {key : K}
    (h : ∀ w ∈ ws, w.key = key → P w) : lastValue (ws.filter fun w => P w) key = lastValue ws key := by
  rw [lastValue_filter_congr (Q := fun _ => True) fun w hw hk => iff_true_intro (h w hw hk)]
  simp

theorem lastValue_filter_false {P : Write K V → Prop} [DecidablePred P] {ws : List (Write K V)} {key : K}
    (h : ∀ w ∈ ws, w.key = key → ¬ P w) : lastValue (ws.filter fun w => P w) key = none := by
  rw [lastValue_filter_congr (Q := fun _ => False) fun w hw hk => iff_false_intro (h w hw hk)]
  simp [lastValue]

theorem lastValue_filter_eq_none {P : Write K V → Prop} [DecidablePred P] {ws : List (Write K V)} {key : K}
    (h : lastValue ws key = none) : lastValue (ws.filter fun w => P w) key = none := by
  induction ws using List.reverseRecOn with
  | nil => rfl
  | append_singleton ws w ih =>
    rw [lastValue_snoc] at h
    split at h
    · cases h
    · rw [lastValue_filter_snoc, if_neg (by simp [*]), ih h]

variable [Key K]

/-- The write stores its value at `m`. -/
def Write.reaches (cfg : MapConfig) (ring : NodeRing NodeId) (m : NodeId) (w : Write K V) : Prop :=
  m ∈ cfg.owners ring (cfg.partition_of w.key) ∧
    ¬ (m = w.node ∧ m ∈ (cfg.owners ring (cfg.partition_of w.key)).tail)

instance (cfg : MapConfig) (ring : NodeRing NodeId) (m : NodeId) :
    DecidablePred (Write.reaches (K := K) (V := V) cfg ring m) :=
  fun _ => inferInstanceAs (Decidable (_ ∧ ¬ (_ ∧ _)))

variable [Json V]

/-- The history `ws` leads from `s` to `s'`, every write having answered `Ok`. -/
inductive Puts (cfg : MapConfig) (net : Network) : MapCluster K V → List (Write K V) → MapCluster K V → Prop
  | nil (s) : Puts cfg net s [] s
  | snoc {s ws s₁ s₂} (w : Write K V) : Puts cfg net s ws s₁ →
      Runs (MapSem cfg net) Eq (put_with_op cfg w.node w.key w.value w.op_id) s₁ (.ok ()) s₂ →
      Puts cfg net s (ws ++ [w]) s₂

variable {cfg : MapConfig} {ring : NodeRing NodeId} {s s' : MapCluster K V}

/-- What one write with a fresh operation id changes. -/
structure Writes (cfg : MapConfig) (ring : NodeRing NodeId) (w : Write K V) (s s' : MapCluster K V) : Prop where
  view : s'.view = s.view
  stored : ∀ m p k, s'.stored m p k =
    if p = cfg.partition_of w.key ∧ k = w.key ∧ w.reaches cfg ring m then some w.value else s.stored m p k
  recorded : ∀ m op, s'.recorded m op → op = w.op_id ∨ s.recorded m op

/-- The network loses nothing, or the write enters at the primary. -/
def Sound (cfg : MapConfig) (ring : NodeRing NodeId) (net : Network) (w : Write K V) : Prop :=
  net = .lossy → (cfg.owners ring (cfg.partition_of w.key)).head? = some w.node

omit [DecidableEq K] [Json V] in
theorem sound_of_reliable (w : Write K V) : Sound cfg ring .reliable w :=
  fun hl => absurd hl Network.reliable_ne_lossy

theorem writes_of_run {net : Network} {w : Write K V} (hw : Sound cfg ring net w) (hn : w.node ∈ ring.ids)
    (hs : Agreed cfg ring s.view) (hfresh : ∀ m, ¬ s.recorded m w.op_id)
    (hrun : Runs (MapSem cfg net) Eq (put_with_op cfg w.node w.key w.value w.op_id) s (.ok ()) s') :
    Writes cfg ring w s s' := by
  let t := followed cfg ring w.key w.value w.op_id True
  have hdoes := Tracked.put_with_op_does (t := t) hn rfl (fun hl => ⟨trivial, hw hl⟩) _ s (inv_start hs hfresh True)
  have hout : ∃ A, t.Inv A (t.outcome w.node fun m => s.stored m (cfg.partition_of w.key) w.key) s' := by
    rcases wp_runs hdoes hrun.alone with ⟨-, h⟩ | ⟨-, e, he⟩
    · exact h
    · cases he
  obtain ⟨A, hinv⟩ := hout
  have honly : t.Only s s' := wp_guarantee hdoes hrun
  refine ⟨honly.view, fun m p k => ?_, fun m op hm => ?_⟩
  · by_cases hk : p = cfg.partition_of w.key ∧ k = w.key
    · obtain ⟨rfl, rfl⟩ := hk
      have hm : t.outcome w.node (fun m => s.stored m (cfg.partition_of w.key) w.key) m
        (s'.stored m (cfg.partition_of w.key) w.key) := hinv.value m
      by_cases hself : m = w.node ∧ m ∈ (cfg.owners ring (cfg.partition_of w.key)).tail
      · obtain ⟨rfl, hb⟩ := hself
        simpa [t, Tracked.outcome, Tracked.backups, followed, Write.reaches, hb] using hm
      · by_cases ho : m ∈ cfg.owners ring (cfg.partition_of w.key)
        · simpa [t, Tracked.outcome, Tracked.backups, followed, Write.reaches, hself, ho] using hm
        · simpa [t, Tracked.outcome, Tracked.backups, followed, Write.reaches, hself, ho] using hm
    · rw [honly.stored m p k hk, if_neg fun h => hk ⟨h.1, h.2.1⟩]
  · by_cases ho : op = w.op_id
    · exact .inl ho
    · exact .inr (honly.recorded m op ho hm)

theorem ok_of_write {w : Write K V} (hn : w.node ∈ ring.ids) (hs : Agreed cfg ring s.view)
    (hfresh : ∀ m, ¬ s.recorded m w.op_id) {r : Result Unit}
    (hrun : Runs (MapSem cfg .reliable) Eq (put_with_op cfg w.node w.key w.value w.op_id) s r s') : r = .ok () := by
  have hdoes := Tracked.put_with_op_does (t := followed cfg ring w.key w.value w.op_id True) hn rfl
    (fun hl => absurd hl Network.reliable_ne_lossy) _ s (inv_start hs hfresh True)
  exact (wp_runs hdoes hrun.alone).reliable.1

/-- `put` writes under a fresh operation id. -/
theorem put_writes (hs : Agreed cfg ring s.view) {n : NodeId} (hn : n ∈ ring.ids) {key : K} {value : V}
    {r : Result Unit} (hrun : Runs (MapSem cfg .reliable) Eq (put cfg n key value) s r s') :
    r = .ok () ∧ ∃ op, Writes cfg ring ⟨n, key, value, op⟩ s s' := by
  obtain ⟨op, s₁, huuid, hput⟩ := runs_bind.1 hrun
  obtain ⟨hop, rfl⟩ := runs_perform.1 huuid
  have hfresh : ∀ m, ¬ (s.use op).recorded m op := fun m hm => hop (s.ops_used m hm)
  let w : Write K V := ⟨n, key, value, op⟩
  have hs' : Agreed cfg ring (s.use op).view := hs
  obtain rfl : r = .ok () := ok_of_write (w := w) hn hs' hfresh hput
  have hw := writes_of_run (w := w) (sound_of_reliable w) hn hs' hfresh hput
  exact ⟨rfl, op, hw.view, hw.stored, hw.recorded⟩

theorem exists_write (w : Write K V) (hn : w.node ∈ ring.ids) (hs : Agreed cfg ring s.view)
    (hfresh : ∀ m, ¬ s.recorded m w.op_id) :
    ∃ s', Runs (MapSem cfg .reliable) Eq (put_with_op cfg w.node w.key w.value w.op_id) s (.ok ()) s' :=
  let ⟨s', hrun, _⟩ := put_with_op_alone w.key w.value hn hs hfresh
  ⟨s', hrun⟩

/-! ## What a history leaves -/

/-- What the nodes keep after a history that started from nothing. -/
structure Left (cfg : MapConfig) (ring : NodeRing NodeId) (view : NodeId → MembershipService)
    (ws : List (Write K V)) (s : MapCluster K V) : Prop where
  view : s.view = view
  stored : ∀ m key, s.stored m (cfg.partition_of key) key = lastValue (ws.filter fun w => w.reaches cfg ring m) key
  misplaced : ∀ m p key, p ≠ cfg.partition_of key → s.stored m p key = none
  recorded : ∀ m op, s.recorded m op → ∃ w ∈ ws, w.op_id = op

variable {view : NodeId → MembershipService}

omit [Json V] in
theorem left_snoc {ws : List (Write K V)} {w : Write K V} (hl : Left cfg ring view ws s)
    (hw : Writes cfg ring w s s') : Left cfg ring view (ws ++ [w]) s' := by
  refine ⟨hw.view.trans hl.view, fun m key => ?_, fun m p key hp => ?_, fun m op hm => ?_⟩
  · rw [hw.stored, lastValue_filter_snoc, hl.stored]
    by_cases hk : w.key = key
    · subst hk
      simp
    · simp [hk, Ne.symm hk]
  · rw [hw.stored, if_neg, hl.misplaced m p key hp]
    rintro ⟨rfl, rfl, -⟩
    exact hp rfl
  · rcases hw.recorded m op hm with rfl | hm
    · exact ⟨w, by simp, rfl⟩
    · obtain ⟨w', hw', hop⟩ := hl.recorded m op hm
      exact ⟨w', List.mem_append_left _ hw', hop⟩

omit [Json V] in
theorem fresh_of_left {ws : List (Write K V)} {w : Write K V} (hl : Left cfg ring view ws s)
    (hops : ((ws ++ [w]).map Write.op_id).Nodup) (m : NodeId) : ¬ s.recorded m w.op_id := by
  intro hm
  obtain ⟨w', hw', hop⟩ := hl.recorded m w.op_id hm
  rw [List.map_append, List.nodup_append] at hops
  exact hops.2.2 w'.op_id (List.mem_map_of_mem hw') w.op_id (by simp) hop

theorem left_of_puts {net : Network} (hview : Agreed cfg ring view) {ws : List (Write K V)}
    (hsound : ∀ w ∈ ws, Sound cfg ring net w) (hn : ∀ w ∈ ws, w.node ∈ ring.ids)
    (hops : (ws.map Write.op_id).Nodup) (h : Puts cfg net (MapCluster.empty view) ws s) :
    Left cfg ring view ws s := by
  induction h with
  | nil =>
    exact ⟨rfl, fun _ _ => rfl, fun _ _ _ _ => rfl, fun m op hm => absurd hm (MapCluster.not_recorded_empty view m op)⟩
  | snoc w hpre hrun ih =>
    have hl := ih (fun w' hw' => hsound w' (List.mem_append_left _ hw'))
      (fun w' hw' => hn w' (List.mem_append_left _ hw')) (by rw [List.map_append, List.nodup_append] at hops; exact hops.1)
    exact left_snoc hl (writes_of_run (hsound w (by simp)) (hn w (by simp)) (hl.view ▸ hview)
      (fresh_of_left hl hops) hrun)

theorem exists_puts (hview : Agreed cfg ring view) (ws : List (Write K V)) (hn : ∀ w ∈ ws, w.node ∈ ring.ids)
    (hops : (ws.map Write.op_id).Nodup) : ∃ s, Puts cfg .reliable (MapCluster.empty view) ws s := by
  induction ws using List.reverseRecOn with
  | nil => exact ⟨_, .nil _⟩
  | append_singleton ws w ih =>
    have hn' : ∀ w' ∈ ws, w'.node ∈ ring.ids := fun w' hw' => hn w' (List.mem_append_left _ hw')
    have hops' : (ws.map Write.op_id).Nodup := by
      rw [List.map_append, List.nodup_append] at hops
      exact hops.1
    obtain ⟨s, hs⟩ := ih hn' hops'
    have hl := left_of_puts hview (fun w _ => sound_of_reliable w) hn' hops' hs
    obtain ⟨s', hrun⟩ := exists_write w (hn w (by simp)) (hl.view ▸ hview) (fresh_of_left hl hops)
    exact ⟨s', .snoc w hs hrun⟩

/-! ## What a read returns after a history -/

section Reading

variable {ws : List (Write K V)} {key : K} {n : NodeId}

omit [Json V] in
theorem stored_primary (hl : Left cfg ring view ws s) {primary : NodeId} {backups : List NodeId}
    (howners : cfg.owners ring (cfg.partition_of key) = primary :: backups) :
    s.stored primary (cfg.partition_of key) key = lastValue ws key := by
  have hnd := cfg.owners_nodup ring (cfg.partition_of key)
  rw [howners, List.nodup_cons] at hnd
  refine (hl.stored primary key).trans (lastValue_filter_true fun w _ hk => ?_)
  subst hk
  simp [Write.reaches, howners, hnd.1]

omit [Json V] in
theorem stored_backup (hl : Left cfg ring view ws s) {b : NodeId}
    (hb : b ∈ (cfg.owners ring (cfg.partition_of key)).tail) :
    s.stored b (cfg.partition_of key) key = lastValue (ws.filter fun w => w.node ≠ b) key := by
  refine (hl.stored b key).trans (lastValue_filter_congr fun w _ hk => ?_)
  subst hk
  simp [Write.reaches, hb, List.mem_of_mem_tail hb, eq_comm]

omit [Json V] in
theorem stored_other (hl : Left cfg ring view ws s) {m : NodeId}
    (hm : m ∉ cfg.owners ring (cfg.partition_of key)) : s.stored m (cfg.partition_of key) key = none := by
  refine (hl.stored m key).trans (lastValue_filter_false fun w _ hk => ?_)
  subst hk
  simp [Write.reaches, hm]

omit [Json V] in
/-- When every write enters at its primary, all owners hold the last value. -/
theorem stored_owner (hl : Left cfg ring view ws s)
    (hprimary : ∀ w ∈ ws, (cfg.owners ring (cfg.partition_of w.key)).head? = some w.node) {m : NodeId}
    (hm : m ∈ cfg.owners ring (cfg.partition_of key)) : s.stored m (cfg.partition_of key) key = lastValue ws key := by
  refine (hl.stored m key).trans (lastValue_filter_true fun w hw hk => ?_)
  subst hk
  refine ⟨hm, fun he => ?_⟩
  have hhead := hprimary w hw
  have hnd := cfg.owners_nodup ring (cfg.partition_of w.key)
  cases howners : cfg.owners ring (cfg.partition_of w.key) with
  | nil =>
    rw [howners] at hm
    cases hm
  | cons primary backups =>
    rw [howners, List.head?_cons, Option.some.injEq] at hhead
    rw [howners, List.nodup_cons] at hnd
    rw [howners, List.tail_cons, he.1, ← hhead] at he
    exact hnd.1 he.2

omit [Json V] in
/-- A node that does not own the partition has nothing of it. -/
theorem stored_stranger (hl : Left cfg ring view ws s) {m : NodeId} {p : Nat} (hm : m ∉ cfg.owners ring p) (k : K) :
    s.stored m p k = none := by
  by_cases hp : p = cfg.partition_of k
  · subst hp
    exact stored_other hl hm
  · exact hl.misplaced m p k hp

theorem read_of_left (hview : Agreed cfg ring view) (hl : Left cfg ring view ws s) (hn : n ∈ ring.ids)
    (hsafe : UrlSafe cfg key) {r : Option V}
    (hrun : Runs (MapSem cfg .reliable) Eq (get cfg n key) s r s') :
    r = (s.stored n (cfg.partition_of key) key).or (lastValue ws key) := by
  have hs : Agreed cfg ring s.view := hl.view ▸ hview
  obtain ⟨primary, backups, howners⟩ := MapConfig.owners_cons cfg hn (cfg.partition_of key)
  rw [(get_returns hs hn hrun).1, read_value, show answer cfg s key = fun m => s.stored m (cfg.partition_of key) key from
    funext fun m => answer_of_urlSafe hsafe s m]
  have hprimary := stored_primary hl howners
  cases hlast : lastValue ws key with
  | none =>
    -- no write of the key, so no copy anywhere
    have hnone : ∀ m, s.stored m (cfg.partition_of key) key = none := fun m =>
      (hl.stored m key).trans (lastValue_filter_eq_none hlast)
    simp [hnone]
  | some v =>
    rw [hlast] at hprimary
    by_cases hnp : primary = n
    · subst hnp
      simp [hprimary]
    · have hasks : asks cfg ring n (cfg.partition_of key) = primary :: backups := by
        simp [asks, howners, hnp]
      simp [hasks, hprimary]

/-- After a history, a read at `n` returns the last write if and only if `n` is
no backup of the key or the last write that `n` did not take in itself, if there
is one, wrote the same value. -/
theorem read_returns_last_iff (hview : Agreed cfg ring view) (hws : ∀ w ∈ ws, w.node ∈ ring.ids)
    (hops : (ws.map Write.op_id).Nodup) (hn : n ∈ ring.ids) (hsafe : UrlSafe cfg key) :
    (∀ s r s', Puts cfg .reliable (MapCluster.empty view) ws s → Runs (MapSem cfg .reliable) Eq (get cfg n key) s r s' →
        r = lastValue ws key) ↔
      n ∉ (cfg.owners ring (cfg.partition_of key)).tail ∨
        ∀ v, lastValue (ws.filter fun w => w.node ≠ n) key = some v → lastValue ws key = some v := by
  constructor
  · intro h
    by_cases hb : n ∈ (cfg.owners ring (cfg.partition_of key)).tail
    · refine .inr fun v hv => ?_
      obtain ⟨s, hs⟩ := exists_puts hview ws hws hops
      obtain ⟨r, s', hrun⟩ := Runs.total (R := Eq) (MapSem_total cfg .reliable) (get cfg n key) s
      have hl := left_of_puts hview (fun w _ => sound_of_reliable w) hws hops hs
      rw [← h s r s' hs hrun, read_of_left hview hl hn hsafe hrun, stored_backup hl hb, hv, Option.some_or]
    · exact .inl hb
  · intro h s r s' hs hrun
    have hl := left_of_puts hview (fun w _ => sound_of_reliable w) hws hops hs
    rw [read_of_left hview hl hn hsafe hrun]
    cases hst : s.stored n (cfg.partition_of key) key with
    | none => rw [Option.none_or]
    | some v =>
      rw [Option.some_or]
      obtain ⟨primary, backups, howners⟩ := MapConfig.owners_cons cfg hn (cfg.partition_of key)
      by_cases hb : n ∈ (cfg.owners ring (cfg.partition_of key)).tail
      · rw [stored_backup hl hb] at hst
        exact ((h.resolve_left (not_not.2 hb)) v hst).symm
      · by_cases hno : n = primary
        · subst hno
          exact hst.symm.trans (stored_primary hl howners)
        · have hout : n ∉ cfg.owners ring (cfg.partition_of key) := by
            rw [howners, List.tail_cons] at hb
            simp [howners, hno, hb]
          rw [stored_other hl hout] at hst
          cases hst

end Reading

section Example

open CompactJson

/-- A write through the primary and one through the backup. -/
def two_writes : List (Write String Bool) := [⟨node_a, "k", true, "1"⟩, ⟨node_b, "k", false, "2"⟩]

theorem urlSafe_pair (key : String) : UrlSafe pair_cfg key := ⟨key, rfl, rfl⟩

/-- The other way round, the backup has the last write. -/
theorem read_returns_last_two_writes :
    ∃ s s', Puts pair_cfg .reliable (MapCluster.empty (demo_view pair)) two_writes.reverse s ∧
      Runs (MapSem pair_cfg .reliable) Eq (get pair_cfg node_b "k") s (some true) s' := by
  have hview : Agreed pair_cfg pair (demo_view pair) := agreed_demo 2 (by decide) (by decide)
  have hws : ∀ w ∈ two_writes.reverse, w.node ∈ pair.ids := by decide
  have hops : (two_writes.reverse.map Write.op_id).Nodup := by decide
  obtain ⟨s, hs⟩ := exists_puts hview two_writes.reverse hws hops
  obtain ⟨r, s', hrun⟩ := Runs.total (R := Eq) (MapSem_total pair_cfg .reliable) (get pair_cfg node_b "k") s
  have hlast : r = lastValue two_writes.reverse "k" :=
    (read_returns_last_iff hview hws hops (by decide) (urlSafe_pair "k")).2 (.inr (by decide)) s r s' hs hrun
  rw [show lastValue two_writes.reverse "k" = some true by decide] at hlast
  exact ⟨s, s', hs, hlast ▸ hrun⟩

/-- In this order it keeps its own, older one. -/
theorem stale_read_at_backup :
    ¬ ∀ (cfg : MapConfig) (ring : NodeRing NodeId) (view : NodeId → MembershipService)
      (ws : List (Write String Bool)) (key : String) (n : NodeId) (s s' : MapCluster String Bool) (r : Option Bool),
      Agreed cfg ring view → (∀ w ∈ ws, w.node ∈ ring.ids) → (ws.map Write.op_id).Nodup → n ∈ ring.ids →
      UrlSafe cfg key → Puts cfg .reliable (MapCluster.empty view) ws s →
      Runs (MapSem cfg .reliable) Eq (get cfg n key) s r s' → r = lastValue ws key := by
  intro h
  have hview : Agreed pair_cfg pair (demo_view pair) := agreed_demo 2 (by decide) (by decide)
  have hws : ∀ w ∈ two_writes, w.node ∈ pair.ids := by decide
  have hops : (two_writes.map Write.op_id).Nodup := by decide
  obtain ⟨s, hs⟩ := exists_puts hview two_writes hws hops
  obtain ⟨r, s', hrun⟩ := Runs.total (R := Eq) (MapSem_total pair_cfg .reliable) (get pair_cfg node_b "k") s
  have hl := left_of_puts hview (fun w _ => sound_of_reliable w) hws hops hs
  have hread := read_of_left hview hl (show node_b ∈ pair.ids by decide) (urlSafe_pair "k") hrun
  rw [stored_backup hl (by rw [pair_backups]; decide),
    h pair_cfg pair (demo_view pair) two_writes "k" node_b s s' r hview hws hops (by decide) (urlSafe_pair "k")
      hs hrun] at hread
  exact absurd hread (by decide)

end Example

end DistributedMap
