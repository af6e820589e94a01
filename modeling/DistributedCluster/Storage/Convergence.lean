import DistributedCluster.Storage.Sequential
import DistributedCluster.Storage.Sync
/-!
# What anti-entropy achieves

Every owner of a partition runs `sync_partitions` once, in some order. The
primary keeps what it has, or takes over its first backup when it has nothing,
and each backup puts the primary's copy over its own. The owners then agree on
all of their keys only when no backup had a key that the primary never sees.
-/

namespace DistributedMap

open Async

variable {K V : Type} [DecidableEq K]

section Statement

variable (cfg : MapConfig) (ring : NodeRing NodeId)

/-- `m` has every key of the partition that `b` has. -/
def Covers (s : MapCluster K V) (partition : Nat) (m b : NodeId) : Prop :=
  ∀ k, (s.stored b partition k).isSome → (s.stored m partition k).isSome

def SameCopy (s : MapCluster K V) (partition : Nat) (m b : NodeId) : Prop :=
  ∀ k, s.stored b partition k = s.stored m partition k

/-- All owners hold one map, with the keys any of them held at `s`. -/
structure Converged (partition : Nat) (s s' : MapCluster K V) : Prop where
  same : ∀ m ∈ cfg.owners ring partition, ∀ b ∈ cfg.owners ring partition, SameCopy s' partition m b
  union : ∀ m ∈ cfg.owners ring partition, ∀ k,
    (s'.stored m partition k).isSome ↔ ∃ b ∈ cfg.owners ring partition, (s.stored b partition k).isSome

/-- No key and no value will be missed: the primary has every key of its backups,
or it has nothing, its first backup stands in for it, and the backups whose turn
comes before the primary's own have the same already. -/
def NothingMissed (order : List NodeId) (partition : Nat) (s : MapCluster K V) : Prop :=
  match cfg.owners ring partition with
  | [] => True
  | primary :: backups =>
    if s.has_partition primary partition then ∀ b ∈ backups, Covers s partition primary b
    else ∀ source ∈ backups.head?, ∀ b ∈ backups,
      if [primary, b].Sublist order then Covers s partition source b else SameCopy s partition source b

end Statement

/-! ## The copies while the rounds go on -/

section Rounds

variable {cfg : MapConfig} {ring : NodeRing NodeId} {s s' : MapCluster K V} {p : Nat} {primary : NodeId}
  {backups : List NodeId}

/-- The copy the primary ends with. -/
def lead (s : MapCluster K V) (p : Nat) (primary : NodeId) (backups : List NodeId) (k : K) : Option V :=
  if s.has_partition primary p then s.stored primary p k
  else backups.head?.bind fun source => s.stored source p k

/-- `b` had its turn when the primary had its final copy. -/
def Fed (s : MapCluster K V) (p : Nat) (primary : NodeId) (done : List NodeId) (b : NodeId) : Prop :=
  b ∈ done ∧ (s.has_partition primary p ∨ [primary, b].Sublist done)

instance (s : MapCluster K V) (p : Nat) (primary : NodeId) (done : List NodeId) (b : NodeId) :
    Decidable (Fed s p primary done b) := inferInstanceAs (Decidable (_ ∧ _))

structure Progress (s : MapCluster K V) (p : Nat) (primary : NodeId) (backups done : List NodeId)
    (s₁ : MapCluster K V) : Prop where
  at_primary : ∀ k, s₁.stored primary p k =
    if s.has_partition primary p ∨ primary ∈ done then lead s p primary backups k else none
  at_backup : ∀ b ∈ backups, ∀ k, s₁.stored b p k =
    if Fed s p primary done b then (lead s p primary backups k).or (s.stored b p k) else s.stored b p k

theorem stored_eq_none (h : ¬ s.has_partition primary p) (k : K) : s.stored primary p k = none := by
  by_contra hne
  exact h (MapCluster.has_partition_iff.2 ⟨k, Option.ne_none_iff_exists'.1 hne⟩)

theorem pair_sublist_concat {α : Type} {a b c : α} {l : List α} :
    [a, b].Sublist (l ++ [c]) ↔ [a, b].Sublist l ∨ a ∈ l ∧ b = c := by
  rw [List.sublist_append_iff]
  constructor
  · rintro ⟨l₁, l₂, hl, h₁, h₂⟩
    rcases List.sublist_singleton.1 h₂ with rfl | rfl
    · exact .inl (by rw [hl, List.append_nil]; exact h₁)
    · obtain ⟨rfl, hb⟩ : [a] = l₁ ∧ [b] = [c] := List.append_inj' (show [a] ++ [b] = l₁ ++ [c] from hl) rfl
      exact .inr ⟨List.singleton_sublist.1 h₁, List.singleton_inj.1 hb⟩
  · rintro (h | ⟨h, rfl⟩)
    · exact ⟨_, [], (List.append_nil _).symm, h, List.nil_sublist _⟩
    · exact ⟨[a], [b], rfl, List.singleton_sublist.2 h, List.Sublist.refl _⟩

omit [DecidableEq K] in
theorem fed_concat_of_ne {done : List NodeId} {b n : NodeId} (h : b ≠ n) :
    Fed s p primary (done ++ [n]) b ↔ Fed s p primary done b := by
  simp [Fed, pair_sublist_concat, h]

theorem progress_start : Progress s p primary backups [] s where
  at_primary k := by
    by_cases h : s.has_partition primary p
    · simp [h, lead]
    · simp [h, stored_eq_none h]
  at_backup b _ k := by simp [Fed]

/-- Nothing happens to the owners' copies when somebody else has its turn. -/
theorem progress_other {n : NodeId} {done : List NodeId} {s₁ s₂ : MapCluster K V}
    (hn : n ∉ primary :: backups) (howners : cfg.owners ring p = primary :: backups)
    (hsync : Synced cfg ring n s₁ s₂) (h : Progress s p primary backups done s₁) :
    Progress s p primary backups (done ++ [n]) s₂ := by
  have hsame : ∀ m k, s₂.stored m p k = s₁.stored m p k := fun m k => by
    rw [hsync.stored, howners, if_neg fun h => hn h.2.2]
  have hprimary : primary ≠ n := fun h => hn (h ▸ List.mem_cons_self)
  refine ⟨fun k => ?_, fun b hb k => ?_⟩
  · rw [hsame, h.at_primary]
    simp [hprimary]
  · have hbn : b ≠ n := fun h => hn (h ▸ List.mem_cons_of_mem _ hb)
    simp only [hsame, h.at_backup b hb, fed_concat_of_ne hbn]

theorem progress_primary {done : List NodeId} {s₁ s₂ : MapCluster K V} (hdone : primary ∉ done)
    (howners : cfg.owners ring p = primary :: backups) (hp : p < cfg.partitioner.num_partitions)
    (hsync : Synced cfg ring primary s₁ s₂) (h : Progress s p primary backups done s₁) :
    Progress s p primary backups (done ++ [primary]) s₂ := by
  have hnd := cfg.owners_nodup ring p
  rw [howners, List.nodup_cons] at hnd
  have hnotin : ∀ b ∈ backups, b ≠ primary := fun b hb he => hnd.1 (he ▸ hb)
  refine ⟨fun k => ?_, fun b hb k => ?_⟩
  · rw [hsync.stored, if_pos ⟨rfl, hp, howners ▸ List.mem_cons_self⟩]
    by_cases hhas : s.has_partition primary p
    · -- it keeps its copy
      have hkept : ∀ k, s₁.stored primary p k = s.stored primary p k := fun k => by
        rw [h.at_primary, if_pos (.inl hhas), lead, if_pos hhas]
      have hnone : sync_source cfg ring s₁ primary p = none := by
        simp [sync_source, howners, has_partition_congr hkept, hhas]
      simp [pulled, hnone, hkept, lead, hhas]
    · -- it takes the copy of its first backup, which no round has changed yet
      have hempty : ∀ k, s₁.stored primary p k = s.stored primary p k := fun k => by
        rw [h.at_primary, if_neg (not_or.2 ⟨hhas, hdone⟩), stored_eq_none hhas]
      have hsource : sync_source cfg ring s₁ primary p = backups.head? := by
        simp [sync_source, howners, has_partition_congr hempty, hhas]
      have hfirst : ∀ source ∈ backups.head?, s₁.stored source p k = s.stored source p k := fun source hs => by
        rw [h.at_backup source (List.mem_of_mem_head? hs), if_neg]
        rintro ⟨-, hf | hf⟩
        · exact hhas hf
        · exact hdone (hf.subset List.mem_cons_self)
      rw [if_pos (.inr (by simp)), pulled, hsource, hempty, stored_eq_none hhas, lead, if_neg hhas]
      cases hhead : backups.head? with
      | none => rfl
      | some source => simp [hfirst source hhead]
  · rw [hsync.stored, if_neg fun he => hnotin b hb he.1, h.at_backup b hb]
    simp only [fed_concat_of_ne (hnotin b hb)]

theorem progress_backup {n : NodeId} {done : List NodeId} {s₁ s₂ : MapCluster K V} (hn : n ∈ backups)
    (hdone : n ∉ done) (howners : cfg.owners ring p = primary :: backups) (hp : p < cfg.partitioner.num_partitions)
    (hsync : Synced cfg ring n s₁ s₂) (h : Progress s p primary backups done s₁) :
    Progress s p primary backups (done ++ [n]) s₂ := by
  have hnd := cfg.owners_nodup ring p
  rw [howners, List.nodup_cons] at hnd
  have hprimary : primary ≠ n := fun he => hnd.1 (he ▸ hn)
  have hsource : sync_source cfg ring s₁ n p = some primary := by simp [sync_source, howners, hprimary]
  refine ⟨fun k => ?_, fun b hb k => ?_⟩
  · rw [hsync.stored, if_neg fun he => hprimary he.1, h.at_primary]
    simp [hprimary]
  · rw [hsync.stored]
    by_cases hbn : b = n
    · subst hbn
      have hown : s₁.stored b p k = s.stored b p k := by
        rw [h.at_backup b hb, if_neg fun hf => hdone hf.1]
      rw [if_pos ⟨rfl, hp, howners ▸ List.mem_cons_of_mem _ hb⟩]
      simp only [pulled, hsource, h.at_primary]
      by_cases hlead : s.has_partition primary p ∨ primary ∈ done
      · have hfed : Fed s p primary (done ++ [b]) b := by
          refine ⟨by simp, hlead.imp id fun hd => ?_⟩
          exact pair_sublist_concat.2 (.inr ⟨hd, rfl⟩)
        simp only [hlead, hfed, if_true, hown]
      · have hfed : ¬ Fed s p primary (done ++ [b]) b := by
          rintro ⟨-, hf | hf⟩
          · exact hlead (.inl hf)
          · rcases pair_sublist_concat.1 hf with hf | hf
            · exact hlead (.inr (hf.subset List.mem_cons_self))
            · exact hlead (.inr hf.1)
        simp only [hlead, hfed, if_false, hown, Option.none_or]
    · rw [if_neg fun he => hbn he.1, h.at_backup b hb]
      simp only [fed_concat_of_ne hbn]

theorem or_eq_left_iff {α : Type} {a b : Option α} : a.or b = a ↔ (b.isSome → a.isSome) := by
  cases a <;> cases b <;> simp

/-- At the end a backup has the primary's copy if it missed nothing. -/
theorem agrees_iff {order : List NodeId} (h : Progress s p primary backups order s') {b : NodeId} (hb : b ∈ backups)
    (hdone : b ∈ order) :
    (∀ k, s'.stored b p k = lead s p primary backups k) ↔
      if s.has_partition primary p ∨ [primary, b].Sublist order then
        ∀ k, (s.stored b p k).isSome → (lead s p primary backups k).isSome
      else ∀ k, s.stored b p k = lead s p primary backups k := by
  simp only [h.at_backup b hb, Fed, hdone, true_and]
  split
  · simp only [or_eq_left_iff]
  · exact Iff.rfl

theorem converged_iff_agrees (howners : cfg.owners ring p = primary :: backups) {order : List NodeId}
    (hall : ∀ m ∈ cfg.owners ring p, m ∈ order) (h : Progress s p primary backups order s') :
    Converged cfg ring p s s' ↔ ∀ b ∈ backups, ∀ k, s'.stored b p k = lead s p primary backups k := by
  have hprimary : ∀ k, s'.stored primary p k = lead s p primary backups k := fun k => by
    rw [h.at_primary, if_pos (.inr (hall primary (howners ▸ List.mem_cons_self)))]
  constructor
  · intro hc b hb k
    rw [← hprimary]
    exact hc.same primary (howners ▸ List.mem_cons_self) b (howners ▸ List.mem_cons_of_mem _ hb) k
  · intro hagree
    have hlead : ∀ m ∈ cfg.owners ring p, ∀ k, s'.stored m p k = lead s p primary backups k := by
      rw [howners]
      intro m hm
      rcases List.mem_cons.1 hm with rfl | hm
      · exact hprimary
      · exact hagree m hm
    refine ⟨fun m hm b hb k => (hlead b hb k).trans (hlead m hm k).symm, fun m hm k => ?_⟩
    rw [hlead m hm]
    constructor
    · intro hk
      by_cases hhas : s.has_partition primary p
      · rw [lead, if_pos hhas] at hk
        exact ⟨primary, howners ▸ List.mem_cons_self, hk⟩
      · rw [lead, if_neg hhas] at hk
        cases hhead : backups.head? with
        | none => simp [hhead] at hk
        | some source =>
          rw [hhead] at hk
          exact ⟨source, howners ▸ List.mem_cons_of_mem _ (List.mem_of_mem_head? hhead), hk⟩
    · rintro ⟨b, hb, hk⟩
      rw [howners] at hb
      rcases List.mem_cons.1 hb with rfl | hb
      · by_cases hhas : s.has_partition b p
        · rw [lead, if_pos hhas]
          exact hk
        · rw [stored_eq_none hhas] at hk
          cases hk
      · rw [← hagree b hb, h.at_backup b hb]
        split
        · rw [Option.isSome_or, hk, Bool.or_true]
        · exact hk

theorem nothingMissed_iff (howners : cfg.owners ring p = primary :: backups) {order : List NodeId} :
    NothingMissed cfg ring order p s ↔ ∀ b ∈ backups,
      if s.has_partition primary p ∨ [primary, b].Sublist order then
        ∀ k, (s.stored b p k).isSome → (lead s p primary backups k).isSome
      else ∀ k, s.stored b p k = lead s p primary backups k := by
  rw [NothingMissed, howners]
  by_cases hhas : s.has_partition primary p
  · simp [hhas, lead, Covers]
  · cases backups with
    | nil => simp [hhas]
    | cons source rest => simp [hhas, lead, Covers, SameCopy]

variable [Key K] [Json V]

theorem progress_of_syncs (hview : Agreed cfg ring s.view) (hp : p < cfg.partitioner.num_partitions)
    (howners : cfg.owners ring p = primary :: backups) {order : List NodeId} (hnd : order.Nodup)
    (horder : ∀ n ∈ order, n ∈ ring.ids) (h : Syncs cfg s order s') : Progress s p primary backups order s' := by
  refine syncs_induction (P := fun done s₁ => done.Nodup → Progress s p primary backups done s₁) hview
    (fun _ => progress_start) (fun done n s₁ s₂ _ hsync ih hnd => ?_) horder h hnd
  obtain ⟨hdone, -, hfresh⟩ := List.nodup_append.1 hnd
  have hn : n ∉ done := fun hmem => hfresh n hmem n (by simp) rfl
  by_cases hprimary : n = primary
  · subst hprimary
    exact progress_primary hn howners hp hsync (ih hdone)
  · by_cases hb : n ∈ backups
    · exact progress_backup hb hn howners hp hsync (ih hdone)
    · exact progress_other (by simp [hprimary, hb]) howners hsync (ih hdone)

/-- After the rounds the owners have converged if and only if nothing was missed. -/
theorem converged_iff (hview : Agreed cfg ring s.view) (hp : p < cfg.partitioner.num_partitions)
    {order : List NodeId} (hnd : order.Nodup) (horder : ∀ n ∈ order, n ∈ ring.ids)
    (hall : ∀ m ∈ cfg.owners ring p, m ∈ order) (h : Syncs cfg s order s') :
    Converged cfg ring p s s' ↔ NothingMissed cfg ring order p s := by
  cases howners : cfg.owners ring p with
  | nil =>
    refine iff_of_true ⟨?_, ?_⟩ ?_
    · simp [howners]
    · simp [howners]
    · simp [NothingMissed, howners]
  | cons primary backups =>
    have hprogress := progress_of_syncs hview hp howners hnd horder h
    rw [converged_iff_agrees howners hall hprogress, nothingMissed_iff howners]
    refine forall₂_congr fun b hb => agrees_iff hprogress hb (hall b ?_)
    rw [howners]
    exact List.mem_cons_of_mem _ hb

end Rounds

/-! ## States a cluster comes to -/

/-- The states of a cluster whose writes and rounds of `sync_partitions` follow
each other and whose members may change in between. -/
inductive Reached [Key K] [Json V] (cfg : MapConfig) : MapCluster K V → Prop
  | start (view) : Reached cfg (MapCluster.empty view)
  | put {s s' net n key value op_id r} : Reached cfg s →
      Runs (MapSem cfg net) Eq (put_with_op cfg n key value op_id) s r s' → Reached cfg s'
  | sync {s s' net n r} : Reached cfg s →
      Runs (MapSem cfg net) Eq (sync_partitions cfg n) s r s' → Reached cfg s'
  | membership {s} (view) : Reached cfg s → Reached cfg { s with view }

theorem reached_of_puts [Key K] [Json V] {cfg : MapConfig} {net : Network} {s s' : MapCluster K V}
    {ws : List (Write K V)} (h : Puts cfg net s ws s') (hs : Reached cfg s) : Reached cfg s' := by
  induction h with
  | nil => exact hs
  | snoc w _ hrun ih => exact .put ih hrun

section Example

open CompactJson

/-- `"q"` and `"z"` share a partition, which is owned by b and a, and by c and a
once c has joined. -/
theorem trio_partition : trio_cfg.partition_of "q" = 119 ∧ trio_cfg.partition_of "z" = 119 := by decide +kernel

/-- `"q"` is written before c joins and `"z"` after it. -/
def before_join : Write String Bool := ⟨node_b, "q", true, "1"⟩
def after_join : Write String Bool := ⟨node_c, "z", true, "2"⟩

theorem joined_states : ∃ s : MapCluster String Bool, Reached trio_cfg s ∧ s.view = demo_view trio ∧
    s.stored node_a 119 "q" = some true ∧ s.stored node_c 119 "q" = none ∧ s.stored node_c 119 "z" = some true := by
  have hpair : Agreed trio_cfg pair (demo_view pair) := agreed_demo 2 (by decide) (by decide)
  have htrio : Agreed trio_cfg trio (demo_view trio) := agreed_demo 2 (by decide) (by decide)
  have hws : ∀ w ∈ [before_join], w.node ∈ pair.ids := by decide
  have hops : ([before_join].map Write.op_id).Nodup := by decide
  obtain ⟨s₁, h₁⟩ := exists_puts hpair [before_join] hws hops
  have hl := left_of_puts hpair (fun w _ => sound_of_reliable w) hws hops h₁
  let joined : MapCluster String Bool := { s₁ with view := demo_view trio }
  have hfresh : ∀ m, ¬ joined.recorded m after_join.op_id := fun m hm => by
    obtain ⟨w, hw, hop⟩ := hl.recorded m _ hm
    rw [List.mem_singleton.1 hw] at hop
    exact absurd hop (by decide)
  obtain ⟨s₂, h₂⟩ := exists_write (s := joined) after_join (by decide) htrio hfresh
  have hw := writes_of_run (s := joined) (sound_of_reliable _) (by decide) htrio hfresh h₂
  have hq : ∀ m, s₂.stored m 119 "q" = lastValue ([before_join].filter fun w => w.reaches trio_cfg pair m) "q" :=
    fun m => by
      rw [hw.stored, if_neg fun h => absurd h.2.1 (by decide)]
      have := hl.stored m "q"
      rw [trio_partition.1] at this
      exact this
  refine ⟨s₂, .put (.membership _ (reached_of_puts h₁ (.start _))) h₂, hw.view, ?_, ?_, ?_⟩
  · rw [hq]
    decide +kernel
  · rw [hq]
    decide +kernel
  · rw [hw.stored, if_pos (by decide +kernel)]
    rfl

/-- The backup has one key, the primary that now is has another. -/
theorem converged_after_join : ∃ s s' : MapCluster String Bool, s.stored node_a 119 "q" = some true ∧
    s.stored node_c 119 "z" = some true ∧ Syncs trio_cfg s trio.ids s' ∧
    (Converged trio_cfg trio 119 s s' ↔ NothingMissed trio_cfg trio trio.ids 119 s) := by
  obtain ⟨s, -, hview, hqa, -, hzc⟩ := joined_states
  obtain ⟨s', h⟩ := exists_syncs trio_cfg trio.ids s
  have hagreed : Agreed trio_cfg trio s.view := hview ▸ agreed_demo 2 (by decide) (by decide)
  exact ⟨s, s', hqa, hzc, h, converged_iff hagreed (by decide) (by decide) (by decide) (by decide +kernel) h⟩

/-- The backup keeps a key that the primary never asks for. -/
theorem not_always_converged :
    ¬ ∀ (cfg : MapConfig) (ring : NodeRing NodeId) (s s' : MapCluster String Bool) (order : List NodeId) (p : Nat),
      Reached cfg s → Agreed cfg ring s.view → order.Perm ring.ids → Syncs cfg s order s' →
      p < cfg.partitioner.num_partitions → Converged cfg ring p s s' := by
  intro h
  obtain ⟨s, hs, hview, hqa, hqc, hzc⟩ := joined_states
  have htrio : Agreed trio_cfg trio s.view := hview ▸ agreed_demo 2 (by decide) (by decide)
  have howners : trio_cfg.owners trio 119 = [node_c, node_a] := by decide +kernel
  obtain ⟨s', hsyncs⟩ := exists_syncs trio_cfg trio.ids s
  have hc := h trio_cfg trio s s' trio.ids 119 hs htrio (List.Perm.refl _) hsyncs (by decide)
  have hprogress := progress_of_syncs htrio (by decide) howners (by decide) (fun _ hn => hn) hsyncs
  have hhas : s.has_partition node_c 119 := MapCluster.has_partition_iff.2 ⟨"z", true, hzc⟩
  -- c has `"z"`, so it does not take `"q"` over from a
  have hmissing : s'.stored node_c 119 "q" = none := by
    rw [hprogress.at_primary]
    simp [hhas, lead, hqc]
  have hunion := (hc.union node_c (by rw [howners]; decide) "q").2 ⟨node_a, by rw [howners]; decide, by rw [hqa]; rfl⟩
  rw [hmissing] at hunion
  cases hunion

end Example

end DistributedMap
