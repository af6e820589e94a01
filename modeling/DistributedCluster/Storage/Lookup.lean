import DistributedCluster.Storage.Read
/-!
# The order in which a read asks

A read looks at the node's own store, then asks the owners one after the other
and takes the first value. Whatever the views are, wherever the copies lie and
whichever of the fetches fail, that is one search through the node and the
owners in their order.
-/

namespace DistributedMap

open Async

section Search

variable {K V : Type} [DecidableEq K] {n : NodeId} {key : K} {s : MapCluster K V}

/-- Node `m` has no copy, or the fetch from it failed. -/
def PassedOver (s : MapCluster K V) (p : Nat) (key : K) (outcomes : List (NodeId × Result (Option V))) (m : NodeId) :
    Prop :=
  s.stored m p key = none ∨ ∃ e, (m, .error e) ∈ outcomes

/-- What a search through `n` and then `owners` comes to when the fetches ended like
`outcomes`. -/
def SearchEnds (s : MapCluster K V) (n : NodeId) (owners : List NodeId) (p : Nat) (key : K)
    (outcomes : List (NodeId × Result (Option V))) : Option V → Prop
  | some v =>
    s.stored n p key = some v ∨
      s.stored n p key = none ∧ ∃ front m back, owners = front ++ m :: back ∧ s.stored m p key = some v ∧
        (m, .ok (some v)) ∈ outcomes ∧ ∀ m' ∈ front, PassedOver s p key outcomes m'
  | none => s.stored n p key = none ∧ ∀ m ∈ owners, PassedOver s p key outcomes m

/-- A fetch without a value passes its node over. -/
theorem passedOver_of_fetched {p : Nat} {outcomes : List (NodeId × Result (Option V))} {m : NodeId}
    {x : Result (Option V)} (hok : ∀ m v, (m, .ok v) ∈ outcomes → v = s.stored m p key) (hmem : (m, x) ∈ outcomes)
    (hx : fetched x = none) : PassedOver s p key outcomes m := by
  cases x with
  | error e => exact .inr ⟨e, hmem⟩
  | ok v => exact .inl ((hok m v hmem).symm.trans hx)

/-- A search whose node has no copy ends with what its fetches yield. -/
theorem searchEnds_of_fetches {p : Nat} {owners : List NodeId} {outcomes : List (NodeId × Result (Option V))}
    {r : Option V} (hnone : s.stored n p key = none) (hok : ∀ m v, (m, .ok v) ∈ outcomes → v = s.stored m p key)
    (horder : outcomes.map Prod.fst <+: owners) (hr : r = outcomes.findSome? fun outcome => fetched outcome.2)
    (hall : r = none → outcomes.map Prod.fst = owners) : SearchEnds s n owners p key outcomes r := by
  cases r with
  | none =>
    refine ⟨hnone, fun m hm => ?_⟩
    rw [← hall rfl] at hm
    obtain ⟨⟨m, x⟩, hmem, rfl⟩ := List.mem_map.1 hm
    exact passedOver_of_fetched hok hmem (List.findSome?_eq_none_iff.1 hr.symm _ hmem)
  | some v =>
    obtain ⟨before, ⟨m, x⟩, after, hsplit, hx, hbefore⟩ := List.findSome?_eq_some_iff.1 hr.symm
    have hmem : (m, x) ∈ outcomes := hsplit ▸ List.mem_append_right _ List.mem_cons_self
    have hxv : x = .ok (some v) := by
      cases x with
      | error e => cases hx
      | ok x => exact congrArg _ hx
    subst hxv
    obtain ⟨rest, hrest⟩ := horder
    refine .inr ⟨hnone, before.map Prod.fst, m, after.map Prod.fst ++ rest, ?_, (hok m _ hmem).symm, hmem, ?_⟩
    · simp [← hrest, hsplit]
    · intro m' hm'
      obtain ⟨⟨m', x'⟩, hmem', rfl⟩ := List.mem_map.1 hm'
      refine passedOver_of_fetched hok ?_ (hbefore _ hmem')
      rw [hsplit]
      exact List.mem_append_left _ hmem'

/-- The node itself need not be asked: it has no copy. -/
theorem SearchEnds.self {p : Nat} {owners : List NodeId} {outcomes : List (NodeId × Result (Option V))} {r : Option V}
    (h : SearchEnds s n owners p key outcomes r) : SearchEnds s n (n :: owners) p key outcomes r := by
  cases r with
  | none =>
    refine ⟨h.1, fun m hm => ?_⟩
    rcases List.mem_cons.1 hm with rfl | hm
    · exact .inl h.1
    · exact h.2 m hm
  | some v =>
    rcases h with hlocal | ⟨hnone, front, m, back, hsplit, hm, hmem, hfront⟩
    · exact .inl hlocal
    · refine .inr ⟨hnone, n :: front, m, back, by rw [hsplit, List.cons_append], hm, hmem, fun m' hm' => ?_⟩
      rcases List.mem_cons.1 hm' with rfl | hm'
      · exact .inl hnone
      · exact hfront m' hm'

end Search

section Lookup

variable {K V : Type} [DecidableEq K] [Key K] [Json V]
variable {cfg : MapConfig} {net : Network} {n : NodeId} {key : K} {s s' : MapCluster K V}

/-- Fetches of a key at `n`, each with the node that was asked and what came of it. -/
abbrev Fetches (cfg : MapConfig) (net : Network) (n : NodeId) (key : K) (s : MapCluster K V)
    (outcomes : List (NodeId × Result (Option V))) (s' : MapCluster K V) : Prop :=
  Series (MapSem cfg net) SameData (fun m => fetch_remote cfg n m key) s outcomes s'

/-- A fetch that succeeds yields what the asked node has stored. -/
def Faithful (cfg : MapConfig) (net : Network) (n : NodeId) (key : K) (s : MapCluster K V) : Prop :=
  ∀ m ∈ cfg.partitioner.get_owners (s.view n) (cfg.partition_of key), ∀ s₁ x s₂, SameData s s₁ →
    Runs (MapSem cfg net) SameData (fetch_remote cfg n m key) s₁ (.ok x) s₂ → x = s.stored m (cfg.partition_of key) key

theorem fetch_remote_sameData {m : NodeId} {s₁ s₂ : MapCluster K V} {r : Result (Option V)} (hs : SameData s s₁)
    (hrun : Runs (MapSem cfg net) SameData (fetch_remote cfg n m key) s₁ r s₂) : SameData s s₂ :=
  ((reads_fetch_remote_any m key).runs hs hrun).2

/-- The owners are asked in their order, up to the first value. -/
theorem runs_fetch_first {owners : List NodeId} {r : Option V}
    (hrun : Runs (MapSem cfg net) SameData (fetch_first cfg n key owners) s r s') :
    ∃ outcomes, Fetches cfg net n key s outcomes s' ∧ outcomes.map Prod.fst <+: owners ∧
      r = outcomes.findSome? (fun outcome => fetched outcome.2) ∧ (r = none → outcomes.map Prod.fst = owners) := by
  induction owners generalizing s with
  | nil =>
    obtain ⟨rfl, hs⟩ := runs_pure.1 hrun
    exact ⟨[], .nil hs, List.prefix_rfl, rfl, fun _ => rfl⟩
  | cons m owners ih =>
    obtain ⟨x, s₁, hfetch, hrun⟩ := runs_bind.1 hrun
    have hnext : fetched x = none → Runs (MapSem cfg net) SameData (fetch_first cfg n key owners) s₁ r s' →
        ∃ outcomes, Fetches cfg net n key s outcomes s' ∧ outcomes.map Prod.fst <+: m :: owners ∧
          r = outcomes.findSome? (fun outcome => fetched outcome.2) ∧
          (r = none → outcomes.map Prod.fst = m :: owners) := by
      intro hx hrun
      obtain ⟨outcomes, hseries, horder, hr, hall⟩ := ih hrun
      refine ⟨(m, x) :: outcomes, .cons hfetch hseries, ?_, ?_, fun hnone => ?_⟩
      · exact List.prefix_cons_inj m |>.2 horder
      · simp only [List.findSome?_cons, hx]
        exact hr
      · rw [List.map_cons, hall hnone]
    rcases x with e | (_ | value)
    · exact hnext rfl hrun
    · exact hnext rfl hrun
    · obtain ⟨rfl, hs⟩ := runs_pure.1 hrun
      exact ⟨[(m, .ok (some value))], .cons hfetch (.nil hs), ⟨owners, rfl⟩, rfl, fun h => by cases h⟩

/-- A read is a search through the node and the owners in their order: it passes a
node over only if that has no copy or the fetch from it failed. -/
theorem get_searches (hfaithful : Faithful cfg net n key s) {r : Option V}
    (hrun : Runs (MapSem cfg net) SameData (get cfg n key) s r s') :
    ∃ outcomes s₁, SameData s s₁ ∧ Fetches cfg net n key s₁ outcomes s' ∧
      SearchEnds s n (cfg.partitioner.get_owners (s.view n) (cfg.partition_of key)) (cfg.partition_of key) key
        outcomes r := by
  obtain ⟨x, s₁, hlookup, hrun⟩ := runs_bind.1 hrun
  obtain ⟨rfl, hs₁⟩ := (reads_lookup (cfg.partition_of key) key).runs (refl s) hlookup
  cases hlocal : s.stored n (cfg.partition_of key) key with
  | some v =>
    rw [hlocal] at hrun
    obtain ⟨rfl, hs'⟩ := runs_pure.1 hrun
    exact ⟨[], s₁, hs₁, .nil hs', .inl hlocal⟩
  | none =>
    rw [hlocal] at hrun
    obtain ⟨owners, s₂, howners, hrun⟩ := runs_bind.1 hrun
    obtain ⟨rfl, hs₂⟩ := (reads_get_owners (cfg.partition_of key)).runs hs₁ howners
    -- what the fetches from some of the owners yield, and what that means
    have hsearch : ∀ asked, (∀ m ∈ asked, m ∈ cfg.partitioner.get_owners (s.view n) (cfg.partition_of key)) →
        Runs (MapSem cfg net) SameData (fetch_first cfg n key asked) s₂ r s' →
        ∃ outcomes, Fetches cfg net n key s₂ outcomes s' ∧ SearchEnds s n asked (cfg.partition_of key) key outcomes r := by
      intro asked hasked hrun
      obtain ⟨outcomes, hfetches, horder, hr, hall⟩ := runs_fetch_first hrun
      refine ⟨outcomes, hfetches, searchEnds_of_fetches hlocal (fun m v hmem => ?_) horder hr hall⟩
      obtain ⟨t, t', ht, hfetch⟩ := hfetches.run_of_mem (fun _ _ _ _ ht hrun => fetch_remote_sameData ht hrun) hs₂ hmem
      exact hfaithful m (hasked m (horder.subset (List.mem_map_of_mem hmem))) t v t' ht hfetch
    cases howners : cfg.partitioner.get_owners (s.view n) (cfg.partition_of key) with
    | nil =>
      rw [howners] at hrun
      obtain ⟨rfl, hs'⟩ := runs_pure.1 hrun
      exact ⟨[], s₂, hs₂, .nil hs', hlocal, fun m hm => by cases hm⟩
    | cons primary_owner backups =>
      rw [howners] at hrun hsearch
      dsimp only at hrun
      split at hrun
      · rename_i hself
        obtain ⟨outcomes, hfetches, hends⟩ := hsearch backups (fun m hm => List.mem_cons_of_mem _ hm) hrun
        exact ⟨outcomes, s₂, hs₂, hfetches, hself ▸ hends.self⟩
      · obtain ⟨outcomes, hfetches, hends⟩ := hsearch (primary_owner :: backups) (fun m hm => hm) hrun
        exact ⟨outcomes, s₂, hs₂, hfetches, hends⟩

/-- Where all agree on each other, a key that survives the URL is fetched faithfully. -/
theorem faithful_of_agreed {ring : NodeRing NodeId} (hs : Agreed cfg ring s.view) (hn : n ∈ ring.ids)
    (hsafe : UrlSafe cfg key) : Faithful cfg net n key s := by
  intro m hm s₁ x s₂ hs₁ hrun
  rw [hs.get_owners hn] at hm
  obtain ⟨hx | ⟨-, e, he⟩, -⟩ := (reads_fetch_remote (hs.reach n hn m (MapConfig.mem_of_mem_owners hm)) key).runs hs₁ hrun
  · have hanswer := answer_of_urlSafe hsafe s m
    rw [answer, ← hx] at hanswer
    exact hanswer
  · cases he

end Lookup

section Example

open CompactJson

/-- Node a has the key; node c is asked first and does not answer. -/
def stored_at_a : MapCluster String Bool :=
  (MapCluster.empty (demo_view trio)).store_local node_a (trio_cfg.partition_of "k") "k" true

theorem get_searches_trio : ∃ r s' outcomes s₁,
    Runs (MapSem trio_cfg .lossy) SameData (get trio_cfg node_b "k") stored_at_a r s' ∧ r = some true ∧
      SameData stored_at_a s₁ ∧ Fetches trio_cfg .lossy node_b "k" s₁ outcomes s' ∧
      SearchEnds stored_at_a node_b
        (trio_cfg.partitioner.get_owners (stored_at_a.view node_b) (trio_cfg.partition_of "k"))
        (trio_cfg.partition_of "k") "k" outcomes r := by
  have hview : Agreed trio_cfg trio stored_at_a.view := agreed_demo 2 (by decide) (by decide)
  have hsafe : UrlSafe trio_cfg "k" := ⟨"k", rfl, rfl⟩
  have howners : trio_cfg.owners trio (trio_cfg.partition_of "k") = [node_c, node_a] := by decide +kernel
  obtain ⟨sent, hget⟩ := exec_get hview (show node_b ∈ trio.ids by decide) "k" fun m => decide (m ≠ node_c)
  have hrun : Runs (MapSem trio_cfg .lossy) SameData (get trio_cfg node_b "k") stored_at_a _ _ :=
    exec_runs (MapInt_sem (allows_heard fun m => decide (m ≠ node_c))) _ _
  have hfound : (exec (MapInt (heard trio_cfg fun m => decide (m ≠ node_c))) (get trio_cfg node_b "k") stored_at_a).1 =
      some true := by
    rw [hget, asks, howners, funext (answer_of_urlSafe hsafe stored_at_a)]
    dsimp only
    decide +kernel
  obtain ⟨outcomes, s₁, hs₁, hfetches, hends⟩ := get_searches (faithful_of_agreed hview (by decide) hsafe) hrun
  exact ⟨_, _, outcomes, s₁, hrun, hfound, hs₁, hfetches, hends⟩

end Example

end DistributedMap
