import DistributedCluster.Storage.Once
import DistributedCluster.Storage.Sequential
/-!
# Writes at the same time

A primary takes in several writes of one key at the same time and sends the
copies of each on its own. Nothing keeps the copies of two writes in order. If
every backup happens to get them in the order of the primary, all owners end
with the same value.
-/

namespace DistributedMap

open Async

variable {K V : Type} [DecidableEq K] [Key K] [Json V]

/-- The operations that were written at node `n`, the last one first. -/
def writes_at (n : NodeId) (writes : List (NodeId × String)) : List String :=
  (writes.filter fun x => x.1 = n).map Prod.snd

theorem mem_writes_at {n : NodeId} {writes : List (NodeId × String)} {op : String} :
    op ∈ writes_at n writes ↔ (n, op) ∈ writes := by
  unfold writes_at
  simp

theorem writes_at_cons (n m : NodeId) (op : String) (writes : List (NodeId × String)) :
    writes_at n ((m, op) :: writes) = if m = n then op :: writes_at n writes else writes_at n writes := by
  unfold writes_at
  rw [List.filter_cons]
  by_cases h : m = n
  · simp [h]
  · simp [h]

theorem nodup_writes_at {n : NodeId} {writes : List (NodeId × String)} (h : writes.Nodup) : (writes_at n writes).Nodup := by
  refine List.Nodup.map_on (fun x hx y hy hxy => ?_) (h.filter _)
  have hxn := (List.mem_filter.1 hx).2
  have hyn := (List.mem_filter.1 hy).2
  exact Prod.ext ((of_decide_eq_true hxn).trans (of_decide_eq_true hyn).symm) hxy

/-- A backup writes an operation after all others that it has written, and the
primary wrote them before it too. -/
def InTurn (primary : NodeId) (op_id : String) :
    (e : MapAct K V) → MapCluster K V × List (NodeId × String) → (MapI K V).Ans e → Prop
  | .store_local n _ _ _, s, _ => n ≠ primary → (op_id :: writes_at n s.2).Sublist (writes_at primary s.2)
  | _, _, _ => True

instance (primary : NodeId) (op_id : String) : (e : MapAct K V) → (s : MapCluster K V × List (NodeId × String)) →
    (x : (MapI K V).Ans e) → Decidable (InTurn primary op_id e s x)
  | .store_local n _ _ _, s, _ =>
    inferInstanceAs (Decidable (n ≠ primary → (op_id :: writes_at n s.2).Sublist (writes_at primary s.2)))
  | .contains_op .., _, _ => .isTrue trivial
  | .count_ops _, _, _ => .isTrue trivial
  | .clear_ops _, _, _ => .isTrue trivial
  | .insert_op .., _, _ => .isTrue trivial
  | .lookup .., _, _ => .isTrue trivial
  | .dump_partition .., _, _ => .isTrue trivial
  | .has_partition .., _, _ => .isTrue trivial
  | .membership _, _, _ => .isTrue trivial
  | .new_uuid _, _, _ => .isTrue trivial
  | .iterate .., _, _ => .isTrue trivial
  | .send .., _, _ => .isTrue trivial

/-- Each of the writes is a process from the start. -/
def starting (cfg : MapConfig) (ws : List (Write K V)) : Pool (Write K V) (MapI K V) (Result Unit) :=
  ws.map fun w => (w, put_with_op cfg w.node w.key w.value w.op_id)

/-- Runs of these processes over a network that loses nothing. -/
abbrev WriteSteps (cfg : MapConfig) :
    (MapCluster K V × List (NodeId × String)) × Pool (Write K V) (MapI K V) (Result Unit) →
    (MapCluster K V × List (NodeId × String)) × Pool (Write K V) (MapI K V) (Result Unit) → Prop :=
  Pool.Steps (fun w => (MapSem cfg .reliable).logging (written w.op_id)) (fun _ _ _ _ => False) fun _ _ _ => False

/-- Runs in which all copies come in turn. -/
abbrev InTurnSteps (cfg : MapConfig) (primary : NodeId) :
    (MapCluster K V × List (NodeId × String)) × Pool (Write K V) (MapI K V) (Result Unit) →
    (MapCluster K V × List (NodeId × String)) × Pool (Write K V) (MapI K V) (Result Unit) → Prop :=
  Pool.Steps (fun w => ((MapSem cfg .reliable).logging (written w.op_id)).restrict (InTurn primary w.op_id))
    (fun _ _ _ _ => False) fun _ _ _ => False

/-! ## What a write does -/

/-- The nodes that have recorded a write's operation, and those that have written it. -/
structure Visit (K V : Type) where
  write : Write K V
  recorded : Finset NodeId
  written : Finset NodeId

/-- The visit of all nodes of `D` is complete; those of `E` have only recorded the operation. -/
def Visit.of (w : Write K V) (E D : Finset NodeId) : Visit K V := ⟨w, E ∪ D, D⟩

/-- The view names the ring's owners and the addresses of its nodes. -/
structure Names (cfg : MapConfig) (ring : NodeRing NodeId) (n : NodeId) (view : MembershipService) : Prop where
  owners : ∀ p, cfg.partitioner.get_owners view p = cfg.owners ring p
  reach : ∀ m ∈ ring.ids, ∃ node, view.get_member m = some node ∧ cfg.host n node.http_addr = some m

/-- A write goes from node to node and writes each of them once. -/
def visiting (cfg : MapConfig) (ring : NodeRing NodeId) (w : Write K V) : Discipline (MapI K V) (Visit K V) where
  may g e := g.write = w ∧
    match e with
    | .insert_op _ op => op = w.op_id
    | .store_local n p key value =>
      n ∈ g.recorded ∧ n ∉ g.written ∧ p = cfg.partition_of w.key ∧ key = w.key ∧ value = w.value
    | _ => True
  gives g
    | .contains_op n op, found => op = g.write.op_id → n ∉ g.recorded → found = false
    | .membership n, view => n ∈ ring.ids → Names cfg ring n view
    | .send n addr _ _, fate => ∀ m, cfg.host n addr = some m → fate = .replied m
    | _, _ => True
  next g
    | .insert_op n _, _ => { g with recorded := insert n g.recorded }
    | .store_local n _ _ _, _ => { g with written := insert n g.written }
    | _, _ => g

section Programs

variable {cfg : MapConfig} {ring : NodeRing NodeId} {w : Write K V} {g : Visit K V} {E D : Finset NodeId} {n b : NodeId}

omit [DecidableEq K] [Json V] in
theorem should_process_visits (hw : g.write = w) (hn : n ∉ g.recorded) :
    Obeys (visiting cfg ring w) (should_process n w.op_id) g fun b g' =>
      b = true ∧ g' = { g with recorded := insert n g.recorded } := by
  refine Obeys.bind (Q := fun found g' => found = false ∧ g' = g)
    (Obeys.perform ⟨hw, trivial⟩ fun found h => ⟨h (hw ▸ rfl) hn, rfl⟩) fun found g₁ h => ?_
  obtain ⟨rfl, rfl⟩ := h
  refine Obeys.bind (Q := fun _ g' => g' = g₁) ?_ fun _ g₂ h => ?_
  · refine Obeys.bind (Q := fun _ g' => g' = g₁) (Obeys.perform ⟨hw, trivial⟩ fun _ _ => rfl) fun count g₂ h => ?_
    subst h
    split
    · exact Obeys.perform ⟨hw, trivial⟩ fun _ _ => rfl
    · exact Obeys.pure rfl
  · subst h
    refine Obeys.bind (Q := fun _ g' => g' = { g₂ with recorded := insert n g₂.recorded })
      (Obeys.perform ⟨hw, rfl⟩ fun _ _ => rfl) fun _ g₃ h => ?_
    exact Obeys.pure ⟨rfl, h⟩

omit [DecidableEq K] [Json V] in
theorem store_local_visits (hn : n ∉ D) :
    Obeys (visiting cfg ring w) (store_local n (cfg.partition_of w.key) w.key w.value) ⟨w, insert n (E ∪ D), D⟩
      fun _ g' => g' = .of w E (insert n D) := by
  refine Obeys.perform ⟨rfl, Finset.mem_insert_self _ _, hn, rfl, rfl, rfl⟩ fun _ _ => ?_
  exact congrArg (Visit.mk w · (insert n D)) (Finset.union_insert n E D).symm

omit [DecidableEq K] [Json V] in
/-- What comes after the check is a write. -/
theorem checked_visits {α : Type} {yes no : MapM K V α} {Q : α → Visit K V → Prop} (hE : n ∉ E) (hD : n ∉ D)
    (hyes : Obeys (visiting cfg ring w) yes (.of w E (insert n D)) Q) :
    Obeys (visiting cfg ring w) (do
      if ← should_process n w.op_id then
        store_local n (cfg.partition_of w.key) w.key w.value
        yes
      else no) (.of w E D) Q := by
  have hn : n ∉ (Visit.of w E D).recorded := Finset.notMem_union.2 ⟨hE, hD⟩
  refine (should_process_visits rfl hn).bind fun b g₁ h => ?_
  obtain ⟨rfl, rfl⟩ := h
  refine (store_local_visits hD).bind fun _ g₂ h => ?_
  subst h
  exact hyes

omit [DecidableEq K] [Json V] in
theorem store_replica_visits (hE : b ∉ E) (hD : b ∉ D) :
    Obeys (visiting cfg ring w) (store_replica b (cfg.partition_of w.key) w.op_id w.key w.value) (.of w E D) fun r g' =>
      r = .ok () ∧ g' = .of w E (insert b D) :=
  checked_visits hE hD (Obeys.pure ⟨rfl, rfl⟩)

omit [DecidableEq K] [Key K] in
/-- A write that is sent on is handled, and the answer comes back. -/
theorem post_write_visits {m : NodeId} {not_found : String} {make : String → Request}
    {serve : String → NodeId → MapM K V StatusCode} {failed : StatusCode → String} {Q : Visit K V → Prop} [Key K]
    (hn : n ∈ ring.ids) (hm : m ∈ ring.ids) (hw : g.write = w)
    (hserve : ∀ text, Json.to_json w.value = .ok text →
      Obeys (visiting cfg ring w) (serve text m) g fun status g' => status = .OK ∧ Q g') :
    Obeys (visiting cfg ring w) (post_write n m not_found w.value make serve failed) g fun r g' => r = .ok () ∧ Q g' := by
  obtain ⟨text, htext, -⟩ := Json.round_trip w.value
  have hmember : Obeys (visiting cfg ring w) (get_member n m) g fun node g' =>
      (∃ node', node = some node' ∧ cfg.host n node'.http_addr = some m) ∧ g' = g :=
    ⟨⟨hw, trivial⟩, fun view h => ⟨(h hn).reach m hm, rfl⟩⟩
  refine Obeys.bind hmember fun node g₁ h => ?_
  obtain ⟨⟨node, rfl, hhost⟩, rfl⟩ := h
  dsimp only
  rw [htext]
  have hrequest : ∀ req, Obeys (visiting cfg ring w) (request n node.http_addr req (serve text) 3) g₁ fun r g' =>
      r = .ok .OK ∧ Q g' := by
    intro req
    refine Obeys.retry_answered (m := m) (by decide) fun i => ?_
    refine Obeys.perform ⟨hw, trivial⟩ fun fate h => ⟨h m hhost, ?_⟩
    refine (hserve text htext).mono fun status g₂ h => ?_
    obtain ⟨rfl, hQ⟩ := h
    exact ⟨rfl, hQ⟩
  refine (hrequest _).bind fun r g₂ h => ?_
  obtain ⟨rfl, hQ⟩ := h
  exact Obeys.pure ⟨rfl, hQ⟩

omit [DecidableEq K] in
theorem handle_write_visits {text : String} {write : K → V → MapM K V (Result Unit)} {Q : Visit K V → Prop}
    (htext : Json.to_json w.value = .ok text)
    (hwrite : Obeys (visiting cfg ring w) (write w.key w.value) g fun r g' => r = .ok () ∧ Q g') :
    Obeys (visiting cfg ring w) (handle_write (Key.to_string w.key) text write) g fun status g' => status = .OK ∧ Q g' := by
  unfold handle_write
  rw [parse_write_ok htext]
  refine hwrite.bind fun r g₁ h => ?_
  obtain ⟨rfl, hQ⟩ := h
  exact Obeys.pure ⟨rfl, hQ⟩

omit [DecidableEq K] in
theorem replicate_all_visits (hn : n ∈ ring.ids) {backups : List NodeId} (hnd : backups.Nodup)
    (hring : ∀ b ∈ backups, b ∈ ring.ids) (hE : ∀ b ∈ backups, b ∉ E) (hD : ∀ b ∈ backups, b ∉ D) :
    Obeys (visiting cfg ring w) (replicate_all n (cfg.partition_of w.key) w.op_id w.key w.value backups) (.of w E D)
      fun r g' => r = .ok () ∧ g' = .of w E (D ∪ backups.toFinset) := by
  induction backups generalizing D with
  | nil => exact Obeys.pure (by simp)
  | cons b backups ih =>
    obtain ⟨hb, hnd⟩ := List.nodup_cons.1 hnd
    have hone : Obeys (visiting cfg ring w) (replicate_to_backup n b (cfg.partition_of w.key) w.op_id w.key w.value)
        (.of w E D) fun r g' => r = .ok () ∧ g' = .of w E (insert b D) :=
      post_write_visits hn (hring b List.mem_cons_self) rfl fun text htext => handle_write_visits htext
        (store_replica_visits (hE b List.mem_cons_self) (hD b List.mem_cons_self))
    refine hone.bind fun r g₁ h => ?_
    obtain ⟨rfl, rfl⟩ := h
    refine (ih hnd (fun c hc => hring c (List.mem_cons_of_mem b hc)) (fun c hc => hE c (List.mem_cons_of_mem b hc))
      fun c hc => ?_).mono fun _ g' h => ?_
    · have hcb : c ≠ b := fun h => hb (h ▸ hc)
      simp [hcb, hD c (List.mem_cons_of_mem b hc)]
    · rw [h.2, List.toFinset_cons, Finset.insert_union, Finset.union_insert]
      exact ⟨h.1, rfl⟩

section Entry

variable {primary : NodeId} {backups : List NodeId} (howners : cfg.owners ring (cfg.partition_of w.key) = primary :: backups)

include howners

omit [DecidableEq K] [Json V] in
theorem get_owners_visits (hn : n ∈ ring.ids) (hw : g.write = w) :
    Obeys (visiting cfg ring w) (get_owners cfg n (cfg.partition_of w.key)) g fun owners g' =>
      owners = primary :: backups ∧ g' = g :=
  ⟨⟨hw, trivial⟩, fun _ h => ⟨((h hn).owners _).trans howners, rfl⟩⟩

omit [DecidableEq K] in
/-- The primary has stored the value and sends the copies. -/
theorem backups_visits (hE : ∀ o ∈ primary :: backups, o ∉ E) :
    Obeys (visiting cfg ring w) (replicate_all primary (cfg.partition_of w.key) w.op_id w.key w.value backups)
      (.of w E (insert primary ∅)) fun r g' =>
      r = .ok () ∧ g' = .of w E (cfg.owners ring (cfg.partition_of w.key)).toFinset := by
  have hring : ∀ o ∈ primary :: backups, o ∈ ring.ids := fun o ho => MapConfig.mem_of_mem_owners (howners ▸ ho)
  have hnd : (primary :: backups).Nodup := howners ▸ cfg.owners_nodup ring (cfg.partition_of w.key)
  obtain ⟨hprimary, hnd⟩ := List.nodup_cons.1 hnd
  refine (replicate_all_visits (hring primary List.mem_cons_self) hnd
    (fun b hb => hring b (List.mem_cons_of_mem primary hb)) (fun b hb => hE b (List.mem_cons_of_mem primary hb))
    fun b hb => ?_).mono fun _ g' h => ?_
  · rw [insert_empty_eq, Finset.mem_singleton]
    rintro rfl
    exact hprimary hb
  · rw [h.2, howners, List.toFinset_cons, insert_empty_eq, Finset.insert_eq]
    exact ⟨h.1, rfl⟩

omit [DecidableEq K] in
theorem store_as_primary_visits (hE : ∀ o ∈ primary :: backups, o ∉ E) :
    Obeys (visiting cfg ring w) (store_as_primary cfg primary (cfg.partition_of w.key) w.op_id w.key w.value) (.of w E ∅)
      fun r g' => r = .ok () ∧ g' = .of w E (cfg.owners ring (cfg.partition_of w.key)).toFinset := by
  have hprimary : primary ∈ ring.ids := MapConfig.mem_of_mem_owners (howners ▸ List.mem_cons_self)
  refine checked_visits (hE primary List.mem_cons_self) (Finset.notMem_empty primary) ?_
  refine (get_owners_visits howners hprimary rfl).bind fun owners g₁ h => ?_
  obtain ⟨rfl, rfl⟩ := h
  exact backups_visits howners hE

omit [DecidableEq K] in
/-- A write visits all owners, unless it enters at a backup. -/
theorem put_with_op_visits (hn : n ∈ ring.ids) (hb : n ∉ backups) :
    Obeys (visiting cfg ring w) (put_with_op cfg n w.key w.value w.op_id) (.of w ∅ ∅) fun _ g' =>
      g'.write = w ∧ g'.written = (cfg.owners ring (cfg.partition_of w.key)).toFinset := by
  refine (should_process_visits rfl (show n ∉ (∅ ∪ ∅ : Finset NodeId) by simp)).bind fun b g₁ h => ?_
  obtain ⟨rfl, rfl⟩ := h
  refine (get_owners_visits howners hn rfl).bind fun owners g₂ h => ?_
  obtain ⟨rfl, rfl⟩ := h
  dsimp only
  by_cases hp : n = primary
  · subst hp
    rw [if_neg (not_not.2 rfl)]
    refine (store_local_visits (E := ∅) (Finset.notMem_empty n)).bind fun _ g₃ h => ?_
    subst h
    exact (backups_visits howners fun o _ => Finset.notMem_empty o).mono fun _ g' h => h.2 ▸ ⟨rfl, rfl⟩
  · -- the node has recorded the operation and sends it to the primary
    rw [if_pos hp]
    have hprimary : primary ∈ ring.ids := MapConfig.mem_of_mem_owners (howners ▸ List.mem_cons_self)
    have hout : ∀ o ∈ primary :: backups, o ∉ ({n} : Finset NodeId) := by
      intro o ho hmem
      rw [Finset.mem_singleton] at hmem
      subst hmem
      exact (List.mem_cons.1 ho).elim hp hb
    have hforward : Obeys (visiting cfg ring w)
        (forward_put cfg n primary (cfg.partition_of w.key) w.op_id w.key w.value) (.of w {n} ∅)
        fun r g' => r = .ok () ∧ g' = .of w {n} (cfg.owners ring (cfg.partition_of w.key)).toFinset :=
      post_write_visits hn hprimary rfl fun text htext => handle_write_visits htext
        (store_as_primary_visits howners hout)
    exact hforward.mono fun _ g' h => h.2 ▸ ⟨rfl, rfl⟩

end Entry

end Programs

/-! ## What all writes keep -/

variable {cfg : MapConfig} {ring : NodeRing NodeId} {ws : List (Write K V)} {key : K} {old : NodeId → Option V}
  {primary : NodeId} {s s' : MapCluster K V} {writes : List (NodeId × String)} {g : Visit K V} {gs : Multiset (Visit K V)}

omit [DecidableEq K] [Key K] [Json V] in
theorem names_of_agreed {view : NodeId → MembershipService} (h : Agreed cfg ring view) {n : NodeId} (hn : n ∈ ring.ids) :
    Names cfg ring n (view n) := ⟨h.get_owners hn, h.reach n hn⟩

/-- Every node holds the value of its last write, and the backups are behind the
primary. -/
structure Visited (cfg : MapConfig) (ring : NodeRing NodeId) (ws : List (Write K V)) (key : K) (old : NodeId → Option V)
    (primary : NodeId) (s : MapCluster K V × List (NodeId × String)) (gs : Multiset (Visit K V)) : Prop where
  view : Agreed cfg ring s.1.view
  source : ∀ g ∈ gs, g.write ∈ ws
  distinct : (gs.map fun g => g.write.op_id).Nodup
  recorded : ∀ g ∈ gs, ∀ n, s.1.recorded n g.write.op_id → n ∈ g.recorded
  written : ∀ g ∈ gs, ∀ n, (n, g.write.op_id) ∈ s.2 ↔ n ∈ g.written
  once : s.2.Nodup
  logged : ∀ x ∈ s.2, ∃ w ∈ ws, w.op_id = x.2
  order : ∀ n, n ≠ primary → (writes_at n s.2).Sublist (writes_at primary s.2)
  untouched : ∀ n, writes_at n s.2 = [] → s.1.stored n (cfg.partition_of key) key = old n
  value : ∀ n, ∀ w ∈ ws, (writes_at n s.2).head? = some w.op_id → s.1.stored n (cfg.partition_of key) key = some w.value

omit [Json V] in
/-- Other processes are about other operations. -/
theorem Visited.other (h : Visited cfg ring ws key old primary (s, writes) (g ::ₘ gs)) {g' : Visit K V} (hg' : g' ∈ gs) :
    g'.write.op_id ≠ g.write.op_id := by
  have hnd := h.distinct
  rw [Multiset.map_cons, Multiset.nodup_cons] at hnd
  exact fun he => hnd.1 (he ▸ Multiset.mem_map_of_mem _ hg')

omit [Json V] in
/-- An action that stores nothing, and records at most the process's own operation. -/
theorem Visited.quiet (h : Visited cfg ring ws key old primary (s, writes) (g ::ₘ gs)) {R : Finset NodeId}
    (hview : s'.view = s.view)
    (hstored : ∀ n p k, s'.stored n p k = s.stored n p k)
    (hrec : ∀ n op, s'.recorded n op → s.recorded n op ∨ op = g.write.op_id ∧ n ∈ R) :
    Visited cfg ring ws key old primary (s', writes) ({ g with recorded := g.recorded ∪ R } ::ₘ gs) := by
  have hmem := Multiset.mem_cons_self g gs
  refine ⟨?_, fun g' hg' => ?_, ?_, fun g' hg' n hn => ?_, fun g' hg' => ?_, h.once, h.logged, h.order, fun n hn => ?_,
    fun n w hw hn => ?_⟩
  · rw [show (s', writes).1.view = s.view from hview]
    exact h.view
  · rcases Multiset.mem_cons.1 hg' with rfl | hg'
    · exact h.source g hmem
    · exact h.source g' (Multiset.mem_cons_of_mem hg')
  · rw [Multiset.map_cons]
    have hnd := h.distinct
    rw [Multiset.map_cons] at hnd
    exact hnd
  · rcases Multiset.mem_cons.1 hg' with rfl | hg'
    · rcases hrec n _ hn with hold | ⟨-, hR⟩
      · exact Finset.mem_union_left _ (h.recorded g hmem n hold)
      · exact Finset.mem_union_right _ hR
    · rcases hrec n _ hn with hold | ⟨hop, -⟩
      · exact h.recorded g' (Multiset.mem_cons_of_mem hg') n hold
      · exact absurd hop (h.other hg')
  · rcases Multiset.mem_cons.1 hg' with rfl | hg'
    · exact h.written g hmem
    · exact h.written g' (Multiset.mem_cons_of_mem hg')
  · exact (hstored n _ key).trans (h.untouched n hn)
  · exact (hstored n _ key).trans (h.value n w hw hn)

omit [Json V] in
theorem Visited.still (h : Visited cfg ring ws key old primary (s, writes) (g ::ₘ gs)) (hview : s'.view = s.view)
    (hstored : ∀ n p k, s'.stored n p k = s.stored n p k) (hrec : ∀ n op, s'.recorded n op → s.recorded n op) :
    Visited cfg ring ws key old primary (s', writes) (g ::ₘ gs) := by
  have hquiet := h.quiet (R := ∅) hview hstored fun n op hn => .inl (hrec n op hn)
  rwa [Finset.union_empty] at hquiet

/-- If a backup takes its writes in the primary's order, all nodes stay behind the primary. -/
theorem order_written {n m : NodeId} {op : String} (hm : m ≠ primary)
    (horder : (writes_at m writes).Sublist (writes_at primary writes))
    (hturn : n ≠ primary → (op :: writes_at n writes).Sublist (writes_at primary writes)) :
    (writes_at m ((n, op) :: writes)).Sublist (writes_at primary ((n, op) :: writes)) := by
  rw [writes_at_cons, writes_at_cons]
  by_cases hnp : n = primary
  · subst hnp
    rw [if_neg (Ne.symm hm), if_pos rfl]
    exact horder.cons _
  · rw [if_neg hnp]
    split
    · rename_i hnm
      subst hnm
      exact hturn hnp
    · exact horder

omit [Json V] in
/-- The last write at a node is the one that was stored there, or as before. -/
theorem Visited.value_written (h : Visited cfg ring ws key old primary (s, writes) (g ::ₘ gs)) (hops : (ws.map Write.op_id).Nodup)
    (hkey : g.write.key = key) {n m : NodeId} {w : Write K V} (hw : w ∈ ws)
    (hlast : (writes_at m ((n, g.write.op_id) :: writes)).head? = some w.op_id) :
    (s.store_local n (cfg.partition_of g.write.key) g.write.key g.write.value).stored m (cfg.partition_of key) key =
      some w.value := by
  rw [writes_at_cons] at hlast
  rw [MapCluster.stored_store_local]
  split at hlast
  · -- its id tells which write it is
    rename_i hnm
    obtain rfl := hnm
    have hop : g.write.op_id = w.op_id := by simpa using hlast
    obtain rfl := List.inj_on_of_nodup_map hops (h.source g (Multiset.mem_cons_self g gs)) hw hop
    rw [if_pos ⟨rfl, by rw [hkey], hkey.symm⟩]
  · rename_i hnm
    rw [if_neg fun he => hnm he.1.symm]
    exact h.value m w hw hlast

omit [Json V] in
/-- A process writes its value at a node. -/
theorem Visited.write (h : Visited cfg ring ws key old primary (s, writes) (g ::ₘ gs)) (hops : (ws.map Write.op_id).Nodup)
    (hkey : g.write.key = key) {n : NodeId} (hn : n ∉ g.written)
    (hturn : n ≠ primary → (g.write.op_id :: writes_at n writes).Sublist (writes_at primary writes)) :
    Visited cfg ring ws key old primary
      (s.store_local n (cfg.partition_of g.write.key) g.write.key g.write.value, (n, g.write.op_id) :: writes)
      ({ g with written := insert n g.written } ::ₘ gs) := by
  have hmem := Multiset.mem_cons_self g gs
  have hfresh : (n, g.write.op_id) ∉ writes := fun hin => hn ((h.written g hmem n).1 hin)
  refine ⟨h.view, fun g' hg' => ?_, ?_, fun g' hg' m hm => ?_, fun g' hg' m => ?_, List.nodup_cons.2 ⟨hfresh, h.once⟩,
    fun x hx => ?_, fun m hm => ?_, fun m hm => ?_, fun m w hw hm => ?_⟩
  · rcases Multiset.mem_cons.1 hg' with rfl | hg'
    · exact h.source g hmem
    · exact h.source g' (Multiset.mem_cons_of_mem hg')
  · rw [Multiset.map_cons]
    have hnd := h.distinct
    rw [Multiset.map_cons] at hnd
    exact hnd
  · have hold : s.recorded m g'.write.op_id := (MapCluster.recorded_store_local _ _ _ _ _ _ _).1 hm
    rcases Multiset.mem_cons.1 hg' with rfl | hg'
    · exact h.recorded g hmem m hold
    · exact h.recorded g' (Multiset.mem_cons_of_mem hg') m hold
  · rcases Multiset.mem_cons.1 hg' with rfl | hg'
    · rw [List.mem_cons, Prod.mk.injEq, Finset.mem_insert, ← h.written g hmem m]
      simp
    · have hne := h.other hg'
      rw [List.mem_cons, Prod.mk.injEq, ← h.written g' (Multiset.mem_cons_of_mem hg') m]
      simp [hne]
  · rcases List.mem_cons.1 hx with rfl | hx
    · exact ⟨g.write, h.source g hmem, rfl⟩
    · exact h.logged x hx
  · exact order_written hm (h.order m hm) hturn
  · dsimp only at hm ⊢
    rw [writes_at_cons] at hm
    split at hm
    · cases hm
    · rename_i hnm
      rw [MapCluster.stored_store_local, if_neg fun he => hnm he.1.symm]
      exact h.untouched m hm
  · exact h.value_written hops hkey hw hm

omit [Json V] in
theorem visited_act {w : Write K V} {e : MapAct K V} {x : (MapI K V).Ans e}
    (h : Visited cfg ring ws key old primary (s, writes) (g ::ₘ gs)) (hops : (ws.map Write.op_id).Nodup)
    (hkeys : ∀ w ∈ ws, w.key = key) (hmay : (visiting cfg ring w).may g e) (hact : MapSem cfg .reliable e s x s')
    (hturn : InTurn primary w.op_id e (s, writes) x) :
    (visiting cfg ring w).gives g e x ∧
      Visited cfg ring ws key old primary (s', written w.op_id e writes) ((visiting cfg ring w).next g e x ::ₘ gs) := by
  have hmem := Multiset.mem_cons_self g gs
  obtain ⟨rfl, hmay⟩ := hmay
  have same : s' = s → Visited cfg ring ws key old primary (s', writes) (g ::ₘ gs) := by
    rintro rfl
    exact h
  cases e with
  | contains_op n op =>
    refine ⟨fun hop hn => ?_, same hact.2⟩
    rw [hact.1, decide_eq_false_iff_not, hop]
    exact fun hrec => hn (h.recorded g hmem n hrec)
  | membership n =>
    obtain ⟨rfl, rfl⟩ := hact
    exact ⟨fun hn => names_of_agreed h.view hn, h⟩
  | send n addr req i =>
    obtain ⟨hfate, rfl⟩ := hact
    exact ⟨fun m hm => Network.reliable_allows hm hfate, h.still rfl (fun _ _ _ => rfl) fun _ _ hrec => hrec⟩
  | insert_op n op =>
    obtain rfl : s' = s.insert_op n op := hact
    obtain rfl : op = g.write.op_id := hmay
    refine ⟨trivial, ?_⟩
    have hrec : ∀ m op, (s.insert_op n g.write.op_id).recorded m op →
        s.recorded m op ∨ op = g.write.op_id ∧ m ∈ ({n} : Finset NodeId) := by
      intro m op hm
      rcases (MapCluster.recorded_insert_op _ _ _ _ _).1 hm with ⟨rfl, rfl⟩ | hm
      · exact .inr ⟨rfl, Finset.mem_singleton_self m⟩
      · exact .inl hm
    have hquiet := h.quiet (MapCluster.view_insert_op s n g.write.op_id)
      (fun _ _ _ => MapCluster.stored_insert_op _ _ _ _ _ _) hrec
    rwa [Finset.union_comm, ← Finset.insert_eq] at hquiet
  | clear_ops n =>
    obtain rfl : s' = s.clear_ops n := hact
    exact ⟨trivial, h.still rfl (fun _ _ _ => MapCluster.stored_clear_ops _ _ _ _ _)
      fun _ _ hrec => ((MapCluster.recorded_clear_ops _ _ _ _).1 hrec).2⟩
  | store_local n p k v =>
    obtain rfl : s' = s.store_local n p k v := hact
    obtain ⟨-, hn, rfl, rfl, rfl⟩ := hmay
    exact ⟨trivial, h.write hops (hkeys _ (h.source g hmem)) hn hturn⟩
  | new_uuid n =>
    obtain ⟨-, rfl⟩ := hact
    exact ⟨trivial, h.still rfl (fun _ _ _ => rfl) fun _ _ hrec => hrec⟩
  | count_ops n => exact ⟨trivial, same hact.2⟩
  | lookup n p k => exact ⟨trivial, same hact.2⟩
  | dump_partition n p => exact ⟨trivial, same hact.2⟩
  | has_partition n p => exact ⟨trivial, same hact.2⟩
  | iterate n set => exact ⟨trivial, same hact.2⟩

omit [Json V] in
theorem Visited.retire (h : Visited cfg ring ws key old primary (s, writes) (g ::ₘ gs)) :
    Visited cfg ring ws key old primary (s, writes) gs where
  view := h.view
  source g' hg' := h.source g' (Multiset.mem_cons_of_mem hg')
  distinct := by
    have hnd := h.distinct
    rw [Multiset.map_cons] at hnd
    exact (Multiset.nodup_cons.1 hnd).2
  recorded g' hg' := h.recorded g' (Multiset.mem_cons_of_mem hg')
  written g' hg' := h.written g' (Multiset.mem_cons_of_mem hg')
  once := h.once
  logged := h.logged
  order := h.order
  untouched := h.untouched
  value := h.value

omit [Json V] in
theorem visited_start (hview : Agreed cfg ring s.view) (hops : (ws.map Write.op_id).Nodup)
    (hfresh : ∀ w ∈ ws, ∀ n, ¬ s.recorded n w.op_id) :
    Visited cfg ring ws key (fun n => s.stored n (cfg.partition_of key) key) primary (s, [])
      (ws.map fun w => Visit.of w ∅ ∅ : List (Visit K V)) where
  view := hview
  source g hg := by
    obtain ⟨w, hw, rfl⟩ := List.mem_map.1 (Multiset.mem_coe.1 hg)
    exact hw
  distinct := by
    rw [Multiset.map_coe, Multiset.coe_nodup, List.map_map]
    exact hops
  recorded g hg n hn := by
    obtain ⟨w, hw, rfl⟩ := List.mem_map.1 (Multiset.mem_coe.1 hg)
    exact absurd hn (hfresh w hw n)
  written g hg n := by
    obtain ⟨w, -, rfl⟩ := List.mem_map.1 (Multiset.mem_coe.1 hg)
    simp [Visit.of]
  once := List.nodup_nil
  logged x hx := absurd hx List.not_mem_nil
  order n _ := List.Sublist.refl _
  untouched _ _ := rfl
  value n w _ hn := by cases hn

/-- A write that has returned has been written by all owners. -/
def Arrived (cfg : MapConfig) (ring : NodeRing NodeId) (key : K) (w : Write K V) (_ : Result Unit) (g : Visit K V) : Prop :=
  g.write = w ∧ ∀ o ∈ cfg.owners ring (cfg.partition_of key), o ∈ g.written

theorem visited_of_steps {c : (MapCluster K V × List (NodeId × String)) × Pool (Write K V) (MapI K V) (Result Unit)}
    (hview : Agreed cfg ring s.view) (hprimary : (cfg.owners ring (cfg.partition_of key)).head? = some primary)
    (hws : ∀ w ∈ ws, (w.node ∈ ring.ids ∧ w.node ∉ (cfg.owners ring (cfg.partition_of key)).tail) ∧ w.key = key)
    (hops : (ws.map Write.op_id).Nodup) (hfresh : ∀ w ∈ ws, ∀ n, ¬ s.recorded n w.op_id) (h : InTurnSteps cfg primary ((s, []), starting cfg ws) c) :
    Pool.Tracked (visiting cfg ring) (Visited cfg ring ws key (fun n => s.stored n (cfg.partition_of key) key) primary)
      (Arrived cfg ring key) c := by
  refine Pool.tracked_steps (fun w s g gs e x s' hinv hmay hact => ?_) (fun _ _ _ hinv => hinv.retire)
    (fun _ _ _ _ _ hspawn => hspawn.elim) (fun _ _ _ _ _ henv => henv.elim) h ?_
  · obtain ⟨⟨hS, hlog⟩, hturn⟩ := hact
    obtain ⟨s₁, writes₁⟩ := s'
    obtain rfl : writes₁ = written w.op_id e s.2 := hlog
    exact visited_act hinv hops (fun w hw => (hws w hw).2) hmay hS hturn
  · refine ⟨ws.map fun w => ((w, put_with_op cfg w.node w.key w.value w.op_id), Visit.of w ∅ ∅), ?_, fun x hx => ?_, ?_⟩
    · rw [List.map_map]
      rfl
    · obtain ⟨w, hw, rfl⟩ := List.mem_map.1 hx
      obtain ⟨⟨hn, hb⟩, rfl⟩ := hws w hw
      obtain ⟨backups, howners⟩ := List.head?_eq_some_iff.1 hprimary
      rw [howners] at hb
      refine (put_with_op_visits howners hn hb).mono fun r g hg => ⟨hg.1, fun o ho => ?_⟩
      rw [hg.2]
      exact List.mem_toFinset.2 ho
    · rw [List.map_map]
      exact visited_start hview hops hfresh

/-- When all writes of a key have returned, none of which entered at a backup, and
no backup took a copy after the copy of a write that the primary stored later, all
owners hold the same value. -/
theorem agree_in_turn {c : (MapCluster K V × List (NodeId × String)) × Pool (Write K V) (MapI K V) (Result Unit)}
    (hview : Agreed cfg ring s.view) (hprimary : (cfg.owners ring (cfg.partition_of key)).head? = some primary)
    (hws : ∀ w ∈ ws, (w.node ∈ ring.ids ∧ w.node ∉ (cfg.owners ring (cfg.partition_of key)).tail) ∧ w.key = key)
    (hops : (ws.map Write.op_id).Nodup) (hfresh : ∀ w ∈ ws, ∀ n, ¬ s.recorded n w.op_id)
    (hold : ws = [] → ∀ o ∈ cfg.owners ring (cfg.partition_of key),
      s.stored o (cfg.partition_of key) key = s.stored primary (cfg.partition_of key) key)
    (h : InTurnSteps cfg primary ((s, []), starting cfg ws) c) (hdone : ∀ w ∈ ws, (w, Async.done (.ok ())) ∈ c.2) :
    ∀ o ∈ cfg.owners ring (cfg.partition_of key),
      c.1.1.stored o (cfg.partition_of key) key = c.1.1.stored primary (cfg.partition_of key) key := by
  obtain ⟨⟨s', writes⟩, l⟩ := c
  intro o ho
  have htracked := visited_of_steps hview hprimary hws hops hfresh h
  obtain ⟨gs, hinv⟩ := htracked.inv
  have hwritten : ∀ w ∈ ws, ∀ o ∈ cfg.owners ring (cfg.partition_of key), w.op_id ∈ writes_at o writes := by
    intro w hw o ho
    obtain ⟨l₁, l₂, rfl⟩ := List.append_of_mem (hdone w hw)
    obtain ⟨g, others, hg, harrived, -, -⟩ := htracked.process
    obtain ⟨rfl, hall⟩ : Arrived cfg ring key w (.ok ()) g := harrived
    exact mem_writes_at.2 ((hg.written g (Multiset.mem_cons_self g others) o).2 (hall o ho))
  have hsame : writes_at o writes = writes_at primary writes := by
    by_cases hop : o = primary
    · rw [hop]
    · -- the backup has written all that the primary has, and in the same order
      have hsub := hinv.order o hop
      refine hsub.eq_of_length_le ((nodup_writes_at hinv.once).subperm fun op hmem => ?_).length_le
      obtain ⟨w, hw, rfl⟩ := hinv.logged _ (mem_writes_at.1 hmem)
      exact hwritten w hw o ho
  have hpo : primary ∈ cfg.owners ring (cfg.partition_of key) := List.mem_of_mem_head? hprimary
  cases hlast : writes_at primary writes with
  | nil =>
    have hnil : ws = [] := by
      refine List.eq_nil_iff_forall_not_mem.2 fun w hw => ?_
      have hmem := hwritten w hw primary hpo
      rw [hlast] at hmem
      cases hmem
    rw [hinv.untouched o (hsame.trans hlast), hinv.untouched primary hlast]
    exact hold hnil o ho
  | cons op ops =>
    obtain ⟨w, hw, rfl⟩ := hinv.logged (primary, op) (mem_writes_at.1 (hlast ▸ List.mem_cons_self))
    rw [hinv.value o w hw (by rw [hsame, hlast]; rfl), hinv.value primary w hw (by rw [hlast]; rfl)]

section Example

open CompactJson

def WriteInt (cfg : MapConfig) (w : Write String Bool) : (e : MapAct String Bool) →
    MapCluster String Bool × List (NodeId × String) → (MapI String Bool).Ans e × (MapCluster String Bool × List (NodeId × String)) :=
  logged (I := MapI String Bool) (MapInt (answered cfg)) (written w.op_id)

theorem WriteInt_sem (cfg : MapConfig) (w : Write String Bool) (e : MapAct String Bool)
    (s : MapCluster String Bool × List (NodeId × String)) :
    ((MapSem cfg .reliable).logging (written w.op_id)) e s (WriteInt cfg w e s).1 (WriteInt cfg w e s).2 :=
  logged_sem (I := MapI String Bool) (MapInt_sem (allows_answered .reliable)) (written w.op_id) e s

theorem not_recorded_at_first {view : NodeId → MembershipService} {ws : List (Write String Bool)} :
    ∀ w ∈ ws, ∀ n, ¬ (MapCluster.empty view : MapCluster String Bool).recorded n w.op_id :=
  fun w _ n => MapCluster.not_recorded_empty _ n w.op_id

abbrev LoggedPool := (MapCluster String Bool × List (NodeId × String)) × Pool (Write String Bool) (MapI String Bool) (Result Unit)

/-- One write enters at node c, the primary, and one at node b, which forwards it; node a is the backup. -/
def entering : List (Write String Bool) := [⟨node_c, "q", true, "1"⟩, ⟨node_b, "q", false, "2"⟩]

def entered : LoggedPool := ((.empty (demo_view trio), []), starting trio_cfg entering)

/-- Both are stored at the primary before the copies are sent. -/
def interleaved : LoggedPool := Pool.play (WriteInt trio_cfg) [(0, 5), (1, 12), (0, 99), (1, 99)] entered

theorem copies_in_turn :
    Pool.PlayMeets (WriteInt trio_cfg) (fun w => InTurn node_c w.op_id) [(0, 5), (1, 12), (0, 99), (1, 99)] entered := by
  decide +kernel

theorem agree_interleaved : interleaved.1.1.stored node_a (trio_cfg.partition_of "q") "q" =
    interleaved.1.1.stored node_c (trio_cfg.partition_of "q") "q" := by
  have hsteps : InTurnSteps trio_cfg node_c entered interleaved :=
    Pool.steps_play_meets (fun _ => rfl) (WriteInt_sem trio_cfg) copies_in_turn
  have hdone : ∀ w ∈ entering, (w, Async.done (.ok ())) ∈ interleaved.2 :=
    Pool.done_of_outcomes (by rw [interleaved, Pool.jobs_play]; rfl) (by decide +kernel)
  have hview : Agreed trio_cfg trio (MapCluster.empty (demo_view trio) : MapCluster String Bool).view :=
    agreed_demo 2 (by decide) (by decide)
  have hprimary : (trio_cfg.owners trio (trio_cfg.partition_of "q")).head? = some node_c := by decide +kernel
  exact agree_in_turn hview hprimary (by decide +kernel) (by decide) not_recorded_at_first (fun h => by cases h) hsteps hdone
    node_a (by decide +kernel)

def first_put : Write String Bool := ⟨node_a, "k", true, "1"⟩
def second_put : Write String Bool := ⟨node_a, "k", false, "2"⟩

/-- Two writes of one key through its primary. -/
def two_puts : List (Write String Bool) := [first_put, second_put]

/-- The first write is stored at the primary, then the second one overtakes it. -/
def overtaken : LoggedPool :=
  Pool.play (WriteInt pair_cfg) [(0, 5), (1, 99), (0, 99)] ((.empty (demo_view pair), []), starting pair_cfg two_puts)

/-- The backup takes the copy of the first write after that of the second. -/
theorem overtaken_write_stays :
    ¬ ∀ (cfg : MapConfig) (ring : NodeRing NodeId) (ws : List (Write String Bool)) (key : String) (primary o : NodeId)
      (s : MapCluster String Bool)
      (c : (MapCluster String Bool × List (NodeId × String)) × Pool (Write String Bool) (MapI String Bool) (Result Unit)),
      Agreed cfg ring s.view → (cfg.owners ring (cfg.partition_of key)).head? = some primary →
      (∀ w ∈ ws, w.node = primary ∧ w.key = key) → (ws.map Write.op_id).Nodup → (∀ w ∈ ws, ∀ n, ¬ s.recorded n w.op_id) →
      (∀ o ∈ cfg.owners ring (cfg.partition_of key),
        s.stored o (cfg.partition_of key) key = s.stored primary (cfg.partition_of key) key) →
      WriteSteps cfg ((s, []), starting cfg ws) c → (∀ w ∈ ws, (w, Async.done (.ok ())) ∈ c.2) →
      o ∈ cfg.owners ring (cfg.partition_of key) →
      c.1.1.stored o (cfg.partition_of key) key = c.1.1.stored primary (cfg.partition_of key) key := by
  intro h
  have hsteps : WriteSteps pair_cfg ((.empty (demo_view pair), []), starting pair_cfg two_puts) overtaken :=
    Pool.steps_play (S := fun w : Write String Bool => (MapSem pair_cfg .reliable).logging (written w.op_id)) (WriteInt_sem pair_cfg) _ _
  have hjobs : overtaken.2.map Prod.fst = two_puts := by
    rw [overtaken, Pool.jobs_play]
    rfl
  have hdone : ∀ w ∈ two_puts, (w, Async.done (.ok ())) ∈ overtaken.2 := Pool.done_of_outcomes hjobs (by decide +kernel)
  have hprimary : (pair_cfg.owners pair (pair_cfg.partition_of "k")).head? = some node_a := by decide +kernel
  have hbackup : node_b ∈ pair_cfg.owners pair (pair_cfg.partition_of "k") := by decide +kernel
  have heq := h pair_cfg pair two_puts "k" node_a node_b (.empty (demo_view pair)) overtaken
    (agreed_demo 2 (by decide) (by decide)) hprimary (by decide) (by decide) not_recorded_at_first (fun _ _ => rfl) hsteps hdone hbackup
  have hne : overtaken.1.1.stored node_b (pair_cfg.partition_of "k") "k" ≠
      overtaken.1.1.stored node_a (pair_cfg.partition_of "k") "k" := by decide +kernel
  exact hne heq

end Example

end DistributedMap
