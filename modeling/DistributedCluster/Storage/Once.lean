import Mathlib.Data.Multiset.Count
import DistributedCluster.Lib.Logging
import DistributedCluster.Storage.Conduct
import DistributedCluster.Storage.Replication
/-!
# Each operation at most once

A node looks an operation up and records it in two steps, and it forgets all
operations when there are too many. As long as nobody else records an operation
between the two steps and nothing is forgotten, every operation is written at
most once on each node.
-/

namespace DistributedMap

open Async

variable {K V : Type} [DecidableEq K] [Key K] [Json V]

/-- A call that comes with an operation id, at node `n`. -/
inductive Call (K V : Type)
  | put_with_op (n : NodeId) (key : K) (value : V) (op_id : String)
  | store_as_primary (n : NodeId) (partition : Nat) (op_id : String) (key : K) (value : V)
  | store_replica (n : NodeId) (partition : Nat) (op_id : String) (key : K) (value : V)

namespace Call

def op_id : Call K V → String
  | .put_with_op _ _ _ op_id => op_id
  | .store_as_primary _ _ op_id _ _ => op_id
  | .store_replica _ _ op_id _ _ => op_id

def run (cfg : MapConfig) : Call K V → MapM K V (Result Unit)
  | .put_with_op n key value op_id => DistributedMap.put_with_op cfg n key value op_id
  | .store_as_primary n partition op_id key value => DistributedMap.store_as_primary cfg n partition op_id key value
  | .store_replica n partition op_id key value => DistributedMap.store_replica n partition op_id key value

end Call

/-- The nodes that were written, each with the operation it was written for. -/
def written (op_id : String) : MapAct K V → List (NodeId × String) → List (NodeId × String)
  | .store_local n _ _ _, writes => (n, op_id) :: writes
  | _, writes => writes

/-- Runs of calls, each of them any number of times and at any time, while nodes
come and go. -/
abbrev CallSteps (cfg : MapConfig) (S : Sem (MapI K V) (MapCluster K V)) :=
  Pool.LoggedSteps (fun _ : Call K V => S) (fun call => written call.op_id) (fun _ _ call p => p = call.run cfg)
    fun s _ s' => ∃ view, s' = { s with view }

/-- An operation is recorded only where it is not, and there is room for it. -/
def Orderly : (e : MapAct K V) → MapCluster K V → (MapI K V).Ans e → Prop
  | .insert_op n op_id, s, _ => ¬ s.recorded n op_id
  | .count_ops _, _, count => count ≤ 10000
  | _, _, _ => True

instance : (e : MapAct K V) → (s : MapCluster K V) → (x : (MapI K V).Ans e) → Decidable (Orderly e s x)
  | .insert_op n op_id, s, _ => inferInstanceAs (Decidable (¬ s.recorded n op_id))
  | .count_ops _, _, count => inferInstanceAs (Decidable (count ≤ 10000))
  | .contains_op .., _, _ => .isTrue trivial
  | .clear_ops _, _, _ => .isTrue trivial
  | .store_local .., _, _ => .isTrue trivial
  | .lookup .., _, _ => .isTrue trivial
  | .dump_partition .., _, _ => .isTrue trivial
  | .has_partition .., _, _ => .isTrue trivial
  | .membership _, _, _ => .isTrue trivial
  | .new_uuid _, _, _ => .isTrue trivial
  | .iterate .., _, _ => .isTrue trivial
  | .send .., _, _ => .isTrue trivial

/-! ## What a call may do -/

/-- A process carries what it has recorded and not written yet. It writes nothing
else, and it forgets nothing while there is room. -/
def once (op_id : String) : Discipline (MapI K V) (Finset (NodeId × String)) where
  may g
    | .store_local n _ _ _ => (n, op_id) ∈ g
    | .clear_ops _ => False
    | _ => True
  gives _
    | .count_ops _, count => count ≤ 10000
    | _, _ => True
  next g
    | .insert_op n op, _ => insert (n, op) g
    | .store_local n _ _ _, _ => g.erase (n, op_id)
    | _, _ => g

section Programs

variable {cfg : MapConfig} {op_id : String} {g : Finset (NodeId × String)} {n : NodeId} {p : Nat} {key : K} {value : V}

/-- The program writes nothing that is not recorded first. -/
abbrev Orders {α : Type} (op_id : String) (p : MapM K V α) (g : Finset (NodeId × String)) : Prop :=
  Obeys (once op_id) p g fun _ _ => True

omit [DecidableEq K] [Key K] [Json V] in
theorem free_membership (n : NodeId) : (once (K := K) (V := V) op_id).Free (fun _ => True) (.membership n) :=
  fun _ _ => ⟨trivial, fun _ _ => trivial⟩

omit [DecidableEq K] [Key K] [Json V] in
theorem free_send (n : NodeId) (addr : SocketAddr) (req : Request) (i : Nat) :
    (once (K := K) (V := V) op_id).Free (fun _ => True) (.send n addr req i) :=
  fun _ _ => ⟨trivial, fun _ _ => trivial⟩

omit [DecidableEq K] [Key K] [Json V] in
theorem should_process_orders (n : NodeId) :
    Obeys (once (K := K) (V := V) op_id) (should_process n op_id) g fun b g' => b = true → (n, op_id) ∈ g' := by
  refine Obeys.bind (Q := fun _ _ => True) (Obeys.perform trivial fun _ _ => trivial) fun found g₁ _ => ?_
  cases found with
  | true => exact Obeys.pure fun h => by cases h
  | false =>
    refine Obeys.bind (Q := fun _ _ => True) ?_ fun _ g₂ _ => ?_
    · refine Obeys.bind (Q := fun count _ => count ≤ 10000) (Obeys.perform trivial fun _ h => h) fun count g₂ hcount => ?_
      rw [if_neg (not_lt.2 hcount)]
      exact Obeys.pure trivial
    · refine Obeys.bind (Q := fun _ g' => (n, op_id) ∈ g') (Obeys.perform trivial fun _ _ => Finset.mem_insert_self _ _) ?_
      exact fun _ g₃ h₃ => Obeys.pure fun _ => h₃

omit [DecidableEq K] [Key K] [Json V] in
theorem store_local_orders (h : (n, op_id) ∈ g) : Orders op_id (store_local n p key value) g :=
  Obeys.perform h fun _ _ => trivial

omit [DecidableEq K] [Key K] [Json V] in
theorem store_replica_orders : Orders op_id (store_replica n p op_id key value) g := by
  refine (should_process_orders n).bind fun b g₁ h₁ => ?_
  cases b with
  | true => exact (store_local_orders (h₁ rfl)).bind fun _ _ _ => Obeys.pure trivial
  | false => exact Obeys.pure trivial

omit [DecidableEq K] in
theorem replicate_all_orders {backups : List NodeId} : Orders op_id (replicate_all n p op_id key value backups) g :=
  obeys_replicate_all (free_membership n) (fun _ _ _ => free_send n _ _ _) (fun _ _ _ => store_replica_orders) trivial

omit [DecidableEq K] in
theorem store_as_primary_orders : Orders op_id (store_as_primary cfg n p op_id key value) g := by
  refine (should_process_orders n).bind fun b g₁ h₁ => ?_
  cases b with
  | true =>
    refine (store_local_orders (h₁ rfl)).bind fun _ g₂ _ => ?_
    exact (obeys_get_owners (free_membership n) trivial).bind fun _ _ _ => replicate_all_orders
  | false => exact Obeys.pure trivial

omit [DecidableEq K] in
theorem put_with_op_orders : Orders op_id (put_with_op cfg n key value op_id) g := by
  refine (should_process_orders n).bind fun b g₁ h₁ => ?_
  cases b with
  | false => exact Obeys.pure trivial
  | true =>
    -- nothing is recorded between the check and the write
    refine Obeys.bind (Q := fun _ g' => (n, op_id) ∈ g') ⟨trivial, fun _ _ => h₁ rfl⟩ fun owners g₂ h₂ => ?_
    cases owners with
    | nil => exact (store_local_orders h₂).bind fun _ _ _ => Obeys.pure trivial
    | cons primary backups =>
      dsimp only
      split
      · refine obeys_post_write (free_membership n) (fun _ _ _ => free_send n _ _ _) (fun value_json m g hjson _ => ?_) trivial
        exact obeys_handle_write hjson store_as_primary_orders
      · exact (store_local_orders h₂).bind fun _ _ _ => replicate_all_orders

omit [DecidableEq K] in
theorem call_orders (call : Call K V) : Orders call.op_id (call.run cfg) ∅ := by
  cases call with
  | put_with_op n key value op_id => exact put_with_op_orders
  | store_as_primary n p op_id key value => exact store_as_primary_orders
  | store_replica n p op_id key value => exact store_replica_orders

end Programs

/-! ## Every run follows it -/

variable {cfg : MapConfig} {net : Network} {g : Finset (NodeId × String)} {gs : Multiset (Finset (NodeId × String))}
  {s s' : MapCluster K V} {writes : List (NodeId × String)} {n : NodeId} {op : String}

/-- How often an operation has been written at a node, or is about to be. -/
def due (writes : List (NodeId × String)) (gs : Multiset (Finset (NodeId × String))) (x : NodeId × String) : Nat :=
  writes.count x + gs.countP fun g => x ∈ g

/-- Once if it is recorded there, and else not at all. -/
def Once (s : MapCluster K V × List (NodeId × String)) (gs : Multiset (Finset (NodeId × String))) : Prop :=
  ∀ n op, due s.2 gs (n, op) ≤ if s.1.recorded n op then 1 else 0

theorem due_cons (writes : List (NodeId × String)) (g : Finset (NodeId × String)) (gs : Multiset (Finset (NodeId × String)))
    (x : NodeId × String) : due writes (g ::ₘ gs) x = due writes gs x + if x ∈ g then 1 else 0 := by
  unfold due
  rw [Multiset.countP_cons, Nat.add_assoc]

theorem due_write (writes : List (NodeId × String)) (gs : Multiset (Finset (NodeId × String))) (x y : NodeId × String) :
    due (y :: writes) gs x = due writes gs x + if x = y then 1 else 0 := by
  unfold due
  rw [List.count_cons]
  simp only [beq_iff_eq, eq_comm (a := y)]
  omega

omit [Key K] [Json V] in
theorem once_act {e : MapAct K V} {x : (MapI K V).Ans e} (h : Once (s, writes) (g ::ₘ gs)) (op_id : String)
    (hmay : (once op_id).may g e) (hact : ((MapSem cfg net).restrict Orderly) e s x s') :
    (once op_id).gives g e x ∧ Once (s', written op_id e writes) ((once op_id).next g e x ::ₘ gs) := by
  obtain ⟨hact, hroom⟩ := hact
  have same : s' = s → Once (s', writes) (g ::ₘ gs) := by
    rintro rfl
    exact h
  cases e with
  | insert_op m op =>
    obtain rfl : s' = s.insert_op m op := hact
    refine ⟨trivial, fun n op' => ?_⟩
    have hold := h n op'
    dsimp only at hold
    rw [due_cons] at hold ⊢
    show due writes gs (n, op') + (if (n, op') ∈ insert (m, op) g then 1 else 0) ≤ _
    by_cases hx : (n, op') = (m, op)
    · cases hx
      -- it was not recorded before, so nobody has it due
      rw [if_neg hroom] at hold
      rw [if_pos ((MapCluster.recorded_insert_op _ _ _ _ _).2 (.inl ⟨rfl, rfl⟩)), if_pos (Finset.mem_insert_self _ _)]
      omega
    · have hrec : (s.insert_op m op).recorded n op' ↔ s.recorded n op' := by
        rw [MapCluster.recorded_insert_op, or_iff_right]
        rintro ⟨rfl, rfl⟩
        exact hx rfl
      simpa only [hrec, Finset.mem_insert, hx, false_or] using hold
  | store_local m p key value =>
    obtain rfl : s' = s.store_local m p key value := hact
    refine ⟨trivial, fun n op' => ?_⟩
    have hold := h n op'
    rw [due_cons] at hold ⊢
    show due ((m, op_id) :: writes) gs (n, op') + (if (n, op') ∈ g.erase (m, op_id) then 1 else 0) ≤ _
    rw [due_write]
    by_cases hx : (n, op') = (m, op_id)
    · have hmem : (m, op_id) ∈ g := hmay
      simpa [hx, hmem] using hold
    · simpa [hx] using hold
  | clear_ops m => exact absurd hmay id
  | count_ops m => exact ⟨hroom, same hact.2⟩
  | contains_op m op => exact ⟨trivial, same hact.2⟩
  | lookup m p key => exact ⟨trivial, same hact.2⟩
  | dump_partition m p => exact ⟨trivial, same hact.2⟩
  | has_partition m p => exact ⟨trivial, same hact.2⟩
  | membership m => exact ⟨trivial, same hact.2⟩
  | iterate m set => exact ⟨trivial, same hact.2⟩
  | new_uuid m =>
    obtain ⟨-, rfl⟩ := hact
    exact ⟨trivial, h⟩
  | send m addr req i =>
    obtain ⟨-, rfl⟩ := hact
    exact ⟨trivial, h⟩

omit [DecidableEq K] [Key K] [Json V] in
theorem once_retire (h : Once (s, writes) (g ::ₘ gs)) : Once (s, writes) gs := by
  intro n op
  have hold := h n op
  rw [due_cons] at hold
  exact le_trans (Nat.le_add_right _ _) hold

omit [DecidableEq K] [Key K] [Json V] in
theorem once_start (h : Once (s, writes) gs) : Once (s, writes) (∅ ::ₘ gs) := by
  intro n op
  simpa [due_cons] using h n op

omit [DecidableEq K] [Key K] [Json V] in
theorem once_empty (view : NodeId → MembershipService) : Once ((.empty view : MapCluster K V), []) 0 := by
  intro n op
  simp [due]

theorem once_of_steps {c c' : (MapCluster K V × List (NodeId × String)) × Pool (Call K V) (MapI K V) (Result Unit)}
    (h : CallSteps cfg ((MapSem cfg net).restrict Orderly) c c')
    (hc : Pool.Tracked (fun call => once call.op_id) Once (fun _ _ _ => True) c) :
    Pool.Tracked (fun call => once call.op_id) Once (fun _ _ _ => True) c' := by
  refine Pool.tracked_steps (fun call s g gs e x s' hinv hmay hact => ?_) (fun _ _ _ => once_retire)
    (fun s l call p hl hp => ?_) (fun s l s' gs hinv henv => ?_) h hc
  · obtain ⟨hS, hlog⟩ := hact
    have hboth := once_act hinv call.op_id hmay hS
    obtain ⟨s₁, writes₁⟩ := s'
    obtain rfl : writes₁ = written call.op_id e s.2 := hlog
    exact hboth
  · subst hp
    exact hl.join (call_orders call) fun gs => once_start
  · obtain ⟨⟨view, hview⟩, hlog⟩ := henv
    obtain ⟨s₁, writes₁⟩ := s'
    dsimp only at hview hlog
    subst hview hlog
    exact hinv

/-- In every run of calls in which no operation is recorded twice and none is
forgotten, every operation is written at most once on each node, and a copy that
arrives again changes nothing. -/
theorem applied_once {view : NodeId → MembershipService} {l : Pool (Call K V) (MapI K V) (Result Unit)}
    (h : CallSteps cfg ((MapSem cfg net).restrict Orderly) ((.empty view, []), []) ((s, writes), l)) (n : NodeId) (op : String) :
    writes.count (n, op) ≤ 1 ∧
      ((n, op) ∈ writes → ∀ p key value r s', Runs (MapSem cfg net) Eq (store_replica n p op key value) s r s' →
        r = .ok () ∧ s' = s) := by
  obtain ⟨gs, hinv⟩ := (once_of_steps h (Pool.tracked_nil (once_empty view))).inv
  have hone : due writes gs (n, op) ≤ if s.recorded n op then 1 else 0 := hinv n op
  have hcount : writes.count (n, op) ≤ due writes gs (n, op) := Nat.le_add_right _ _
  refine ⟨?_, fun hmem p key value r s' hrun => ?_⟩
  · split at hone <;> omega
  · have hpos := List.count_pos_iff.2 hmem
    have hrec : s.recorded n op := by
      by_contra hno
      rw [if_neg hno] at hone
      omega
    obtain ⟨b, s₁, hcheck, hrest⟩ := runs_bind.1 hrun
    obtain ⟨found, s₂, hfound, hend⟩ := runs_bind.1 hcheck
    obtain ⟨rfl, rfl⟩ := runs_perform.1 hfound
    rw [decide_eq_true hrec] at hend
    obtain ⟨rfl, rfl⟩ := runs_pure.1 hend
    obtain ⟨rfl, rfl⟩ := runs_pure.1 hrest
    exact ⟨rfl, rfl⟩

section Example

open CompactJson

/-- A copy for the backup, which may arrive more than once. -/
def copy : Call String Bool := .store_replica node_b 0 "op" "k" true

def twice : Pool (Call String Bool) (MapI String Bool) (Result Unit) := [(copy, copy.run pair_cfg), (copy, copy.run pair_cfg)]

def CopyInt : (e : MapAct String Bool) → MapCluster String Bool × List (NodeId × String) →
    (MapI String Bool).Ans e × (MapCluster String Bool × List (NodeId × String)) :=
  logged (I := MapI String Bool) (MapInt (answered pair_cfg)) (written "op")

theorem CopyInt_sem : ∀ e s, ((MapSem pair_cfg .reliable).logging (written "op")) e s (CopyInt e s).1 (CopyInt e s).2 :=
  logged_sem (I := MapI String Bool) (MapInt_sem (allows_answered .reliable)) (written "op")

theorem steps_twice {S : Sem (MapI String Bool) (MapCluster String Bool)} :
    CallSteps pair_cfg S ((.empty (demo_view pair), []), []) ((.empty (demo_view pair), []), twice) :=
  .tail (.tail .refl (.spawn copy (copy.run pair_cfg) rfl)) (.spawn copy (copy.run pair_cfg) rfl)

/-- The first copy has been handled, then the second. -/
def delivered : MapCluster String Bool × List (NodeId × String) :=
  (exec CopyInt (copy.run pair_cfg) (exec CopyInt (copy.run pair_cfg) (.empty (demo_view pair), [])).2).2

theorem steps_copy (c : MapCluster String Bool × List (NodeId × String))
    (l₁ l₂ : Pool (Call String Bool) (MapI String Bool) (Result Unit))
    (hmeets : Meets CopyInt (fun e s x => Orderly e s.1 x) (copy.run pair_cfg) c) :
    CallSteps pair_cfg ((MapSem pair_cfg .reliable).restrict Orderly) (c, l₁ ++ (copy, copy.run pair_cfg) :: l₂)
      ((exec CopyInt (copy.run pair_cfg) c).2, l₁ ++ (copy, .done (exec CopyInt (copy.run pair_cfg) c).1) :: l₂) := by
  refine Pool.steps_of_runs
    (S := fun call : Call String Bool => ((MapSem pair_cfg .reliable).restrict Orderly).logging (written call.op_id)) ?_ l₁ l₂
  exact (hmeets.runs (R := Eq) CopyInt_sem).of_sem fun e s x s' h => ⟨⟨h.1.1, h.2⟩, h.1.2⟩

theorem copy_written_once : delivered.2.count (node_b, "op") ≤ 1 ∧
    ∀ p key value r s', Runs (MapSem pair_cfg .reliable) Eq (store_replica node_b p "op" key value) delivered.1 r s' →
      r = .ok () ∧ s' = delivered.1 := by
  have hfirst := steps_copy (.empty (demo_view pair), []) [] [(copy, copy.run pair_cfg)] (by decide +kernel)
  have hsecond := steps_copy (exec CopyInt (copy.run pair_cfg) (.empty (demo_view pair), [])).2
    [(copy, .done (exec CopyInt (copy.run pair_cfg) (.empty (demo_view pair), [])).1)] [] (by decide +kernel)
  have hmem : (node_b, "op") ∈ delivered.2 := by decide +kernel
  have honce := applied_once ((steps_twice.trans hfirst).trans hsecond) node_b "op"
  exact ⟨honce.1, honce.2 hmem⟩

/-- Both copies arrive, and their handlers take turns. -/
def arrived (turns : List (Nat × Nat)) :
    (MapCluster String Bool × List (NodeId × String)) × Pool (Call String Bool) (MapI String Bool) (Result Unit) :=
  Pool.play (fun call => logged (MapInt (answered pair_cfg)) (written call.op_id)) turns
    ((.empty (demo_view pair), []), twice)

theorem steps_arrived (turns : List (Nat × Nat)) :
    CallSteps pair_cfg (MapSem pair_cfg .reliable) ((.empty (demo_view pair), []), []) (arrived turns) :=
  steps_twice.trans (Pool.steps_play
    (S := fun call : Call String Bool => (MapSem pair_cfg .reliable).logging (written call.op_id))
    (fun call => logged_sem (I := MapI String Bool) (MapInt_sem (allows_answered .reliable)) (written call.op_id)) turns _)

/-- Both copies pass the check before one is recorded, and both are written. -/
theorem copy_written_twice :
    ¬ ∀ (cfg : MapConfig) (net : Network) (view : NodeId → MembershipService)
      (c : (MapCluster String Bool × List (NodeId × String)) × Pool (Call String Bool) (MapI String Bool) (Result Unit))
      (call : Call String Bool) (n : NodeId) (op : String),
      CallSteps cfg (MapSem cfg net) ((.empty view, []), []) c → (∀ x ∈ c.2, x.1 = call) → c.1.2.count (n, op) ≤ 1 := by
  intro h
  have hcalls : ∀ x ∈ (arrived [(0, 1), (1, 1), (0, 9), (1, 9)]).2, x.1 = copy := by
    intro x hx
    have hmem := List.mem_map_of_mem (f := Prod.fst) hx
    rw [arrived, Pool.jobs_play] at hmem
    simpa [twice] using hmem
  have hone := h pair_cfg .reliable (demo_view pair) _ copy node_b "op" (steps_arrived [(0, 1), (1, 1), (0, 9), (1, 9)]) hcalls
  have htwo : (arrived [(0, 1), (1, 1), (0, 9), (1, 9)]).1.2.count (node_b, "op") = 2 := by decide +kernel
  omega

end Example

end DistributedMap
