import Mathlib.Data.Multiset.Count
import Mathlib.Order.Bounds.Basic
import DistributedCluster.Storage.Placement
import DistributedCluster.Storage.Single
/-!
# How long the history gets

`should_process` empties the history of operation ids once it holds more than
10 000 of them. It counts before it inserts, so that processes which have counted
together insert together: with `limit` processes at a time a history never holds
more than 10 000 + `limit` ids, and it can get so long.
-/

/-- It looks at the history of operation ids or changes it. -/
def MapAct.on_history {K V : Type} : MapAct K V → Bool
  | .contains_op .. | .count_ops _ | .clear_ops _ | .insert_op .. => true
  | _ => false

namespace DistributedMap

open Async

variable {K V γ : Type}

/-! ## Disciplines of the history -/

/-- To a process with `P` the discipline `D` forbids nothing, except that it has
a say in how the history is used. -/
structure Lenient (D : Discipline (MapI K V) γ) (P : γ → Prop) : Prop where
  free : ∀ e, MapAct.on_history e = false → D.Free P e
  check : ∀ n op_id g, P g → Obeys D (should_process n op_id) g fun _ => P

namespace Lenient

variable [Key K] [Json V] {D : Discipline (MapI K V) γ} {P : γ → Prop} {g : γ} {cfg : MapConfig} {n m : NodeId} {p : Nat}
  {key : K} {value : V} {op_id : String}

omit [Key K] [Json V] in
theorem obeys_act (h : Lenient D P) {e : MapAct K V} (he : MapAct.on_history e = false) (hg : P g) :
    Obeys D (act e) g fun _ => P := (h.free e he).obeys hg

omit [Key K] [Json V] in
/-- It allows every write. -/
theorem allowsWrite (h : Lenient D P) : AllowsWrite D P p op_id key value where
  member _ := h.free _ rfl
  send _ _ _ _ := h.free _ rfl
  store _ := h.free _ rfl
  check n g hg := h.check n op_id g hg

theorem obeys_handle_write {key_str value_json : String} {write : K → V → MapM K V (Result Unit)}
    (hwrite : ∀ key value, Obeys D (write key value) g fun _ => P) (hg : P g) :
    Obeys D (handle_write key_str value_json write) g fun _ => P := by
  unfold handle_write
  split
  · exact Obeys.pure hg
  · rename_i key value _
    refine (hwrite key value).bind fun r g₁ h₁ => ?_
    cases r <;> exact Obeys.pure h₁

theorem obeys_put (h : Lenient D P) (hg : P g) : Obeys D (put cfg n key value) g fun _ => P :=
  (h.obeys_act (e := .new_uuid n) rfl hg).bind fun _ _ h₁ => h.allowsWrite.obeys_put_with_op h₁

theorem obeys_put_local (h : Lenient D P) (hg : P g) : Obeys D (put_local cfg n key value) g fun _ => P := by
  refine (h.obeys_act (e := .store_local n (cfg.partition_of key) key value) rfl hg).bind fun _ g₁ h₁ => ?_
  refine (obeys_get_owners (h.free _ rfl) h₁).bind fun owners g₂ h₂ => ?_
  split
  · exact (h.obeys_act (e := .new_uuid n) rfl h₂).bind fun _ _ h₃ => h.allowsWrite.obeys_replicate_all h₃
  · exact Obeys.pure h₂

theorem obeys_route_get_internal (h : Lenient D P) {path : String} (hg : P g) :
    Obeys D (route_get_internal (K := K) (V := V) cfg m path) g fun _ => P := by
  unfold route_get_internal
  split
  · unfold handle_get_internal
    split
    · exact Obeys.pure hg
    · exact (h.obeys_act (e := .lookup m _ _) rfl hg).bind fun _ _ h₁ => Obeys.pure h₁
  · exact Obeys.pure hg

theorem obeys_fetch_first (h : Lenient D P) (owners : List NodeId) (hg : P g) :
    Obeys D (fetch_first (V := V) cfg n key owners) g fun _ => P := by
  induction owners generalizing g with
  | nil => exact Obeys.pure hg
  | cons owner owners ih =>
    have hfetch : Obeys D (fetch_remote (V := V) cfg n owner key) g fun _ => P := by
      refine (obeys_get_member (h.free _ rfl) hg).bind fun node g₁ h₁ => ?_
      cases node with
      | none => exact Obeys.pure h₁
      | some node =>
        refine (obeys_request (fun _ => h.free _ rfl) (fun m g₂ h₂ => h.obeys_route_get_internal h₂) h₁ 3).bind fun r g₃ h₃ => ?_
        cases r <;> exact Obeys.pure h₃
    refine hfetch.bind fun r g₁ h₁ => ?_
    split
    · exact Obeys.pure h₁
    · exact ih h₁

theorem obeys_get (h : Lenient D P) (hg : P g) : Obeys D (get (V := V) cfg n key) g fun _ => P := by
  refine (h.obeys_act (e := .lookup n (cfg.partition_of key) key) rfl hg).bind fun found g₁ h₁ => ?_
  cases found with
  | some value => exact Obeys.pure h₁
  | none =>
    refine (obeys_get_owners (h.free _ rfl) h₁).bind fun owners g₂ h₂ => ?_
    cases owners with
    | nil => exact Obeys.pure h₂
    | cons primary backups =>
      dsimp only
      split <;> exact h.obeys_fetch_first _ h₂

theorem obeys_handle_partition_dump (h : Lenient D P) (hg : P g) :
    Obeys D (handle_partition_dump (K := K) (V := V) m p) g fun _ => P :=
  (h.obeys_act (e := .dump_partition m p) rfl hg).bind fun _ _ h₁ => Obeys.pure h₁

omit [Key K] [Json V] in
theorem obeys_apply_partition_entries (h : Lenient D P) (entries : List (K × V)) (hg : P g) :
    Obeys D (apply_partition_entries n p entries) g fun _ => P := by
  induction entries generalizing g with
  | nil => exact Obeys.pure hg
  | cons e entries ih => exact (h.obeys_act (e := .store_local n p e.1 e.2) rfl hg).bind fun _ _ h₁ => ih h₁

theorem obeys_resync (h : Lenient D P) (hg : P g) : Obeys D (resync (K := K) (V := V) n m p) g fun _ => P := by
  have hfetch : Obeys D (fetch_partition (K := K) (V := V) n m p) g fun _ => P := by
    refine (obeys_get_member (h.free _ rfl) hg).bind fun node g₁ h₁ => ?_
    cases node with
    | none => exact Obeys.pure h₁
    | some node =>
      refine (obeys_request (fun _ => h.free _ rfl) (fun m g₂ h₂ => h.obeys_handle_partition_dump h₂) h₁ 3).bind
        fun r g₃ h₃ => ?_
      cases r <;> exact Obeys.pure h₃
  refine hfetch.bind fun r g₁ h₁ => ?_
  cases r with
  | error e => exact Obeys.pure h₁
  | ok entries =>
    dsimp only
    split
    · exact Obeys.pure h₁
    · exact h.obeys_apply_partition_entries entries h₁

theorem obeys_sync_partition (h : Lenient D P) (hg : P g) :
    Obeys D (sync_partition (K := K) (V := V) cfg n p) g fun _ => P := by
  refine (obeys_get_owners (h.free _ rfl) hg).bind fun owners g₁ h₁ => ?_
  cases owners with
  | nil => exact Obeys.pure h₁
  | cons primary backups =>
    dsimp only
    split
    · refine (h.obeys_act (e := .has_partition n p) rfl h₁).bind fun found g₂ h₂ => ?_
      cases found with
      | true => exact Obeys.pure h₂
      | false =>
        cases backups with
        | nil => exact Obeys.pure h₂
        | cons source_owner _ => exact h.obeys_resync h₂
    · exact h.obeys_resync h₁

theorem obeys_sync_partitions (h : Lenient D P) (hg : P g) :
    Obeys D (sync_partitions (K := K) (V := V) cfg n) g fun _ => P := by
  have heach : ∀ partitions g, P g → Obeys D (sync_each (K := K) (V := V) cfg n partitions) g fun _ => P := by
    intro partitions
    induction partitions with
    | nil => exact fun g hg => Obeys.pure hg
    | cons p partitions ih => exact fun g hg => (h.obeys_sync_partition hg).bind fun _ g₁ h₁ => ih g₁ h₁
  have hwhere : ∀ mine g, P g → Obeys D (partitions_where (K := K) (V := V) cfg n mine) g fun _ => P := fun mine g hg =>
    Obeys.filterM (fun p g hg => (obeys_get_owners (h.free _ rfl) hg).bind fun _ _ h₁ => Obeys.pure h₁) hg _
  have htargets : Obeys D (target_partitions (K := K) (V := V) cfg n) g fun _ => P :=
    (hwhere _ g hg).bind fun _ g₁ h₁ => (hwhere _ g₁ h₁).bind fun _ g₂ h₂ => h.obeys_act (e := .iterate n _) rfl h₂
  refine htargets.bind fun partitions g₃ h₃ => ?_
  exact (heach partitions g₃ h₃).bind fun _ _ h₄ => Obeys.pure h₄

omit [Key K] [Json V] in
theorem obeys_unattended {α : Type} {p : MapM K V α} (hp : Obeys D p g fun _ => P) :
    Obeys D (unattended p) g fun _ => P := hp.bind fun _ _ h₁ => Obeys.pure h₁

theorem obeys_serve (h : Lenient D P) (req : Request) (hg : P g) :
    Obeys D (serve (K := K) (V := V) cfg m req) g fun _ => P := by
  cases req with
  | replicate req => exact obeys_unattended (obeys_handle_write (fun _ _ => h.allowsWrite.obeys_store_replica hg) hg)
  | forward_put req => exact obeys_unattended (obeys_handle_write (fun _ _ => h.allowsWrite.obeys_store_as_primary hg) hg)
  | get_internal path => exact obeys_unattended (h.obeys_route_get_internal hg)
  | partition_dump p => exact obeys_unattended (h.obeys_handle_partition_dump hg)

/-- Whatever starts at a node obeys a lenient discipline. -/
theorem obeys_started [DecidableEq K] (h : Lenient D P) {s : MapCluster K V} {job : Job K V} {p : MapM K V Unit}
    (hstart : Started cfg s job p) (hg : P g) : Obeys D p g fun _ => P := by
  cases hstart with
  | put n key value => exact obeys_unattended (h.obeys_put hg)
  | put_local n key value => exact obeys_unattended (h.obeys_put_local hg)
  | get n key => exact obeys_unattended (h.obeys_get hg)
  | put_request n req => exact obeys_unattended (obeys_handle_write (fun _ _ => h.allowsWrite.obeys_put_with_op hg) hg)
  | get_request n key_str =>
    refine obeys_unattended ?_
    unfold handle_get
    split
    · exact Obeys.pure hg
    · exact (h.obeys_get hg).bind fun _ _ h₁ => Obeys.pure h₁
  | resync n => exact obeys_unattended (h.obeys_sync_partitions hg)
  | arrival _ _ => exact h.obeys_serve _ hg

end Lenient

/-! ## Counting and recording -/

/-- The ghost of a process is the node at which it has counted few ids and has
not recorded its own yet. -/
def recording : Discipline (MapI K V) (Option NodeId) where
  may g
    | .insert_op n _ => g = some n
    | _ => True
  gives _ _ _ := True
  next g
    | .count_ops n, count => if count > 10000 then g else some n
    | .clear_ops n, _ => some n
    | .insert_op .., _ => none
    | _, _ => g

theorem recording_lenient : Lenient (recording (K := K) (V := V)) fun g => g = none where
  free e he g hg := by
    subst hg
    cases e <;> first | exact ⟨trivial, fun _ _ => rfl⟩ | cases he
  check n op_id g hg := by
    subst hg
    refine Obeys.bind (Q := fun _ g => g = none) (Obeys.perform trivial fun _ _ => rfl) fun found g₁ h₁ => ?_
    subst h₁
    cases found with
    | true => exact Obeys.pure rfl
    | false =>
      refine Obeys.bind (Q := fun _ g => g = some n) ?_ fun _ g₂ h₂ => ?_
      · refine Obeys.bind (Q := fun count g => g = if count > 10000 then none else some n)
          (Obeys.perform trivial fun _ _ => rfl) fun count g₂ h₂ => ?_
        subst h₂
        split
        · exact Obeys.perform trivial fun _ _ => rfl
        · exact Obeys.pure rfl
      · exact Obeys.bind (Q := fun _ g => g = none) (Obeys.perform h₂ fun _ _ => rfl) fun _ _ h₃ => Obeys.pure h₃

/-- Those that have counted few ids at a node make up for what it may hold more. -/
structure Counted (limit : Nat) (s : MapCluster K V) (gs : Multiset (Option NodeId)) : Prop where
  few : gs.card ≤ limit
  bounded : ∀ n, (s.node n).processed_ops.card + gs.count (some n) ≤ 10000 + limit

variable [DecidableEq K] {limit : Nat} {cfg : MapConfig} {net : Network} {s s' : MapCluster K V} {g : Option NodeId}
  {gs : Multiset (Option NodeId)}

omit [DecidableEq K] in
@[simp] theorem processed_ops_insert_op (s : MapCluster K V) (n : NodeId) (op_id : String) :
    ((s.insert_op n op_id).node n).processed_ops = insert op_id (s.node n).processed_ops := by
  simp [MapCluster.insert_op]

@[simp] theorem processed_ops_store_local (s : MapCluster K V) (n m : NodeId) (p : Nat) (key : K) (value : V) :
    ((s.store_local n p key value).node m).processed_ops = (s.node m).processed_ops := by
  by_cases hm : m = n
  · subst hm
    simp [MapCluster.store_local]
  · simp [MapCluster.store_local, hm]

omit [DecidableEq K] in
/-- No history grows. -/
theorem Counted.quiet (h : Counted limit s gs) (hops : ∀ n, (s'.node n).processed_ops = (s.node n).processed_ops) :
    Counted limit s' gs := by
  refine ⟨h.few, fun n => ?_⟩
  rw [hops]
  exact h.bounded n

omit [DecidableEq K] in
/-- At the node where it has counted, there is room for all of them. -/
theorem Counted.counts (h : Counted limit s (g ::ₘ gs)) (n : NodeId) (hfew : (s'.node n).processed_ops.card ≤ 10000)
    (hops : ∀ m, m ≠ n → (s'.node m).processed_ops = (s.node m).processed_ops) : Counted limit s' (some n ::ₘ gs) := by
  have hcard : (some n ::ₘ gs).card ≤ limit := by simpa using h.few
  refine ⟨hcard, fun m => ?_⟩
  by_cases hm : m = n
  · subst hm
    exact Nat.add_le_add hfew ((Multiset.count_le_card _ _).trans hcard)
  · rw [Multiset.count_cons_of_ne (by simpa using hm), hops m hm]
    exact (Nat.add_le_add_left (Multiset.count_le_count_cons _ _ _) _).trans (h.bounded m)

omit [DecidableEq K] in
/-- What was left room for is recorded. -/
theorem Counted.records {n : NodeId} (h : Counted limit s (some n ::ₘ gs)) (op_id : String) :
    Counted limit (s.insert_op n op_id) (none ::ₘ gs) := by
  refine ⟨by simpa using h.few, fun m => ?_⟩
  have hm := h.bounded m
  rw [Multiset.count_cons_of_ne (by simp)]
  by_cases hmn : m = n
  · subst hmn
    rw [Multiset.count_cons_self] at hm
    have hcard := Finset.card_insert_le op_id (s.node m).processed_ops
    rw [processed_ops_insert_op]
    omega
  · rw [Multiset.count_cons_of_ne (by simpa using hmn)] at hm
    simpa [MapCluster.insert_op, hmn] using hm

omit [DecidableEq K] in
theorem Counted.retire (h : Counted limit s (g ::ₘ gs)) : Counted limit s gs := by
  refine ⟨(Multiset.card_le_card (Multiset.le_cons_self gs g)).trans h.few, fun n => ?_⟩
  exact (Nat.add_le_add_left (Multiset.count_le_count_cons _ _ _) _).trans (h.bounded n)

omit [DecidableEq K] in
theorem Counted.join (h : Counted limit s gs) (hroom : gs.card < limit) : Counted limit s (none ::ₘ gs) := by
  refine ⟨?_, fun n => ?_⟩
  · rw [Multiset.card_cons]
    exact hroom
  · rw [Multiset.count_cons_of_ne (by simp)]
    exact h.bounded n

theorem counted_act (h : Counted limit s (g ::ₘ gs)) {e : MapAct K V} {x : (MapI K V).Ans e}
    (hmay : recording.may g e) (hact : MapSem cfg net e s x s') : Counted limit s' (recording.next g e x ::ₘ gs) := by
  cases e with
  | count_ops n =>
    obtain ⟨rfl, rfl⟩ := hact
    change Counted limit s' ((if _ > 10000 then g else some n) ::ₘ gs)
    split
    · exact h
    · rename_i hfew
      exact h.counts n (Nat.le_of_not_gt hfew) fun _ _ => rfl
  | clear_ops n =>
    obtain rfl : s' = s.clear_ops n := hact
    exact h.counts n (by simp [MapCluster.clear_ops]) fun m hm => by simp [MapCluster.clear_ops, hm]
  | insert_op n op_id =>
    obtain rfl : s' = s.insert_op n op_id := hact
    obtain rfl : g = some n := hmay
    exact h.records op_id
  | store_local n p key value =>
    obtain rfl : s' = s.store_local n p key value := hact
    exact h.quiet fun m => processed_ops_store_local s n m p key value
  | new_uuid n =>
    obtain ⟨-, rfl⟩ := hact
    exact h.quiet fun _ => rfl
  | send n addr req i =>
    obtain ⟨-, rfl⟩ := hact
    exact h.quiet fun _ => rfl
  | _ =>
    obtain ⟨-, rfl⟩ := hact
    exact h

variable [Key K] [Json V]

/-- Runs with at most `limit` processes at a time. -/
abbrev BusySteps (limit : Nat) (cfg : MapConfig) (net : Network) :
    MapCluster K V × Pool (Job K V) (MapI K V) Unit → MapCluster K V × Pool (Job K V) (MapI K V) Unit → Prop :=
  Pool.Steps (fun _ => MapSem cfg net) (fun s l job p => l.length < limit ∧ Started cfg s job p)
    fun s _ s' => ∃ view, s' = { s with view }

/-- No history gets longer than what triggers its emptying and one id for each process. -/
theorem history_bounded {view : NodeId → MembershipService} {l : Pool (Job K V) (MapI K V) Unit}
    (h : BusySteps limit cfg net (.empty view, []) (s, l)) (n : NodeId) :
    (s.node n).processed_ops.card ≤ 10000 + limit := by
  have htracked : Pool.Tracked (fun _ => recording) (Counted limit) (fun _ _ g => g = none) (s, l) := by
    refine Pool.tracked_steps (fun _ _ _ _ _ _ _ hinv hmay hact => ⟨trivial, counted_act hinv hmay hact⟩)
      (fun _ _ _ hinv => hinv.retire) (fun s l _ _ hpool hstart => ?_) (fun _ _ _ _ hinv henv => ?_) h
      (Pool.tracked_nil ⟨Nat.zero_le _, fun n => Nat.zero_le _⟩)
    · obtain ⟨hroom, hstart⟩ := hstart
      exact hpool.join_counted (recording_lenient.obeys_started hstart rfl) fun gs hcard hinv => hinv.join (hcard ▸ hroom)
    · obtain ⟨view, rfl⟩ := henv
      exact ⟨hinv.few, hinv.bounded⟩
  obtain ⟨gs, hinv⟩ := htracked.inv
  exact (Nat.le_add_right _ _).trans (hinv.bounded n)

/-! ## So long it gets -/

omit [Key K] [Json V] in
/-- Few ids are left as they are. -/
theorem runs_trim_ops_few {n : NodeId} (hfew : (s.node n).processed_ops.card ≤ 10000) :
    Runs (MapSem cfg net : Sem (MapI K V) _) Eq (trim_ops n) s () s := by
  refine runs_bind.2 ⟨(s.node n).processed_ops.card, s, runs_perform.2 ⟨rfl, rfl⟩, ?_⟩
  rw [if_neg (Nat.not_lt.2 hfew)]
  exact runs_pure.2 ⟨rfl, rfl⟩

omit [Key K] [Json V] in
theorem runs_contains_unknown {n : NodeId} {op_id : String} (h : op_id ∉ (s.node n).processed_ops) :
    Runs (MapSem cfg net : Sem (MapI K V) _) Eq (contains_op n op_id) s false s :=
  runs_perform.2 ⟨(decide_eq_false h).symm, rfl⟩

/-- As long as few ids are known, a node alone records one with each put. -/
theorem runs_put_recorded {n : NodeId} (h : Single n s) (hfew : (s.node n).processed_ops.card ≤ 10000) (key : K) (value : V) :
    ∃ s', Runs (MapSem cfg net) Eq (unattended (put cfg n key value)) s () s' ∧ Single n s' ∧
      (s'.node n).processed_ops.card = (s.node n).processed_ops.card + 1 := by
  have hnew : fresh_uuid s.used ∉ s.used := fresh_uuid_notMem s.used
  have hunknown : fresh_uuid s.used ∉ (s.node n).processed_ops := fun hmem => hnew (s.ops_used n hmem)
  have hprocess : Runs (MapSem cfg net) Eq (should_process n (fresh_uuid s.used)) (s.use (fresh_uuid s.used)) true
      ((s.use (fresh_uuid s.used)).insert_op n (fresh_uuid s.used)) := by
    refine runs_bind.2 ⟨false, _, runs_contains_unknown hunknown, ?_⟩
    exact runs_bind.2 ⟨(), _, runs_trim_ops_few hfew, runs_bind.2 ⟨(), _, runs_perform.2 rfl, runs_pure.2 ⟨rfl, rfl⟩⟩⟩
  have hput : Runs (MapSem cfg net) Eq (put cfg n key value) s (.ok ())
      (((s.use (fresh_uuid s.used)).insert_op n (fresh_uuid s.used)).store_local n (cfg.partition_of key) key value) := by
    refine runs_bind.2 ⟨fresh_uuid s.used, _, runs_perform.2 ⟨hnew, rfl⟩, ?_⟩
    refine runs_bind.2 ⟨true, _, hprocess, ?_⟩
    have hsingle : Single n ((s.use (fresh_uuid s.used)).insert_op n (fresh_uuid s.used)) := h
    refine runs_bind.2 ⟨[n], _, (runs_get_owners_single hsingle).2 ⟨rfl, rfl⟩, ?_⟩
    dsimp only
    rw [if_neg (not_not.2 rfl)]
    exact runs_bind.2 ⟨(), _, runs_perform.2 rfl, runs_pure.2 ⟨rfl, rfl⟩⟩
  refine ⟨_, runs_bind.2 ⟨_, _, hput, runs_pure.2 ⟨rfl, rfl⟩⟩, h, ?_⟩
  rw [processed_ops_store_local, processed_ops_insert_op]
  exact Finset.card_insert_of_notMem hunknown

/-- One put after the other fills the history. -/
theorem history_fills {n : NodeId} (hs : Single n s) (hempty : (s.node n).processed_ops = ∅) (hlimit : 0 < limit) (key : K)
    (value : V) {size : Nat} (hsize : size ≤ 10000) :
    ∃ s', BusySteps limit cfg net (s, []) (s', []) ∧ Single n s' ∧ (s'.node n).processed_ops.card = size := by
  induction size with
  | zero => exact ⟨s, .refl, hs, by simp [hempty]⟩
  | succ size ih =>
    obtain ⟨s₁, hsteps, hs₁, hcard⟩ := ih (Nat.le_of_succ_le hsize)
    obtain ⟨s₂, hrun, hs₂, hmore⟩ : ∃ s₂, Runs (MapSem cfg net) Eq (unattended (put cfg n key value)) s₁ () s₂ ∧
        Single n s₂ ∧ (s₂.node n).processed_ops.card = (s₁.node n).processed_ops.card + 1 :=
      runs_put_recorded hs₁ (by omega) key value
    have hspawn : BusySteps limit cfg net (s₁, []) (s₁, [(.put n key value, unattended (put cfg n key value))]) :=
      .single (.spawn _ _ ⟨hlimit, .put n key value⟩)
    have hput : BusySteps limit cfg net (s₁, [(.put n key value, unattended (put cfg n key value))])
        (s₂, [(.put n key value, .done ())]) :=
      Pool.steps_of_runs (S := fun _ : Job K V => MapSem cfg net) hrun [] []
    have hends : BusySteps limit cfg net (s₂, [] ++ (.put n key value, .done ()) :: []) (s₂, [] ++ []) :=
      .single (.retire _ _)
    exact ⟨s₂, ((hsteps.trans hspawn).trans hput).trans hends, hs₂, by omega⟩

/-- The process is about to record the operation. -/
def Poised (n : NodeId) (op_id : String) (process : Job K V × MapM K V Unit) : Prop :=
  ∃ k, process.2 = .call (.insert_op n op_id) k

omit [DecidableEq K] [Key K] [Json V] in
/-- The check, and what comes after it. -/
theorem should_process_bind {α : Type} (n : NodeId) (op_id : String) (f : Bool → MapM K V α) :
    (should_process n op_id).bind f = (contains_op n op_id).bind fun found => if found then f false else
      (trim_ops n).bind fun _ => .call (.insert_op n op_id) fun _ => f true := by
  refine (Async.bind_assoc (contains_op n op_id) _ f).trans (congrArg _ (funext fun found => ?_))
  cases found with
  | true => rfl
  | false => exact Async.bind_assoc (trim_ops n) _ f

/-- What a run of a process's beginning does to the pool. -/
theorem busy_acts {α : Type} {job : Job K V} {p : MapM K V α} {f : α → MapM K V Unit} {a : α}
    (h : Runs (MapSem cfg net) Eq p s a s') (l₁ l₂ : Pool (Job K V) (MapI K V) Unit) :
    BusySteps limit cfg net (s, l₁ ++ (job, p.bind f) :: l₂) (s', l₁ ++ (job, f a) :: l₂) :=
  Pool.steps_bind (S := fun _ : Job K V => MapSem cfg net) h l₁ l₂

/-- A put goes as far as the insertion of its id while the history is not too long. -/
theorem put_poised {n : NodeId} (hfew : (s.node n).processed_ops.card ≤ 10000) {l : Pool (Job K V) (MapI K V) Unit}
    (hroom : l.length < limit) (key : K) (value : V) {op_id : String} (hnew : op_id ∉ s.used) :
    ∃ process, BusySteps limit cfg net (s, l) (s.use op_id, process :: l) ∧ Poised n op_id process := by
  have hunknown : op_id ∉ (s.node n).processed_ops := fun hmem => hnew (s.ops_used n hmem)
  have hspawn : BusySteps limit cfg net (s, l) (s, (.put n key value, unattended (put cfg n key value)) :: l) :=
    .single (.spawn _ _ ⟨hroom, .put n key value⟩)
  have huuid : Runs (MapSem cfg net : Sem (MapI K V) _) Eq (new_uuid n) s op_id (s.use op_id) := runs_perform.2 ⟨hnew, rfl⟩
  have hcontains : Runs (MapSem cfg net : Sem (MapI K V) _) Eq (contains_op n op_id) (s.use op_id) false (s.use op_id) :=
    runs_contains_unknown hunknown
  have htrim : Runs (MapSem cfg net : Sem (MapI K V) _) Eq (trim_ops n) (s.use op_id) () (s.use op_id) :=
    runs_trim_ops_few hfew
  have hstart : BusySteps limit cfg net (s, (.put n key value, unattended (put cfg n key value)) :: l)
      (s.use op_id, (.put n key value, unattended (put_with_op cfg n key value op_id)) :: l) := busy_acts huuid [] l
  obtain ⟨f, hf⟩ : ∃ f, unattended (put_with_op cfg n key value op_id) = (should_process n op_id).bind f :=
    ⟨_, Async.bind_assoc (should_process n op_id) _ _⟩
  rw [hf, should_process_bind] at hstart
  have hunrecorded : BusySteps limit cfg net
      (s.use op_id, (.put n key value, (contains_op n op_id).bind fun found => if found then f false else
        (trim_ops n).bind fun _ => .call (.insert_op n op_id) fun _ => f true) :: l)
      (s.use op_id, (.put n key value, (trim_ops n).bind fun _ => .call (.insert_op n op_id) fun _ => f true) :: l) :=
    busy_acts hcontains [] l
  have hcounted : BusySteps limit cfg net
      (s.use op_id, (.put n key value, (trim_ops n).bind fun _ => .call (.insert_op n op_id) fun _ => f true) :: l)
      (s.use op_id, (.put n key value, .call (.insert_op n op_id) fun _ => f true) :: l) := busy_acts htrim [] l
  exact ⟨_, ((hspawn.trans hstart).trans hunrecorded).trans hcounted, _, rfl⟩

/-- As many puts as there may be go as far as that. -/
theorem puts_poised {n : NodeId} (hfew : (s.node n).processed_ops.card ≤ 10000) (key : K) (value : V) {count : Nat}
    (hcount : count ≤ limit) :
    ∃ s' l ops, BusySteps limit cfg net (s, []) (s', l) ∧ List.Forall₂ (Poised n) ops l ∧ ops.length = count ∧
      ops.Nodup ∧ (s'.node n).processed_ops = (s.node n).processed_ops ∧
      ∀ op ∈ ops, op ∈ s'.used ∧ op ∉ (s'.node n).processed_ops := by
  induction count with
  | zero => exact ⟨s, [], [], .refl, .nil, rfl, .nil, rfl, fun _ h => absurd h List.not_mem_nil⟩
  | succ count ih =>
    obtain ⟨s₁, l, ops, hsteps, hpoised, hlength, hnd, hsame, hops⟩ := ih (Nat.le_of_succ_le hcount)
    have hnew : fresh_uuid s₁.used ∉ s₁.used := fresh_uuid_notMem s₁.used
    have hroom : l.length < limit := by
      rw [← hpoised.length_eq, hlength]
      exact hcount
    obtain ⟨process, hput, hprocess⟩ : ∃ process,
        BusySteps limit cfg net (s₁, l) (s₁.use (fresh_uuid s₁.used), process :: l) ∧
          Poised n (fresh_uuid s₁.used) process := put_poised (hsame ▸ hfew) hroom key value hnew
    refine ⟨_, process :: l, fresh_uuid s₁.used :: ops, hsteps.trans hput, .cons hprocess hpoised, by simp [hlength],
      List.nodup_cons.2 ⟨fun hmem => hnew (hops _ hmem).1, hnd⟩, hsame, fun op hop => ?_⟩
    rcases List.mem_cons.1 hop with rfl | hop
    · exact ⟨Finset.mem_insert_self _ _, fun hmem => hnew (s₁.ops_used n hmem)⟩
    · exact ⟨Finset.mem_insert_of_mem (hops op hop).1, (hops op hop).2⟩

/-- All of them record their ids, whatever the history has become. -/
theorem poised_record {n : NodeId} {ops : List String} {l : Pool (Job K V) (MapI K V) Unit} (h : List.Forall₂ (Poised n) ops l)
    (hnd : ops.Nodup) (hops : ∀ op ∈ ops, op ∉ (s.node n).processed_ops) (l₁ : Pool (Job K V) (MapI K V) Unit) :
    ∃ s' l', BusySteps limit cfg net (s, l₁ ++ l) (s', l') ∧
      (s'.node n).processed_ops.card = (s.node n).processed_ops.card + ops.length := by
  induction h generalizing s l₁ with
  | nil => exact ⟨s, _, .refl, rfl⟩
  | @cons op process ops l hpoised _ ih =>
    obtain ⟨hop, hnd⟩ := List.nodup_cons.1 hnd
    obtain ⟨job, p⟩ := process
    obtain ⟨k, rfl⟩ : ∃ k, p = .call (.insert_op n op) k := hpoised
    have hinsert : BusySteps limit cfg net (s, l₁ ++ (job, .call (.insert_op n op) k) :: l)
        (s.insert_op n op, l₁ ++ (job, k ()) :: l) := .single (.run job _ k () rfl)
    have hothers : ∀ op' ∈ ops, op' ∉ ((s.insert_op n op).node n).processed_ops := by
      intro op' hop' hmem
      rw [processed_ops_insert_op, Finset.mem_insert] at hmem
      rcases hmem with rfl | hmem
      · exact hop hop'
      · exact hops op' (List.mem_cons_of_mem _ hop') hmem
    obtain ⟨s', l', hsteps, hcard⟩ := ih hnd hothers (l₁ ++ [(job, k ())])
    rw [List.append_assoc] at hsteps
    refine ⟨s', l', hinsert.trans hsteps, ?_⟩
    rw [hcard, processed_ops_insert_op, Finset.card_insert_of_notMem (hops op List.mem_cons_self), List.length_cons]
    omega

/-- How long the history of node `n` is in some run. -/
def history_lengths (limit : Nat) (cfg : MapConfig) (net : Network) (K V : Type) [DecidableEq K] [Key K] [Json V] (n : NodeId) :
    Set Nat :=
  { size | ∃ view l, ∃ s : MapCluster K V, BusySteps limit cfg net (.empty view, []) (s, l) ∧ (s.node n).processed_ops.card = size }

/-- With `limit` processes at a time a history may get as long as 10 000 + `limit`, and no longer. -/
theorem history_isGreatest [Nonempty K] [Nonempty V] (cfg : MapConfig) (net : Network) (n : NodeId) (hlimit : 0 < limit) :
    IsGreatest (history_lengths limit cfg net K V n) (10000 + limit) := by
  obtain ⟨key⟩ := ‹Nonempty K›
  obtain ⟨value⟩ := ‹Nonempty V›
  constructor
  · have hsingle : Single n (.empty (settled (single n) demo_addr) : MapCluster K V) :=
      PartitionManager.holdsAlive_settled (single n) demo_addr n
    obtain ⟨s₁, hfill, -, hfull⟩ : ∃ s₁, BusySteps limit cfg net (.empty (settled (single n) demo_addr), []) (s₁, []) ∧
        Single n s₁ ∧ (s₁.node n).processed_ops.card = 10000 := history_fills hsingle rfl hlimit key value le_rfl
    obtain ⟨s₂, l₂, ops, hputs, hpoised, hlength, hnd, hsame, hops⟩ : ∃ s₂ l₂ ops,
        BusySteps limit cfg net (s₁, []) (s₂, l₂) ∧ List.Forall₂ (Poised n) ops l₂ ∧ ops.length = limit ∧ ops.Nodup ∧
          (s₂.node n).processed_ops = (s₁.node n).processed_ops ∧
          ∀ op ∈ ops, op ∈ s₂.used ∧ op ∉ (s₂.node n).processed_ops := puts_poised hfull.le key value le_rfl
    obtain ⟨s₃, l₃, hrecord, hcard⟩ : ∃ s₃ l₃, BusySteps limit cfg net (s₂, [] ++ l₂) (s₃, l₃) ∧
        (s₃.node n).processed_ops.card = (s₂.node n).processed_ops.card + ops.length :=
      poised_record hpoised hnd (fun op hop => (hops op hop).2) []
    exact ⟨_, l₃, s₃, (hfill.trans hputs).trans hrecord, by rw [hcard, hsame, hfull, hlength]⟩
  · rintro size ⟨view, l, s, hsteps, rfl⟩
    exact history_bounded hsteps n

open CompactJson in
theorem history_isGreatest_pair : IsGreatest (history_lengths 2 trio_cfg .lossy String Bool node_a) 10002 :=
  history_isGreatest trio_cfg .lossy node_a Nat.two_pos

end DistributedMap
