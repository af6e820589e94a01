import DistributedCluster.Storage.Memory
/-!
# Rules for the programs of the map

One rule for each operation, over any network, any interference `R` and any
guarantee `G` that allows doing nothing. `S` are the steps of the map or some of
them.
-/

namespace DistributedMap

open Async

/-- Of the nodes that get a request, `S` only allows those in `reach`. -/
def Reaching {K V : Type} (S : Sem (MapI K V) (MapCluster K V)) (reach : NodeId → Prop) : Prop :=
  ∀ n addr req i s f s', S (.send n addr req i) s f s' → ∀ m, f = .unheard m ∨ f = .replied m → reach m

/-- Every step of `S` is a step of the map. -/
class StepsOf {K V : Type} [DecidableEq K] (S : Sem (MapI K V) (MapCluster K V)) (cfg : outParam MapConfig)
    (net : outParam Network) : Prop where
  step : ∀ e s x s', S e s x s' → MapSem cfg net e s x s'

instance {K V : Type} [DecidableEq K] (cfg : MapConfig) (net : Network) :
    StepsOf (MapSem cfg net : Sem (MapI K V) (MapCluster K V)) cfg net :=
  ⟨fun _ _ _ _ h => h⟩

instance {K V : Type} [DecidableEq K] (cfg : MapConfig) (net : Network) (S : Sem (MapI K V) (MapCluster K V))
    [StepsOf S cfg net] (φ : (e : MapAct K V) → MapCluster K V → (MapI K V).Ans e → Prop) :
    StepsOf (S.restrict φ) cfg net :=
  ⟨fun e s x s' h => StepsOf.step (S := S) e s x s' h.1⟩

variable {K V : Type} [DecidableEq K] {cfg : MapConfig} {net : Network} {S : Sem (MapI K V) (MapCluster K V)}
  [hS : StepsOf S cfg net] {R G : MapCluster K V → MapCluster K V → Prop}

include hS

section Actions

variable {α : Type} {P : MapCluster K V → Prop}

/-- An action that only looks at the state. -/
theorem triple_read [Std.Refl G] (e : MapAct K V) (f : MapCluster K V → (MapI K V).Ans e)
    {Q : (MapI K V).Ans e → MapCluster K V → Prop} (hP : Stable R P) (hQ : ∀ x, Stable R (Q x))
    (he : ∀ s x s', MapSem cfg net e s x s' → x = f s ∧ s' = s) (h : ∀ s, P s → Q (f s) s) :
    Triple S R G P (act e) Q :=
  Triple.perform hP hQ fun s x s' hs hstep => by
    obtain ⟨rfl, rfl⟩ := he s x s' (StepsOf.step _ _ _ _ hstep)
    exact ⟨refl _, h _ hs⟩

theorem triple_lookup [Std.Refl G] {n : NodeId} {partition : Nat} {key : K} {Q : Option V → MapCluster K V → Prop}
    (hP : Stable R P) (hQ : ∀ x, Stable R (Q x)) (h : ∀ s, P s → Q (s.stored n partition key) s) :
    Triple S R G P (lookup n partition key) Q :=
  triple_read (.lookup n partition key) (fun s => s.stored n partition key) hP hQ (fun _ _ _ h => h) h

theorem triple_membership [Std.Refl G] {n : NodeId} {Q : MembershipService → MapCluster K V → Prop}
    (hP : Stable R P) (hQ : ∀ x, Stable R (Q x)) (h : ∀ s, P s → Q (s.view n) s) :
    Triple S R G P (membership n) Q :=
  triple_read (.membership n) (fun s => s.view n) hP hQ (fun _ _ _ h => h) h

theorem triple_store_local {n : NodeId} {partition : Nat} {key : K} {value : V} {Q : Unit → MapCluster K V → Prop}
    (hP : Stable R P) (hQ : ∀ x, Stable R (Q x))
    (h : ∀ s, P s → G s (s.store_local n partition key value) ∧ Q () (s.store_local n partition key value)) :
    Triple S R G P (store_local n partition key value) Q :=
  Triple.perform hP hQ fun s x s' hs hstep => by
    obtain rfl : s' = s.store_local n partition key value := StepsOf.step _ _ _ _ hstep
    exact h s hs

theorem triple_get_owners [Std.Refl R] [Std.Refl G] {n : NodeId} {partition : Nat} {Q : List NodeId → MapCluster K V → Prop}
    (hP : Stable R P) (hQ : ∀ x, Stable R (Q x))
    (h : ∀ s, P s → Q (cfg.partitioner.get_owners (s.view n) partition) s) :
    Triple S R G P (get_owners cfg n partition) Q :=
  (triple_membership hP (fun x => hQ (cfg.partitioner.get_owners x partition)) h).bind fun _ =>
    Triple.pure (hQ _) fun _ h => h

theorem triple_get_member [Std.Refl R] [Std.Refl G] {n node_id : NodeId} {Q : Option Node → MapCluster K V → Prop}
    (hP : Stable R P) (hQ : ∀ x, Stable R (Q x)) (h : ∀ s, P s → Q ((s.view n).get_member node_id) s) :
    Triple S R G P (get_member n node_id) Q :=
  (triple_membership hP (fun x => hQ (x.get_member node_id)) h).bind fun _ => Triple.pure (hQ _) fun _ h => h

end Actions

section Operations

variable [Std.Refl R] [Std.Refl G] {P : MapCluster K V → Prop}

/-- `M` is what holds while the history is trimmed and the operation recorded. -/
theorem triple_should_process {M : MapCluster K V → Prop} {Q : Bool → MapCluster K V → Prop} {n : NodeId}
    {op_id : String} (hP : Stable R P) (hM : Stable R M) (hQ : ∀ b, Stable R (Q b))
    (hfound : ∀ s, P s → S (.contains_op n op_id) s true s → Q false s) (hnew : ∀ s, P s → ¬ s.recorded n op_id → M s)
    (hclear : ∀ s, M s → G s (s.clear_ops n) ∧ M (s.clear_ops n))
    (hinsert : ∀ s, M s → G s (s.insert_op n op_id) ∧ Q true (s.insert_op n op_id)) :
    Triple S R G P (should_process n op_id) Q := by
  have hcontains : Triple S R G P (contains_op n op_id)
      fun b s => (b = true → Q false s) ∧ (b = false → M s) := by
    refine Triple.perform hP
      (fun b s s' hR hs => ⟨fun hb => hQ false s s' hR (hs.1 hb), fun hb => hM s s' hR (hs.2 hb)⟩)
      fun s b s' hs hstep => ?_
    obtain ⟨hb, rfl⟩ := StepsOf.step _ _ _ _ hstep
    refine ⟨refl _, ?_, ?_⟩
    · rintro rfl
      exact hfound s' hs hstep
    · rintro rfl
      exact hnew s' hs (of_decide_eq_false hb.symm)
  have hcount : Triple S R G M (count_ops n) fun _ => M :=
    triple_read (.count_ops n) (fun s => (s.node n).processed_ops.card) hM (fun _ => hM) (fun _ _ _ h => h) fun _ h => h
  have htrim : Triple S R G M (clear_ops n) fun _ => M :=
    Triple.perform hM (fun _ => hM) fun s x s' hs hstep => by
      obtain rfl : s' = s.clear_ops n := StepsOf.step _ _ _ _ hstep
      exact hclear s hs
  have hrecord : Triple S R G M (insert_op n op_id) fun _ => Q true :=
    Triple.perform hM (fun _ => hQ true) fun s x s' hs hstep => by
      obtain rfl : s' = s.insert_op n op_id := StepsOf.step _ _ _ _ hstep
      exact hinsert s hs
  have htrims : Triple S R G M (trim_ops n) fun _ => M := by
    refine hcount.bind fun count => ?_
    split
    · exact htrim
    · exact Triple.pure hM fun _ h => h
  refine hcontains.bind fun b => ?_
  cases b with
  | true => exact Triple.pure (hQ false) fun s hs => hs.1 rfl
  | false =>
    refine Triple.pre ?_ fun s hs => hs.2 rfl
    exact htrims.bind fun _ => hrecord.bind fun _ => Triple.pure (hQ true) fun _ h => h

omit [Std.Refl G] in
/-- A request to `addr`, served by `target` if by anyone. -/
theorem triple_request {ρ : Type} {n target : NodeId} {addr : SocketAddr} {req : Request}
    {serve : NodeId → MapM K V ρ} {Q : Result ρ → MapCluster K V → Prop} (hP : Stable R P)
    (hQ : ∀ r, Stable R (Q r)) (haddr : ∀ m, cfg.host n addr = some m → m = target)
    (hsend : ∀ s, P s → G s (s.send n addr req) ∧ P (s.send n addr req))
    (hserve : Triple S R G P (serve target) fun r => Q (.ok r))
    (hlost : cfg.host n addr = none ∨ net = .lossy → ∀ e s, P s → Q (.error e) s)
    (hunheard : net = .lossy → Triple S R G P (serve target) fun _ => P) {attempts : Nat}
    (hattempts : 0 < attempts) : Triple S R G P (request n addr req serve attempts) Q := by
  refine Triple.retry (N := fun s => (cfg.host n addr = none ∨ net = .lossy) ∧ P s) hQ (fun i => ?_)
    (fun s hs => hs.2) (fun e s hs => hlost hs.1 e s hs.2) hattempts
  refine Triple.attempt (A := fun f s => net.allows (cfg.host n) addr f ∧ P s) ?_ ?_ (fun s hs => hs) ?_ ?_
  · intro r
    cases r with
    | none => exact fun s s' hR hs => ⟨hs.1, hP s s' hR hs.2⟩
    | some r => exact hQ (.ok r)
  · refine Triple.perform hP (fun f s s' hR hs => ⟨hs.1, hP s s' hR hs.2⟩) fun s f s' hs hstep => ?_
    obtain ⟨hf, rfl⟩ := StepsOf.step _ _ _ _ hstep
    exact ⟨(hsend s hs).1, hf, (hsend s hs).2⟩
  · intro m
    refine Triple.assume fun hf => ?_
    rw [haddr m hf.1]
    exact (hunheard hf.2).post fun _ s hs => ⟨.inr hf.2, hs⟩
  · intro m
    refine Triple.assume fun hf => ?_
    rw [haddr m hf]
    exact hserve

omit [Std.Refl G] in
/-- A request to whoever can be reached, if the handler keeps `P` there. -/
theorem triple_request_any {ρ : Type} {n : NodeId} {addr : SocketAddr} {req : Request} {serve : NodeId → MapM K V ρ}
    {reach : NodeId → Prop} (hreach : Reaching S reach) (hP : Stable R P)
    (hsend : ∀ s, P s → G s (s.send n addr req) ∧ P (s.send n addr req))
    (hserve : ∀ m, reach m → Triple S R G P (serve m) fun _ => P) {attempts : Nat} (hattempts : 0 < attempts) :
    Triple S R G P (request n addr req serve attempts) fun _ => P := by
  refine Triple.retry (fun _ => hP) (fun i => ?_) (fun s hs => hs) (fun _ s hs => hs) hattempts
  refine Triple.post (Q := fun _ => P) ?_ fun r s hs => by
    cases r <;> exact hs
  have hstable : ∀ f : Fate NodeId, Stable R fun s => (∀ m, f = .unheard m ∨ f = .replied m → reach m) ∧ P s :=
    fun f => hP.assume _
  refine Triple.attempt (A := fun f s => (∀ m, f = .unheard m ∨ f = .replied m → reach m) ∧ P s) (fun _ => hP) ?_
    (fun _ hs => hs.2) (fun m => Triple.assume fun hm => hserve m (hm m (.inl rfl)))
    fun m => Triple.assume fun hm => hserve m (hm m (.inr rfl))
  refine Triple.perform hP hstable fun s f s' hs hstep => ?_
  have hm := hreach n addr req i s f s' hstep
  obtain ⟨-, rfl⟩ := StepsOf.step _ _ _ _ hstep
  exact ⟨(hsend s hs).1, hm, (hsend s hs).2⟩

end Operations

section Writes

variable [Key K] [Json V] [Std.Refl R] {P : MapCluster K V → Prop}

omit [DecidableEq K] hS [Std.Refl R] in
theorem parse_write_ok {key : K} {value : V} {text : String} (h : Json.to_json value = .ok text) :
    parse_write (Key.to_string key) text = .ok (key, value) := by
  obtain ⟨text', h₁, h₂⟩ := Json.round_trip value
  rw [h] at h₁
  cases h₁
  simp [parse_write, Key.from_str_to_string, h₂, Bind.bind, Except.bind, Pure.pure, Except.pure]

def write_status : Result Unit → StatusCode
  | .ok _ => .OK
  | .error _ => .INTERNAL_SERVER_ERROR

omit [DecidableEq K] hS in
/-- A write handler parses what the sender printed. -/
theorem triple_handle_write {key : K} {value : V} {text : String} {write : K → V → MapM K V (Result Unit)}
    {Q : StatusCode → MapCluster K V → Prop} (hQ : ∀ c, Stable R (Q c)) (h : Json.to_json value = .ok text)
    (hwrite : Triple S R G P (write key value) fun r => Q (write_status r)) :
    Triple S R G P (handle_write (Key.to_string key) text write) Q := by
  unfold handle_write
  rw [parse_write_ok h]
  refine hwrite.bind fun r => ?_
  cases r with
  | ok _ => exact Triple.pure (hQ _) fun _ h => h
  | error _ => exact Triple.pure (hQ _) fun _ h => h

/-- What a caller makes of the answer to a write request. -/
def write_outcome (failed : StatusCode → String) (Q : Result Unit → MapCluster K V → Prop) :
    Result StatusCode → MapCluster K V → Prop
  | .ok status => if status.is_success then Q (.ok ()) else Q (.error (.anyhow (failed status)))
  | .error e => Q (.error e)

omit [DecidableEq K] [Key K] [Json V] hS [Std.Refl R] in
theorem stable_write_outcome {failed : StatusCode → String} {Q : Result Unit → MapCluster K V → Prop}
    (hQ : ∀ r, Stable R (Q r)) (r : Result StatusCode) : Stable R (write_outcome failed Q r) := by
  unfold write_outcome
  split
  · split
    · exact hQ _
    · exact hQ _
  · exact hQ _

omit [Key K] in
/-- A write sent to `target`: the record of `target` in the sender's view leads
to `target` or to nobody. -/
theorem triple_post_write [Std.Refl G] {n target : NodeId} {not_found : String} {value : V}
    {make : String → Request} {serve : String → NodeId → MapM K V StatusCode} {failed : StatusCode → String}
    {Q : Result Unit → MapCluster K V → Prop} (hP : Stable R P) (hQ : ∀ r, Stable R (Q r))
    (hnone : ∀ s, P s → (s.view n).get_member target = none → Q (.error (.anyhow not_found)) s)
    (haddr : ∀ s node, P s → (s.view n).get_member target = some node →
      ∀ m, cfg.host n node.http_addr = some m → m = target)
    (hsend : ∀ s addr req, P s → G s (s.send n addr req) ∧ P (s.send n addr req))
    (hlost : ∀ s node, P s → (s.view n).get_member target = some node →
      cfg.host n node.http_addr = none ∨ net = .lossy → ∀ e s, P s → Q (.error e) s)
    (hserve : ∀ text, Json.to_json value = .ok text → Triple S R G P (serve text target)
      fun status => write_outcome failed Q (.ok status))
    (hunheard : net = .lossy → ∀ text, Json.to_json value = .ok text →
      Triple S R G P (serve text target) fun _ => P) :
    Triple S R G P (post_write n target not_found value make serve failed) Q := by
  obtain ⟨text, htext, -⟩ := Json.round_trip value
  have hmember : Triple S R G P (get_member n target) fun o s => P s ∧
      (o = none → Q (.error (.anyhow not_found)) s) ∧
      ∀ node, o = some node → ∃ s₀, P s₀ ∧ (s₀.view n).get_member target = some node :=
    triple_get_member hP (fun o s s' hR hs => ⟨hP s s' hR hs.1, fun ho => hQ _ s s' hR (hs.2.1 ho), hs.2.2⟩)
      fun s hs => ⟨hs, hnone s hs, fun node hn => ⟨s, hs, hn⟩⟩
  refine hmember.bind fun o => ?_
  cases o with
  | none => exact Triple.pure (hQ _) fun s hs => hs.2.1 rfl
  | some node =>
    refine Triple.pre (P := fun s => (∃ s₀, P s₀ ∧ (s₀.view n).get_member target = some node) ∧ P s) ?_
      fun s hs => ⟨hs.2.2 node rfl, hs.1⟩
    refine Triple.assume fun ⟨s₀, hs₀, hn⟩ => ?_
    simp only [htext]
    have hrequest : Triple S R G P (request n node.http_addr (make text) (serve text) 3)
        (write_outcome failed Q) :=
      triple_request hP (stable_write_outcome hQ) (haddr s₀ node hs₀ hn) (fun s hs => hsend s _ _ hs)
        (hserve text htext) (hlost s₀ node hs₀ hn) (fun hl => hunheard hl text htext) (by decide)
    refine hrequest.bind fun r => ?_
    cases r with
    | error e => exact Triple.pure (hQ _) fun _ h => h
    | ok status =>
      simp only [write_outcome]
      split
      · exact Triple.pure (hQ _) fun _ h => h
      · exact Triple.pure (hQ _) fun _ h => h

omit [Key K] in
/-- A write sent to whoever can be reached. -/
theorem triple_post_write_any [Std.Refl G] {n target : NodeId} {not_found : String} {value : V}
    {make : String → Request} {serve : String → NodeId → MapM K V StatusCode} {failed : StatusCode → String}
    {reach : NodeId → Prop} (hreach : Reaching S reach) (hP : Stable R P)
    (hsend : ∀ s addr req, P s → G s (s.send n addr req) ∧ P (s.send n addr req))
    (hserve : ∀ text, Json.to_json value = .ok text → ∀ m, reach m → Triple S R G P (serve text m) fun _ => P) :
    Triple S R G P (post_write n target not_found value make serve failed) fun _ => P := by
  have hpure : ∀ r : Result Unit, Triple S R G P (pure r) fun _ => P := fun _ => Triple.pure hP fun _ hs => hs
  refine (triple_get_member hP (fun _ => hP) fun s hs => hs).bind fun o => ?_
  cases o with
  | none => exact hpure _
  | some node =>
    obtain ⟨text, htext, -⟩ := Json.round_trip value
    simp only [htext]
    refine (triple_request_any hreach hP (fun s hs => hsend s _ _ hs) (hserve text htext) (by decide)).bind fun r => ?_
    cases r with
    | error e => exact hpure _
    | ok status =>
      dsimp only
      split
      · exact hpure _
      · exact hpure _

omit [DecidableEq K] hS in
/-- Replication goes from backup to backup; `P bs` holds while `bs` remain. -/
theorem triple_replicate_all {n : NodeId} {partition : Nat} {op_id : String} {key : K} {value : V}
    {P : List NodeId → MapCluster K V → Prop} {Q : Result Unit → MapCluster K V → Prop} (hQ : ∀ r, Stable R (Q r))
    (hone : ∀ b bs, Triple S R G (P (b :: bs)) (replicate_to_backup n b partition op_id key value)
      fun r s =>
        match r with
        | .ok _ => P bs s
        | .error e => Q (.error e) s)
    (hend : ∀ s, P [] s → Q (.ok ()) s) (bs : List NodeId) :
    Triple S R G (P bs) (replicate_all n partition op_id key value bs) Q := by
  induction bs with
  | nil => exact Triple.pure (hQ _) hend
  | cons b bs ih =>
    refine (hone b bs).bind fun r => ?_
    cases r with
    | ok _ => exact ih
    | error e => exact Triple.pure (hQ _) fun _ h => h

end Writes

section Alone

omit hS

variable {n : NodeId} {op_id : String} {s s' : MapCluster K V}

/-- A new operation is processed and recorded. -/
theorem should_process_new (h : ¬ s.recorded n op_id) {b : Bool}
    (hrun : Runs (MapSem cfg net) Eq (should_process n op_id) s b s') :
    b = true ∧ s'.view = s.view ∧ (∀ m p k, s'.stored m p k = s.stored m p k) ∧
      ∀ m, s'.recorded m op_id ↔ m = n ∨ s.recorded m op_id := by
  obtain ⟨found, s₁, hcontains, hrest⟩ := runs_bind.1 hrun
  obtain ⟨rfl, rfl⟩ := runs_perform.1 hcontains
  rw [decide_eq_false h] at hrest
  obtain ⟨_, s₂, htrim, hrest⟩ := runs_bind.1 hrest
  obtain ⟨_, s₃, hinsert, hdone⟩ := runs_bind.1 hrest
  obtain rfl : s₃ = s₂.insert_op n op_id := runs_perform.1 hinsert
  obtain ⟨rfl, rfl⟩ := runs_pure.1 hdone
  have hkept : s₂.view = s₁.view ∧ (∀ m p k, s₂.stored m p k = s₁.stored m p k) ∧
      ∀ m, s₂.recorded m op_id ↔ s₁.recorded m op_id := by
    obtain ⟨count, s₄, hcount, hclear⟩ := runs_bind.1 htrim
    obtain ⟨-, rfl⟩ := runs_perform.1 hcount
    split at hclear
    · obtain rfl : s₂ = s₄.clear_ops n := runs_perform.1 hclear
      refine ⟨rfl, fun m p k => s₄.stored_clear_ops n m p k, fun m => ?_⟩
      rw [s₄.recorded_clear_ops]
      exact ⟨fun hm => hm.2, fun hm => ⟨fun he => h (he ▸ hm), hm⟩⟩
    · obtain ⟨-, rfl⟩ := runs_pure.1 hclear
      exact ⟨rfl, fun _ _ _ => rfl, fun _ => .rfl⟩
  refine ⟨rfl, hkept.1, fun m p k => (s₂.stored_insert_op n m op_id p k).trans (hkept.2.1 m p k), fun m => ?_⟩
  rw [s₂.recorded_insert_op, hkept.2.2, and_iff_left rfl]

end Alone

end DistributedMap
