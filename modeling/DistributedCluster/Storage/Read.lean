import DistributedCluster.Storage.Agreement
import DistributedCluster.Storage.Rules
/-!
# What a read returns

While nobody changes what is stored, a read returns the local copy, or else the
first copy among the owners that answer. Over a reliable network all of them
answer; over a lossy one any of them may be the only one.
-/

namespace DistributedMap

open Async

variable {K V : Type} [DecidableEq K] [Key K] [Json V]

/-- Nothing that a read looks at has changed. -/
structure SameData (s s' : MapCluster K V) : Prop where
  node : s'.node = s.node
  view : s'.view = s.view

instance : IsPreorder (MapCluster K V) SameData where
  refl _ := ⟨rfl, rfl⟩
  trans _ _ _ h h' := ⟨h'.node.trans h.node, h'.view.trans h.view⟩

omit [Key K] [Json V] in
theorem SameData.stored {s s' : MapCluster K V} (h : SameData s s') (n : NodeId) (p : Nat) (k : K) :
    s'.stored n p k = s.stored n p k := by
  rw [MapCluster.stored, h.node, MapCluster.stored]

omit [DecidableEq K] [Key K] [Json V] in
theorem SameData.recorded {s s' : MapCluster K V} (h : SameData s s') (n : NodeId) (op_id : String) :
    s'.recorded n op_id ↔ s.recorded n op_id := by
  rw [MapCluster.recorded, h.node, MapCluster.recorded]

omit [DecidableEq K] [Key K] [Json V] in
theorem SameData.stable (s₀ : MapCluster K V) : Stable SameData (SameData s₀) :=
  fun _ _ h h₀ => IsTrans.trans _ _ _ h₀ h

/-- The key's text survives the way through the URL. -/
def UrlSafe (cfg : MapConfig) (key : K) : Prop :=
  ∃ text, cfg.route (Key.to_string key) = .ok text ∧ Key.from_str text = .ok key

/-- What node `m` answers to `/internal/get`. -/
def get_response (cfg : MapConfig) (s : MapCluster K V) (m : NodeId) (path : String) : GetResponse :=
  match cfg.route path with
  | .error status => ⟨status, none⟩
  | .ok key_str =>
    match (Key.from_str key_str : Except String K) with
    | .error _ => ⟨.BAD_REQUEST, none⟩
    | .ok k => value_response (s.stored m (cfg.partition_of k) k)

/-- The value a fetch yields; an error counts as none. -/
def fetched : Result (Option V) → Option V
  | .ok x => x
  | .error _ => none

/-- What a fetch of `key` from node `m` yields if `m` answers. -/
def answer (cfg : MapConfig) (s : MapCluster K V) (key : K) (m : NodeId) : Option V :=
  fetched (read_response (get_response cfg s m (Key.to_string key)))

theorem answer_of_urlSafe {cfg : MapConfig} {key : K} (h : UrlSafe cfg key) (s : MapCluster K V) (m : NodeId) :
    answer cfg s key m = s.stored m (cfg.partition_of key) key := by
  obtain ⟨text, hroute, hparse⟩ := h
  simp only [answer, get_response, hroute, hparse]
  cases s.stored m (cfg.partition_of key) key with
  | none => rfl
  | some value =>
    obtain ⟨json, hto, hfrom⟩ := Json.round_trip value
    simp [fetched, value_response, hto, hfrom, read_response, StatusCode.is_success]

/-- What the router answers itself carries no value. -/
theorem fetched_status (status : StatusCode) : fetched (V := V) (read_response ⟨status, none⟩) = none := by
  cases status <;> rfl

/-- A key that is lost on the way is not found where no other key is. -/
theorem answer_of_not_urlSafe {cfg : MapConfig} {key : K} (h : ¬ UrlSafe cfg key) {s : MapCluster K V} {m : NodeId}
    (hs : ∀ k, k ≠ key → s.stored m (cfg.partition_of k) k = none) : answer cfg s key m = none := by
  simp only [answer, get_response]
  cases hroute : cfg.route (Key.to_string key) with
  | error status => exact fetched_status status
  | ok text =>
    simp only
    cases hparse : (Key.from_str text : Except String K) with
    | error e => rfl
    | ok k =>
      have hk : k ≠ key := fun he => h ⟨text, hroute, he ▸ hparse⟩
      simp only [hs k hk]
      rfl

section Reads

variable {cfg : MapConfig} {net : Network} {ring : NodeRing NodeId} {s₀ : MapCluster K V} {n : NodeId}

/-- A promise about a program that reads while nobody writes. -/
abbrev Reads {α : Type} (cfg : MapConfig) (net : Network) (s₀ : MapCluster K V) (p : MapM K V α) (Q : α → Prop) :
    Prop :=
  Triple (MapSem cfg net) SameData SameData (SameData s₀) p fun a s => Q a ∧ SameData s₀ s

omit [Key K] [Json V] in
theorem reads_post {α : Type} {p : MapM K V α} {Q Q' : α → Prop} (h : Reads cfg net s₀ p Q)
    (hQ : ∀ a, Q a → Q' a) : Reads cfg net s₀ p Q' :=
  h.post fun a _ hs => ⟨hQ a hs.1, hs.2⟩

omit [Key K] [Json V] in
theorem reads_pure {α : Type} {a : α} {Q : α → Prop} (h : Q a) : Reads cfg net s₀ (pure a) Q :=
  Triple.pure ((SameData.stable s₀).assume _) fun _ hs => ⟨h, hs⟩

omit [Key K] [Json V] in
theorem reads_bind {α β : Type} {p : MapM K V α} {f : α → MapM K V β} {Q : α → Prop} {Q' : β → Prop}
    (hp : Reads cfg net s₀ p Q) (hf : ∀ a, Q a → Reads cfg net s₀ (f a) Q') : Reads cfg net s₀ (p >>= f) Q' :=
  hp.bind fun a => Triple.assume (hf a)

omit [Key K] [Json V] in
theorem reads_lookup (p : Nat) (key : K) : Reads cfg net s₀ (lookup n p key) fun x => x = s₀.stored n p key :=
  triple_lookup (SameData.stable s₀) (fun _ => (SameData.stable s₀).assume _) fun _ hs => ⟨hs.stored n p key, hs⟩

omit [Key K] [Json V] in
theorem reads_get_owners (p : Nat) :
    Reads cfg net s₀ (get_owners cfg n p) fun x => x = cfg.partitioner.get_owners (s₀.view n) p :=
  triple_get_owners (SameData.stable s₀) (fun _ => (SameData.stable s₀).assume _) fun _ hs => ⟨by rw [hs.view], hs⟩

omit [Key K] [Json V] in
theorem reads_get_member (m : NodeId) :
    Reads cfg net s₀ (get_member n m) fun x => x = (s₀.view n).get_member m :=
  triple_get_member (SameData.stable s₀) (fun _ => (SameData.stable s₀).assume _) fun _ hs => ⟨by rw [hs.view], hs⟩

theorem reads_route_get_internal (m : NodeId) (path : String) :
    Reads cfg net s₀ (route_get_internal (K := K) (V := V) cfg m path) fun r =>
      r = get_response cfg s₀ m path := by
  unfold route_get_internal get_response
  cases cfg.route path with
  | error status => exact reads_pure rfl
  | ok key_str =>
    simp only [handle_get_internal]
    cases (Key.from_str key_str : Except String K) with
    | error e => exact reads_pure rfl
    | ok k =>
      refine reads_bind (reads_lookup _ k) fun x hx => ?_
      rw [hx]
      exact reads_pure rfl

/-- The address that `n` has for `m` is where `m` listens. -/
def Addressed (cfg : MapConfig) (view : NodeId → MembershipService) (n m : NodeId) : Prop :=
  ∃ node, (view n).get_member m = some node ∧ cfg.host n node.http_addr = some m

/-- A fetch from a reachable node yields its answer, or fails if the network does. -/
theorem reads_fetch_remote {m : NodeId} (hreach : Addressed cfg s₀.view n m) (key : K) :
    Reads cfg net s₀ (fetch_remote cfg n m key) fun r =>
      r = read_response (get_response cfg s₀ m (Key.to_string key)) ∨ (net = .lossy ∧ ∃ e, r = .error e) := by
  obtain ⟨node, hnode, haddr⟩ := hreach
  refine reads_bind (reads_get_member m) fun o ho => ?_
  rw [ho, hnode]
  refine reads_bind (Q := fun r => r = .ok (get_response cfg s₀ m (Key.to_string key)) ∨
    (net = .lossy ∧ ∃ e, r = .error e)) ?_ fun r hr => ?_
  · have htarget : ∀ m', cfg.host n node.http_addr = some m' → m' = m := fun m' hm' => by
      rw [haddr] at hm'
      exact (Option.some.inj hm').symm
    refine triple_request (SameData.stable s₀) (fun _ => (SameData.stable s₀).assume _) htarget ?_ ?_ ?_ ?_
      (by decide)
    · exact fun s hs => ⟨⟨rfl, rfl⟩, hs.node, hs.view⟩
    · exact (reads_route_get_internal m _).post fun r s hs => ⟨.inl (by rw [hs.1]), hs.2⟩
    · intro hlost e s hs
      refine ⟨.inr ⟨hlost.resolve_left fun hnone => ?_, e, rfl⟩, hs⟩
      rw [haddr] at hnone
      cases hnone
    · exact fun _ => (reads_route_get_internal m _).post fun r s hs => hs.2
  · rcases hr with rfl | ⟨hnet, e, rfl⟩
    · exact reads_pure (.inl rfl)
    · exact reads_pure (.inr ⟨hnet, e, rfl⟩)

/-- Some of the asked nodes answer, over a reliable network all of them; the
first value counts. -/
theorem reads_fetch_first (hs : Agreed cfg ring s₀.view) (hn : n ∈ ring.ids) (key : K) {owners : List NodeId}
    (hm : ∀ m ∈ owners, m ∈ ring.ids) :
    Reads cfg net s₀ (fetch_first cfg n key owners) fun r =>
      ∃ asked, asked.Sublist owners ∧ (net = .reliable → asked = owners) ∧
        r = asked.findSome? (answer cfg s₀ key) := by
  induction owners with
  | nil => exact reads_pure ⟨[], .refl _, fun _ => rfl, rfl⟩
  | cons m owners ih =>
    have ih := ih fun m' hm' => hm m' (List.mem_cons_of_mem _ hm')
    refine reads_bind (reads_fetch_remote (hs.reach n hn m (hm m List.mem_cons_self)) key) fun r hr => ?_
    rcases hr with hr | ⟨hnet, e, rfl⟩
    · -- the node answered: with a value, without one, or with an error of its own
      have ha : answer cfg s₀ key m = fetched r := by rw [hr, answer]
      have hnext : answer cfg s₀ key m = none → Reads cfg net s₀ (fetch_first cfg n key owners) fun r =>
          ∃ asked, asked.Sublist (m :: owners) ∧ (net = .reliable → asked = m :: owners) ∧
            r = asked.findSome? (answer cfg s₀ key) := by
        intro hnone
        refine reads_post ih ?_
        rintro r ⟨asked, hsub, hrel, rfl⟩
        exact ⟨m :: asked, hsub.cons_cons m, fun h => by rw [hrel h], by simp only [List.findSome?_cons, hnone]⟩
      cases r with
      | error e => exact hnext ha
      | ok x =>
        cases x with
        | none => exact hnext ha
        | some value =>
          refine reads_pure ⟨m :: owners, .refl _, fun _ => rfl, ?_⟩
          simp only [List.findSome?_cons, ha, fetched]
    · refine reads_post ih ?_
      rintro r ⟨asked, hsub, -, rfl⟩
      exact ⟨asked, hsub.cons m, fun h => absurd (h.symm.trans hnet) (by decide), rfl⟩

/-- The nodes a read at `n` asks when it has no copy itself. -/
def asks (cfg : MapConfig) (ring : NodeRing NodeId) (n : NodeId) (p : Nat) : List NodeId :=
  if (cfg.owners ring p).head? = some n then (cfg.owners ring p).tail else cfg.owners ring p

theorem mem_asks {m : NodeId} {p : Nat} (hm : m ∈ cfg.owners ring p) (hne : m ≠ n) : m ∈ asks cfg ring n p := by
  unfold asks
  split
  · rename_i hhead
    cases howners : cfg.owners ring p with
    | nil =>
      rw [howners] at hm
      cases hm
    | cons primary backups =>
      rw [howners, List.head?_cons, Option.some.injEq] at hhead
      rw [howners] at hm
      exact (List.mem_cons.1 hm).resolve_left fun he => hne (he.trans hhead)
  · exact hm

theorem mem_of_mem_asks {m : NodeId} {p : Nat} (h : m ∈ asks cfg ring n p) : m ∈ cfg.owners ring p := by
  unfold asks at h
  split at h
  · exact List.mem_of_mem_tail h
  · exact h

theorem reads_get (hs : Agreed cfg ring s₀.view) (hn : n ∈ ring.ids) (key : K) :
    Reads cfg net s₀ (get cfg n key) fun r =>
      ∃ asked, asked.Sublist (asks cfg ring n (cfg.partition_of key)) ∧
        (net = .reliable → asked = asks cfg ring n (cfg.partition_of key)) ∧
        r = (s₀.stored n (cfg.partition_of key) key).or (asked.findSome? (answer cfg s₀ key)) := by
  refine reads_bind (reads_lookup (cfg.partition_of key) key) fun x hx => ?_
  cases x with
  | some value => exact reads_pure ⟨_, .refl _, fun _ => rfl, by rw [← hx, Option.some_or]⟩
  | none =>
    rw [← hx]
    simp only [Option.none_or]
    refine reads_bind (reads_get_owners (cfg.partition_of key)) fun owners howners => ?_
    rw [hs.get_owners hn] at howners
    obtain ⟨primary, backups, hcons⟩ := MapConfig.owners_cons cfg hn (cfg.partition_of key)
    have hmem : ∀ m ∈ primary :: backups, m ∈ ring.ids := fun m hm => MapConfig.mem_of_mem_owners (hcons ▸ hm)
    rw [howners, hcons]
    simp only [asks, hcons, List.head?_cons, Option.some.injEq, List.tail_cons]
    split
    · exact reads_fetch_first hs hn key fun m hm => hmem m (List.mem_cons_of_mem _ hm)
    · exact reads_fetch_first hs hn key hmem

omit [Key K] [Json V] in
/-- Whatever the views and the network, an answered request was answered by some node. -/
theorem reads_request_any {ρ : Type} {addr : SocketAddr} {req : Request} {serve : NodeId → MapM K V ρ} {response : NodeId → ρ}
    (hserve : ∀ m, Reads cfg net s₀ (serve m) fun x => x = response m) :
    Reads cfg net s₀ (request n addr req serve 3) fun r => ∀ x, r = .ok x → ∃ m, x = response m := by
  have hstable : ∀ φ : Prop, Stable SameData fun s => φ ∧ SameData s₀ s := fun φ => (SameData.stable s₀).assume φ
  have hone : ∀ i, Triple (MapSem cfg net) SameData SameData (SameData s₀) (attempt (send n addr req i) serve) fun r s =>
      (∀ x, r = some x → ∃ m, x = response m) ∧ SameData s₀ s := by
    intro i
    refine Triple.attempt (A := fun _ => SameData s₀) (fun _ => hstable _) ?_ ?_ ?_ ?_
    · refine Triple.perform (SameData.stable s₀) (fun _ => SameData.stable s₀) fun s f s' hs hact => ?_
      obtain ⟨-, rfl⟩ := hact
      exact ⟨⟨rfl, rfl⟩, hs.node, hs.view⟩
    · exact fun s hs => ⟨fun x hx => (by cases hx), hs⟩
    · exact fun m => (hserve m).post fun _ s hs => ⟨fun x hx => (by cases hx), hs.2⟩
    · exact fun m => (hserve m).post fun r s hs => ⟨fun x hx => ⟨m, Option.some.inj hx ▸ hs.1⟩, hs.2⟩
  refine Triple.retry (N := SameData s₀) (fun _ => hstable _) (fun i => (hone i).post fun r s hs => ?_) (fun _ hs => hs) ?_
    (Nat.zero_lt_succ 2)
  · cases r with
    | some response' => exact ⟨fun x hx => hs.1 x (congrArg some (Except.ok.inj hx)), hs.2⟩
    | none => exact hs.2
  · exact fun e s hs => ⟨fun x hx => (by cases hx), hs⟩

theorem reads_fetch_remote_any (m : NodeId) (key : K) :
    Reads cfg net s₀ (fetch_remote cfg n m key) fun r => ∀ v, r = .ok (some v) → ∃ m', answer cfg s₀ key m' = some v := by
  refine reads_bind (reads_get_member m) fun o _ => ?_
  cases o with
  | none => exact reads_pure fun v hv => by cases hv
  | some node =>
    refine reads_bind (reads_request_any fun m' => reads_route_get_internal m' _) fun r hr => ?_
    cases r with
    | error e => exact reads_pure fun v hv => by cases hv
    | ok response =>
      obtain ⟨m', rfl⟩ := hr response rfl
      exact reads_pure fun v hv => ⟨m', by rw [answer, hv, fetched]⟩

theorem reads_fetch_first_any (key : K) (owners : List NodeId) :
    Reads cfg net s₀ (fetch_first cfg n key owners) fun r => ∀ v, r = some v → ∃ m, answer cfg s₀ key m = some v := by
  induction owners with
  | nil => exact reads_pure fun v hv => by cases hv
  | cons owner owners ih =>
    refine reads_bind (reads_fetch_remote_any owner key) fun r hr => ?_
    split
    · rename_i value
      exact reads_pure fun v hv => hr v (by rw [Option.some.inj hv])
    · exact ih

/-- A value that is read is the node's own, or the answer of some node. -/
theorem reads_get_any (key : K) :
    Reads cfg net s₀ (get cfg n key) fun r =>
      ∀ v, r = some v → s₀.stored n (cfg.partition_of key) key = some v ∨ ∃ m, answer cfg s₀ key m = some v := by
  refine reads_bind (reads_lookup (cfg.partition_of key) key) fun x hx => ?_
  cases x with
  | some value => exact reads_pure fun v hv => .inl (hx.symm.trans hv)
  | none =>
    refine reads_bind (reads_get_owners (cfg.partition_of key)) fun owners _ => ?_
    cases owners with
    | nil => exact reads_pure fun v hv => by cases hv
    | cons primary_owner backups =>
      dsimp only
      split
      · exact reads_post (reads_fetch_first_any key backups) fun r hr v hv => .inr (hr v hv)
      · exact reads_post (reads_fetch_first_any key (primary_owner :: backups)) fun r hr v hv => .inr (hr v hv)

theorem got {key : K} {r : Option V} {s' : MapCluster K V} (h : Runs (MapSem cfg net) Eq (get cfg n key) s₀ r s') :
    (∀ v, r = some v → s₀.stored n (cfg.partition_of key) key = some v ∨ ∃ m, answer cfg s₀ key m = some v) ∧
      SameData s₀ s' := by
  have h' : Runs (MapSem cfg net) SameData (get cfg n key) s₀ r s' := h.alone
  exact (reads_get_any key).runs (refl s₀) h'

/-- What a read at `n` yields when everybody answers. -/
def read_value (cfg : MapConfig) (ring : NodeRing NodeId) (s : MapCluster K V) (n : NodeId) (key : K) : Option V :=
  (s.stored n (cfg.partition_of key) key).or ((asks cfg ring n (cfg.partition_of key)).findSome? (answer cfg s key))

theorem get_returns (hs : Agreed cfg ring s₀.view) (hn : n ∈ ring.ids) {key : K} {r : Option V} {s' : MapCluster K V}
    (h : Runs (MapSem cfg .reliable) Eq (get cfg n key) s₀ r s') :
    r = read_value cfg ring s₀ n key ∧ SameData s₀ s' := by
  have h' : Runs (MapSem cfg .reliable) SameData (get cfg n key) s₀ r s' := h.alone
  obtain ⟨⟨asked, -, hasked, rfl⟩, hdata⟩ := (reads_get hs hn key).runs (refl s₀) h'
  exact ⟨by rw [hasked rfl, read_value], hdata⟩

theorem SameData.answer {s s' : MapCluster K V} (h : SameData s s') (key : K) (m : NodeId) :
    answer cfg s' key m = answer cfg s key m := by
  simp only [DistributedMap.answer, get_response, h.stored]

theorem SameData.read_value {s s' : MapCluster K V} (h : SameData s s') (key : K) :
    read_value cfg ring s' n key = read_value cfg ring s n key := by
  have hanswer : DistributedMap.answer cfg s' key = DistributedMap.answer cfg s key := funext (h.answer key)
  simp only [DistributedMap.read_value, h.stored, hanswer]

end Reads

/-! ## While some nodes answer -/

section Requests

variable {fate : NodeId → SocketAddr → Fate NodeId} {n m : NodeId} {addr : SocketAddr} {ρ : Type}

omit [Key K] [Json V] in
theorem exec_request_lost (h : fate n addr = .lost) (req : Request) (serve : NodeId → MapM K V ρ) (s : MapCluster K V) :
    ∃ sent, exec (MapInt fate) (request n addr req serve 3) s = (.error .request, { s with sent }) := by
  have hsend : ∀ (i : Nat) (s : MapCluster K V), exec (MapInt fate) (send n addr req i) s = (.lost, s.send n addr req) :=
    fun i s => by
      rw [← h]
      rfl
  have hattempt : ∀ i (s : MapCluster K V), exec (MapInt fate) (attempt (send n addr req i) serve) s =
      (none, s.send n addr req) := fun i s => by
    rw [attempt, exec_bind, hsend]
    rfl
  have hleft : ∀ left (s : MapCluster K V), ∃ sent,
      exec (MapInt fate) (retryLeft (send n addr req) serve 3 (left + 1)) s = (.error .request, { s with sent }) := by
    intro left
    induction left with
    | zero =>
      intro s
      rw [retryLeft, exec_bind, hattempt]
      exact ⟨_, rfl⟩
    | succ left ih =>
      intro s
      rw [retryLeft, exec_bind, hattempt]
      exact ih (s.send n addr req)
  exact hleft 2 s

omit [Key K] [Json V] in
theorem exec_request_replied (h : fate n addr = .replied m) (req : Request) (serve : NodeId → MapM K V ρ)
    (s : MapCluster K V) (attempts : Nat) :
    exec (MapInt fate) (request n addr req serve (attempts + 1)) s =
      (.ok (exec (MapInt fate) (serve m) (s.send n addr req)).1, (exec (MapInt fate) (serve m) (s.send n addr req)).2) := by
  have hsend : ∀ (i : Nat) (s : MapCluster K V), exec (MapInt fate) (send n addr req i) s = (.replied m, s.send n addr req) :=
    fun i s => by
      rw [← h]
      rfl
  simp only [request, retry, retryLeft, attempt, exec_bind, hsend]
  rfl

end Requests

section Answers

variable {cfg : MapConfig} {ring : NodeRing NodeId} {s : MapCluster K V} {n : NodeId}

theorem exec_route_get_internal (fate : NodeId → SocketAddr → Fate NodeId) (m : NodeId) (path : String) :
    exec (MapInt fate) (route_get_internal (K := K) (V := V) cfg m path) s = (get_response cfg s m path, s) := by
  unfold route_get_internal get_response
  cases cfg.route path with
  | error status => rfl
  | ok key_str =>
    simp only [handle_get_internal]
    cases (Key.from_str key_str : Except String K) with
    | error e => rfl
    | ok k => rfl

theorem exec_fetch_remote (hs : Agreed cfg ring s.view) (hn : n ∈ ring.ids) {m : NodeId} (hm : m ∈ ring.ids) (key : K)
    (up : NodeId → Bool) :
    ∃ sent, exec (MapInt (heard cfg up)) (fetch_remote cfg n m key) s =
      (if up m then read_response (get_response cfg s m (Key.to_string key)) else .error .request, { s with sent }) := by
  obtain ⟨node, hnode, haddr⟩ := hs.reach n hn m hm
  have hmember : exec (MapInt (heard cfg up)) (get_member (K := K) (V := V) n m) s = (some node, s) := by
    rw [← hnode]
    rfl
  simp only [fetch_remote, exec_bind, hmember]
  by_cases hup : up m
  · have hfate : heard cfg up n node.http_addr = .replied m := by simp [heard, haddr, hup]
    rw [exec_request_replied hfate, exec_route_get_internal, if_pos hup]
    exact ⟨_, rfl⟩
  · have hfate : heard cfg up n node.http_addr = .lost := by simp [heard, haddr, hup]
    obtain ⟨sent, hlost⟩ := exec_request_lost hfate (.get_internal (Key.to_string key))
      (fun m => route_get_internal (K := K) (V := V) cfg m (Key.to_string key)) s
    rw [hlost, if_neg hup]
    exact ⟨sent, rfl⟩

theorem exec_fetch_first (hs : Agreed cfg ring s.view) (hn : n ∈ ring.ids) (key : K) {owners : List NodeId}
    (hm : ∀ m ∈ owners, m ∈ ring.ids) (up : NodeId → Bool) :
    ∃ sent, exec (MapInt (heard cfg up)) (fetch_first cfg n key owners) s =
      ((owners.filter up).findSome? (answer cfg s key), { s with sent }) := by
  induction owners generalizing s with
  | nil => exact ⟨s.sent, rfl⟩
  | cons m owners ih =>
    obtain ⟨sent, hfetch⟩ := exec_fetch_remote hs hn (hm m List.mem_cons_self) key up
    obtain ⟨sent', hnext⟩ := ih (s := { s with sent }) hs fun m' hm' => hm m' (List.mem_cons_of_mem _ hm')
    have hdata : answer cfg { s with sent } key = answer cfg s key := rfl
    simp only [fetch_first, exec_bind, hfetch]
    by_cases hup : up m
    · have ha : answer cfg s key m = fetched (read_response (get_response cfg s m (Key.to_string key))) := rfl
      simp only [hup, List.filter_cons, if_true, List.findSome?_cons, ha]
      rcases read_response (get_response cfg s m (Key.to_string key)) with e | (_ | value)
      · exact ⟨sent', hnext⟩
      · exact ⟨sent', hnext⟩
      · exact ⟨sent, rfl⟩
    · simp only [hup, List.filter_cons]
      exact ⟨sent', hnext⟩

/-- A read while exactly the nodes `up` answer. -/
theorem exec_get (hs : Agreed cfg ring s.view) (hn : n ∈ ring.ids) (key : K) (up : NodeId → Bool) :
    ∃ sent, exec (MapInt (heard cfg up)) (get cfg n key) s =
      ((s.stored n (cfg.partition_of key) key).or
        (((asks cfg ring n (cfg.partition_of key)).filter up).findSome? (answer cfg s key)), { s with sent }) := by
  have hlookup : exec (MapInt (heard cfg up)) (lookup n (cfg.partition_of key) key) s =
      (s.stored n (cfg.partition_of key) key, s) := rfl
  have howners : exec (MapInt (heard cfg up)) (get_owners (K := K) (V := V) cfg n (cfg.partition_of key)) s =
      (cfg.owners ring (cfg.partition_of key), s) := by
    rw [← hs.get_owners hn]
    rfl
  obtain ⟨primary, backups, hcons⟩ := MapConfig.owners_cons cfg hn (cfg.partition_of key)
  have hmem : ∀ m ∈ primary :: backups, m ∈ ring.ids := fun m hm => MapConfig.mem_of_mem_owners (hcons ▸ hm)
  change ∃ sent, exec _ (lookup n (cfg.partition_of key) key >>= _) s = _
  rw [exec_bind, hlookup]
  cases s.stored n (cfg.partition_of key) key with
  | some value => exact ⟨s.sent, rfl⟩
  | none =>
    change ∃ sent, exec _ (get_owners cfg n (cfg.partition_of key) >>= _) s = _
    rw [exec_bind, howners, hcons]
    simp only [asks, hcons, List.head?_cons, Option.some.injEq, List.tail_cons, Option.none_or]
    split
    · exact exec_fetch_first hs hn key (fun m hm => hmem m (List.mem_cons_of_mem _ hm)) up
    · exact exec_fetch_first hs hn key hmem up

/-- What a read at `n` may find while requests get lost: its own copy, or else
any copy that it would ask for. -/
def Findable (cfg : MapConfig) (ring : NodeRing NodeId) (s : MapCluster K V) (n : NodeId) (key : K) (value : V) : Prop :=
  s.stored n (cfg.partition_of key) key = some value ∨
    s.stored n (cfg.partition_of key) key = none ∧
      ∃ m ∈ asks cfg ring n (cfg.partition_of key), answer cfg s key m = some value

theorem findable_iff (hs : Agreed cfg ring s.view) (hn : n ∈ ring.ids) (key : K) (value : V) :
    (∃ s', Runs (MapSem cfg .lossy) Eq (get cfg n key) s (some value) s') ↔ Findable cfg ring s n key value := by
  constructor
  · rintro ⟨s', hrun⟩
    obtain ⟨⟨asked, hsub, -, hr⟩, -⟩ := (reads_get hs hn key).runs (refl s) hrun.alone
    cases hstored : s.stored n (cfg.partition_of key) key with
    | some v =>
      rw [hstored, Option.some_or] at hr
      exact .inl (hstored.trans hr.symm)
    | none =>
      rw [hstored, Option.none_or] at hr
      obtain ⟨m, hm, ha⟩ := List.exists_of_findSome?_eq_some hr.symm
      exact .inr ⟨hstored, m, hsub.subset hm, ha⟩
  · intro hfind
    have hrun : ∀ up, Runs (MapSem cfg .lossy) Eq (get cfg n key) s _ _ := fun up =>
      exec_runs (MapInt_sem (allows_heard up)) (get cfg n key) s
    rcases hfind with hstored | ⟨hnone, m, hm, ha⟩
    · obtain ⟨sent, hget⟩ := exec_get hs hn key fun _ => false
      have h := hrun fun _ => false
      rw [hget, hstored, Option.some_or] at h
      exact ⟨_, h⟩
    · -- the request to `m` is the only one that is answered
      obtain ⟨sent, hget⟩ := exec_get hs hn key fun m' => decide (m' = m)
      have h := hrun fun m' => decide (m' = m)
      have hfirst : ((asks cfg ring n (cfg.partition_of key)).filter fun m' => decide (m' = m)).findSome?
          (answer cfg s key) = some value := by
        rw [List.filter_eq, List.findSome?_replicate_of_pos (List.count_pos_iff.2 hm), ha]
      rw [hget, hnone, Option.none_or, hfirst] at h
      exact ⟨_, h⟩

end Answers

end DistributedMap
