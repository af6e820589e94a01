import DistributedCluster.Lib.Logging
import DistributedCluster.Storage.Conduct
import DistributedCluster.Storage.Sync
/-!
# Writes beside anti-entropy

A backup applies what it has pulled whatever has been written since. As long as
it applies only what the primary still holds, or what it holds itself, no copy
goes back to an earlier value.
-/

namespace DistributedMap

open Async

variable {K V : Type} [DecidableEq K] [Key K] [Json V]

/-! ## One put after the other -/

/-- The cluster, the values that primaries have stored, the last one first, and
the put that runs. -/
structure Putting (K V : Type) where
  cluster : MapCluster K V
  history : List (K × V)
  current : MapM K V (Result Unit)

/-- The value of the last put. -/
def last_put (history : List (K × V)) (key : K) : Option V := (history.find? fun e => e.1 = key).map Prod.snd

omit [Key K] [Json V] in
theorem last_put_cons (k : K) (v : V) (history : List (K × V)) (key : K) :
    last_put ((k, v) :: history) key = if k = key then some v else last_put history key := by
  unfold last_put
  by_cases h : k = key
  · simp [h]
  · simp [h]

omit [Key K] [Json V] in
/-- The last put stays the last, or a later one is. -/
theorem last_put_append {history : List (K × V)} {key : K} {v : V} (h : last_put history key = some v) (later : List (K × V)) :
    ∃ u, last_put (later ++ history) key = some u ∧ (u = v ∨ (key, u) ∈ later) := by
  induction later with
  | nil => exact ⟨v, h, .inl rfl⟩
  | cons e later ih =>
    obtain ⟨k, u⟩ := e
    rw [List.cons_append, last_put_cons]
    split
    · rename_i hk
      exact ⟨u, rfl, .inr (hk ▸ List.mem_cons_self)⟩
    · obtain ⟨u, hlast, hu⟩ := ih
      exact ⟨u, hlast, hu.imp id (List.mem_cons_of_mem _)⟩

/-- What a primary stores is a put. -/
def taken (cfg : MapConfig) (ring : NodeRing NodeId) : MapAct K V → List (K × V) → List (K × V)
  | .store_local n p key value, history =>
    if (cfg.owners ring p).head? = some n then (key, value) :: history else history
  | _, history => history

/-- The put takes its next action, or the next put starts at its primary. -/
inductive Writer (cfg : MapConfig) (net : Network) (ring : NodeRing NodeId) :
    Putting K V → Pool NodeId (MapI K V) (Result Unit) → Putting K V → Prop
  | act {s l e k x cluster} : s.current = .call e k → MapSem cfg net e s.cluster x cluster →
    Writer cfg net ring s l ⟨cluster, taken cfg ring e s.history, k x⟩
  | next {s l r n} (key : K) (value : V) : s.current = .done r → (cfg.owners ring (cfg.partition_of key)).head? = some n →
    Writer cfg net ring s l { s with current := put cfg n key value }

/-- A resync acts on the cluster. -/
def ResyncSem (cfg : MapConfig) (net : Network) : Sem (MapI K V) (Putting K V) := fun e s x s' =>
  MapSem cfg net e s.cluster x s'.cluster ∧ s'.history = s.history ∧ s'.current = s.current

/-- Runs of puts, one at a time, beside resyncs of all nodes at any time. -/
abbrev PutSteps (cfg : MapConfig) (net : Network) (ring : NodeRing NodeId) (S : Sem (MapI K V) (Putting K V)) :=
  Pool.Steps (fun _ : NodeId => S) (fun _ _ n p => p = sync_partitions cfg n) (Writer cfg net ring)

/-- What is applied is the copy of the node, or still that of the primary. -/
def Fresh (cfg : MapConfig) (ring : NodeRing NodeId) : (e : MapAct K V) → Putting K V → (MapI K V).Ans e → Prop
  | .store_local n p key value, s, _ => s.cluster.stored n p key = some value ∨
    ∃ primary, (cfg.owners ring p).head? = some primary ∧ s.cluster.stored primary p key = some value
  | _, _, _ => True

instance [DecidableEq V] (cfg : MapConfig) (ring : NodeRing NodeId) : (e : MapAct K V) → (s : Putting K V) →
    (x : (MapI K V).Ans e) → Decidable (Fresh cfg ring e s x)
  | .store_local n p key value, s, _ =>
    have : Decidable (∃ primary, (cfg.owners ring p).head? = some primary ∧ s.cluster.stored primary p key = some value) :=
      match h : (cfg.owners ring p).head? with
      | none => .isFalse (by simp)
      | some primary => decidable_of_iff (s.cluster.stored primary p key = some value) (by simp)
    inferInstanceAs (Decidable (_ ∨ _))
  | .contains_op .., _, _ => .isTrue trivial
  | .count_ops _, _, _ => .isTrue trivial
  | .clear_ops _, _, _ => .isTrue trivial
  | .insert_op .., _, _ => .isTrue trivial
  | .lookup .., _, _ => .isTrue trivial
  | .dump_partition .., _, _ => .isTrue trivial
  | .has_partition .., _, _ => .isTrue trivial
  | .membership _, _, _ => .isTrue trivial
  | .new_uuid _, _, _ => .isTrue trivial
  | .iterate .., _, _ => .isTrue trivial
  | .send .., _, _ => .isTrue trivial

/-! ## What a put may do -/

/-- A put stores its value at the primary first, and then only this. -/
def putting (cfg : MapConfig) (ring : NodeRing NodeId) : Discipline (MapI K V) (Option (K × V)) where
  may g
    | .store_local n p key value => p = cfg.partition_of key ∧
      (g = some (key, value) ∨ g = none ∧ (cfg.owners ring p).head? = some n)
    | _ => True
  gives _
    | .membership n, view => n ∈ ring.ids → ∀ p, cfg.partitioner.get_owners view p = cfg.owners ring p
    | _, _ => True
  next g
    | .store_local _ _ key value, _ => some (key, value)
    | _, _ => g

section Programs

variable {cfg : MapConfig} {ring : NodeRing NodeId} {g : Option (K × V)} {n : NodeId}

omit [DecidableEq K] [Json V] in
/-- Only storing is not free. -/
theorem free_act {e : MapAct K V} (he : ∀ n p key value, e ≠ .store_local n p key value) (g : Option (K × V)) :
    (putting cfg ring).Free (· = g) e := by
  rintro g' rfl
  cases e with
  | store_local n p key value => exact absurd rfl (he n p key value)
  | _ => exact ⟨trivial, fun _ _ => rfl⟩

omit [DecidableEq K] [Json V] in
theorem should_process_puts (n : NodeId) (op_id : String) :
    Obeys (putting (K := K) (V := V) cfg ring) (should_process n op_id) g fun _ g' => g' = g := by
  refine ((free_act (fun _ _ _ _ h => by cases h) g).obeys rfl).bind fun found g₁ h₁ => ?_
  cases found with
  | true => exact Obeys.pure h₁
  | false =>
    refine Obeys.bind (Q := fun _ g' => g' = g) ?_ fun _ g₂ h₂ => ?_
    · refine ((free_act (fun _ _ _ _ h => by cases h) g).obeys h₁).bind fun count g₂ h₂ => ?_
      split
      · exact (free_act (fun _ _ _ _ h => by cases h) g).obeys h₂
      · exact Obeys.pure h₂
    · exact ((free_act (fun _ _ _ _ h => by cases h) g).obeys h₂).bind fun _ _ h₃ => Obeys.pure h₃

omit [DecidableEq K] in
theorem replicate_all_puts {op_id : String} {key : K} {value : V} (backups : List NodeId) :
    Obeys (putting cfg ring) (replicate_all n (cfg.partition_of key) op_id key value backups) (some (key, value))
      fun _ g' => g' = some (key, value) := by
  refine obeys_replicate_all (free_act (fun _ _ _ _ h => by cases h) _)
    (fun _ _ _ => free_act (fun _ _ _ _ h => by cases h) _) (fun m g hg => ?_) rfl
  subst hg
  refine (should_process_puts m op_id).bind fun b g₁ h₁ => ?_
  subst h₁
  cases b with
  | false => exact Obeys.pure rfl
  | true =>
    refine Obeys.bind (Q := fun _ g' => g' = some (key, value)) ?_ fun _ _ h => Obeys.pure h
    exact Obeys.perform ⟨rfl, .inl rfl⟩ fun _ _ => rfl

omit [DecidableEq K] in
theorem put_puts {key : K} {value : V} (hn : (cfg.owners ring (cfg.partition_of key)).head? = some n) :
    Obeys (putting cfg ring) (put cfg n key value) none fun _ _ => True := by
  obtain ⟨backups, howners⟩ := List.head?_eq_some_iff.1 hn
  have hring : n ∈ ring.ids := MapConfig.mem_of_mem_owners (List.mem_of_mem_head? hn)
  refine ((free_act (fun _ _ _ _ h => by cases h) none).obeys rfl).bind fun op_id g₁ h₁ => ?_
  subst h₁
  refine (should_process_puts n op_id).bind fun b g₁ h₁ => ?_
  subst h₁
  cases b with
  | false => exact Obeys.pure trivial
  | true =>
    have hget : Obeys (putting (K := K) (V := V) cfg ring) (get_owners cfg n (cfg.partition_of key)) none
        fun owners g' => owners = n :: backups ∧ g' = none :=
      ⟨trivial, fun view h => ⟨(h hring _).trans howners, rfl⟩⟩
    refine hget.bind fun owners g₂ h₂ => ?_
    obtain ⟨rfl, rfl⟩ := h₂
    dsimp only
    rw [if_neg (not_not.2 rfl)]
    refine Obeys.bind (Q := fun _ g' => g' = some (key, value)) ?_ fun _ g₃ h₃ => ?_
    · exact Obeys.perform ⟨rfl, .inr ⟨rfl, hn⟩⟩ fun _ _ => rfl
    · subst h₃
      exact (replicate_all_puts backups).mono fun _ _ _ => trivial

end Programs

/-! ## Every step -/

variable {cfg : MapConfig} {net : Network} {ring : NodeRing NodeId} {s s' : MapCluster K V}
  {c c' : Putting K V × Pool NodeId (MapI K V) (Result Unit)} {key : K} {v : V}

omit [Key K] [Json V] in
/-- Every other action leaves what is stored alone. -/
theorem act_quiet {e : MapAct K V} {x : (MapI K V).Ans e} (he : ∀ n p key value, e ≠ .store_local n p key value)
    (h : MapSem cfg net e s x s') : s'.view = s.view ∧ ∀ n p k, s'.stored n p k = s.stored n p k := by
  cases e with
  | store_local n p key value => exact absurd rfl (he n p key value)
  | clear_ops n =>
    obtain rfl : s' = s.clear_ops n := h
    exact ⟨rfl, fun _ _ _ => MapCluster.stored_clear_ops _ _ _ _ _⟩
  | insert_op n op =>
    obtain rfl : s' = s.insert_op n op := h
    exact ⟨rfl, fun _ _ _ => MapCluster.stored_insert_op _ _ _ _ _ _⟩
  | _ =>
    obtain ⟨-, rfl⟩ := h
    exact ⟨rfl, fun _ _ _ => rfl⟩

/-- The primary of each key holds the value of its last put, also while it runs. -/
structure Led (cfg : MapConfig) (ring : NodeRing NodeId) (s : Putting K V) : Prop where
  view : Agreed cfg ring s.cluster.view
  primary : ∀ key n, (cfg.owners ring (cfg.partition_of key)).head? = some n →
    s.cluster.stored n (cfg.partition_of key) key = last_put s.history key
  writer : ∃ g, Obeys (putting cfg ring) s.current g (fun _ _ => True) ∧
    ∀ key value, g = some (key, value) → last_put s.history key = some value

/-- What a step makes of the history and of the copies of a key. -/
structure Moves (cfg : MapConfig) (s s' : Putting K V) : Prop where
  history : ∃ later, s'.history = later ++ s.history
  stored : ∀ n key, s'.cluster.stored n (cfg.partition_of key) key = s.cluster.stored n (cfg.partition_of key) key ∨
    s'.cluster.stored n (cfg.partition_of key) key = last_put s'.history key

variable {t t' : Putting K V}

omit [Json V] in
/-- Copies may change to what the primary has. -/
theorem led_resynced (h : Led cfg ring t) (hview : t'.cluster.view = t.cluster.view) (hhistory : t'.history = t.history)
    (hwriter : ∃ g, Obeys (putting cfg ring) t'.current g (fun _ _ => True) ∧
      ∀ key value, g = some (key, value) → last_put t.history key = some value)
    (hstored : ∀ n key, t'.cluster.stored n (cfg.partition_of key) key = t.cluster.stored n (cfg.partition_of key) key ∨
      t'.cluster.stored n (cfg.partition_of key) key = last_put t.history key) : Led cfg ring t' ∧ Moves cfg t t' := by
  refine ⟨⟨hview ▸ h.view, fun key n hn => ?_, ?_⟩, ⟨[], by rw [hhistory, List.nil_append]⟩, fun n key => ?_⟩
  · rw [hhistory]
    rcases hstored n key with hsame | hlast
    · exact hsame.trans (h.primary key n hn)
    · exact hlast
  · rw [hhistory]
    exact hwriter
  · rw [hhistory]
    exact hstored n key

omit [Json V] in
/-- The first store of a put is at the primary. -/
theorem led_store_primary (h : Led cfg ring t) {n : NodeId} {value : V} {current : MapM K V (Result Unit)}
    (hn : (cfg.owners ring (cfg.partition_of key)).head? = some n)
    (hrest : Obeys (putting cfg ring) current (some (key, value)) fun _ _ => True) :
    Led cfg ring ⟨t.cluster.store_local n (cfg.partition_of key) key value, (key, value) :: t.history, current⟩ ∧
      Moves cfg t ⟨t.cluster.store_local n (cfg.partition_of key) key value, (key, value) :: t.history, current⟩ := by
  have hother : ∀ m key', ¬ (m = n ∧ key' = key) →
      (t.cluster.store_local n (cfg.partition_of key) key value).stored m (cfg.partition_of key') key' =
        t.cluster.stored m (cfg.partition_of key') key' := by
    intro m key' hne
    rw [MapCluster.stored_store_local, if_neg fun he => hne ⟨he.1, he.2.2⟩]
  have hself : (t.cluster.store_local n (cfg.partition_of key) key value).stored n (cfg.partition_of key) key =
      some value := by
    rw [MapCluster.stored_store_local, if_pos ⟨rfl, rfl, rfl⟩]
  refine ⟨⟨h.view, fun key' m hm => ?_, _, hrest, fun key' value' hg' => ?_⟩, ⟨[(key, value)], rfl⟩, fun m key' => ?_⟩
  · rw [last_put_cons]
    by_cases hk' : key = key'
    · subst hk'
      rw [hn] at hm
      cases hm
      rw [if_pos rfl]
      exact hself
    · rw [if_neg hk']
      exact (hother m key' fun he => hk' he.2.symm).trans (h.primary key' m hm)
  · cases hg'
    rw [last_put_cons, if_pos rfl]
  · rw [last_put_cons]
    by_cases hsame : m = n ∧ key' = key
    · obtain ⟨rfl, rfl⟩ := hsame
      rw [if_pos rfl]
      exact .inr hself
    · exact .inl (hother m key' hsame)

omit [Json V] in
/-- A put stores at the primary first, and then what the primary has. -/
theorem led_put (h : Led cfg ring t) {e : MapAct K V} {k : (MapI K V).Ans e → MapM K V (Result Unit)}
    {x : (MapI K V).Ans e} (hcurrent : t.current = .call e k) (hact : MapSem cfg net e t.cluster x s') :
    Led cfg ring ⟨s', taken cfg ring e t.history, k x⟩ ∧ Moves cfg t ⟨s', taken cfg ring e t.history, k x⟩ := by
  obtain ⟨g, hobeys, hg⟩ := h.writer
  rw [hcurrent] at hobeys
  obtain ⟨hmay, hk⟩ := hobeys
  cases e with
  | store_local n p key value =>
    obtain rfl : s' = t.cluster.store_local n p key value := hact
    obtain ⟨rfl, hmay⟩ := hmay
    have hrest : Obeys (putting cfg ring) (k x) (some (key, value)) fun _ _ => True := hk x trivial
    by_cases hn : (cfg.owners ring (cfg.partition_of key)).head? = some n
    · have htaken : taken cfg ring (.store_local n (cfg.partition_of key) key value) t.history = (key, value) :: t.history :=
        if_pos hn
      rw [htaken]
      exact led_store_primary h hn hrest
    · -- then the primary has stored it before
      have hlast := hg key value (hmay.resolve_right fun h => hn h.2)
      have htaken : taken cfg ring (.store_local n (cfg.partition_of key) key value) t.history = t.history := if_neg hn
      rw [htaken]
      refine led_resynced h rfl rfl ⟨_, hrest, fun key' value' hg' => ?_⟩ fun m key' => ?_
      · cases hg'
        exact hlast
      · dsimp only
        rw [MapCluster.stored_store_local]
        split
        · rename_i hsame
          obtain ⟨-, -, rfl⟩ := hsame
          exact .inr hlast.symm
        · exact .inl rfl
  | membership n =>
    obtain ⟨rfl, rfl⟩ := hact
    exact led_resynced h rfl rfl ⟨g, hk _ fun hn => h.view.get_owners hn, hg⟩ fun _ _ => .inl rfl
  | _ =>
    obtain ⟨hview, hstored⟩ := act_quiet (fun _ _ _ _ h => by cases h) hact
    exact led_resynced h hview rfl ⟨g, hk x trivial, hg⟩ fun n key => .inl (hstored n _ key)

omit [Json V] in
/-- A fresh copy is the node's, or the primary's. -/
theorem led_resync (h : Led cfg ring t) {e : MapAct K V} {x : (MapI K V).Ans e}
    (hact : ((ResyncSem cfg net).restrict (Fresh cfg ring)) e t x t') : Led cfg ring t' ∧ Moves cfg t t' := by
  obtain ⟨⟨hact, hhistory, hcurrent⟩, hfresh⟩ := hact
  have hwriter : ∃ g, Obeys (putting cfg ring) t'.current g (fun _ _ => True) ∧
      ∀ key value, g = some (key, value) → last_put t.history key = some value := hcurrent ▸ h.writer
  by_cases he : ∀ n p key value, e ≠ .store_local n p key value
  · obtain ⟨hview, hstored⟩ := act_quiet he hact
    exact led_resynced h hview hhistory hwriter fun n key => .inl (hstored n _ key)
  · simp only [not_forall, not_not] at he
    obtain ⟨n, p, key, value, rfl⟩ := he
    have hs' : t'.cluster = t.cluster.store_local n p key value := hact
    refine led_resynced h (by rw [hs']; rfl) hhistory hwriter fun m key' => ?_
    rw [hs', MapCluster.stored_store_local]
    split
    · rename_i hsame
      obtain ⟨rfl, rfl, rfl⟩ := hsame
      rcases hfresh with hown | ⟨primary, hprimary, hheld⟩
      · exact .inl hown.symm
      · exact .inr (hheld.symm.trans (h.primary key' primary hprimary))
    · exact .inl rfl

theorem led_step (h : Led cfg ring c.1)
    (hstep : Pool.Step (fun _ : NodeId => (ResyncSem cfg net).restrict (Fresh cfg ring)) (fun _ _ n p => p = sync_partitions cfg n)
      (Writer cfg net ring) c c') : Led cfg ring c'.1 ∧ Moves cfg c.1 c'.1 := by
  cases hstep with
  | run n e k x hact => exact led_resync h hact
  | retire => exact led_resynced h rfl rfl h.writer fun _ _ => .inl rfl
  | spawn => exact led_resynced h rfl rfl h.writer fun _ _ => .inl rfl
  | env s' hwriter =>
    cases hwriter with
    | act hcurrent hact => exact led_put h hcurrent hact
    | next key value _ hn => exact led_resynced h rfl rfl ⟨none, put_puts hn, fun _ _ hg => by cases hg⟩ fun _ _ => .inl rfl

theorem led_steps (h : Led cfg ring c.1) (hsteps : PutSteps cfg net ring ((ResyncSem cfg net).restrict (Fresh cfg ring)) c c') :
    Led cfg ring c'.1 := by
  induction hsteps with
  | refl => exact h
  | tail _ hstep ih => exact (led_step ih hstep).1

/-- Nothing has been put yet. -/
def Putting.empty (view : NodeId → MembershipService) : Putting K V := ⟨.empty view, [], .done (.ok ())⟩

omit [Json V] in
theorem led_empty {view : NodeId → MembershipService} (hview : Agreed cfg ring view) :
    Led cfg ring (Putting.empty view : Putting K V) :=
  ⟨hview, fun _ _ _ => rfl, none, trivial, fun _ _ hg => by cases hg⟩

/-- In every run in which resyncs apply only fresh copies, a node that holds the
value of the last put of a key holds from then on this value or that of a later
put. -/
theorem never_rolled_back {view : NodeId → MembershipService} (hview : Agreed cfg ring view)
    (hbefore : PutSteps cfg net ring ((ResyncSem cfg net).restrict (Fresh cfg ring)) (.empty view, []) c)
    (hput : last_put c.1.history key = some v) {o : NodeId} (hheld : c.1.cluster.stored o (cfg.partition_of key) key = some v)
    (hafter : PutSteps cfg net ring ((ResyncSem cfg net).restrict (Fresh cfg ring)) c c') :
    ∃ later, c'.1.history = later ++ c.1.history ∧
      (c'.1.cluster.stored o (cfg.partition_of key) key = some v ∨
        ∃ u, (key, u) ∈ later ∧ c'.1.cluster.stored o (cfg.partition_of key) key = some u) := by
  have hled := led_steps (led_empty hview) hbefore
  induction hafter with
  | refl => exact ⟨[], rfl, .inl hheld⟩
  | @tail c₁ c₂ hsteps hstep ih =>
    obtain ⟨later, hlater, hstored⟩ := ih
    obtain ⟨-, ⟨more, hmore⟩, hmoves⟩ := led_step (led_steps hled hsteps) hstep
    refine ⟨more ++ later, by rw [hmore, hlater, List.append_assoc], ?_⟩
    rcases hmoves o key with hsame | hlast
    · rw [hsame]
      exact hstored.imp id fun ⟨u, hu, h⟩ => ⟨u, List.mem_append_right _ hu, h⟩
    · -- the last put is the one of `v`, or a later one
      rw [hlast, hmore, hlater, ← List.append_assoc]
      obtain ⟨u, hu, hvalue⟩ := last_put_append hput (more ++ later)
      rw [hu]
      exact hvalue.imp (fun h => by rw [h]) fun h => ⟨u, h, rfl⟩

section Example

open CompactJson

/-- The put runs to its end while the resyncs wait. -/
theorem steps_put {S : Sem (MapI K V) (Putting K V)} {l : Pool NodeId (MapI K V) (Result Unit)} {p : MapM K V (Result Unit)}
    {r : Result Unit} {a b : MapCluster K V × List (K × V)} (h : Runs ((MapSem cfg net).logging (taken cfg ring)) Eq p a r b) :
    PutSteps cfg net ring S (⟨a.1, a.2, p⟩, l) (⟨b.1, b.2, .done r⟩, l) := by
  induction h with
  | done h => rw [h]
  | call h₁ h₂ _ ih =>
    obtain ⟨hact, hlog⟩ := h₂
    refine .head (.env _ (.act rfl (h₁ ▸ hact))) ?_
    rw [h₁, ← hlog]
    exact ih

/-- Every request is answered. -/
def PutInt : (e : MapAct String Bool) → MapCluster String Bool × List (String × Bool) →
    (MapI String Bool).Ans e × (MapCluster String Bool × List (String × Bool)) :=
  logged (I := MapI String Bool) (MapInt (answered pair_cfg)) (taken pair_cfg pair)

theorem PutInt_runs (p : MapM String Bool (Result Unit)) (a : MapCluster String Bool × List (String × Bool)) :
    Runs ((MapSem pair_cfg .reliable).logging (taken pair_cfg pair)) Eq p a (exec PutInt p a).1 (exec PutInt p a).2 :=
  exec_runs (logged_sem (I := MapI String Bool) (MapInt_sem (allows_answered .reliable)) (taken pair_cfg pair)) p a

/-- A resync starts with the last partition. -/
def ResyncInt : (e : MapAct String Bool) → Putting String Bool → (MapI String Bool).Ans e × Putting String Bool
  | .iterate _ set, s => (set.reverse, s)
  | e, s => ((MapInt (answered pair_cfg) e s.cluster).1, { s with cluster := (MapInt (answered pair_cfg) e s.cluster).2 })

theorem ResyncInt_sem (e : MapAct String Bool) (s : Putting String Bool) :
    ResyncSem pair_cfg .reliable e s (ResyncInt e s).1 (ResyncInt e s).2 := by
  cases e with
  | iterate n set => exact ⟨⟨set.reverse_perm, rfl⟩, rfl, rfl⟩
  | _ => exact ⟨MapInt_sem (allows_answered .reliable) _ s.cluster, rfl, rfl⟩

theorem resynced_advance (n : Nat) (p : MapM String Bool (Result Unit)) (s : Putting String Bool) :
    (advance ResyncInt n p s).2.history = s.history ∧ (advance ResyncInt n p s).2.current = s.current := by
  induction n generalizing p s with
  | zero => exact ⟨rfl, rfl⟩
  | succ n ih =>
    cases p with
    | done r => exact ⟨rfl, rfl⟩
    | call e k =>
      have hone : (ResyncInt e s).2.history = s.history ∧ (ResyncInt e s).2.current = s.current := by
        cases e <;> exact ⟨rfl, rfl⟩
      exact ⟨(ih _ _).1.trans hone.1, (ih _ _).2.trans hone.2⟩

abbrev PutPool := Putting String Bool × Pool NodeId (MapI String Bool) (Result Unit)

/-- A put at the primary of `"k"`, from its start to its end. -/
def run_put (value : Bool) (s : Putting String Bool) : Putting String Bool :=
  let a := exec PutInt (put pair_cfg node_a "k" value) (s.cluster, s.history)
  ⟨a.2.1, a.2.2, .done a.1⟩

/-- The put has returned `Ok`. -/
def put_ok : MapM String Bool (Result Unit) → Bool
  | .done (.ok _) => true
  | _ => false

theorem done_of_put_ok {p : MapM String Bool (Result Unit)} (h : put_ok p = true) : p = .done (.ok ()) := by
  unfold put_ok at h
  split at h
  · rfl
  · cases h

theorem run_put_done (value : Bool) (s : Putting String Bool) : ∃ r, (run_put value s).current = .done r := ⟨_, rfl⟩

theorem steps_run_put {S : Sem (MapI String Bool) (Putting String Bool)} (value : Bool) (s : Putting String Bool)
    (l : Pool NodeId (MapI String Bool) (Result Unit)) (hidle : ∃ r, s.current = .done r) :
    PutSteps pair_cfg .reliable pair S (s, l) (run_put value s, l) := by
  obtain ⟨r, hidle⟩ := hidle
  have hprimary : (pair_cfg.owners pair (pair_cfg.partition_of "k")).head? = some node_a := by decide +kernel
  exact .head (.env _ (.next "k" value hidle hprimary)) (steps_put (PutInt_runs _ (s.cluster, s.history)))

def first_done : Putting String Bool := run_put true (.empty (demo_view pair))

/-- The backup has fetched the partition and applied it. -/
def resynced : MapM String Bool (Result Unit) × Putting String Bool :=
  advance ResyncInt 542 (sync_partitions pair_cfg node_b) first_done

theorem copy_kept_by_resync : ∃ later, resynced.2.history = later ++ first_done.history ∧
    (resynced.2.cluster.stored node_b (pair_cfg.partition_of "k") "k" = some true ∨
      ∃ u, ("k", u) ∈ later ∧ resynced.2.cluster.stored node_b (pair_cfg.partition_of "k") "k" = some u) := by
  have hview : Agreed pair_cfg pair (demo_view pair) := agreed_demo 2 (by decide) (by decide)
  let S := (ResyncSem (K := String) (V := Bool) pair_cfg .reliable).restrict (Fresh pair_cfg pair)
  have hfirst : PutSteps pair_cfg .reliable pair S (.empty (demo_view pair), []) (first_done, []) :=
    steps_run_put true _ _ ⟨_, rfl⟩
  have hfresh : MeetsFor ResyncInt (Fresh pair_cfg pair) 542 (sync_partitions pair_cfg node_b) first_done := by decide +kernel
  have hresynced : PutSteps pair_cfg .reliable pair S (first_done, []) (resynced.2, [(node_b, resynced.1)]) :=
    .head (.spawn node_b _ rfl) (Pool.steps_advance_meets (S := fun _ : NodeId => S) rfl ResyncInt_sem hfresh [] [])
  have hput : last_put first_done.history "k" = some true ∧
      first_done.cluster.stored node_b (pair_cfg.partition_of "k") "k" = some true := by decide +kernel
  have hkept : ∀ d l, PutSteps pair_cfg .reliable pair S (first_done, []) (d, l) → ∃ later, d.history = later ++ first_done.history ∧
      (d.cluster.stored node_b (pair_cfg.partition_of "k") "k" = some true ∨
        ∃ u, ("k", u) ∈ later ∧ d.cluster.stored node_b (pair_cfg.partition_of "k") "k" = some u) :=
    fun _ _ hsteps => never_rolled_back (c := (first_done, [])) hview hfirst hput.1 hput.2 hsteps
  exact hkept _ _ hresynced

/-- The backup has fetched the partition and is about to apply it. -/
def snapshot : MapM String Bool (Result Unit) × Putting String Bool :=
  advance ResyncInt 541 (sync_partitions pair_cfg node_b) first_done

def second_done : Putting String Bool := run_put false snapshot.2

/-- The backup applies what it has fetched. -/
def applied : MapM String Bool (Result Unit) × Putting String Bool := advance ResyncInt 1 snapshot.1 second_done

/-- A copy fetched before the second put is applied after it. -/
theorem second_put_rolled_back :
    ¬ ∀ (cfg : MapConfig) (net : Network) (ring : NodeRing NodeId) (view : NodeId → MembershipService) (c c' : PutPool)
      (key : String) (v : Bool) (o : NodeId),
      Agreed cfg ring view → PutSteps cfg net ring (ResyncSem cfg net) (.empty view, []) c →
      c.1.current = .done (.ok ()) → last_put c.1.history key = some v →
      o ∈ cfg.owners ring (cfg.partition_of key) → c.1.cluster.stored o (cfg.partition_of key) key = some v →
      PutSteps cfg net ring (ResyncSem cfg net) c c' →
      ∃ later, c'.1.history = later ++ c.1.history ∧
        (c'.1.cluster.stored o (cfg.partition_of key) key = some v ∨
          ∃ u, (key, u) ∈ later ∧ c'.1.cluster.stored o (cfg.partition_of key) key = some u) := by
  intro h
  have hview : Agreed pair_cfg pair (demo_view pair) := agreed_demo 2 (by decide) (by decide)
  let S := ResyncSem (K := String) (V := Bool) pair_cfg .reliable
  have hfirst : PutSteps pair_cfg .reliable pair S (.empty (demo_view pair), []) (first_done, []) :=
    steps_run_put true _ _ ⟨_, rfl⟩
  have hsnapshot : PutSteps pair_cfg .reliable pair S (.empty (demo_view pair), []) (snapshot.2, [(node_b, snapshot.1)]) :=
    (hfirst.tail (.spawn node_b _ rfl)).trans
      (Pool.steps_advance (S := fun _ : NodeId => S) ResyncInt_sem 541 _ first_done [] [])
  have hidle : ∃ r, snapshot.2.current = .done r := by
    rw [snapshot, (resynced_advance 541 (sync_partitions pair_cfg node_b) first_done).2]
    exact run_put_done true _
  have hsecond : PutSteps pair_cfg .reliable pair S (.empty (demo_view pair), []) (second_done, [(node_b, snapshot.1)]) :=
    hsnapshot.trans (steps_run_put false snapshot.2 [(node_b, snapshot.1)] hidle)
  have happlied : PutSteps pair_cfg .reliable pair S (second_done, [(node_b, snapshot.1)]) (applied.2, [(node_b, applied.1)]) :=
    Pool.steps_advance (S := fun _ : NodeId => S) ResyncInt_sem 1 _ second_done [] []
  have hbackup : node_b ∈ pair_cfg.owners pair (pair_cfg.partition_of "k") := by decide +kernel
  have hend : put_ok second_done.current = true ∧ last_put second_done.history "k" = some false ∧
      second_done.cluster.stored node_b (pair_cfg.partition_of "k") "k" = some false ∧
      applied.2.cluster.stored node_b (pair_cfg.partition_of "k") "k" = some true := by decide +kernel
  obtain ⟨hok, hlast, hheld, hback⟩ := hend
  have hnever : ∀ d l d' l', PutSteps pair_cfg .reliable pair S (.empty (demo_view pair), []) (d, l) → d.current = .done (.ok ()) →
      last_put d.history "k" = some false → d.cluster.stored node_b (pair_cfg.partition_of "k") "k" = some false →
      PutSteps pair_cfg .reliable pair S (d, l) (d', l') → d'.history = d.history →
      d'.cluster.stored node_b (pair_cfg.partition_of "k") "k" = some false := by
    intro d l d' l' hsteps hdone hlast hheld hlater hsame
    obtain ⟨later, hhistory, hstored⟩ := h pair_cfg .reliable pair (demo_view pair) (d, l) (d', l') "k" false node_b hview hsteps
      hdone hlast hbackup hheld hlater
    dsimp only at hhistory hstored
    rw [hsame, List.self_eq_append_left] at hhistory
    rw [hhistory] at hstored
    simpa using hstored
  have hsame : applied.2.history = second_done.history := by
    rw [applied, (resynced_advance 1 snapshot.1 second_done).1]
  rw [hnever _ _ _ _ hsecond (done_of_put_ok hok) hlast hheld happlied hsame] at hback
  simp at hback

end Example

end DistributedMap
