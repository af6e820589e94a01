import DistributedCluster.Lib.Discipline
import DistributedCluster.Storage.Rules
/-!
# Disciplines of the map's programs

What a program that asks other nodes may do, if the handlers may do it there:
sending and looking at the view are free under most disciplines.
-/

namespace DistributedMap

open Async

variable {K V γ : Type} {D : Discipline (MapI K V) γ} {P : γ → Prop} {g : γ} {n : NodeId}

theorem obeys_get_owners {cfg : MapConfig} {p : Nat} (hmember : D.Free P (.membership n)) (hg : P g) :
    Obeys D (get_owners cfg n p) g fun _ => P :=
  (hmember.obeys hg).bind fun _ _ h => Obeys.pure h

theorem obeys_get_member {node_id : NodeId} (hmember : D.Free P (.membership n)) (hg : P g) :
    Obeys D (get_member n node_id) g fun _ => P :=
  (hmember.obeys hg).bind fun _ _ h => Obeys.pure h

theorem obeys_should_process {op_id : String} (hcontains : D.Free P (.contains_op n op_id)) (hcount : D.Free P (.count_ops n))
    (hclear : D.Free P (.clear_ops n)) (hinsert : D.Free P (.insert_op n op_id)) (hg : P g) :
    Obeys D (should_process n op_id) g fun _ => P := by
  refine (hcontains.obeys hg).bind fun found g₁ h₁ => ?_
  cases found with
  | true => exact Obeys.pure h₁
  | false =>
    refine Obeys.bind (Q := fun _ => P) ?_ fun _ g₂ h₂ => (hinsert.obeys h₂).bind fun _ _ h₃ => Obeys.pure h₃
    refine (hcount.obeys h₁).bind fun count g₂ h₂ => ?_
    split
    · exact hclear.obeys h₂
    · exact Obeys.pure h₂

theorem obeys_request {ρ : Type} {addr : SocketAddr} {req : Request} {serve : NodeId → MapM K V ρ}
    (hsend : ∀ i, D.Free P (.send n addr req i)) (hserve : ∀ m g, P g → Obeys D (serve m) g fun _ => P) (hg : P g)
    (attempts : Nat) : Obeys D (request n addr req serve attempts) g fun _ => P := by
  refine (Obeys.retry (P := P) (Q := fun _ _ => True) (fun i g hg => ?_) (fun m g hg => ?_) hg attempts).mono
    fun _ _ h => h.1
  · exact (hsend i).obeys hg
  · exact (hserve m g hg).mono fun _ _ h => ⟨h, trivial⟩

variable [Json V]

/-- The request that is sent carries the value as it was written. -/
theorem obeys_post_written {addr_of : NodeId} {not_found : String} {value : V} {make : String → Request}
    {serve : String → NodeId → MapM K V StatusCode} {failed : StatusCode → String} (hmember : D.Free P (.membership n))
    (hsend : ∀ addr value_json i, Json.to_json value = .ok value_json → D.Free P (.send n addr (make value_json) i))
    (hserve : ∀ value_json m g, Json.to_json value = .ok value_json → P g → Obeys D (serve value_json m) g fun _ => P)
    (hg : P g) : Obeys D (post_write n addr_of not_found value make serve failed) g fun _ => P := by
  refine (obeys_get_member hmember hg).bind fun node g₁ h₁ => ?_
  cases node with
  | none => exact Obeys.pure h₁
  | some node =>
    dsimp only
    split
    · exact Obeys.pure h₁
    · rename_i value_json hjson
      refine (obeys_request (fun i => hsend _ value_json i hjson) (fun m g hg => hserve value_json m g hjson hg) h₁ 3).bind
        fun r g₂ h₂ => ?_
      cases r with
      | error e => exact Obeys.pure h₂
      | ok status =>
        dsimp only
        split <;> exact Obeys.pure h₂

theorem obeys_post_write {addr_of : NodeId} {not_found : String} {value : V} {make : String → Request}
    {serve : String → NodeId → MapM K V StatusCode} {failed : StatusCode → String} (hmember : D.Free P (.membership n))
    (hsend : ∀ addr value_json i, D.Free P (.send n addr (make value_json) i))
    (hserve : ∀ value_json m g, Json.to_json value = .ok value_json → P g → Obeys D (serve value_json m) g fun _ => P)
    (hg : P g) : Obeys D (post_write n addr_of not_found value make serve failed) g fun _ => P :=
  obeys_post_written hmember (fun addr value_json i _ => hsend addr value_json i) hserve hg

variable [Key K]

/-- A handler parses what the sender printed. -/
theorem obeys_handle_write {key : K} {value : V} {value_json : String} {write : K → V → MapM K V (Result Unit)}
    (hjson : Json.to_json value = .ok value_json) (h : Obeys D (write key value) g fun _ => P) :
    Obeys D (handle_write (Key.to_string key) value_json write) g fun _ => P := by
  unfold handle_write
  rw [parse_write_ok hjson]
  refine h.bind fun r g₁ h₁ => ?_
  cases r <;> exact Obeys.pure h₁

theorem obeys_replicate_written {p : Nat} {op_id : String} {key : K} {value : V} {backups : List NodeId}
    (hmember : D.Free P (.membership n))
    (hsend : ∀ addr value_json i, Json.to_json value = .ok value_json →
      D.Free P (.send n addr (.replicate ⟨p, op_id, Key.to_string key, value_json⟩) i))
    (hstore : ∀ m g, P g → Obeys D (store_replica m p op_id key value) g fun _ => P) (hg : P g) :
    Obeys D (replicate_all n p op_id key value backups) g fun _ => P := by
  induction backups generalizing g with
  | nil => exact Obeys.pure hg
  | cons backup backups ih =>
    have hone : Obeys D (replicate_to_backup n backup p op_id key value) g fun _ => P :=
      obeys_post_written hmember hsend (fun value_json m g hjson hg => obeys_handle_write hjson (hstore m g hg)) hg
    refine hone.bind fun r g₁ h₁ => ?_
    cases r with
    | ok u => exact ih h₁
    | error e => exact Obeys.pure h₁

theorem obeys_replicate_all {p : Nat} {op_id : String} {key : K} {value : V} {backups : List NodeId}
    (hmember : D.Free P (.membership n))
    (hsend : ∀ addr value_json i, D.Free P (.send n addr (.replicate ⟨p, op_id, Key.to_string key, value_json⟩) i))
    (hstore : ∀ m g, P g → Obeys D (store_replica m p op_id key value) g fun _ => P) (hg : P g) :
    Obeys D (replicate_all n p op_id key value backups) g fun _ => P :=
  obeys_replicate_written hmember (fun addr value_json i _ => hsend addr value_json i) hstore hg

/-! ## Writes -/

/-- To a process with `P` the discipline `D` allows all that a write of the value
does on any node. -/
structure AllowsWrite (D : Discipline (MapI K V) γ) (P : γ → Prop) (p : Nat) (op_id : String) (key : K) (value : V) : Prop where
  member : ∀ n, D.Free P (.membership n)
  send : ∀ n addr req i, D.Free P (.send n addr req i)
  store : ∀ n, D.Free P (.store_local n p key value)
  check : ∀ n g, P g → Obeys D (should_process n op_id) g fun _ => P

namespace AllowsWrite

variable {cfg : MapConfig} {m : NodeId} {p : Nat} {op_id : String} {key : K} {value : V}

omit [Key K] [Json V] in
/-- What happens once it is known whether the operation is new. -/
theorem obeys_checked (h : AllowsWrite D P p op_id key value) {α : Type} {yes no : MapM K V α}
    (hyes : ∀ g, P g → Obeys D yes g fun _ => P) (hno : ∀ g, P g → Obeys D no g fun _ => P) (hg : P g) :
    Obeys D (do if ← should_process n op_id then yes else no) g fun _ => P := by
  refine (h.check n g hg).bind fun b g₁ h₁ => ?_
  cases b with
  | true => exact hyes g₁ h₁
  | false => exact hno g₁ h₁

omit [Key K] [Json V] in
theorem obeys_store_replica (h : AllowsWrite D P p op_id key value) (hg : P g) :
    Obeys D (store_replica n p op_id key value) g fun _ => P := by
  refine h.obeys_checked (fun g₁ h₁ => ?_) (fun g₁ h₁ => Obeys.pure h₁) hg
  exact ((h.store n).obeys h₁).bind fun _ _ h₂ => Obeys.pure h₂

theorem obeys_replicate_all (h : AllowsWrite D P p op_id key value) {backups : List NodeId} (hg : P g) :
    Obeys D (replicate_all n p op_id key value backups) g fun _ => P :=
  DistributedMap.obeys_replicate_all (h.member n) (fun _ _ _ => h.send n _ _ _) (fun _ _ hg => h.obeys_store_replica hg) hg

theorem obeys_store_as_primary (h : AllowsWrite D P p op_id key value) (hg : P g) :
    Obeys D (store_as_primary cfg n p op_id key value) g fun _ => P := by
  refine h.obeys_checked (fun g₁ h₁ => ?_) (fun g₁ h₁ => Obeys.pure h₁) hg
  refine ((h.store n).obeys h₁).bind fun _ g₂ h₂ => ?_
  exact (obeys_get_owners (h.member n) h₂).bind fun owners g₃ h₃ => h.obeys_replicate_all h₃

theorem obeys_forward_put (h : AllowsWrite D P p op_id key value) (hg : P g) :
    Obeys D (forward_put cfg n m p op_id key value) g fun _ => P :=
  obeys_post_write (h.member n) (fun _ _ _ => h.send n _ _ _)
    (fun _ _ _ hjson h₁ => obeys_handle_write hjson (h.obeys_store_as_primary h₁)) hg

theorem obeys_put_with_op (h : AllowsWrite D P (cfg.partitioner.get_partition (Key.to_string key)) op_id key value) (hg : P g) :
    Obeys D (put_with_op cfg n key value op_id) g fun _ => P := by
  refine h.obeys_checked (fun g₁ h₁ => ?_) (fun g₁ h₁ => Obeys.pure h₁) hg
  refine (obeys_get_owners (h.member n) h₁).bind fun owners g₂ h₂ => ?_
  have hstore : Obeys D (store_local n (cfg.partitioner.get_partition (Key.to_string key)) key value) g₂ fun _ => P :=
    (h.store n).obeys h₂
  cases owners with
  | nil => exact hstore.bind fun _ _ h₃ => Obeys.pure h₃
  | cons primary backups =>
    dsimp only
    split
    · exact h.obeys_forward_put h₂
    · exact hstore.bind fun _ _ h₃ => h.obeys_replicate_all h₃

end AllowsWrite

end DistributedMap
