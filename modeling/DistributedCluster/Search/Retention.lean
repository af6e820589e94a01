import DistributedCluster.Search.Interleaving
import DistributedCluster.Storage.Effects
/-!
# Index tasks over a lossy network

One task alone. A read that fails answers like a read of nothing, so the task
writes back a list made from what its own node keeps. That list lacks a book
exactly when the copy at the node does.
-/

namespace Search

open Async Executor DistributedMap

section

variable [Serde]

/-- No other book is taken from a posting list. -/
def Retains (cfg : MapConfig) (ring : NodeRing NodeId) (book_id : String) (s s' : IndexState) : Prop :=
  ∀ token, ∀ c ∈ postings cfg ring s token, c ≠ book_id → c ∈ postings cfg ring s' token

/-- The posting list of a token that node `n` has itself. -/
def local_ids (cfg : MapConfig) (n : NodeId) (s : IndexState) (token : String) : List String :=
  (s.index_map.stored n (cfg.partition_of token) token).getD []

/-- The copy at `n` has every other book of the token. -/
def Complete (cfg : MapConfig) (ring : NodeRing NodeId) (n : NodeId) (book_id : String) (s : IndexState)
    (token : String) : Prop :=
  ∀ c ∈ postings cfg ring s token, c ≠ book_id → c ∈ local_ids cfg n s token

variable {cfg : MapConfig} {ring : NodeRing NodeId} {n : NodeId} {book_id : String} {s s' : IndexState}

omit [Serde] in
theorem Retains.trans {s₁ : IndexState} (h : Retains cfg ring book_id s s₁) (h' : Retains cfg ring book_id s₁ s') :
    Retains cfg ring book_id s s' :=
  fun token c hc hne => h' token c (h token c hc hne) hne

/-! ## One token -/

theorem runs_index_tokens_cons {net : Network} {token : String} {tokens : List String} {r : Result Unit} :
    Runs (IndexSem cfg net) Eq (index_tokens n book_id (token :: tokens)) s r s' ↔
      ∃ x s₁ r₁ s₂, IndexSem cfg net (.index_get n token) s x s₁ ∧
        IndexSem cfg net (.index_put n token (push_book book_id (x.getD []))) s₁ r₁ s₂ ∧
        match r₁ with
        | .ok _ => Runs (IndexSem cfg net) Eq (index_tokens n book_id tokens) s₂ r s'
        | .error e => r = .error e ∧ s₂ = s' := by
  rw [index_tokens, runs_bind]
  simp only [runs_bind]
  constructor
  · rintro ⟨x, s₁, hget, r₁, s₂, hput, hrest⟩
    refine ⟨x, s₁, r₁, s₂, runs_perform.1 hget, runs_perform.1 hput, ?_⟩
    cases r₁ with
    | ok _ => exact hrest
    | error e => exact runs_pure.1 hrest
  · rintro ⟨x, s₁, r₁, s₂, hget, hput, hrest⟩
    refine ⟨x, s₁, runs_perform.2 hget, r₁, s₂, runs_perform.2 hput, ?_⟩
    cases r₁ with
    | ok _ => exact hrest
    | error e => exact runs_pure.2 hrest

/-- What reading and writing back one list does: at most the copies of the token
change, to a list that has the node's own copy and the book. -/
structure Rewrites (cfg : MapConfig) (n : NodeId) (book_id token : String) (s s' : IndexState) : Prop where
  view : s'.index_map.view = s.index_map.view
  others : ∀ t, t ≠ token → ∀ m, s'.index_map.stored m (cfg.partition_of t) t = s.index_map.stored m (cfg.partition_of t) t
  written : ∃ book_ids, local_ids cfg n s token ⊆ book_ids ∧ ∀ m,
    s'.index_map.stored m (cfg.partition_of token) token = s.index_map.stored m (cfg.partition_of token) token ∨
      s'.index_map.stored m (cfg.partition_of token) token = some (push_book book_id book_ids)

theorem rewrites_of_steps {net : Network} (hi : Agreed cfg ring s.index_map.view) (hn : n ∈ ring.ids) {token : String}
    {x : Option (List String)} {r : Result Unit} {s₁ : IndexState}
    (hget : IndexSem cfg net (.index_get n token) s x s₁)
    (hput : IndexSem cfg net (.index_put n token (push_book book_id (x.getD []))) s₁ r s') :
    Rewrites cfg n book_id token s s' := by
  obtain ⟨m₁, hread, rfl⟩ := hget
  obtain ⟨m₂, hwrite, rfl⟩ := hput
  obtain ⟨⟨asked, -, -, hx⟩, hdata⟩ := (reads_get hi hn token).runs (refl _) hread.alone
  have htouch := touched_of_put hwrite
  refine ⟨htouch.view.trans hdata.view, fun t ht m => ?_, x.getD [], ?_, fun m => ?_⟩
  · rcases htouch.stored m (cfg.partition_of t) t with h | ⟨-, h, -⟩
    · exact h.trans (hdata.stored m _ t)
    · exact absurd h ht
  · -- the local copy comes before anything remote
    unfold local_ids
    cases hlocal : s.index_map.stored n (cfg.partition_of token) token with
    | none => exact List.nil_subset _
    | some book_ids =>
      rw [hlocal, Option.some_or] at hx
      rw [hx]
      exact List.Subset.refl _
  · rcases htouch.stored m (cfg.partition_of token) token with h | ⟨-, -, h⟩
    · exact .inl (h.trans (hdata.stored m _ token))
    · exact .inr h

section Rewrites

variable {token : String} (h : Rewrites cfg n book_id token s s')

include h

omit [Serde] in
theorem Rewrites.retains (hcomplete : Complete cfg ring n book_id s token) : Retains cfg ring book_id s s' := by
  intro t c hc hne
  by_cases ht : t = token
  · subst ht
    obtain ⟨book_ids, hlocal, hwritten⟩ := h.written
    have hpushed : c ∈ push_book book_id book_ids := subset_push_book _ _ (hlocal (hcomplete c hc hne))
    unfold postings at hc ⊢
    cases hhead : (cfg.owners ring (cfg.partition_of t)).head? with
    | none =>
      rw [hhead] at hc
      cases hc
    | some primary =>
      rw [hhead, Option.bind_some] at hc
      rw [Option.bind_some]
      rcases hwritten primary with hsame | hnew
      · rw [hsame]
        exact hc
      · rw [hnew]
        exact hpushed
  · simpa only [postings, h.others t ht] using hc

omit [Serde] in
theorem Rewrites.postings_other {t : String} (ht : t ≠ token) : postings cfg ring s' t = postings cfg ring s t := by
  simp only [postings, h.others t ht]

omit [Serde] in
theorem Rewrites.complete_other {t : String} (ht : t ≠ token) (hcomplete : Complete cfg ring n book_id s t) :
    Complete cfg ring n book_id s' t := by
  unfold Complete local_ids
  rw [h.postings_other ht, h.others t ht]
  exact hcomplete

end Rewrites

/-! ## All tokens -/

theorem index_tokens_retains {net : Network} (hi : Agreed cfg ring s.index_map.view) (hn : n ∈ ring.ids)
    {tokens : List String} (hnd : tokens.Nodup) (hcomplete : ∀ token ∈ tokens, Complete cfg ring n book_id s token)
    {r : Result Unit} (hrun : Runs (IndexSem cfg net) Eq (index_tokens n book_id tokens) s r s') :
    Retains cfg ring book_id s s' := by
  induction tokens generalizing s with
  | nil =>
    obtain ⟨-, rfl⟩ := runs_pure.1 hrun
    exact fun _ _ hc _ => hc
  | cons token tokens ih =>
    obtain ⟨hnew, hnd⟩ := List.nodup_cons.1 hnd
    obtain ⟨x, s₁, r₁, s₂, hget, hput, hrest⟩ := runs_index_tokens_cons.1 hrun
    have hrw : Rewrites cfg n book_id token s s₂ := rewrites_of_steps hi hn hget hput
    have hfirst := hrw.retains (hcomplete token List.mem_cons_self)
    cases r₁ with
    | error e =>
      obtain ⟨-, rfl⟩ := hrest
      exact hfirst
    | ok _ =>
      refine hfirst.trans (ih (hrw.view ▸ hi) hnd (fun t ht => ?_) hrest)
      have hne : t ≠ token := fun he => hnew (he ▸ ht)
      exact hrw.complete_other hne (hcomplete t (List.mem_cons_of_mem _ ht))

/-- The lists of other tokens stay as they are. -/
theorem index_tokens_others {net : Network} (hi : Agreed cfg ring s.index_map.view) (hn : n ∈ ring.ids)
    {tokens : List String} {r : Result Unit}
    (hrun : Runs (IndexSem cfg net) Eq (index_tokens n book_id tokens) s r s') {t : String} (ht : t ∉ tokens) :
    postings cfg ring s' t = postings cfg ring s t := by
  induction tokens generalizing s with
  | nil =>
    obtain ⟨-, rfl⟩ := runs_pure.1 hrun
    rfl
  | cons token tokens ih =>
    rw [List.mem_cons, not_or] at ht
    obtain ⟨x, s₁, r₁, s₂, hget, hput, hrest⟩ := runs_index_tokens_cons.1 hrun
    have hrw : Rewrites cfg n book_id token s s₂ := rewrites_of_steps hi hn hget hput
    have hfirst : postings cfg ring s₂ t = postings cfg ring s t := hrw.postings_other ht.1
    cases r₁ with
    | error e =>
      obtain ⟨-, rfl⟩ := hrest
      exact hfirst
    | ok _ => exact (ih (hrw.view ▸ hi) hrest ht.2).trans hfirst

/-! ## When the reads fail -/

/-- The read of the list may fail while the write gets through. -/
theorem exists_rewrite (hi : Agreed cfg ring s.index_map.view) (hn : n ∈ ring.ids) (book_id token : String) :
    ∃ s₁ s₂, IndexSem cfg .lossy (.index_get n token) s (s.index_map.stored n (cfg.partition_of token) token) s₁ ∧
      IndexSem cfg .lossy (.index_put n token (push_book book_id (local_ids cfg n s token))) s₁ (.ok ()) s₂ ∧
      s₂.index_map.view = s.index_map.view ∧
      postings cfg ring s₂ token = push_book book_id (local_ids cfg n s token) := by
  obtain ⟨sent, hget⟩ := exec_get hi hn token fun _ => false
  have hread : Runs (MapSem cfg .lossy) Eq (get cfg n token) s.index_map _ _ :=
    exec_runs (MapInt_sem (allows_heard fun _ => false)) (get cfg n token) s.index_map
  rw [hget, List.filter_false, List.findSome?_nil, Option.or_none] at hread
  let m₁ : MapCluster String (List String) := { s.index_map with sent }
  obtain ⟨r, m₂, hwrite⟩ := Runs.total (R := Eq) (MapSem_total cfg .reliable)
    (put cfg n token (push_book book_id (local_ids cfg n s token))) m₁
  have hi₁ : Agreed cfg ring m₁.view := hi
  obtain ⟨rfl, op, hw⟩ := put_writes hi₁ hn hwrite
  have hpost := postings_of_writes (s := { s with index_map := m₁ }) hn hw token
  rw [if_pos rfl] at hpost
  exact ⟨{ s with index_map := m₁ }, { s with index_map := m₂ }, ⟨m₁, hread, rfl⟩,
    ⟨m₂, hwrite.of_sem MapSem_lossy, rfl⟩, hw.view, hpost⟩

/-! ## The task -/

theorem runs_index_document {net : Network} {unicode : Unicode} {payload : JsonValue}
    (hpayload : JsonPayload.from_value payload = .ok (IndexTaskPayload.mk book_id)) (handler : String) {r : Result Unit} :
    Runs (IndexSem cfg net) Eq (index_document unicode n (.Execute handler payload)) s r s' ↔
      ∃ x s₁, IndexSem cfg net (.datalake_get n book_id) s x s₁ ∧
        match x with
        | none => r = .ok () ∧ s₁ = s'
        | some doc => ∃ tokens, tokens.Perm (tokenize_text unicode doc.body) ∧
          Runs (IndexSem cfg net) Eq (index_tokens n book_id tokens) s₁ r s' := by
  simp only [index_document, hpayload]
  rw [runs_bind]
  constructor
  · rintro ⟨x, s₁, hget, hrest⟩
    refine ⟨x, s₁, runs_perform.1 hget, ?_⟩
    cases x with
    | none => exact runs_pure.1 hrest
    | some doc =>
      obtain ⟨tokens, s₂, hiterate, hrun⟩ := runs_bind.1 hrest
      obtain ⟨hperm, rfl⟩ := runs_perform.1 hiterate
      exact ⟨tokens, hperm, hrun⟩
  · rintro ⟨x, s₁, hget, hrest⟩
    refine ⟨x, s₁, runs_perform.2 hget, ?_⟩
    cases x with
    | none => exact runs_pure.2 hrest
    | some doc =>
      obtain ⟨tokens, hperm, hrun⟩ := hrest
      exact runs_bind.2 ⟨tokens, s₁, runs_perform.2 ⟨hperm, rfl⟩, hrun⟩

/-- A task takes no other book from a list, whatever gets lost, if and only if
for every document it may find, the node's own copies have all other books. -/
theorem retains_iff {unicode : Unicode} (hd : Agreed cfg ring s.datalake.view) (hi : Agreed cfg ring s.index_map.view)
    (hn : n ∈ ring.ids) {payload : JsonValue} (hpayload : JsonPayload.from_value payload = .ok (IndexTaskPayload.mk book_id))
    (handler : String) :
    (∀ r s', Runs (IndexSem cfg .lossy) Eq (index_document unicode n (.Execute handler payload)) s r s' →
        Retains cfg ring book_id s s') ↔
      ∀ doc, Findable cfg ring s.datalake n book_id doc →
        ∀ token ∈ tokenize_text unicode doc.body, Complete cfg ring n book_id s token := by
  constructor
  · intro h doc hfind token ht
    -- the list of `token` is read first, and that read fails
    obtain ⟨d, hread⟩ := (findable_iff hd hn book_id doc).2 hfind
    let s₀ : IndexState := { s with datalake := d }
    obtain ⟨s₁, s₂, hget, hput, hview, hpost⟩ := exists_rewrite (s := s₀) hi hn book_id token
    let others := (tokenize_text unicode doc.body).erase token
    obtain ⟨r, s₃, hrest⟩ := Runs.total (R := Eq) (IndexSem_total cfg .lossy) (index_tokens n book_id others) s₂
    have htokens : Runs (IndexSem cfg .lossy) Eq (index_tokens n book_id (token :: others)) s₀ r s₃ :=
      runs_index_tokens_cons.2 ⟨_, _, _, _, hget, hput, hrest⟩
    have hrun : Runs (IndexSem cfg .lossy) Eq (index_document unicode n (.Execute handler payload)) s r s₃ :=
      (runs_index_document hpayload handler).2
        ⟨some doc, s₀, ⟨d, hread, rfl⟩, _, (List.perm_cons_erase ht).symm, htokens⟩
    have hlast : postings cfg ring s₃ token = push_book book_id (local_ids cfg n s token) := by
      rw [index_tokens_others (hview ▸ hi) hn hrest ((tokenize_text_nodup unicode doc.body).not_mem_erase), hpost]
      rfl
    intro c hc hne
    have hkept := h r s₃ hrun token c hc hne
    rw [hlast] at hkept
    exact mem_of_mem_push_book hkept hne
  · intro h r s' hrun
    obtain ⟨x, s₁, ⟨d, hread, rfl⟩, hrest⟩ := (runs_index_document hpayload handler).1 hrun
    cases x with
    | none =>
      obtain ⟨-, rfl⟩ := hrest
      exact fun _ _ hc _ => hc
    | some doc =>
      obtain ⟨tokens, hperm, htokens⟩ := hrest
      have hfind := (findable_iff hd hn book_id doc).1 ⟨d, hread⟩
      have hnd : tokens.Nodup := hperm.nodup_iff.2 (tokenize_text_nodup unicode doc.body)
      exact index_tokens_retains (s := { s with datalake := d }) hi hn hnd
        (fun token ht => h doc hfind token (hperm.mem_iff.1 ht)) htokens

end

section Example

open CompactJson

/-- Two books with a token in common; node b owns neither the token nor the list. -/
def shelf : MapCluster String RawDocument :=
  (exec (MapInt (answered trio_cfg)) (do
    let _ ← put trio_cfg node_a "x" (document "x" "abc")
    put trio_cfg node_a "y" (document "y" "abc")) (MapCluster.empty (demo_view trio))).2

def unlisted : IndexState := ⟨shelf, MapCluster.empty (demo_view trio)⟩

/-- The reads of lists get lost. -/
def reads_lost : Fates
  | .index_get .. => all_lost
  | _ => answered trio_cfg

/-- The primary indexes book x. -/
def x_indexed : Result Unit × IndexState :=
  exec (IndexInt trio_cfg reads_lost) (index_document .ascii node_c (index_task "x")) unlisted

/-- Then node b indexes book y. -/
def y_indexed : Result Unit × IndexState :=
  exec (IndexInt trio_cfg reads_lost) (index_document .ascii node_b (index_task "y")) x_indexed.2

theorem agreed_trio : Agreed trio_cfg trio (demo_view trio) := agreed_demo 2 (by decide) (by decide)

theorem agreed_shelf : Agreed trio_cfg trio shelf.view := by
  rw [shelf, view_exec]
  exact agreed_trio

theorem agreed_x_indexed : Agreed trio_cfg trio x_indexed.2.datalake.view ∧ Agreed trio_cfg trio x_indexed.2.index_map.view := by
  rw [x_indexed, (views_exec trio_cfg reads_lost _ unlisted).1, (views_exec trio_cfg reads_lost _ unlisted).2]
  exact ⟨agreed_shelf, agreed_trio⟩

/-- The primary has its own copy of the list with book x, and indexes book y. -/
theorem retains_at_primary : "x" ∈ postings trio_cfg trio x_indexed.2 "abc" ∧
    ((∀ r s', Runs (IndexSem trio_cfg .lossy) Eq (index_document .ascii node_c (index_task "y")) x_indexed.2 r s' →
        Retains trio_cfg trio "y" x_indexed.2 s') ↔
      ∀ doc, Findable trio_cfg trio x_indexed.2.datalake node_c "y" doc →
        ∀ token ∈ tokenize_text .ascii doc.body, Complete trio_cfg trio node_c "y" x_indexed.2 token) :=
  ⟨by decide +kernel, retains_iff agreed_x_indexed.1 agreed_x_indexed.2 (by decide)
    (JsonPayload.from_value_to_value (IndexTaskPayload.mk "y")) "index_document"⟩

/-- Any number of tasks, one after the other. -/
abbrev Executions (cfg : MapConfig) (ring : NodeRing NodeId) (unicode : Unicode) : IndexState → IndexState → Prop :=
  Relation.ReflTransGen fun s s' => ∃ n ∈ ring.ids, ∃ book_id r,
    Runs (IndexSem cfg .lossy) Eq (index_document unicode n (index_task book_id)) s r s'

/-- Book x is listed, then the task for book y puts a list with only y there. -/
theorem posting_deleted :
    ¬ ∀ (cfg : MapConfig) (ring : NodeRing NodeId) (unicode : Unicode) (view : NodeId → MembershipService)
      (datalake : MapCluster String RawDocument) (s s' : IndexState) (n : NodeId) (book_id : String) (r : Result Unit),
      Agreed cfg ring datalake.view → Agreed cfg ring view → n ∈ ring.ids →
      Executions cfg ring unicode ⟨datalake, MapCluster.empty view⟩ s →
      Runs (IndexSem cfg .lossy) Eq (index_document unicode n (index_task book_id)) s r s' →
      Retains cfg ring book_id s s' := by
  intro h
  have hlossy : ∀ e n addr, Network.lossy.allows (trio_cfg.host n) addr (reads_lost e n addr) := by
    intro e n addr
    cases e with
    | index_get m token => exact allows_all_lost n addr
    | _ => exact allows_answered .lossy n addr
  have hint : ∀ e s, IndexSem trio_cfg .lossy e s (IndexInt trio_cfg reads_lost e s).1
      (IndexInt trio_cfg reads_lost e s).2 := IndexInt_sem hlossy
  have hx : Executions trio_cfg trio .ascii unlisted x_indexed.2 :=
    .single ⟨node_c, by decide, "x", x_indexed.1, exec_runs hint _ _⟩
  have hy : Runs (IndexSem trio_cfg .lossy) Eq (index_document .ascii node_b (index_task "y")) x_indexed.2
      y_indexed.1 y_indexed.2 := exec_runs hint _ _
  have hlisted : "x" ∈ postings trio_cfg trio x_indexed.2 "abc" := by decide +kernel
  have hkept := h trio_cfg trio .ascii (demo_view trio) shelf _ _ node_b "y" _ agreed_shelf agreed_trio (by decide) hx hy
    "abc" "x" hlisted (by decide)
  exact absurd hkept (by decide +kernel)

end Example

end Search
