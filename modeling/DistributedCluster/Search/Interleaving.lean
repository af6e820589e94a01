import DistributedCluster.Lib.Discipline
import DistributedCluster.Lib.Logging
import DistributedCluster.Search.Index
/-!
# Index tasks beside each other

Any number of index tasks runs on any nodes, operation by operation. A task
reads a posting list and later writes it back with its book in it; what others
wrote in between is lost. Nothing is lost where nobody writes a list between
the read and the write of another task, and no list is read from a stale copy.
-/

namespace Search

open Async Executor DistributedMap

/-- One execution: its number, the worker's node, the book and its document. -/
structure Job where
  id : Nat
  node : NodeId
  book_id : String
  document : RawDocument

section

variable [Serde]

section Runs

variable (cfg : MapConfig) (ring : NodeRing NodeId)

/-- All nodes agree on the members, for both maps. -/
def Settled (s : IndexState) : Prop := Agreed cfg ring s.datalake.view ∧ Agreed cfg ring s.index_map.view

/-- A task starts on a node that finds the document in the datalake. Its number is not in use. -/
inductive Started (unicode : Unicode) : IndexState → Pool Job IndexI (Result Unit) → Job → IndexM (Result Unit) → Prop
  | start {s l} (job : Job) : (∀ ip ∈ l, ip.1.id ≠ job.id) → Settled cfg ring s → job.node ∈ ring.ids →
      read_value cfg ring s.datalake job.node job.book_id = some job.document →
      Started unicode s l job (index_document unicode job.node (index_task job.book_id))

/-- Runs of any number of tasks over a network that loses nothing. -/
abbrev Steps (unicode : Unicode) :
    IndexState × Pool Job IndexI (Result Unit) → IndexState × Pool Job IndexI (Result Unit) → Prop :=
  Pool.Steps (fun _ => IndexSem cfg .reliable) (Started cfg ring unicode) fun _ _ _ => False

/-! ## Schedules -/

/-- Which execution has read or written which posting list. -/
inductive Access
  | read (id : Nat) (token : String)
  | wrote (id : Nat) (token : String)

/-- The log of these accesses, the last one first. -/
def access (id : Nat) : IndexAct → List Access → List Access
  | .index_get _ token, log => .read id token :: log
  | .index_put _ token _, log => .wrote id token :: log
  | _, log => log

/-- Nobody has written the list of the token since execution `id` read it. -/
def Unwritten (id : Nat) (token : String) : List Access → Prop
  | [] => False
  | .read i t :: log => (i = id ∧ t = token) ∨ Unwritten id token log
  | .wrote _ t :: log => t ≠ token ∧ Unwritten id token log

/-- A read is not served by a stale copy, and nobody has written a list between
the read and the write of an execution. -/
def Undisturbed (job : Job) : (e : IndexAct) → IndexState × List Access → IndexI.Ans e → Prop
  | .index_get n token, (s, _), _ => (read_value cfg ring s.index_map n token).getD [] = postings cfg ring s token
  | .index_put _ token _, (_, log), _ => Unwritten job.id token log
  | _, _, _ => True

/-- Runs in which no read and write are disturbed. -/
abbrev UndisturbedSteps (unicode : Unicode) : (IndexState × List Access) × Pool Job IndexI (Result Unit) →
    (IndexState × List Access) × Pool Job IndexI (Result Unit) → Prop :=
  Pool.Steps (fun job => ((IndexSem cfg .reliable).logging (access job.id)).restrict (Undisturbed cfg ring job))
    (fun c => Started cfg ring unicode c.1) fun _ _ _ => False

end Runs

variable {cfg : MapConfig} {ring : NodeRing NodeId} {job : Job} {s s' : IndexState} {log : List Access}

omit [Serde] in
theorem postings_congr (h : ∀ m p k, s'.index_map.stored m p k = s.index_map.stored m p k) (token : String) :
    postings cfg ring s' token = postings cfg ring s token := by
  simp only [postings, h]

omit [Serde] in
/-- A write puts its list in the place of the posting list. -/
theorem postings_of_writes {n : NodeId} {token : String} {book_ids : List String} {op : String}
    {m : MapCluster String (List String)} (hn : n ∈ ring.ids)
    (hw : Writes cfg ring ⟨n, token, book_ids, op⟩ s.index_map m) (t : String) :
    postings cfg ring { s with index_map := m } t = if t = token then book_ids else postings cfg ring s t := by
  obtain ⟨primary, backups, howners⟩ := MapConfig.owners_cons cfg hn (cfg.partition_of t)
  have hnd := cfg.owners_nodup ring (cfg.partition_of t)
  rw [howners, List.nodup_cons] at hnd
  simp only [postings, howners, List.head?_cons, Option.bind_some, hw.stored]
  by_cases ht : t = token
  · subst ht
    have hreach : Write.reaches cfg ring primary (⟨n, t, book_ids, op⟩ : Write String (List String)) :=
      ⟨by simp [howners], by simp [howners, hnd.1]⟩
    simp [hreach]
  · simp [ht]

omit [Serde] in
theorem unwritten_read {id i : Nat} {token t : String} (hne : i ≠ id) :
    Unwritten id token (.read i t :: log) ↔ Unwritten id token log := by
  simp [Unwritten, hne]

/-! ## What an execution has done so far -/

/-- What it has read of the list it is at, and the tokens under which it has listed the book. -/
structure Progress where
  job : Job
  reading : Option (String × List String)
  listed : List String

/-- An execution writes back what it has read, with its book. -/
def indexing (job : Job) : Discipline IndexI Progress where
  may g e := g.job = job ∧
    match e with
    | .datalake_get n book_id => n = job.node ∧ book_id = job.book_id
    | .index_get n _ => n = job.node
    | .index_put n token book_ids =>
      n = job.node ∧ ∃ read, g.reading = some (token, read) ∧ book_ids = push_book job.book_id read
    | .iterate _ _ => True
  gives _
    | .datalake_get _ _, x => x = some job.document
    | .index_get _ _, _ => True
    | .index_put _ _ _, r => r = .ok ()
    | .iterate _ set, x => x.Perm set
  next g
    | .index_get _ token, x => { g with reading := some (token, x.getD []) }
    | .index_put _ token _, _ => { g with reading := none, listed := token :: g.listed }
    | .datalake_get _ _, _ | .iterate _ _, _ => g

/-- The book is listed under the tokens. -/
def Lists (job : Job) (tokens : List String) (g : Progress) : Prop := g.job = job ∧ ∀ token ∈ tokens, token ∈ g.listed

omit [Serde] in
theorem index_tokens_obeys {g : Progress} {done : List String} (hg : Lists job done g) (tokens : List String) :
    Obeys (indexing job) (index_tokens job.node job.book_id tokens) g fun _ => Lists job (done ++ tokens) := by
  induction tokens generalizing g done with
  | nil =>
    refine Obeys.pure ?_
    rw [List.append_nil]
    exact hg
  | cons token tokens ih =>
    refine Obeys.bind (Q := fun x g' => Lists job done g' ∧ g'.reading = some (token, x.getD []))
      (Obeys.perform ⟨hg.1, rfl⟩ fun x _ => ⟨hg, rfl⟩) fun x g₁ h₁ => ?_
    refine Obeys.bind (Q := fun r g' => r = .ok () ∧ Lists job (done ++ [token]) g')
      (Obeys.perform ⟨h₁.1.1, rfl, _, h₁.2, rfl⟩ fun r hr => ?_) fun r g₂ h₂ => ?_
    · have hr : r = .ok () := hr
      refine ⟨hr, h₁.1.1, fun t ht => ?_⟩
      rcases List.mem_append.1 ht with ht | ht
      · exact List.mem_cons_of_mem _ (h₁.1.2 t ht)
      · exact List.mem_singleton.1 ht ▸ List.mem_cons_self
    · obtain ⟨rfl, hlists⟩ := h₂
      have hrest := ih hlists
      rw [List.append_assoc, List.singleton_append] at hrest
      exact hrest

theorem index_document_obeys (unicode : Unicode) (job : Job) :
    Obeys (indexing job) (index_document unicode job.node (index_task job.book_id)) ⟨job, none, []⟩
      fun _ => Lists job (tokenize_text unicode job.document.body) := by
  have hstart : Lists job [] ⟨job, none, []⟩ := ⟨rfl, by simp⟩
  simp only [index_task, index_document, JsonPayload.from_value_to_value]
  refine Obeys.bind (Q := fun x g => x = some job.document ∧ Lists job [] g)
    (Obeys.perform ⟨rfl, rfl, rfl⟩ fun x hx => ⟨hx, hstart⟩) fun x g₁ h₁ => ?_
  obtain ⟨rfl, h₁⟩ := h₁
  refine Obeys.bind (Q := fun tokens g => tokens.Perm (tokenize_text unicode job.document.body) ∧ Lists job [] g)
    (Obeys.perform ⟨h₁.1, trivial⟩ fun tokens hperm => ⟨hperm, h₁⟩) fun tokens g₂ h₂ => ?_
  obtain ⟨hperm, h₂⟩ := h₂
  refine (index_tokens_obeys h₂ tokens).mono fun r g hg => ⟨hg.1, fun token ht => hg.2 token ?_⟩
  exact hperm.mem_iff.2 ht

/-! ## What is true of it -/

/-- The document is found, what has been read is the posting list unless somebody
has written it, and the book is listed where it is said to be. -/
structure Progress.Sound (cfg : MapConfig) (ring : NodeRing NodeId) (c : IndexState × List Access) (g : Progress) :
    Prop where
  settled : Settled cfg ring c.1
  node : g.job.node ∈ ring.ids
  document : read_value cfg ring c.1.datalake g.job.node g.job.book_id = some g.job.document
  reading : ∀ token read, g.reading = some (token, read) → Unwritten g.job.id token c.2 →
    read = postings cfg ring c.1 token
  listed : ∀ token ∈ g.listed, g.job.book_id ∈ postings cfg ring c.1 token

/-- This holds of all executions, and they have different numbers. -/
structure Indexing (cfg : MapConfig) (ring : NodeRing NodeId) (c : IndexState × List Access) (gs : Multiset Progress) :
    Prop where
  numbered : (gs.map fun g => g.job.id).Nodup
  sound : ∀ g ∈ gs, g.Sound cfg ring c

theorem Progress.Sound.keeps {c c' : IndexState × List Access} {g : Progress} (h : g.Sound cfg ring c)
    (hd : SameData c.1.datalake c'.1.datalake) (hview : c'.1.index_map.view = c.1.index_map.view)
    (hreading : ∀ token read, g.reading = some (token, read) → Unwritten g.job.id token c'.2 →
      Unwritten g.job.id token c.2 ∧ postings cfg ring c'.1 token = postings cfg ring c.1 token)
    (hlisted : ∀ token, postings cfg ring c.1 token ⊆ postings cfg ring c'.1 token) : g.Sound cfg ring c' where
  settled := ⟨hd.view ▸ h.settled.1, hview ▸ h.settled.2⟩
  node := h.node
  document := (hd.read_value g.job.book_id).trans h.document
  reading token read hread hun := by
    obtain ⟨hbefore, hsame⟩ := hreading token read hread hun
    rw [hsame]
    exact h.reading token read hread hbefore
  listed token ht := hlisted token (h.listed token ht)

/-- Reads change nothing that matters. -/
theorem Progress.Sound.unchanged {c c' : IndexState × List Access} {g : Progress} (h : g.Sound cfg ring c)
    (hd : SameData c.1.datalake c'.1.datalake) (hi : SameData c.1.index_map c'.1.index_map)
    (hlog : ∀ token read, g.reading = some (token, read) → Unwritten g.job.id token c'.2 → Unwritten g.job.id token c.2) :
    g.Sound cfg ring c' :=
  h.keeps hd hi.view (fun token read hread hun => ⟨hlog token read hread hun, postings_congr hi.stored token⟩)
    fun token => (postings_congr hi.stored token).symm ▸ List.Subset.refl _

/-- Nothing needs to be known of what has been read. -/
theorem Progress.Sound.forget {c : IndexState × List Access} {g : Progress} (h : g.Sound cfg ring c) :
    Progress.Sound cfg ring c { g with reading := none } where
  settled := h.settled
  node := h.node
  document := h.document
  reading _ _ hread := by cases hread
  listed := h.listed

theorem Indexing.of_ghosts {c c' : IndexState × List Access} {g g' : Progress} {gs : Multiset Progress}
    (h : Indexing cfg ring c (g ::ₘ gs)) (hjob : g'.job = g.job) (hg : g'.Sound cfg ring c')
    (hothers : ∀ other ∈ gs, other.job.id ≠ g.job.id → other.Sound cfg ring c') : Indexing cfg ring c' (g' ::ₘ gs) := by
  have hnumbered := h.numbered
  rw [Multiset.map_cons] at hnumbered
  refine ⟨?_, fun other hother => ?_⟩
  · rw [Multiset.map_cons, hjob]
    exact hnumbered
  · rcases Multiset.mem_cons.1 hother with rfl | hother
    · exact hg
    · refine hothers other hother fun hid => (Multiset.nodup_cons.1 hnumbered).1 ?_
      exact hid ▸ Multiset.mem_map_of_mem _ hother

theorem datalake_get_indexed {c : IndexState × List Access} {g : Progress} {gs : Multiset Progress}
    {x : Option RawDocument} (h : Indexing cfg ring c (g ::ₘ gs))
    (hstep : IndexSem cfg .reliable (.datalake_get g.job.node g.job.book_id) c.1 x s') :
    x = some g.job.document ∧ Indexing cfg ring (s', c.2) (g ::ₘ gs) := by
  obtain ⟨d, hrun, rfl⟩ := hstep
  have hg := h.sound g (Multiset.mem_cons_self g gs)
  obtain ⟨rfl, hdata⟩ := get_returns hg.settled.1 hg.node hrun
  have hkept : ∀ other ∈ g ::ₘ gs, other.Sound cfg ring ({ c.1 with datalake := d }, c.2) := fun other hother =>
    (h.sound other hother).unchanged hdata (refl _) fun _ _ _ hun => hun
  exact ⟨hg.document, h.of_ghosts rfl (hkept g (Multiset.mem_cons_self g gs)) fun other hother _ =>
    hkept other (Multiset.mem_cons_of_mem hother)⟩

theorem index_get_indexed {c : IndexState × List Access} {g : Progress} {gs : Multiset Progress} {token : String}
    {x : Option (List String)} (h : Indexing cfg ring c (g ::ₘ gs))
    (hstep : IndexSem cfg .reliable (.index_get g.job.node token) c.1 x s')
    (hread : (read_value cfg ring c.1.index_map g.job.node token).getD [] = postings cfg ring c.1 token) :
    Indexing cfg ring (s', .read g.job.id token :: c.2) ({ g with reading := some (token, x.getD []) } ::ₘ gs) := by
  obtain ⟨m, hrun, rfl⟩ := hstep
  have hg := h.sound g (Multiset.mem_cons_self g gs)
  obtain ⟨rfl, hdata⟩ := get_returns hg.settled.2 hg.node hrun
  refine h.of_ghosts rfl ?_ fun other hother hid => ?_
  · have hforgot : Progress.Sound cfg ring ({ c.1 with index_map := m }, .read g.job.id token :: c.2)
        { g with reading := none } := hg.forget.unchanged (refl _) hdata fun _ _ hnone => by cases hnone
    refine { hforgot with reading := fun t read hreading _ => ?_ }
    cases hreading
    rw [hread]
    exact (postings_congr hdata.stored token).symm
  · refine (h.sound other (Multiset.mem_cons_of_mem hother)).unchanged (refl _) hdata fun t _ _ hun => ?_
    exact (unwritten_read (Ne.symm hid)).1 hun

theorem index_put_indexed {c : IndexState × List Access} {g : Progress} {gs : Multiset Progress} {token : String}
    {read : List String} {r : Result Unit} (h : Indexing cfg ring c (g ::ₘ gs)) (hread : g.reading = some (token, read))
    (hun : Unwritten g.job.id token c.2)
    (hstep : IndexSem cfg .reliable (.index_put g.job.node token (push_book g.job.book_id read)) c.1 r s') :
    r = .ok () ∧ Indexing cfg ring (s', .wrote g.job.id token :: c.2)
      ({ g with reading := none, listed := token :: g.listed } ::ₘ gs) := by
  obtain ⟨m, hrun, rfl⟩ := hstep
  have hg := h.sound g (Multiset.mem_cons_self g gs)
  obtain ⟨hr, op, hw⟩ := put_writes hg.settled.2 hg.node hrun
  have hpost := postings_of_writes hg.node hw
  -- what is written back has all that the list had
  have hgrows : ∀ t, postings cfg ring c.1 t ⊆ postings cfg ring { c.1 with index_map := m } t := fun t => by
    rw [hpost]
    split
    · rename_i ht
      rw [ht, ← hg.reading token read hread hun]
      exact subset_push_book _ _
    · exact List.Subset.refl _
  refine ⟨hr, h.of_ghosts rfl ?_ fun other hother _ => ?_⟩
  · have hkept : Progress.Sound cfg ring ({ c.1 with index_map := m }, .wrote g.job.id token :: c.2)
        { g with reading := none } := hg.forget.keeps (refl _) hw.view (fun _ _ hnone => by cases hnone) hgrows
    refine { hkept with listed := fun t ht => ?_ }
    rcases List.mem_cons.1 ht with rfl | ht
    · dsimp only
      rw [hpost, if_pos rfl]
      exact mem_push_book _ _
    · exact hkept.listed t ht
  · refine (h.sound other (Multiset.mem_cons_of_mem hother)).keeps (refl _) hw.view (fun t _ _ hother_un => ?_) hgrows
    exact ⟨hother_un.2, (hpost t).trans (if_neg (Ne.symm hother_un.1))⟩

/-! ## All of them -/

theorem indexed_step {c c' : IndexState × List Access} {g : Progress} {gs : Multiset Progress} {e : IndexAct}
    {x : IndexI.Ans e} (h : Indexing cfg ring c (g ::ₘ gs)) (hmay : (indexing job).may g e)
    (hstep : (((IndexSem cfg .reliable).logging (access job.id)).restrict (Undisturbed cfg ring job)) e c x c') :
    (indexing job).gives g e x ∧ Indexing cfg ring c' ((indexing job).next g e x ::ₘ gs) := by
  obtain ⟨s', log'⟩ := c'
  obtain ⟨⟨hact, rfl⟩, hun⟩ := hstep
  obtain ⟨rfl, hmay⟩ := hmay
  cases e with
  | datalake_get n book_id =>
    obtain ⟨rfl, rfl⟩ := hmay
    exact datalake_get_indexed h hact
  | index_get n token =>
    obtain rfl := hmay
    exact ⟨trivial, index_get_indexed h hact hun⟩
  | index_put n token book_ids =>
    obtain ⟨rfl, read, hread, rfl⟩ := hmay
    exact index_put_indexed h hread hun hact
  | iterate n set =>
    obtain ⟨hperm, rfl⟩ := hact
    exact ⟨hperm, h⟩

/-- In every run in which no read and write are disturbed, a book is listed under
all tokens of its document once its task is done. -/
theorem indexed_of_undisturbed {unicode : Unicode} {c : (IndexState × List Access) × Pool Job IndexI (Result Unit)}
    (h : UndisturbedSteps cfg ring unicode ((s, []), []) c) {r : Result Unit} (hdone : (job, Async.done r) ∈ c.2)
    {token : String} (ht : token ∈ tokenize_text unicode job.document.body) :
    job.book_id ∈ postings cfg ring c.1.1 token := by
  have htracked : Pool.Tracked indexing (Indexing cfg ring)
      (fun job _ => Lists job (tokenize_text unicode job.document.body)) c := by
    refine Pool.tracked_steps (fun i c g gs e x c' hinv hmay hstep => indexed_step hinv hmay hstep)
      (fun c g gs hinv => ?_) (fun c l i p hl hstart => ?_) (fun _ _ _ _ _ henv => henv.elim) h
      (Pool.tracked_nil ⟨by simp, by simp⟩)
    · have hnumbered := hinv.numbered
      rw [Multiset.map_cons] at hnumbered
      exact ⟨(Multiset.nodup_cons.1 hnumbered).2, fun other hother => hinv.sound other (Multiset.mem_cons_of_mem hother)⟩
    · cases hstart with
      | start hid hsettled hn hread =>
        have howner : ∀ job p g, Obeys (indexing job) p g
            (fun _ : Result Unit => Lists job (tokenize_text unicode job.document.body)) → g.job.id = job.id := by
          intro job p g hp
          cases p with
          | done r => exact congrArg Job.id hp.1
          | call e k => exact congrArg Job.id hp.1.1
        refine hl.join_named howner (index_document_obeys unicode i) fun gs hgs hinv => ⟨?_, fun g hg => ?_⟩
        · rw [Multiset.map_cons, Multiset.nodup_cons]
          refine ⟨fun hmem => ?_, hinv.numbered⟩
          obtain ⟨g, hg, heq⟩ := Multiset.mem_map.1 hmem
          obtain ⟨ip, hip, hname⟩ := hgs g hg
          exact hid ip hip (hname.symm.trans heq)
        · rcases Multiset.mem_cons.1 hg with rfl | hg
          · exact ⟨hsettled, hn, hread, fun _ _ hnone => (by cases hnone), fun _ hmem => absurd hmem List.not_mem_nil⟩
          · exact hinv.sound g hg
  obtain ⟨g, gs, hg, hinv, rfl, hlists⟩ := htracked.done hdone
  exact (hinv.sound g hg).listed token (hlists token ht)

end

section Example

open CompactJson

def document (book_id body : String) : RawDocument := ⟨book_id, "", body, ""⟩

/-- Two books with a token in common, in the datalake of two nodes. -/
def library : MapCluster String RawDocument :=
  (exec (MapInt (answered pair_cfg)) (do
    let _ ← put pair_cfg node_a "x" (document "x" "abc")
    put pair_cfg node_a "y" (document "y" "abc")) (MapCluster.empty (demo_view pair))).2

def unindexed : IndexState := ⟨library, MapCluster.empty (demo_view pair)⟩

def job_x : Job := ⟨0, node_a, "x", document "x" "abc"⟩
def job_y : Job := ⟨1, node_b, "y", document "y" "abc"⟩

def all_answered : Fates := fun _ => answered pair_cfg

def task_x : IndexM (Result Unit) := index_document .ascii node_a (index_task "x")
def task_y : IndexM (Result Unit) := index_document .ascii node_b (index_task "y")

instance (id : Nat) (token : String) : (log : List Access) → Decidable (Unwritten id token log)
  | [] => .isFalse not_false
  | .read i t :: log =>
    have : Decidable (Unwritten id token log) := instDecidableUnwritten id token log
    inferInstanceAs (Decidable ((i = id ∧ t = token) ∨ Unwritten id token log))
  | .wrote _ t :: log =>
    have : Decidable (Unwritten id token log) := instDecidableUnwritten id token log
    inferInstanceAs (Decidable (t ≠ token ∧ Unwritten id token log))

instance (job : Job) : (e : IndexAct) → (c : IndexState × List Access) → (x : IndexI.Ans e) →
    Decidable (Undisturbed cfg ring job e c x)
  | .index_get n token, (s, _), _ =>
    inferInstanceAs (Decidable ((read_value cfg ring s.index_map n token).getD [] = postings cfg ring s token))
  | .index_put _ token _, (_, log), _ => inferInstanceAs (Decidable (Unwritten job.id token log))
  | .datalake_get .., _, _ | .iterate .., _, _ => .isTrue trivial

theorem agreed_pair : Agreed pair_cfg pair (demo_view pair) := agreed_demo 2 (by decide) (by decide)

theorem settled_unindexed : Settled pair_cfg pair unindexed := by
  refine ⟨?_, agreed_pair⟩
  rw [unindexed, library, view_exec]
  exact agreed_pair

theorem start_x : Started pair_cfg pair .ascii unindexed [] job_x task_x :=
  .start job_x (by simp) settled_unindexed (by decide) (by decide +kernel)

theorem start_y : Started pair_cfg pair .ascii unindexed [(job_x, task_x)] job_y task_y :=
  .start job_y (by simp [job_x, job_y]) settled_unindexed (by decide) (by decide +kernel)

/-- The answers, with a log. -/
abbrev answers (job : Job) : (e : IndexAct) → IndexState × List Access → IndexI.Ans e × (IndexState × List Access) :=
  logged (I := IndexI) (IndexInt pair_cfg all_answered) (access job.id)

/-- Execution x finds its document and reads the list, y finds its document; then
x writes the list, and y reads and writes it. -/
def turns : List (Nat × Nat) := [(1, 3), (0, 2), (1, 9), (0, 9)]

def begun : (IndexState × List Access) × Pool Job IndexI (Result Unit) := ((unindexed, []), [(job_y, task_y), (job_x, task_x)])

def ended : (IndexState × List Access) × Pool Job IndexI (Result Unit) := Pool.play answers turns begun

theorem turns_undisturbed : Pool.PlayMeets answers (Undisturbed pair_cfg pair) turns begun := by decide +kernel

/-- Two executions beside each other, which take turns with the list they share. -/
theorem indexed_in_turn : "x" ∈ postings pair_cfg pair ended.1.1 "abc" ∧ "y" ∈ postings pair_cfg pair ended.1.1 "abc" := by
  have hint : ∀ job e c, ((IndexSem pair_cfg .reliable).logging (access job.id)) e c (answers job e c).1 (answers job e c).2 :=
    fun job => logged_sem (I := IndexI) (IndexInt_sem fun _ => allows_answered .reliable) (access job.id)
  have hplay : UndisturbedSteps pair_cfg pair .ascii begun ended := Pool.steps_play_meets (fun _ => rfl) hint turns_undisturbed
  have hsteps : UndisturbedSteps pair_cfg pair .ascii ((unindexed, []), []) ended :=
    .head (.spawn _ _ start_x) (.head (.spawn _ _ start_y) hplay)
  have hdone : ∀ job ∈ [job_y, job_x], (job, Async.done (.ok ())) ∈ ended.2 :=
    Pool.done_of_outcomes (by rw [ended, Pool.jobs_play]; rfl) (by decide +kernel)
  exact ⟨indexed_of_undisturbed hsteps (hdone job_x (by simp)) (show "abc" ∈ tokenize_text .ascii "abc" by decide),
    indexed_of_undisturbed hsteps (hdone job_y (by simp)) (show "abc" ∈ tokenize_text .ascii "abc" by decide)⟩

/-- Without turns: x has read the list, then y runs to its end, and x after it. -/
def x_reads : IndexM (Result Unit) × IndexState := advance (IndexInt pair_cfg all_answered) 3 task_x unindexed
def y_between : Result Unit × IndexState := exec (IndexInt pair_cfg all_answered) task_y x_reads.2
def x_last : Result Unit × IndexState := exec (IndexInt pair_cfg all_answered) x_reads.1 y_between.2

/-- Both executions read the empty list; the one that writes later wins. -/
theorem posting_lost :
    ¬ ∀ (cfg : MapConfig) (ring : NodeRing NodeId) (unicode : Unicode) (view : NodeId → MembershipService)
      (datalake : MapCluster String RawDocument) (s : IndexState) (l : Pool Job IndexI (Result Unit)),
      Steps cfg ring unicode (⟨datalake, MapCluster.empty view⟩, []) (s, l) →
      (∀ ip ∈ l, ip.2 = .done (.ok ())) →
      ∀ ip ∈ l, ∀ token ∈ tokenize_text unicode ip.1.document.body, ip.1.book_id ∈ postings cfg ring s token := by
  intro h
  have hint : ∀ e s, IndexSem pair_cfg .reliable e s (IndexInt pair_cfg all_answered e s).1
      (IndexInt pair_cfg all_answered e s).2 := IndexInt_sem fun _ => allows_answered _
  have hx_reads : Steps pair_cfg pair .ascii (unindexed, [(job_y, task_y), (job_x, task_x)])
      (x_reads.2, [(job_y, task_y), (job_x, x_reads.1)]) :=
    Pool.steps_advance (i := job_x) hint 3 task_x unindexed [(job_y, task_y)] []
  have hy_between : Steps pair_cfg pair .ascii (x_reads.2, [(job_y, task_y), (job_x, x_reads.1)])
      (y_between.2, [(job_y, .done y_between.1), (job_x, x_reads.1)]) :=
    Pool.steps_of_runs (i := job_y) (exec_runs hint _ _) [] [(job_x, x_reads.1)]
  have hx_last : Steps pair_cfg pair .ascii (y_between.2, [(job_y, .done y_between.1), (job_x, x_reads.1)])
      (x_last.2, [(job_y, .done y_between.1), (job_x, .done x_last.1)]) :=
    Pool.steps_of_runs (i := job_x) (exec_runs hint _ _) [(job_y, .done y_between.1)] []
  have hsteps := Relation.ReflTransGen.head (.spawn _ _ start_x)
    (.head (.spawn _ _ start_y) ((hx_reads.trans hy_between).trans hx_last))
  have hok : y_between.1 = .ok () ∧ x_last.1 = .ok () := by decide +kernel
  have hmem := h pair_cfg pair .ascii (demo_view pair) library _ _ hsteps (by simp [hok.1, hok.2]) _ List.mem_cons_self
    "abc" (by decide)
  exact absurd hmem (by decide +kernel)

end Example

end Search
