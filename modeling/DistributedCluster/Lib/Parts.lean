import DistributedCluster.Lib.Expansion
/-!
# Parts of a system

A process of a large system may use several parts of it, one operation after the
other or one within the other. Seen from one part, it starts an operation there,
takes the part's actions, does what the part does not notice, ends the operation,
and so on. If all processes are like this, then every run of the system is, for the
part, one of its own runs.
-/

namespace Async

variable {I J : Interface} {σ τ ι κ α β γ : Type} {S : Sem I σ} {T : Sem J τ}

/-- Where the actions and the state of a part are found in the whole. -/
structure Part (S : Sem I σ) (T : Sem J τ) extends Inclusion I J where
  view : τ → σ
  sem : ∀ {e t x t'}, T (act e) t x t' → S e (view t) (ans x) (view t')

/-- The action leaves the part as it is. -/
def Part.Unnoticed (P : Part S T) (f : J.Act) : Prop := ∀ t x t', T f t x t' → P.view t' = P.view t

/-- Only the part's own actions change it. -/
def Part.Framed (P : Part S T) : Prop := ∀ f, (∀ e, f ≠ P.act e) → P.Unnoticed f

section Follows

variable (P : Part S T) (spawn : σ → Pool ι I α → ι → Async I α → Prop)

/-- What a process of the whole does is, for the part, at most one of the part's
own processes at a time. -/
inductive Follows : Option (ι × Async I α) → Async J β → Prop
  | done (b : β) : Follows none (.done b)
  | unnoticed {c f k} : P.Unnoticed f → (∀ x, Follows c (k x)) → Follows c (.call f k)
  | act {i e k k'} : (∀ x, Follows (some (i, k (P.ans x))) (k' x)) → Follows (some (i, .call e k)) (.call (P.act e) k')
  /-- The part's process takes an action that changes nothing. -/
  | idle {i e k p} (x : I.Ans e) : (∀ s, S e s x s) → Follows (some (i, k x)) p → Follows (some (i, .call e k)) p
  | start {i q p} : (∀ s l, spawn s l i q) → Follows (some (i, q)) p → Follows none p
  | stop {i a p} : Follows none p → Follows (some (i, .done a)) p

/-- A new process of the whole may come with a new process of the part. -/
def Joins (s : σ) (p : Async J β) : Prop :=
  Follows P spawn none p ∨ ∃ i q, (∀ l, spawn s l i q) ∧ Follows P spawn (some (i, q)) p

variable {P spawn}

/-! ## Programs that follow -/

theorem Follows.bind {c : Option (ι × Async I α)} {p : Async J β} {f : β → Async J γ} (h : Follows P spawn c p)
    (hf : ∀ b, Follows P spawn none (f b)) : Follows P spawn c (p >>= f) := by
  induction h with
  | done b => exact hf b
  | unnoticed hun _ ih => exact .unnoticed hun ih
  | act _ ih => exact .act ih
  | idle x hx _ ih => exact .idle x hx ih
  | start hstart _ ih => exact .start hstart ih
  | stop _ ih => exact .stop ih

theorem Follows.unseen {f : J.Act} (h : P.Unnoticed f) : Follows P spawn none (perform f) :=
  .unnoticed h fun x => .done x

/-- A program in which every action is carried out by one that follows. -/
theorem Follows.expand {K : Interface} {f : (e : K.Act) → Async J (K.Ans e)} (hf : ∀ e, Follows P spawn none (f e))
    (p : Async K γ) : Follows P spawn none (Async.expand f p) := by
  induction p with
  | done a => exact .done a
  | call e k ih => exact (hf e).bind ih

theorem Follows.within {K : Interface} {Q : Inclusion K J} (h : ∀ e, P.Unnoticed (Q.act e)) (p : Async K γ) :
    Follows P spawn none (Q.within p) :=
  .expand (fun e => (Follows.unseen (h e)).bind fun x => .done (Q.ans x)) p

variable (P spawn)

/-- `r` is how the whole carries out the part's action `e`. -/
def CarriesOut (e : I.Act) (r : Async J (I.Ans e)) : Prop :=
  ∀ {β : Type} (i : ι) (k : I.Ans e → Async I α) (k' : I.Ans e → Async J β),
    (∀ x, Follows P spawn (some (i, k x)) (k' x)) → Follows P spawn (some (i, .call e k)) (r >>= k')

variable {P spawn}

/-- An action that is one of the part's, with the same answer. -/
theorem carriesOut_act {e : I.Act} : CarriesOut P spawn e (perform (P.act e) >>= fun x => pure (P.ans x)) :=
  fun _ _ _ h => .act fun x => h (P.ans x)

/-- An action that changes nothing may be any program that the part does not notice. -/
theorem carriesOut_unnoticed {e : I.Act} (he : ∀ x s, S e s x s) {r : Async J (I.Ans e)}
    (hr : Obeys (Discipline.only P.Unnoticed) r () fun _ _ => True) : CarriesOut P spawn e r := by
  intro β i k k' h
  induction r with
  | done x => exact .idle x (he x) (h x)
  | call f g ih => exact .unnoticed hr.1 fun x => ih x (hr.2 x trivial)

/-- An operation of the part within a process of the whole. -/
theorem follows_operation {f : (e : I.Act) → Async J (I.Ans e)} (hf : ∀ e, CarriesOut P spawn e (f e)) {i : ι}
    {p : Async I γ} {g : γ → Async I α} {h : γ → Async J β} (hgh : ∀ a, Follows P spawn (some (i, g a)) (h a)) :
    Follows P spawn (some (i, p >>= g)) (Async.expand f p >>= h) := by
  induction p with
  | done a => exact hgh a
  | call e k ih =>
    have hbind : Async.expand f (.call e k) >>= h = f e >>= fun x => Async.expand f (k x) >>= h := bind_assoc _ _ _
    rw [hbind]
    exact hf e i _ _ ih

/-- A process of the whole that does one operation of the part. -/
theorem follows_process {f : (e : I.Act) → Async J (I.Ans e)} (hf : ∀ e, CarriesOut P spawn e (f e)) {i : ι}
    (p : Async I α) (b : β) : Follows P spawn (some (i, p)) (Async.expand f p >>= fun _ => pure b) := by
  have h : Follows P spawn (some (i, p >>= pure)) (Async.expand f p >>= fun _ => pure b) :=
    follows_operation hf fun a => .stop (.done b)
  rwa [bind_pure] at h

/-- An operation may start at any time, and nothing follows it. -/
theorem follows_started {f : (e : I.Act) → Async J (I.Ans e)} (hf : ∀ e, CarriesOut P spawn e (f e)) {i : ι}
    {p : Async I γ} {g : γ → α} (hstart : ∀ s l, spawn s l i (p >>= fun a => pure (g a))) :
    Follows P spawn none (Async.expand f p) := by
  have h : Follows P spawn (some (i, p >>= fun a => pure (g a))) (Async.expand f p >>= pure) :=
    follows_operation hf fun a => .stop (.done a)
  rw [bind_pure] at h
  exact .start hstart h

end Follows

/-! ## Runs of the part -/

namespace Pool

variable {P : Part S T} {spawn : σ → Pool ι I α → ι → Async I α → Prop} {env : σ → Pool ι I α → σ → Prop}
  {l rest : Pool ι I α} {c : Option (ι × Async I α)}

theorem exists_of_perm_cons {x : ι × Async I α} (h : l.Perm (x :: rest)) :
    ∃ l₁ l₂, l = l₁ ++ x :: l₂ ∧ (l₁ ++ l₂).Perm rest := by
  obtain ⟨l₁, l₂, rfl⟩ := List.append_of_mem (h.mem_iff.2 List.mem_cons_self)
  exact ⟨l₁, l₂, rfl, (List.perm_middle.symm.trans h).cons_inv⟩

/-- An action of a process of the whole: what the part does meanwhile. -/
theorem follows_run {f : J.Act} {k : J.Ans f → Async J β} (h : Follows P spawn c (.call f k)) {t t' : τ} {x : J.Ans f}
    (hstep : T f t x t') (hl : l.Perm (c.toList ++ rest)) :
    ∃ c' l', Follows P spawn c' (k x) ∧ Steps (fun _ => S) spawn env (P.view t, l) (P.view t', l') ∧
      l'.Perm (c'.toList ++ rest) := by
  generalize hp : Async.call f k = p at h
  induction h generalizing l with
  | done b => cases hp
  | unnoticed hun hk _ =>
    cases hp
    rw [hun t x t' hstep]
    exact ⟨_, l, hk x, .refl, hl⟩
  | @act i e g k' hk _ =>
    cases hp
    obtain ⟨l₁, l₂, rfl, hrest⟩ := exists_of_perm_cons hl
    exact ⟨_, _, hk x, .single (.run i e g (P.ans x) (P.sem hstep)), List.perm_middle.trans (hrest.cons _)⟩
  | @idle i e g p y hy _ ih =>
    obtain ⟨l₁, l₂, rfl, hrest⟩ := exists_of_perm_cons hl
    obtain ⟨c', l', hfollows, hsteps, hl'⟩ := ih (List.perm_middle.trans (hrest.cons (i, g y))) hp
    exact ⟨c', l', hfollows, .head (.run i e g y (hy _)) hsteps, hl'⟩
  | @start i q p hstart _ ih =>
    obtain ⟨c', l', hfollows, hsteps, hl'⟩ := ih (hl.cons (i, q)) hp
    exact ⟨c', l', hfollows, .head (.spawn i q (hstart _ _)) hsteps, hl'⟩
  | @stop i a p _ ih =>
    obtain ⟨l₁, l₂, rfl, hrest⟩ := exists_of_perm_cons hl
    obtain ⟨c', l', hfollows, hsteps, hl'⟩ := ih hrest hp
    exact ⟨c', l', hfollows, .head (.retire i a) hsteps, hl'⟩

/-- The end of a process of the whole. -/
theorem follows_retire {b : β} (h : Follows P spawn c (.done b)) {s : σ} (hl : l.Perm (c.toList ++ rest)) :
    ∃ l', Steps (fun _ => S) spawn env (s, l) (s, l') ∧ l'.Perm rest := by
  generalize hp : Async.done b = p at h
  induction h generalizing l with
  | done _ => exact ⟨l, .refl, hl⟩
  | unnoticed _ _ _ => cases hp
  | act _ _ => cases hp
  | @idle i e g p y hy _ ih =>
    obtain ⟨l₁, l₂, rfl, hrest⟩ := exists_of_perm_cons hl
    obtain ⟨l', hsteps, hl'⟩ := ih (List.perm_middle.trans (hrest.cons (i, g y))) hp
    exact ⟨l', .head (.run i e g y (hy _)) hsteps, hl'⟩
  | @start i q p hstart _ ih =>
    obtain ⟨l', hsteps, hl'⟩ := ih (hl.cons (i, q)) hp
    exact ⟨l', .head (.spawn i q (hstart _ _)) hsteps, hl'⟩
  | @stop i a p _ ih =>
    obtain ⟨l₁, l₂, rfl, hrest⟩ := exists_of_perm_cons hl
    obtain ⟨l', hsteps, hl'⟩ := ih hrest hp
    exact ⟨l', .head (.retire i a) hsteps, hl'⟩

/-- The part's processes among those of the whole. -/
def owned (m : List (Option (ι × Async I α) × (κ × Async J β))) : Pool ι I α := m.flatMap fun x => x.1.toList

theorem owned_middle {m₁ m₂ : List (Option (ι × Async I α) × (κ × Async J β))} {y : κ × Async J β} :
    (owned (m₁ ++ (c, y) :: m₂)).Perm (c.toList ++ owned (m₁ ++ m₂)) :=
  List.perm_middle.flatMap_right _

/-- Every process of the whole has at most one process in the part, and no others are there. -/
def Mirrored (P : Part S T) (spawn : σ → Pool ι I α → ι → Async I α → Prop) (l : Pool ι I α) (l' : Pool κ J β) : Prop :=
  ∃ m, m.map Prod.snd = l' ∧ (∀ x ∈ m, Follows P spawn x.1 x.2.2) ∧ l.Perm (owned m)

theorem Mirrored.process {l₁' l₂' : Pool κ J β} {j : κ} {p : Async J β} (h : Mirrored P spawn l (l₁' ++ (j, p) :: l₂')) :
    ∃ c rest, Follows P spawn c p ∧ l.Perm (c.toList ++ rest) ∧
      (∀ c' p' l₁, Follows P spawn c' p' → l₁.Perm (c'.toList ++ rest) → Mirrored P spawn l₁ (l₁' ++ (j, p') :: l₂')) ∧
      ∀ l₁, l₁.Perm rest → Mirrored P spawn l₁ (l₁' ++ l₂') := by
  obtain ⟨m, hm, hfollows, hperm⟩ := h
  obtain ⟨m₁, m', rfl, rfl, hm'⟩ := List.map_eq_append_iff.1 hm
  obtain ⟨⟨c, jp⟩, m₂, rfl, rfl, rfl⟩ := List.map_eq_cons_iff.1 hm'
  have hothers : ∀ x ∈ m₁ ++ m₂, Follows P spawn x.1 x.2.2 := by
    intro x hx
    refine hfollows x ?_
    simp only [List.mem_append, List.mem_cons] at hx ⊢
    exact hx.imp id .inr
  refine ⟨c, owned (m₁ ++ m₂), hfollows (c, (j, p)) (by simp), hperm.trans owned_middle, ?_, ?_⟩
  · intro c' p' l₁ hp' hl₁
    refine ⟨m₁ ++ (c', (j, p')) :: m₂, by simp, fun x hx => ?_, hl₁.trans owned_middle.symm⟩
    simp only [List.mem_append, List.mem_cons] at hx
    rcases hx with hx | rfl | hx
    · exact hothers x (by simp [hx])
    · exact hp'
    · exact hothers x (by simp [hx])
  · intro l₁ hl₁
    exact ⟨m₁ ++ m₂, by simp, hothers, hl₁⟩

theorem Mirrored.join {l' : Pool κ J β} {j : κ} {p : Async J β} (h : Mirrored P spawn l l') (hp : Follows P spawn c p) :
    Mirrored P spawn (c.toList ++ l) ((j, p) :: l') := by
  obtain ⟨m, rfl, hfollows, hperm⟩ := h
  refine ⟨(c, (j, p)) :: m, rfl, fun x hx => ?_, hperm.append_left c.toList⟩
  rcases List.mem_cons.1 hx with rfl | hx
  · exact hp
  · exact hfollows x hx

section Simulation

variable {spawn' : τ → Pool κ J β → κ → Async J β → Prop} {env' : τ → Pool κ J β → τ → Prop}

/-- One step of the whole is some steps of the part. -/
theorem mirrored_step
    (hspawn : ∀ t l' j p, spawn' t l' j p → Joins P spawn (P.view t) p)
    (henv : ∀ t l' t', env' t l' t' → P.view t' = P.view t ∨ ∀ l, env (P.view t) l (P.view t'))
    {t t' : τ} {l' l₁' : Pool κ J β} (h : Step (fun _ => T) spawn' env' (t, l') (t', l₁')) (hl : Mirrored P spawn l l') :
    ∃ l₁, Steps (fun _ => S) spawn env (P.view t, l) (P.view t', l₁) ∧ Mirrored P spawn l₁ l₁' := by
  cases h with
  | run j f k x hstep =>
    obtain ⟨c, rest, hfollows, hperm, hgoes, -⟩ := hl.process
    obtain ⟨c', l₁, hfollows', hsteps, hl₁⟩ := follows_run hfollows hstep hperm
    exact ⟨l₁, hsteps, hgoes c' (k x) l₁ hfollows' hl₁⟩
  | retire j b =>
    obtain ⟨c, rest, hfollows, hperm, -, hends⟩ := hl.process
    obtain ⟨l₁, hsteps, hl₁⟩ := follows_retire hfollows hperm
    exact ⟨l₁, hsteps, hends l₁ hl₁⟩
  | spawn j p hsp =>
    rcases hspawn t l' j p hsp with hp | ⟨i, q, hq, hp⟩
    · exact ⟨l, .refl, hl.join hp⟩
    · exact ⟨(i, q) :: l, .single (.spawn i q (hq l)), hl.join hp⟩
  | env t' he =>
    rcases henv t l' t' he with heq | hmoves
    · rw [heq]
      exact ⟨l, .refl, hl⟩
    · exact ⟨l, .single (.env _ (hmoves l)), hl⟩

/-- A run of the whole, from the start, is a run of the part. -/
theorem steps_part
    (hspawn : ∀ t l' j p, spawn' t l' j p → Joins P spawn (P.view t) p)
    (henv : ∀ t l' t', env' t l' t' → P.view t' = P.view t ∨ ∀ l, env (P.view t) l (P.view t'))
    {t t' : τ} {l' : Pool κ J β} (h : Steps (fun _ => T) spawn' env' (t, []) (t', l')) :
    ∃ l, Steps (fun _ => S) spawn env (P.view t, []) (P.view t', l) ∧ Mirrored P spawn l l' := by
  generalize hc : (t', l') = c' at h
  induction h generalizing t' l' with
  | refl =>
    cases hc
    exact ⟨[], .refl, [], rfl, fun _ hx => absurd hx List.not_mem_nil, .refl []⟩
  | @tail c₁ c₂ _ hstep ih =>
    subst hc
    obtain ⟨l, hsteps, hmirrored⟩ := ih rfl
    obtain ⟨l₁, hsteps', hmirrored'⟩ := mirrored_step hspawn henv hstep hmirrored
    exact ⟨l₁, hsteps.trans hsteps', hmirrored'⟩

end Simulation

end Pool
end Async
