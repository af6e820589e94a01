import DistributedCluster.Lib.Discipline
/-!
# Actions that are programs

The actions of one kind of program may be whole programs over other actions, such
as an operation of a library that consists of many reads and writes. `expand` puts
these in the place of the actions, so that others may come in between.
-/

namespace Async

variable {I J : Interface} {α β γ : Type}

def expand (f : (e : I.Act) → Async J (I.Ans e)) : Async I α → Async J α
  | .done a => .done a
  | .call e k => (f e).bind fun x => expand f (k x)

section Laws

variable (f : (e : I.Act) → Async J (I.Ans e))

@[simp] theorem expand_pure (a : α) : expand f (pure a : Async I α) = pure a := rfl

@[simp] theorem expand_perform (e : I.Act) : expand f (perform e) = f e := bind_done (f e)

@[simp] theorem expand_bind (p : Async I α) (g : α → Async I β) :
    expand f (p >>= g) = expand f p >>= fun a => expand f (g a) := by
  induction p with
  | done a => rfl
  | call e k ih =>
    show (f e).bind (fun x => expand f (k x >>= g)) = ((f e).bind fun x => expand f (k x)).bind fun a => expand f (g a)
    rw [bind_assoc]
    congr 1
    funext x
    exact ih x

end Laws

/-- The actions of one kind are found among those of another. -/
structure Inclusion (I J : Interface) where
  act : I.Act → J.Act
  ans : {e : I.Act} → J.Ans (act e) → I.Ans e

/-- The same program, with the actions of the other kind. -/
def Inclusion.within (P : Inclusion I J) (p : Async I α) : Async J α :=
  expand (fun e => perform (P.act e) >>= fun x => pure (P.ans x)) p

/-- What a discipline allows and gives, if each action of the other one obeys it. -/
theorem Obeys.expand {D : Discipline J γ} {E : Discipline I γ} {f : (e : I.Act) → Async J (I.Ans e)}
    (hf : ∀ e g, E.may g e → Obeys D (f e) g fun x g' => E.gives g e x ∧ g' = E.next g e x) {p : Async I α} {g : γ}
    {Q : α → γ → Prop} (h : Obeys E p g Q) : Obeys D (Async.expand f p) g Q := by
  induction p generalizing g with
  | done a => exact h
  | call e k ih =>
    refine (hf e g h.1).bind fun x g' hx => ?_
    obtain ⟨hgives, rfl⟩ := hx
    exact ih x (h.2 x hgives)

/-- What a discipline allows and gives for the actions of one kind. -/
theorem Inclusion.obeys_within {P : Inclusion I J} {D : Discipline J γ} {E : Discipline I γ}
    (hmay : ∀ g e, E.may g e → D.may g (P.act e)) (hgives : ∀ g e x, D.gives g (P.act e) x → E.gives g e (P.ans x))
    (hnext : ∀ g e x, D.next g (P.act e) x = E.next g e (P.ans x)) {p : Async I α} {g : γ} {Q : α → γ → Prop}
    (h : Obeys E p g Q) : Obeys D (P.within p) g Q := by
  refine Obeys.expand (fun e g hact => ?_) h
  have hperform : Obeys D (perform (P.act e)) g fun x g' => D.gives g (P.act e) x ∧ g' = D.next g (P.act e) x :=
    Obeys.perform (hmay g e hact) fun x hx => ⟨hx, rfl⟩
  refine hperform.bind fun x g' hx => Obeys.pure ?_
  obtain ⟨hx, rfl⟩ := hx
  exact ⟨hgives g e x hx, hnext g e x⟩

theorem obeys_only {φ : J.Act → Prop} {f : J.Act} (h : φ f) : Obeys (Discipline.only φ) (perform f) () fun _ _ => True :=
  ⟨h, fun _ _ => trivial⟩

theorem obeys_only_expand {φ : J.Act → Prop} {f : (e : I.Act) → Async J (I.Ans e)}
    (hf : ∀ e, Obeys (Discipline.only φ) (f e) () fun _ _ => True) (p : Async I α) :
    Obeys (Discipline.only φ) (Async.expand f p) () fun _ _ => True :=
  (obeys_lax p).expand fun e _ _ => (hf e).mono fun _ _ _ => ⟨trivial, rfl⟩

end Async
