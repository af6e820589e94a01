import Mathlib.Data.Finset.Max
import Mathlib.Data.List.Perm.Basic
import DistributedCluster.Membership.Gossip
/-!
# Merging gossip in any order

What merging a list of members makes of one id depends only on the state and
the incarnation the view has for it and on those the list reports, and on the
order of the reports. The order matters for two reports of the newest
incarnation that disagree on the state, and for a `Dead` report, which hides
the reports after it if it finds an entry and is dropped if it finds none.
-/

/-- What a record says about its node. -/
abbrev Report := NodeState × UInt64

def Node.report (m : Node) : Report := (m.state, m.incarnation)

/-- What the view has for an id after one more report about it. -/
def absorb : Option Report → Report → Option Report
  | none, r => if r.1 = .Dead then none else some r
  | some e, r => if e.1 = .Dead then some e else if r.2 > e.2 then some r else some e

namespace Absorb

/-- Reports of the newest incarnation agree. -/
def NewestAgree (reports : List Report) : Prop :=
  ∀ a ∈ reports, ∀ b ∈ reports, (∀ r ∈ reports, r.2 ≤ a.2) → a.2 = b.2 → a = b

/-- A `Dead` entry stays. Another entry: the newest of the newer reports agree,
and none is newer than a newer `Dead` one. No entry: the newest of the reports
that are not `Dead` agree, and a `Dead` one is no newer than any of them. -/
def Consistent : Option Report → List Report → Prop
  | none, reports =>
    NewestAgree (reports.filter fun r => r.1 ≠ .Dead) ∧
      ∀ d ∈ reports, d.1 = .Dead → ∀ r ∈ reports, r.1 ≠ .Dead → d.2 ≤ r.2
  | some e, reports =>
    e.1 ≠ .Dead →
      NewestAgree (reports.filter fun r => e.2 < r.2) ∧
        ∀ d ∈ reports, d.1 = .Dead → e.2 < d.2 → ∀ r ∈ reports, r.2 ≤ d.2

theorem foldl_dead {e : Report} (he : e.1 = .Dead) (reports : List Report) :
    reports.foldl absorb (some e) = some e := by
  induction reports with
  | nil => rfl
  | cons r rs ih => rw [List.foldl_cons, absorb, if_pos he, ih]

/-- An entry never gets older. -/
theorem foldl_some (reports : List Report) (e : Report) :
    ∃ e', reports.foldl absorb (some e) = some e' ∧ e.2 ≤ e'.2 := by
  induction reports generalizing e with
  | nil => exact ⟨e, rfl, UInt64.le_refl _⟩
  | cons r rs ih =>
    rw [List.foldl_cons, absorb]
    split
    · exact ih e
    · split
      · obtain ⟨e', h, hle⟩ := ih r
        exact ⟨e', h, by grind⟩
      · exact ih e

theorem foldl_older {e : Report} {reports : List Report} (h : ∀ r ∈ reports, r.2 ≤ e.2) :
    reports.foldl absorb (some e) = some e := by
  induction reports with
  | nil => rfl
  | cons r rs ih =>
    have hr := h r List.mem_cons_self
    rw [List.foldl_cons, absorb, if_neg (UInt64.not_lt.2 hr), ite_self]
    exact ih fun r' hr' => h r' (List.mem_cons_of_mem _ hr')

/-- If every `Dead` report newer than the entry is the newest report `t`, the
entry ends as `t`. -/
theorem foldl_newest {t : Report} {reports : List Report} (ht : t ∈ reports) (hmax : ∀ r ∈ reports, r.2 ≤ t.2)
    (htop : ∀ r ∈ reports, r.2 = t.2 → r = t) {e : Report} (he : e.1 ≠ .Dead) (hlt : e.2 < t.2)
    (hdead : ∀ d ∈ reports, d.1 = .Dead → e.2 < d.2 → d = t) : reports.foldl absorb (some e) = some t := by
  induction reports generalizing e with
  | nil => cases ht
  | cons r rs ih =>
    have hrest : ∀ r' ∈ rs, r'.2 ≤ t.2 := fun r' hr' => hmax r' (List.mem_cons_of_mem _ hr')
    rw [List.foldl_cons, absorb, if_neg he]
    by_cases hr : r = t
    · rw [hr, if_pos hlt]
      exact foldl_older hrest
    · have ht' : t ∈ rs := (List.mem_cons.1 ht).resolve_left (Ne.symm hr)
      have htop' : ∀ r' ∈ rs, r'.2 = t.2 → r' = t := fun r' hr' => htop r' (List.mem_cons_of_mem _ hr')
      have hle := hmax r List.mem_cons_self
      split
      · rename_i hnew
        have halive : r.1 ≠ .Dead := fun hd => hr (hdead r List.mem_cons_self hd hnew)
        have hne : r.2 ≠ t.2 := fun h => hr (htop r List.mem_cons_self h)
        refine ih ht' hrest htop' halive (by grind) fun d hd hdd hgt => ?_
        exact hdead d (List.mem_cons_of_mem _ hd) hdd (by grind)
      · exact ih ht' hrest htop' he hlt fun d hd => hdead d (List.mem_cons_of_mem _ hd)

theorem foldl_dropped {reports : List Report} (h : ∀ r ∈ reports, r.1 = .Dead) :
    reports.foldl absorb none = none := by
  induction reports with
  | nil => rfl
  | cons r rs ih =>
    rw [List.foldl_cons, absorb, if_pos (h r List.mem_cons_self)]
    exact ih fun r' hr' => h r' (List.mem_cons_of_mem _ hr')

/-- An unknown id ends as the newest report that is not `Dead` if no `Dead`
report is newer than one that is not. -/
theorem foldl_first {t : Report} {reports : List Report} (ht : t ∈ reports) (halive : t.1 ≠ .Dead)
    (hmax : ∀ r ∈ reports, r.1 ≠ .Dead → r.2 ≤ t.2) (htop : ∀ r ∈ reports, r.1 ≠ .Dead → r.2 = t.2 → r = t)
    (hdead : ∀ d ∈ reports, d.1 = .Dead → ∀ r ∈ reports, r.1 ≠ .Dead → d.2 ≤ r.2) :
    reports.foldl absorb none = some t := by
  induction reports with
  | nil => cases ht
  | cons r rs ih =>
    rw [List.foldl_cons, absorb]
    split
    · rename_i hr
      have ht' : t ∈ rs := (List.mem_cons.1 ht).resolve_left (by rintro rfl; exact halive hr)
      exact ih ht' (fun r' hr' => hmax r' (List.mem_cons_of_mem _ hr'))
        (fun r' hr' => htop r' (List.mem_cons_of_mem _ hr'))
        fun d hd hdd r' hr' => hdead d (List.mem_cons_of_mem _ hd) hdd r' (List.mem_cons_of_mem _ hr')
    · rename_i hr
      -- from here on every `Dead` report is old news
      have hold : ∀ d ∈ rs, d.1 = .Dead → d.2 ≤ r.2 := fun d hd hdd =>
        hdead d (List.mem_cons_of_mem _ hd) hdd r List.mem_cons_self hr
      have hle : ∀ r' ∈ rs, r'.2 ≤ t.2 := by
        intro r' hr'
        by_cases hd : r'.1 = .Dead
        · exact UInt64.le_trans (hold r' hr' hd) (hmax r List.mem_cons_self hr)
        · exact hmax r' (List.mem_cons_of_mem _ hr') hd
      by_cases heq : r.2 = t.2
      · rw [htop r List.mem_cons_self hr heq]
        exact foldl_older hle
      · have hlt : r.2 < t.2 := UInt64.lt_of_le_of_ne (hmax r List.mem_cons_self hr) heq
        have ht' : t ∈ rs := (List.mem_cons.1 ht).resolve_left (by rintro rfl; exact heq rfl)
        refine foldl_newest ht' hle (fun r' hr' h => ?_) hr hlt fun d hd hdd hgt => ?_
        · refine htop r' (List.mem_cons_of_mem _ hr') (fun hd => ?_) h
          have := hold r' hr' hd
          grind
        · have := hold d hd hdd
          grind

theorem foldl_alive {reports : List Report} (h : ∀ r ∈ reports, r.1 ≠ .Dead) {c : Option Report}
    (hc : ∀ e, c = some e → e.1 ≠ .Dead) : ∀ e, reports.foldl absorb c = some e → e.1 ≠ .Dead := by
  induction reports generalizing c with
  | nil => exact hc
  | cons r rs ih =>
    have hr := h r List.mem_cons_self
    refine ih (fun r' hr' => h r' (List.mem_cons_of_mem _ hr')) fun e he => ?_
    cases c with
    | none =>
      rw [absorb, if_neg hr] at he
      cases he
      exact hr
    | some e' =>
      have he' := hc e' rfl
      rw [absorb, if_neg he'] at he
      split at he
      · cases he
        exact hr
      · cases he
        exact he'

theorem exists_newest {reports : List Report} (h : reports ≠ []) : ∃ t ∈ reports, ∀ r ∈ reports, r.2 ≤ t.2 := by
  obtain ⟨t, ht, hmax⟩ := reports.toFinset.exists_max_image (fun r => r.2.toNat) (List.toFinset_nonempty_iff _ |>.2 h)
  exact ⟨t, List.mem_toFinset.1 ht, fun r hr => UInt64.le_iff_toNat_le.2 (hmax r (List.mem_toFinset.2 hr))⟩

/-- With consistent reports the result can be read off the set of reports. -/
theorem foldl_of_consistent {c : Option Report} {reports : List Report} (h : Consistent c reports) :
    ∃ c', ∀ rs : List Report, rs.Perm reports → rs.foldl absorb c = c' := by
  cases c with
  | none =>
    obtain ⟨hagree, hdead⟩ := h
    by_cases hne : reports.filter (fun r => r.1 ≠ .Dead) = []
    · -- nothing but `Dead` reports
      refine ⟨none, fun rs hp => foldl_dropped fun r hr => ?_⟩
      by_contra hd
      have hmem : r ∈ reports.filter fun r => r.1 ≠ .Dead := List.mem_filter.2 ⟨hp.subset hr, by simpa using hd⟩
      rw [hne] at hmem
      cases hmem
    · obtain ⟨t, ht, hmax⟩ := exists_newest hne
      have mem : ∀ {r}, r ∈ reports → r.1 ≠ .Dead → r ∈ reports.filter fun r => r.1 ≠ .Dead :=
        fun hr hd => List.mem_filter.2 ⟨hr, by simpa using hd⟩
      have ht' := List.mem_filter.1 ht
      refine ⟨some t, fun rs hp => foldl_first (hp.mem_iff.2 ht'.1) (by simpa using ht'.2) ?_ ?_ ?_⟩
      · exact fun r hr hd => hmax r (mem (hp.subset hr) hd)
      · exact fun r hr hd heq => (hagree t ht r (mem (hp.subset hr) hd) hmax heq.symm).symm
      · exact fun d hd hdd r hr => hdead d (hp.subset hd) hdd r (hp.subset hr)
  | some e =>
    by_cases he : e.1 = .Dead
    · exact ⟨some e, fun rs _ => foldl_dead he rs⟩
    obtain ⟨hagree, hdead⟩ := h he
    have mem : ∀ {r}, r ∈ reports → e.2 < r.2 → r ∈ reports.filter fun r => e.2 < r.2 :=
      fun hr hlt => List.mem_filter.2 ⟨hr, by simpa using hlt⟩
    by_cases hne : reports.filter (fun r => e.2 < r.2) = []
    · -- nothing newer than the entry
      refine ⟨some e, fun rs hp => foldl_older fun r hr => ?_⟩
      by_contra hlt
      have hmem := mem (hp.subset hr) (UInt64.not_le.1 hlt)
      rw [hne] at hmem
      cases hmem
    · obtain ⟨t, ht, hmax⟩ := exists_newest hne
      have ht' := List.mem_filter.1 ht
      have hlt : e.2 < t.2 := by simpa using ht'.2
      have htop : ∀ r ∈ reports, r.2 = t.2 → r = t := fun r hr heq =>
        (hagree t ht r (mem hr (by grind)) hmax heq.symm).symm
      have hle : ∀ r ∈ reports, r.2 ≤ t.2 := by
        intro r hr
        by_cases hnew : e.2 < r.2
        · exact hmax r (mem hr hnew)
        · grind
      refine ⟨some t, fun rs hp => foldl_newest (hp.mem_iff.2 ht'.1) (fun r hr => hle r (hp.subset hr))
        (fun r hr => htop r (hp.subset hr)) he hlt fun d hd hdd hgt => ?_⟩
      have hmem := hp.subset hd
      exact htop d hmem (UInt64.le_antisymm (hle d hmem) (hdead d hmem hdd hgt t ht'.1))

/-- Without an entry, a `Dead` report that came after another would stay. -/
theorem dead_le_of_foldl {reports : List Report}
    (h : ∀ l₁ l₂ : List Report, l₁.Perm reports → l₂.Perm reports → l₁.foldl absorb none = l₂.foldl absorb none) :
    ∀ d ∈ reports, d.1 = .Dead → ∀ r ∈ reports, r.1 ≠ .Dead → d.2 ≤ r.2 := by
  intro d hd hdd r hr hrd
  by_contra hgt
  have hne : d ≠ r := by
    rintro rfl
    exact hrd hdd
  have hd' : d ∈ reports.erase r := (List.mem_erase_of_ne hne).2 hd
  -- `r` and then `d`: the entry is `Dead`
  have h₁ : (r :: d :: (reports.erase r).erase d).foldl absorb none = some d := by
    rw [List.foldl_cons, List.foldl_cons, absorb, if_neg hrd, absorb, if_neg hrd, if_pos (UInt64.not_le.1 hgt)]
    exact foldl_dead hdd _
  -- every `Dead` report first: the entry is not
  have h₂ := h (r :: d :: (reports.erase r).erase d)
    (reports.filter (fun r => r.1 = .Dead) ++ reports.filter fun r => !decide (r.1 = .Dead))
    (((List.perm_cons_erase hd').symm.cons r).trans (List.perm_cons_erase hr).symm)
    (List.filter_append_perm _ reports)
  rw [h₁, List.foldl_append, foldl_dropped (fun r hr => by simpa using (List.mem_filter.1 hr).2)] at h₂
  exact foldl_alive (fun r hr => by simpa using (List.mem_filter.1 hr).2) (fun e he => by cases he) d h₂.symm hdd

/-- Two orders that start with different reports and end the same tell what the
reports have in common. -/
theorem consistent_of_foldl {c : Option Report} {reports : List Report}
    (h : ∀ l₁ l₂ : List Report, l₁.Perm reports → l₂.Perm reports → l₁.foldl absorb c = l₂.foldl absorb c) :
    Consistent c reports := by
  have first : ∀ {a b}, a ∈ reports → b ∈ reports →
      (reports.erase a).foldl absorb (absorb c a) = (reports.erase b).foldl absorb (absorb c b) := fun ha hb =>
    h _ _ (List.perm_cons_erase ha).symm (List.perm_cons_erase hb).symm
  cases c with
  | none =>
    have hdead := dead_le_of_foldl h
    refine ⟨fun a ha b hb hmax hab => ?_, hdead⟩
    obtain ⟨ha, had⟩ := List.mem_filter.1 ha
    obtain ⟨hb, hbd⟩ := List.mem_filter.1 hb
    simp only [ne_eq, decide_eq_true_eq] at had hbd
    have hle : ∀ r ∈ reports, r.2 ≤ a.2 := by
      intro r hr
      by_cases hrd : r.1 = .Dead
      · exact hdead r hr hrd a ha had
      · exact hmax r (List.mem_filter.2 ⟨hr, by simpa using hrd⟩)
    have hf := first ha hb
    rw [absorb, if_neg had, absorb, if_neg hbd, foldl_older fun r hr => hle r (List.mem_of_mem_erase hr),
      foldl_older fun r hr => hab ▸ hle r (List.mem_of_mem_erase hr)] at hf
    exact Option.some.inj hf
  | some e =>
    intro he
    refine ⟨fun a ha b hb hmax hab => ?_, fun d hd hdd hlt r hr => ?_⟩
    · obtain ⟨ha, han⟩ := List.mem_filter.1 ha
      obtain ⟨hb, hbn⟩ := List.mem_filter.1 hb
      simp only [decide_eq_true_eq] at han hbn
      have hle : ∀ r ∈ reports, r.2 ≤ a.2 := by
        intro r hr
        by_cases hnew : e.2 < r.2
        · exact hmax r (List.mem_filter.2 ⟨hr, by simpa using hnew⟩)
        · grind
      have hf := first ha hb
      rw [absorb, if_neg he, if_pos han, absorb, if_neg he, if_pos hbn,
        foldl_older fun r hr => hle r (List.mem_of_mem_erase hr),
        foldl_older fun r hr => hab ▸ hle r (List.mem_of_mem_erase hr)] at hf
      exact Option.some.inj hf
    · by_contra hgt
      -- the entry stays with `d` if it comes first, and gets past it with `r`
      have hf := first hd hr
      rw [absorb, if_neg he, if_pos hlt, foldl_dead hdd, absorb, if_neg he, if_pos (by grind)] at hf
      obtain ⟨e', he', hle⟩ := foldl_some (reports.erase r) r
      rw [he'] at hf
      cases hf
      grind

end Absorb

namespace MembershipService

/-- Merges members one after the other, each at its own time. -/
def merge_members (s : MembershipService) (updates : List (Instant × Node)) : MembershipService :=
  updates.foldl (fun s u => merge_member u.1 s u.2) s

/-- What the view says about `x`: `last_seen` and the addresses left out. -/
def view (s : MembershipService) (x : NodeId) : Option Report := (s.get_member x).map Node.report

/-- What the updates say about `x`. -/
def reports (x : NodeId) (updates : List Node) : List Report :=
  (updates.filter fun m => m.id = x).map Node.report

theorem merge_member_view (now : Instant) (s : MembershipService) (m : Node) (x : NodeId) :
    (merge_member now s m).view x = if m.id = x then absorb (s.view x) m.report else s.view x := by
  unfold merge_member view
  by_cases hx : m.id = x
  · subst hx
    rw [if_pos rfl]
    cases hm : s.get_member m.id with
    | none =>
      dsimp only
      split
      · simp [absorb, Node.report, *]
      · simp [absorb, Node.report, *]
    | some existing =>
      dsimp only
      split
      · simp [absorb, Node.report, *]
      · split <;> simp [absorb, Node.report, *]
  · rw [if_neg hx]
    have hne : x ≠ m.id := Ne.symm hx
    repeat' split
    all_goals simp [hne]

theorem merge_members_view (updates : List (Instant × Node)) (s : MembershipService) (x : NodeId) :
    (s.merge_members updates).view x = (reports x (updates.map Prod.snd)).foldl absorb (s.view x) := by
  induction updates generalizing s with
  | nil => rfl
  | cons u us ih =>
    rw [merge_members, List.foldl_cons, ← merge_members, ih, merge_member_view]
    by_cases hx : u.2.id = x
    · simp [reports, hx]
    · simp [reports, hx]

/-- Every order of what the updates say about `x` is an order of the updates. -/
theorem exists_order {x : NodeId} {updates : List Node} {rs : List Report} (h : rs.Perm (reports x updates)) :
    ∃ us : List Node, us.Perm updates ∧ reports x us = rs := by
  have hmap : List.Forall₂ (fun r m => r = Node.report m) (reports x updates) (updates.filter fun m => m.id = x) := by
    rw [reports, List.forall₂_map_left_iff]
    exact List.forall₂_same.2 fun _ _ => rfl
  obtain ⟨us, hus, hp⟩ := List.perm_comp_forall₂ h hmap
  have hrs : rs = us.map Node.report := by
    rw [← List.forall₂_eq_eq_eq, List.forall₂_map_right_iff]
    exact hus
  refine ⟨us ++ updates.filter fun m => !decide (m.id = x), ?_, ?_⟩
  · exact (hp.append_right _).trans (List.filter_append_perm _ updates)
  · have hall : us.filter (fun m => m.id = x) = us :=
      List.filter_eq_self.2 fun m hm => (List.mem_filter.1 (hp.subset hm)).2
    rw [reports, List.filter_append, hall, hrs]
    simp [List.filter_filter]

/-- Merging the updates in any two orders, at any times, makes the same of every id. -/
def OrderIndependent (s : MembershipService) (updates : List Node) : Prop :=
  ∀ us₁ us₂ : List (Instant × Node), (us₁.map Prod.snd).Perm updates → (us₂.map Prod.snd).Perm updates →
    ∀ x, (s.merge_members us₁).view x = (s.merge_members us₂).view x

theorem order_independent_iff (s : MembershipService) (updates : List Node) :
    OrderIndependent s updates ↔ ∀ x, Absorb.Consistent (s.view x) (reports x updates) := by
  constructor
  · intro h x
    refine Absorb.consistent_of_foldl fun l₁ l₂ h₁ h₂ => ?_
    obtain ⟨us₁, hp₁, rfl⟩ := exists_order h₁
    obtain ⟨us₂, hp₂, rfl⟩ := exists_order h₂
    have stamped : ∀ us : List Node, (us.map fun m => ((0, m) : Instant × Node)).map Prod.snd = us := fun us => by simp
    have hv := h (us₁.map fun m => (0, m)) (us₂.map fun m => (0, m)) (by rwa [stamped]) (by rwa [stamped]) x
    rwa [merge_members_view, merge_members_view, stamped, stamped] at hv
  · intro h us₁ us₂ hp₁ hp₂ x
    obtain ⟨c, hc⟩ := Absorb.foldl_of_consistent (h x)
    rw [merge_members_view, merge_members_view, hc (reports x _) ((hp₁.filter _).map _),
      hc (reports x _) ((hp₂.filter _).map _)]

section Tie

def merging : MembershipService :=
  (MembershipService.new ⟨"merging"⟩ (.V4 0x7f000001 5000) (.V4 0x7f000001 5000) [] 0).1

def seen_as (state : NodeState) : Node :=
  ⟨⟨"peer"⟩, .V4 0x7f000001 5001, .V4 0x7f000001 6001, state, 1, none⟩

/-- Two records of one unknown node, of the same incarnation: the first one merged decides. -/
theorem not_order_independent :
    ¬ ∀ (s : MembershipService) (updates : List Node), (∀ m ∈ updates, m.id ≠ s.local_id) →
      OrderIndependent s updates := by
  intro h
  have hv := h merging [seen_as .Alive, seen_as .Suspect] (by decide) [(0, seen_as .Alive), (0, seen_as .Suspect)]
    [(0, seen_as .Suspect), (0, seen_as .Alive)] (List.Perm.refl _) (List.Perm.swap ..) ⟨"peer"⟩
  revert hv
  decide

end Tie

end MembershipService
