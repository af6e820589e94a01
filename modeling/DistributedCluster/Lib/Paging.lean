import Mathlib.Data.List.Perm.Basic
import Mathlib.Data.List.Sort
import Mathlib.Data.Multiset.ZeroCons
/-!
# Pages of a ranking

Items are ranked by score, highest first, and items of one score stand in any
order. A client that reads page after page may see another order each time. It
gets every item once if no page ends between two different items of one score.
-/

namespace Paging

variable {α : Type} {score : α → Nat} {items r r' : List α} {size c : Nat}

/-- The items in an order that a sort by score may produce. -/
structure Ranking (score : α → Nat) (items r : List α) : Prop where
  perm : r.Perm items
  sorted : r.Pairwise fun a b => score b ≤ score a

def page (size k : Nat) (r : List α) : List α := (r.drop (k * size)).take size

/-- The pages of `total` items one after the other, each from its own ranking. -/
def pages (size total : Nat) (r : Nat → List α) : List α :=
  (List.range (total / size + 1)).flatMap fun k => page size k (r k)

/-- The first `c` items do not end between two different items of one score. -/
def Clean (score : α → Nat) (items : List α) (c : Nat) : Prop :=
  ∀ x ∈ items, ∀ y ∈ items, score x = score y → items.countP (fun a => score x < score a) < c →
    c < items.countP (fun a => score x ≤ score a) → x = y

/-- Every order of what is left of a list comes from an order of the list. -/
theorem exists_perm_filterMap {β : Type} (f : α → Option β) {r : List β} {l : List α} (h : r.Perm (l.filterMap f)) :
    ∃ l' : List α, l'.Perm l ∧ l'.filterMap f = r := by
  classical
  induction r generalizing l with
  | nil => exact ⟨l, .refl l, (List.nil_perm.1 h)⟩
  | cons b r ih =>
    obtain ⟨a, ha, hab⟩ := List.mem_filterMap.1 (h.mem_iff.1 List.mem_cons_self)
    have hsplit : (l.filterMap f).Perm (b :: (l.erase a).filterMap f) := by
      rw [← List.filterMap_cons_some hab]
      exact (List.perm_cons_erase ha).filterMap f
    obtain ⟨l', hl', rfl⟩ := ih ((List.perm_cons b).1 (h.trans hsplit))
    exact ⟨a :: l', (hl'.cons a).trans (List.perm_cons_erase ha).symm, List.filterMap_cons_some hab⟩

theorem exists_ranking (score : α → Nat) (items : List α) : ∃ r, Ranking score items r := by
  refine ⟨items.mergeSort fun a b => score b ≤ score a, List.mergeSort_perm .., ?_⟩
  have h : (items.mergeSort fun a b => score b ≤ score a).Pairwise fun a b => decide (score b ≤ score a) := List.pairwise_mergeSort
    (fun a b c hab hbc => by simp only [decide_eq_true_eq] at *; omega)
    (fun a b => by simp only [Bool.or_eq_true, decide_eq_true_eq]; omega) items
  exact h.imp fun hab => by simpa using hab

/-! ## What all rankings share -/

/-- The scores stand in the same order. -/
theorem Ranking.scores (h : Ranking score items r) (h' : Ranking score items r') : r.map score = r'.map score := by
  have hfirst : (r.map score).Pairwise fun a b => b ≤ a := List.pairwise_map.2 h.sorted
  have hsecond : (r'.map score).Pairwise fun a b => b ≤ a := List.pairwise_map.2 h'.sorted
  exact ((h.perm.trans h'.perm.symm).map score).eq_of_pairwise (fun a b _ _ hab hba => le_antisymm hba hab) hfirst hsecond

/-- Higher scores, the items of one score, lower scores. -/
theorem sorted_split (t : Nat) (h : r.Pairwise fun a b => score b ≤ score a) :
    r = r.filter (fun a => t < score a) ++ (r.filter (fun a => score a = t) ++ r.filter fun a => score a < t) := by
  induction r with
  | nil => rfl
  | cons a r ih =>
    obtain ⟨ha, h⟩ := List.pairwise_cons.1 h
    have hrest := ih h
    rcases Nat.lt_trichotomy t (score a) with hlt | heq | hgt
    · simp only [List.filter_cons, hlt, show ¬ score a = t by omega, show ¬ score a < t by omega, decide_true,
        decide_false, if_true, Bool.false_eq_true, if_false, List.cons_append]
      rw [← hrest]
    · have hnone : r.filter (fun b => t < score b) = [] := List.filter_eq_nil_iff.2 fun b hb => by
        have := ha b hb
        simp only [decide_eq_true_eq]
        omega
      rw [hnone, List.nil_append] at hrest
      simp only [List.filter_cons, heq, lt_irrefl, decide_true, decide_false, if_true, Bool.false_eq_true, if_false]
      rw [← heq, hnone, List.nil_append, List.cons_append, ← hrest]
    · have hhigh : r.filter (fun b => t < score b) = [] := List.filter_eq_nil_iff.2 fun b hb => by
        have := ha b hb
        simp only [decide_eq_true_eq]
        omega
      have hsame : r.filter (fun b => score b = t) = [] := List.filter_eq_nil_iff.2 fun b hb => by
        have := ha b hb
        simp only [decide_eq_true_eq]
        omega
      rw [hhigh, hsame, List.nil_append, List.nil_append] at hrest
      simp only [List.filter_cons, hgt, show ¬ t < score a by omega, show ¬ score a = t by omega, decide_true,
        decide_false, if_true, Bool.false_eq_true, if_false]
      rw [hhigh, hsame, List.nil_append, List.nil_append, ← hrest]

/-- Two orders of the same items begin alike, where all items are alike if some are left out. -/
theorem take_perm_of_same {l l' : List α} {k : Nat} (h : l.Perm l')
    (hsame : 0 < k → k < l.length → ∀ a ∈ l, ∀ b ∈ l, a = b) : (l.take k).Perm (l'.take k) := by
  rcases Nat.eq_zero_or_pos k with rfl | hpos
  · simp
  · by_cases hk : k < l.length
    · obtain ⟨a, ha⟩ := List.exists_mem_of_ne_nil l (List.ne_nil_of_length_pos (by omega))
      have hl : l = List.replicate l.length a := List.eq_replicate_iff.2 ⟨rfl, fun b hb => hsame hpos hk b hb a ha⟩
      have hl' : l' = l := by
        rw [hl] at h
        rw [hl]
        exact List.perm_replicate.1 h.symm
      rw [hl']
    · rw [List.take_of_length_le (by omega), List.take_of_length_le (by rw [← h.length_eq]; omega)]
      exact h

theorem length_filter_perm (h : r.Perm items) (q : α → Bool) : (r.filter q).length = items.countP q := by
  rw [← List.countP_eq_length_filter]
  exact h.countP_eq q

theorem countP_le_score (score : α → Nat) (items : List α) (t : Nat) : items.countP (fun a => t ≤ score a) =
    items.countP (fun a => t < score a) + items.countP (fun a => score a = t) := by
  induction items with
  | nil => rfl
  | cons a items ih =>
    simp only [List.countP_cons, decide_eq_true_eq, ih]
    rcases Nat.lt_trichotomy t (score a) with h | h | h
    · rw [if_pos h.le, if_pos h, if_neg h.ne']
      omega
    · rw [if_pos h.le, if_neg h.not_lt, if_pos h.symm]
      omega
    · rw [if_neg h.not_ge, if_neg (by omega), if_neg h.ne]
      omega

/-- Where the items of one score are not cut, the first items of all rankings are the same. -/
theorem take_perm (h : Ranking score items r) (h' : Ranking score items r') (hc : Clean score items c) :
    (r.take c).Perm (r'.take c) := by
  classical
  refine List.perm_iff_count.2 fun x => ?_
  -- only the items of the score of `x` matter
  have hcount : ∀ r, Ranking score items r → (r.take c).count x =
      ((r.filter fun a => score a = score x).take (c - items.countP fun a => score x < score a)).count x := by
    intro r h
    conv_lhs => rw [sorted_split (score x) h.sorted]
    have hhigh : x ∉ r.filter fun a => score x < score a := fun hx => by simp at hx
    have hlow : x ∉ r.filter fun a => score a < score x := fun hx => by simp at hx
    rw [List.take_append, List.take_append, List.count_append, List.count_append, length_filter_perm h.perm,
      List.count_eq_zero_of_not_mem fun hx => hhigh (List.mem_of_mem_take hx),
      List.count_eq_zero_of_not_mem fun hx => hlow (List.mem_of_mem_take hx), Nat.zero_add, Nat.add_zero]
  rw [hcount r h, hcount r' h']
  by_cases hx : x ∈ items
  · refine List.Perm.count_eq (take_perm_of_same ((h.perm.trans h'.perm.symm).filter _) fun hpos hlt a ha b hb => ?_) x
    have hsplit := countP_le_score score items (score x)
    rw [length_filter_perm h.perm] at hlt
    have hsame : ∀ a ∈ r.filter (fun a => score a = score x), x = a := by
      intro a ha
      obtain ⟨ha, hscore⟩ := List.mem_filter.1 ha
      exact hc x hx a (h.perm.mem_iff.1 ha) (by simpa using (of_decide_eq_true hscore).symm) (by omega) (by omega)
    rw [← hsame a ha, ← hsame b hb]
  · have hnone : ∀ r, Ranking score items r → x ∉ r.filter fun a => score a = score x := fun r h hmem =>
      hx (h.perm.mem_iff.1 (List.mem_of_mem_filter hmem))
    rw [List.count_eq_zero_of_not_mem fun hmem => hnone r h (List.mem_of_mem_take hmem),
      List.count_eq_zero_of_not_mem fun hmem => hnone r' h' (List.mem_of_mem_take hmem)]

/-! ## Page after page -/

theorem take_page (size k : Nat) (r : List α) : r.take ((k + 1) * size) = r.take (k * size) ++ page size k r := by
  rw [Nat.succ_mul, List.take_add]
  rfl

theorem page_perm (h : Ranking score items r) (h' : Ranking score items r') (k : Nat)
    (hc : ∀ k, Clean score items (k * size)) : (page size k r).Perm (page size k r') := by
  have hbefore := take_perm h h' (hc k)
  have hafter := take_perm h h' (hc (k + 1))
  rw [take_page, take_page] at hafter
  exact (List.perm_append_left_iff _).1 (hafter.trans (hbefore.symm.append_right _))

theorem flatMap_page (size : Nat) (r : List α) (n : Nat) :
    ((List.range n).flatMap fun k => page size k r) = r.take (n * size) := by
  induction n with
  | zero => simp
  | succ n ih => rw [List.range_succ, List.flatMap_append, ih, List.flatMap_singleton, take_page]

theorem pages_const (hsize : 0 < size) (r : List α) : pages size r.length (fun _ => r) = r := by
  have hlt : r.length < (r.length / size + 1) * size := (Nat.div_lt_iff_lt_mul hsize).1 (Nat.lt_succ_self _)
  rw [pages, flatMap_page, List.take_of_length_le hlt.le]

/-- If no page ends between two different items of one score, the pages hold every item once. -/
theorem pages_perm {rankings : Nat → List α} (hsize : 0 < size) (h : ∀ k, Ranking score items (rankings k))
    (hc : ∀ k, Clean score items (k * size)) : (pages size items.length rankings).Perm items := by
  have hpages : (pages size items.length rankings).Perm (pages size items.length fun _ => rankings 0) :=
    List.Perm.flatMap_left _ fun k _ => page_perm (h k) (h 0) k hc
  rw [← (h 0).perm.length_eq] at hpages ⊢
  rw [pages_const hsize] at hpages
  exact hpages.trans (h 0).perm

/-- The scores of the pages never rise. -/
theorem pages_sorted {rankings : Nat → List α} (hsize : 0 < size) (h : ∀ k, Ranking score items (rankings k)) :
    (pages size items.length rankings).Pairwise fun a b => score b ≤ score a := by
  have hpages : (pages size items.length rankings).map score = (pages size items.length fun _ => rankings 0).map score := by
    simp only [pages, page, List.map_flatMap, List.map_take, List.map_drop, (h _).scores (h 0)]
  rw [← (h 0).perm.length_eq, pages_const hsize] at hpages
  have hsorted : ((rankings 0).map score).Pairwise fun a b => b ≤ a := List.pairwise_map.2 (h 0).sorted
  rw [← hpages, (h 0).perm.length_eq] at hsorted
  exact List.pairwise_map.1 hsorted

/-! ## Only then -/

theorem ranking_join {t : Nat} {high same low : List α} (hhigh : Ranking score (items.filter fun a => t < score a) high)
    (hsame : same.Perm (items.filter fun a => score a = t)) (hlow : Ranking score (items.filter fun a => score a < t) low) :
    Ranking score items (high ++ (same ++ low)) := by
  have hh : ∀ a ∈ high, t < score a := fun a ha => by simpa using (List.mem_filter.1 (hhigh.perm.mem_iff.1 ha)).2
  have hs : ∀ a ∈ same, score a = t := fun a ha => by simpa using (List.mem_filter.1 (hsame.mem_iff.1 ha)).2
  have hl : ∀ a ∈ low, score a < t := fun a ha => by simpa using (List.mem_filter.1 (hlow.perm.mem_iff.1 ha)).2
  refine ⟨?_, List.pairwise_append.2 ⟨hhigh.sorted, List.pairwise_append.2 ⟨?_, hlow.sorted, ?_⟩, ?_⟩⟩
  · obtain ⟨r, hr⟩ := exists_ranking score items
    have hitems := hr.perm.symm
    rw [sorted_split t hr.sorted] at hitems
    exact ((hhigh.perm.trans (hr.perm.symm.filter _)).append
      ((hsame.trans (hr.perm.symm.filter _)).append (hlow.perm.trans (hr.perm.symm.filter _)))).trans hitems.symm
  · exact List.pairwise_of_forall_mem_list fun a ha b hb => by rw [hs a ha, hs b hb]
  · intro a ha b hb
    rw [hs a ha]
    exact (hl b hb).le
  · intro a ha b hb
    rcases List.mem_append.1 hb with hb | hb
    · rw [hs b hb]
      exact (hh a ha).le
    · exact (hl b hb).le.trans (hh a ha).le

/-- A ranking in which two items of one score stand next to each other, at any
place among the items of their score. -/
theorem exists_adjacent {x y : α} (hx : x ∈ items) (hy : y ∈ items) (hne : x ≠ y) (hscore : score x = score y)
    (hlow : items.countP (fun a => score x < score a) < c) (hhigh : c < items.countP (fun a => score x ≤ score a)) :
    ∃ before after, before.length + 1 = c ∧ Ranking score items (before ++ x :: y :: after) ∧
      Ranking score items (before ++ y :: x :: after) := by
  classical
  obtain ⟨high, hhighs⟩ := exists_ranking score (items.filter fun a => score x < score a)
  obtain ⟨low, hlows⟩ := exists_ranking score (items.filter fun a => score a < score x)
  have hx' : x ∈ items.filter fun a => score a = score x := List.mem_filter.2 ⟨hx, by simp⟩
  have hy' : y ∈ (items.filter fun a => score a = score x).erase x :=
    (List.mem_erase_of_ne hne.symm).2 (List.mem_filter.2 ⟨hy, by simp [hscore]⟩)
  have hsame : (items.filter fun a => score a = score x).Perm
      (x :: y :: ((items.filter fun a => score a = score x).erase x).erase y) :=
    (List.perm_cons_erase hx').trans ((List.perm_cons_erase hy').cons x)
  generalize ((items.filter fun a => score a = score x).erase x).erase y = others at hsame
  have hlength : high.length = items.countP (fun a => score x < score a) := by
    rw [hhighs.perm.length_eq, List.countP_eq_length_filter]
  have hroom : c - high.length - 1 ≤ others.length := by
    have hsplit := countP_le_score score items (score x)
    have hcount := hsame.length_eq
    rw [← List.countP_eq_length_filter, List.length_cons, List.length_cons] at hcount
    omega
  refine ⟨high ++ others.take (c - high.length - 1), others.drop (c - high.length - 1) ++ low, ?_, ?_, ?_⟩
  · rw [List.length_append, List.length_take, Nat.min_eq_left hroom]
    omega
  all_goals
    rw [List.append_assoc, show ∀ a b : α, ∀ l l₁ l₂ : List α, l ++ a :: b :: (l₁ ++ l₂) = (l ++ a :: b :: l₁) ++ l₂ from
      fun a b l l₁ l₂ => by simp]
    refine ranking_join hhighs (List.Perm.trans ?_ hsame.symm) hlows
    conv_rhs => rw [← List.take_append_drop (c - high.length - 1) others]
  · exact List.perm_middle.trans (List.perm_middle.cons x)
  · exact (List.perm_middle.trans (List.perm_middle.cons y)).trans (.swap x y _)

/-- If every run of pages holds every item once, no page ends between two different
items of one score. -/
theorem clean_of_pages (hsize : 0 < size)
    (h : ∀ rankings : Nat → List α, (∀ k, Ranking score items (rankings k)) →
      (pages size items.length rankings).Perm items) (k : Nat) : Clean score items (k * size) := by
  intro x hx y hy hscore hlow hhigh
  by_contra hne
  obtain ⟨before, after, hlength, hr, hr'⟩ := exists_adjacent hx hy hne hscore hlow hhigh
  have hbefore : ∀ a b, ((before ++ a :: b :: after).drop (k * size)) = b :: after := fun a b => by
    rw [← hlength, show before ++ a :: b :: after = (before ++ [a]) ++ b :: after by simp,
      show before.length + 1 = (before ++ [a]).length by simp, List.drop_left]
  -- page `k` starts with `x` in one ranking and with `y` in the other
  have hpages := (h (Function.update (fun _ => before ++ x :: y :: after) k (before ++ y :: x :: after)) fun j => by
    by_cases hj : j = k
    · rw [hj, Function.update_self]
      exact hr'
    · rw [Function.update_of_ne hj]
      exact hr).trans (h (fun _ => before ++ x :: y :: after) fun _ => hr).symm
  have hk : k ∈ List.range (items.length / size + 1) := by
    have hc : k * size < items.length := hhigh.trans_le List.countP_le_length
    have hlt : k ≤ items.length / size := (Nat.le_div_iff_mul_le hsize).2 hc.le
    exact List.mem_range.2 (by omega)
  obtain ⟨l₁, l₂, hrange⟩ := List.append_of_mem hk
  have hnodup : (l₁ ++ k :: l₂).Nodup := hrange ▸ List.nodup_range
  have hother : ∀ j ∈ l₁ ++ l₂, j ≠ k := by
    rintro j hj rfl
    exact (List.nodup_cons.1 (List.nodup_middle.1 hnodup)).1 hj
  have hsame : ∀ l : List Nat, (∀ j ∈ l, j ≠ k) → (l.flatMap fun j => page size j
      (Function.update (fun _ => before ++ x :: y :: after) k (before ++ y :: x :: after) j)) =
      l.flatMap fun j => page size j (before ++ x :: y :: after) := by
    intro l hl
    refine List.flatMap_congr fun j hj => ?_
    rw [Function.update_of_ne (hl j hj)]
  rw [pages, pages, hrange, List.flatMap_append, List.flatMap_append, List.flatMap_cons, List.flatMap_cons,
    hsame l₁ fun j hj => hother j (List.mem_append_left _ hj), hsame l₂ fun j hj => hother j (List.mem_append_right _ hj),
    Function.update_self, List.perm_append_left_iff, List.perm_append_right_iff, page, page, hbefore, hbefore] at hpages
  obtain ⟨n, rfl⟩ := Nat.exists_eq_add_one.2 hsize
  rw [List.take_succ_cons, List.take_succ_cons, ← Multiset.coe_eq_coe, ← Multiset.cons_coe, ← Multiset.cons_coe,
    Multiset.cons_inj_left] at hpages
  exact hne hpages

end Paging
