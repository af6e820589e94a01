import Mathlib.Data.List.TakeWhile
/-!
# Words between separators

The pieces of a list between separators: where each of them stands.
-/

namespace Words

variable {α : Type} {p : α → Bool} {l word before after : List α}

/-- The word stands in the list, and separators or the ends are around it. -/
structure Stands (p : α → Bool) (l before word after : List α) : Prop where
  list_eq : l = before ++ word ++ after
  word_free : ∀ c ∈ word, p c = false
  starts : ∀ c, before.getLast? = some c → p c = true
  ends : ∀ c, after.head? = some c → p c = true

theorem Stands.mem (h : Stands p l before word after) : word ∈ l.splitOnP p := by
  have htail : word ∈ (word ++ after).splitOnP p := by
    cases after with
    | nil => rw [List.append_nil, List.splitOnP_eq_singleton h.word_free]; exact List.mem_singleton_self word
    | cons s after =>
      rw [List.splitOnP_append_cons_of_forall_mem h.word_free s (h.ends s rfl)]
      exact List.mem_cons_self
  rw [h.list_eq]
  rcases List.eq_nil_or_concat before with rfl | ⟨before, s, rfl⟩
  · exact htail
  · have hsep := h.starts s (by simp)
    rw [List.append_assoc, List.concat_eq_append, List.append_assoc, List.singleton_append, List.splitOnP_append_cons _ _ hsep]
    exact List.mem_append_right _ htail

theorem exists_stands (h : word ∈ l.splitOnP p) : ∃ before after, Stands p l before word after := by
  induction hn : l.length using Nat.strongRecOn generalizing l with
  | _ n ih =>
    by_cases hfree : ∀ c ∈ l, p c = false
    · rw [List.splitOnP_eq_singleton hfree, List.mem_singleton] at h
      subst h
      exact ⟨[], [], by simp, hfree, by simp, by simp⟩
    · -- the first separator ends the first word
      obtain ⟨s, rest, hrest⟩ : ∃ s rest, l.dropWhile (fun c => !p c) = s :: rest := by
        refine List.exists_cons_of_ne_nil fun hnil => hfree fun c hc => ?_
        simpa using List.dropWhile_eq_nil_iff.1 hnil c hc
      have hs : p s = true := by
        have hnot := List.head?_dropWhile_not (fun c => !p c) l
        rw [hrest] at hnot
        simpa using hnot
      have hfirst : ∀ c ∈ l.takeWhile fun c => !p c, p c = false := fun c hc => by
        simpa using List.mem_takeWhile_imp hc
      have hl : l = (l.takeWhile fun c => !p c) ++ s :: rest := by rw [← hrest, List.takeWhile_append_dropWhile]
      generalize l.takeWhile (fun c => !p c) = first at hl hfirst
      subst hl
      rw [List.splitOnP_append_cons_of_forall_mem hfirst s hs, List.mem_cons] at h
      rcases h with rfl | h
      · exact ⟨[], s :: rest, by simp, hfirst, by simp, fun c hc => by cases hc; exact hs⟩
      · obtain ⟨before, after, hstands⟩ := ih rest.length (by simp at hn; omega) h rfl
        refine ⟨first ++ s :: before, after, by rw [hstands.list_eq]; simp, hstands.word_free, fun c hc => ?_, hstands.ends⟩
        cases before with
        | nil =>
          rw [List.getLast?_concat] at hc
          exact Option.some.inj hc ▸ hs
        | cons b before =>
          rw [List.getLast?_append, List.getLast?_cons_cons] at hc
          exact hstands.starts c (by simpa using hc)

theorem mem_splitOnP_iff : word ∈ l.splitOnP p ↔ ∃ before after, Stands p l before word after :=
  ⟨exists_stands, fun ⟨_, _, h⟩ => h.mem⟩

end Words
