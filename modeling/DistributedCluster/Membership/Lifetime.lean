import DistributedCluster.Membership.SelfView
/-!
# The life of one node

A node by itself: whatever it receives, from whomever, and whenever its loops run.
-/

namespace MembershipService

/-- What happens at a node, and when. -/
abbrev Timed := Instant × LocalEvent

/-- The node after what has happened to it. -/
def lived (s : MembershipService) (es : List Timed) : MembershipService := es.foldl (fun s e => (s.react e.1 e.2).1) s

/-- When the node got into the state it has after `es`. -/
def clock (start : Instant) (es : List Timed) : Instant := (es.getLast?.map Prod.fst).getD start

/-- The clock never goes back. -/
def InOrder (start : Instant) (es : List Timed) : Prop := (start :: es.map Prod.fst).Pairwise (· ≤ ·)

section Lived

variable {s : MembershipService} {start now : Instant} {es : List Timed} {e : LocalEvent}

@[simp] theorem lived_nil : s.lived [] = s := rfl

@[simp] theorem lived_snoc : s.lived (es ++ [(now, e)]) = ((s.lived es).react now e).1 := by
  simp [lived]

@[simp] theorem clock_nil : clock start [] = start := rfl

@[simp] theorem clock_snoc : clock start (es ++ [(now, e)]) = now := by
  simp [clock]

theorem InOrder.snoc (h : InOrder start (es ++ [(now, e)])) : InOrder start es ∧ clock start es ≤ now := by
  unfold InOrder at h
  rw [List.map_append, ← List.cons_append, List.pairwise_append] at h
  refine ⟨h.1, ?_⟩
  unfold clock
  cases hlast : es.getLast? with
  | none => exact h.2.2 start List.mem_cons_self now (by simp)
  | some last =>
    have hmem : last.1 ∈ es.map Prod.fst := List.mem_map_of_mem (List.mem_of_getLast? hlast)
    exact h.2.2 last.1 (List.mem_cons_of_mem _ hmem) now (by simp)

end Lived

/-! ## A node's entry for itself -/

/-- The node holds itself `Alive`. -/
structure OwnAlive (s : MembershipService) (m : Node) : Prop where
  entry : s.get_member s.local_id = some m
  id : m.id = s.local_id
  alive : m.state = .Alive

theorem OwnAlive.listed {s : MembershipService} {m : Node} (h : s.OwnAlive m) :
    m ∈ s.get_alive_members ∧ s.local_id ∈ PartitionManager.sorted_ids s.get_alive_members := by
  have hmem : m ∈ s.get_alive_members :=
    List.mem_filter.2 ⟨mem_values.2 ⟨s.local_id, h.entry⟩, by simp [h.alive]⟩
  refine ⟨hmem, ?_⟩
  simp only [PartitionManager.sorted_ids, List.mem_insertionSort, List.mem_map]
  exact ⟨m, hmem, h.id⟩

theorem ownAlive_new (id : NodeId) (bind_addr socket : SocketAddr) (seeds : List SocketAddr) (now : Instant) :
    ∃ m, (MembershipService.new id bind_addr socket seeds now).1.OwnAlive m :=
  ⟨_, (DashMap.lookup_insert_eq ..).trans (if_pos rfl), rfl, rfl⟩

end MembershipService
