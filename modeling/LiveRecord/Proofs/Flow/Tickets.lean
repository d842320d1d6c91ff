import LiveRecord.Proofs.Flow.Change

/-!
# Tickets grow in the order of registration

The listeners of a source stand in the order in which they registered, and no ticket is given out
twice (`Machine.ordered_run`). So a pass over the tickets of a source meets its listeners one after
the other, each of them once (`Registry.Ordered.find?_of_mem`).
-/

set_option autoImplicit false

namespace LiveRecord.Flow

variable {α β : Type}

namespace Registry

variable {κ : Type} {new : κ → Prop} {registry registry' : Registry κ}

/-- The tickets grow along the list, and all of them have been given out. -/
structure Ordered (registry : Registry κ) : Prop where
  sorted : registry.entries.Pairwise (·.1 < ·.1)
  given : ∀ entry ∈ registry.entries, entry.1 < registry.next

theorem ordered_empty : Ordered ({} : Registry κ) where
  sorted := .nil
  given _ hentry := absurd hentry List.not_mem_nil

theorem Ordered.register (h : registry.Ordered) (listener : κ) :
    (registry.register listener).Ordered where
  sorted := by
    refine List.pairwise_append.mpr ⟨h.sorted, List.pairwise_singleton _ _, ?_⟩
    intro entry hentry last hlast
    rw [List.mem_singleton.mp hlast]
    exact h.given entry hentry
  given entry hentry := by
    rcases List.mem_append.mp hentry with hold | hlast
    · exact Nat.lt_succ_of_lt (h.given entry hold)
    · rw [List.mem_singleton.mp hlast]
      exact Nat.lt_succ_self _

theorem Ordered.removeAll (h : registry.Ordered) (gone : List Nat) :
    (registry.removeAll gone).Ordered where
  sorted := h.sorted.filter _
  given entry hentry := h.given entry (List.mem_filter.mp hentry).1

theorem Change.ordered (hchange : registry.Change new registry') (h : registry.Ordered) :
    registry'.Ordered := by
  cases hchange with
  | same => exact h
  | register listener _ => exact h.register listener
  | removeAll gone => exact h.removeAll gone
  | clear => exact ⟨.nil, fun _ hentry ↦ absurd hentry List.not_mem_nil⟩

/-- Assumes: tickets that grow along the list. -/
theorem Ordered.find?_of_mem {entry : Nat × κ} (h : registry.Ordered)
    (hentry : entry ∈ registry.entries) : registry.find? entry.1 = some entry.2 := by
  obtain ⟨before, after, hsplit⟩ := List.append_of_mem hentry
  have hsorted := h.sorted
  rw [hsplit, List.pairwise_append] at hsorted
  have hbefore : before.find? (·.1 == entry.1) = none := by
    rw [List.find?_eq_none]
    intro other hother
    have hless := hsorted.2.2 other hother entry List.mem_cons_self
    simpa using Nat.ne_of_lt hless
  simp [find?, hsplit, List.find?_append, hbefore]

end Registry

namespace World

variable {new : Listener → Prop} {world world' : World α β}

/-- The listeners of every source are in order. -/
def Ordered (world : World α β) : Prop :=
  ∀ (source : SourceId) (s : Source α), world.sources[source]? = some s → s.listeners.Ordered

theorem Change.ordered (hchange : world.Change new world') (h : world.Ordered) :
    world'.Ordered := by
  intro source s' hsource
  rcases hchange.listeners hsource with hnone | ⟨s, hs, hlisteners⟩
  · rw [hnone]
    exact Registry.ordered_empty
  · exact hlisteners.ordered (h source s hs)

end World

namespace Machine

/-- The listeners of every source are in order, after every run. -/
theorem ordered_run (moves : List (Move α β)) :
    (run moves ({} : Machine α β)).world.Ordered :=
  @run_preserves α β (fun m ↦ m.world.Ordered) (fun m move h ↦
    (changes_move move m).preserves (fun _ _ hordered hchange ↦ hchange.ordered hordered) h)
    {} (fun source s hsource ↦ by simp at hsource) moves

end Machine

end LiveRecord.Flow
