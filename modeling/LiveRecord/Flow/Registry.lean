/-!
Lists of listeners, in the order in which they were registered.

Each registration gets a ticket that no other registration of the registry has, before or after, so
a ticket that is gone stays gone (`find?_remove_self`, `find?_register_of_ne`).
-/

set_option autoImplicit false

namespace LiveRecord.Flow

/-- Listeners by ticket. Tickets from `next` on have not been given out. -/
structure Registry (κ : Type) where
  next : Nat := 0
  entries : List (Nat × κ) := []
deriving Repr

namespace Registry

variable {κ : Type}

instance : Inhabited (Registry κ) := ⟨{}⟩

/-- Registers a listener, under the ticket `registry.next`. -/
def register (listener : κ) (registry : Registry κ) : Registry κ where
  next := registry.next + 1
  entries := registry.entries ++ [(registry.next, listener)]

def remove (ticket : Nat) (registry : Registry κ) : Registry κ :=
  { registry with entries := registry.entries.filter (·.1 != ticket) }

def clear (registry : Registry κ) : Registry κ :=
  { registry with entries := [] }

/-- The listener that holds a ticket. -/
def find? (ticket : Nat) (registry : Registry κ) : Option κ :=
  (registry.entries.find? (·.1 == ticket)).map (·.2)

def tickets (registry : Registry κ) : List Nat := registry.entries.map (·.1)

def size (registry : Registry κ) : Nat := registry.entries.length

theorem find?_remove_self (ticket : Nat) (registry : Registry κ) :
    (registry.remove ticket).find? ticket = none := by
  simp [find?, remove, List.find?_eq_none]

theorem find?_remove_of_ne {ticket other : Nat} (h : other ≠ ticket) (registry : Registry κ) :
    (registry.remove ticket).find? other = registry.find? other := by
  simp only [find?, remove, List.find?_filter]
  congr 2
  funext entry
  by_cases hentry : entry.1 = other <;> simp_all

theorem find?_clear (ticket : Nat) (registry : Registry κ) :
    registry.clear.find? ticket = none := rfl

theorem find?_register_of_ne {ticket : Nat} {registry : Registry κ} (h : ticket ≠ registry.next)
    (listener : κ) : (registry.register listener).find? ticket = registry.find? ticket := by
  simp only [find?, register, List.find?_append]
  cases registry.entries.find? (·.1 == ticket) with
  | some entry => simp
  | none => simp [Ne.symm h]

theorem find?_isSome_of_mem_tickets {ticket : Nat} {registry : Registry κ}
    (h : ticket ∈ registry.tickets) : (registry.find? ticket).isSome := by
  obtain ⟨entry, hentry, rfl⟩ := List.mem_map.mp h
  rw [find?, Option.isSome_map, List.find?_isSome]
  exact ⟨entry, hentry, by simp⟩

theorem mem_tickets_of_find? {ticket : Nat} {listener : κ} {registry : Registry κ}
    (h : registry.find? ticket = some listener) : ticket ∈ registry.tickets := by
  obtain ⟨entry, hentry, -⟩ := Option.map_eq_some_iff.mp h
  have hticket : entry.1 = ticket := by simpa using List.find?_some hentry
  exact List.mem_map.mpr ⟨entry, List.mem_of_find?_eq_some hentry, hticket⟩

theorem tickets_register (listener : κ) (registry : Registry κ) :
    (registry.register listener).tickets = registry.tickets ++ [registry.next] := by
  simp [tickets, register]

end Registry

end LiveRecord.Flow
