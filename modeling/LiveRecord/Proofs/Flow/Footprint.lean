import Mathlib.Data.List.Basic
import LiveRecord.Proofs.Flow.Run

/-!
# The ids that an observer takes up

An observer is a subscription or a view that only takes note. Where there is one, ids are given out
that are not given out without it, so everything that comes later has another id. The footprint of
an observer lists its ids, and says which id each thing has with the observer there (`Gap.skip`).

A world hosts another one under a footprint when it is the same but for what the observer has
brought (`Footprint.Hosts`). Whatever is done to both worlds alike leaves this as it is.
-/

set_option autoImplicit false

namespace LiveRecord.Flow

variable {α β : Type}

/-! ### Ids that are given out in one of two runs only -/

/-- Ids that only one of two runs has given out: `count` of them, from `start` on. -/
structure Gap where
  start : Nat := 0
  count : Nat := 0
deriving DecidableEq

namespace Gap

variable {gap : Gap} {i j : Nat} {ids ids' more more' : List Nat}

/-- The id, in the run that has given out those of the gap, of what has the id `i` in the other. -/
def skip (gap : Gap) (i : Nat) : Nat := if i < gap.start then i else i + gap.count

def has (gap : Gap) (i : Nat) : Bool := gap.start ≤ i && i < gap.start + gap.count

theorem has_iff : gap.has i ↔ gap.start ≤ i ∧ i < gap.start + gap.count := by
  simp [has]

@[simp] theorem has_skip (gap : Gap) (i : Nat) : gap.has (gap.skip i) = false := by
  unfold has skip
  split <;> simp <;> omega

theorem skip_injective (gap : Gap) : Function.Injective gap.skip := by
  intro i j h
  unfold skip at h
  split at h <;> split at h <;> omega

theorem skip_ne_of_has (h : gap.has j) (i : Nat) : gap.skip i ≠ j := by
  rintro rfl
  simp at h

theorem skip_of_lt (h : i < gap.start) : gap.skip i = i := if_pos h

theorem skip_of_le (h : gap.start ≤ i) : gap.skip i = i + gap.count := if_neg (Nat.not_lt.mpr h)

theorem skip_of_count (h : gap.count = 0) (i : Nat) : gap.skip i = i := by
  rw [skip, h, Nat.add_zero, ite_self]

@[simp] theorem skip_empty (i : Nat) : ({} : Gap).skip i = i := skip_of_count rfl i

theorem has_of_count (h : gap.count = 0) (i : Nat) : gap.has i = false := by
  rw [has, h, Nat.add_zero, Bool.and_eq_false_iff]
  simp only [decide_eq_false_iff_not]
  omega

theorem skip_le_skip (h : i ≤ j) : gap.skip i ≤ gap.skip j := by
  unfold skip
  split <;> split <;> omega

/-- The second list is the first one, but for ids of the gap. -/
def Hosts (gap : Gap) (ids ids' : List Nat) : Prop :=
  ids'.filter (fun i ↦ !gap.has i) = ids.map gap.skip

theorem hosts_nil : gap.Hosts [] [] := rfl

theorem Hosts.append (h : gap.Hosts ids ids') (hmore : gap.Hosts more more') :
    gap.Hosts (ids ++ more) (ids' ++ more') := by
  rw [Hosts, List.filter_append, List.map_append, h, hmore]

theorem hosts_skip (gap : Gap) (ids : List Nat) : gap.Hosts ids (ids.map gap.skip) := by
  rw [Hosts, List.filter_eq_self]
  intro i hi
  obtain ⟨k, -, rfl⟩ := List.mem_map.mp hi
  simp

theorem Hosts.concat (h : gap.Hosts ids ids') (i : Nat) :
    gap.Hosts (ids ++ [i]) (ids' ++ [gap.skip i]) :=
  h.append (gap.hosts_skip [i])

/-- Assumes: a list that begins with an id of the gap. -/
theorem hosts_cons_of_has (h : gap.has j) : gap.Hosts ids (j :: ids') ↔ gap.Hosts ids ids' := by
  rw [Hosts, Hosts, List.filter_cons_of_neg (by simpa using h)]

/-- Assumes: a list that begins with another id than those of the gap. -/
theorem Hosts.of_cons (h : gap.Hosts ids (j :: ids')) (hnot : gap.has j = false) :
    ∃ i rest, ids = i :: rest ∧ gap.skip i = j ∧ gap.Hosts rest ids' := by
  rw [Hosts, List.filter_cons_of_pos (by simpa using hnot)] at h
  cases ids with
  | nil => contradiction
  | cons i rest =>
    obtain ⟨hi, hrest⟩ := List.cons.inj h
    exact ⟨i, rest, rfl, hi.symm, hrest⟩

theorem Hosts.contains (h : gap.Hosts ids ids') (i : Nat) :
    ids'.contains (gap.skip i) = ids.contains i := by
  have hmem : gap.skip i ∈ ids' ↔ i ∈ ids := by
    rw [← @List.mem_map_of_injective _ _ gap.skip gap.skip_injective i ids, ← h, List.mem_filter]
    simp
  rw [Bool.eq_iff_iff, List.contains_iff_mem, List.contains_iff_mem, hmem]

theorem Hosts.eq_nil (h : gap.Hosts ids []) : ids = [] := List.map_eq_nil_iff.mp h.symm

end Gap

/-! ### Lists of listeners -/

/-- The second registry is the first one, but for listeners of its own under tickets of the gap. -/
structure Registry.Hosts {κ : Type} (gap : Gap) (rename : κ → κ) (own : κ → Prop)
    (registry registry' : Registry κ) : Prop where
  start : gap.start ≤ registry.next
  next : registry'.next = gap.skip registry.next
  entries : registry'.entries.filter (fun entry ↦ !gap.has entry.1) =
    registry.entries.map fun entry ↦ (gap.skip entry.1, rename entry.2)
  own : ∀ entry ∈ registry'.entries, gap.has entry.1 → own entry.2

namespace Registry.Hosts

variable {κ : Type} {gap : Gap} {rename : κ → κ} {own : κ → Prop} {registry registry' : Registry κ}

theorem empty : Hosts {} rename own {} {} where
  start := Nat.le_refl _
  next := rfl
  entries := rfl
  own _ hentry := absurd hentry List.not_mem_nil

theorem register (h : registry.Hosts gap rename own registry') (listener : κ) :
    (registry.register listener).Hosts gap rename own (registry'.register (rename listener)) where
  start := Nat.le_succ_of_le h.start
  next := by
    show registry'.next + 1 = gap.skip (registry.next + 1)
    rw [h.next, Gap.skip_of_le h.start, Gap.skip_of_le (Nat.le_succ_of_le h.start)]
    omega
  entries := by
    simp only [Registry.register, List.filter_append, h.entries, List.map_append, h.next]
    simp
  own entry hentry hhas := by
    rcases List.mem_append.mp hentry with hold | hlast
    · exact h.own entry hold hhas
    · rw [List.mem_singleton.mp hlast, h.next] at hhas
      simp at hhas

theorem remove (h : registry.Hosts gap rename own registry') (ticket : Nat) :
    (registry.remove ticket).Hosts gap rename own (registry'.remove (gap.skip ticket)) where
  start := h.start
  next := h.next
  entries := by
    simp only [Registry.remove]
    rw [List.filter_comm, h.entries, List.filter_map]
    congr 2
    funext entry
    simp [bne, gap.skip_injective.beq_eq]
  own entry hentry := h.own entry (List.mem_filter.mp hentry).1

theorem clear (h : registry.Hosts gap rename own registry') :
    registry.clear.Hosts gap rename own registry'.clear where
  start := h.start
  next := h.next
  entries := rfl
  own _ hentry := absurd hentry List.not_mem_nil

theorem find? (h : registry.Hosts gap rename own registry') (ticket : Nat) :
    registry'.find? (gap.skip ticket) = (registry.find? ticket).map rename := by
  have hfound : registry'.entries.find? (·.1 == gap.skip ticket) =
      (registry'.entries.filter fun entry ↦ !gap.has entry.1).find? (·.1 == gap.skip ticket) := by
    rw [List.find?_filter]
    congr 1
    funext entry
    by_cases hentry : entry.1 = gap.skip ticket <;> simp [hentry]
  rw [Registry.find?, hfound, h.entries, List.find?_map, Registry.find?]
  simp only [Function.comp_def, gap.skip_injective.beq_eq, Option.map_map]

theorem tickets (h : registry.Hosts gap rename own registry') :
    gap.Hosts registry.tickets registry'.tickets := by
  have hkept := congrArg (List.map (·.1)) h.entries
  rw [List.map_map] at hkept
  rw [Gap.Hosts, Registry.tickets, List.filter_map, Registry.tickets, List.map_map]
  exact hkept

theorem own_of_find? (h : registry.Hosts gap rename own registry') {ticket : Nat} {listener : κ}
    (hticket : gap.has ticket) (hlistener : registry'.find? ticket = some listener) :
    own listener := by
  obtain ⟨entry, hentry, rfl⟩ := Option.map_eq_some_iff.mp hlistener
  have hfound : entry.1 = ticket := by simpa using List.find?_some hentry
  exact h.own entry (List.mem_of_find?_eq_some hentry) (hfound ▸ hticket)

theorem size (h : registry.Hosts gap rename own registry') (hcount : gap.count = 0) :
    registry'.size = registry.size := by
  have hlength := congrArg List.length h.entries
  simpa [Gap.has_of_count hcount, Registry.size] using hlength

end Registry.Hosts

/-! ### Lists whose places are ids -/

/-- The things of the first list stand in the second one too, under the ids that they have there. -/
structure Gap.Aligns {γ : Type} (gap : Gap) (same : Nat → γ → γ → Prop) (things things' : List γ) :
    Prop where
  start : gap.start ≤ things.length
  length : things'.length = gap.skip things.length
  get : ∀ (i : Nat) (thing : γ), things[i]? = some thing →
    ∃ thing', things'[gap.skip i]? = some thing' ∧ same i thing thing'

namespace Gap.Aligns

variable {γ : Type} {gap : Gap} {same : Nat → γ → γ → Prop} {things things' : List γ} {i : Nat}

theorem get_none (h : gap.Aligns same things things') (hnone : things[i]? = none) :
    things'[gap.skip i]? = none := by
  rw [List.getElem?_eq_none_iff] at hnone ⊢
  rw [h.length]
  exact skip_le_skip hnone

theorem concat (h : gap.Aligns same things things') {thing thing' : γ}
    (hnew : same things.length thing thing') :
    gap.Aligns same (things ++ [thing]) (things' ++ [thing']) where
  start := by
    rw [List.length_append]
    exact Nat.le_add_right_of_le h.start
  length := by
    rw [List.length_append, List.length_append, h.length, List.length_singleton,
      List.length_singleton, skip_of_le h.start, skip_of_le (Nat.le_succ_of_le h.start)]
    omega
  get i other hother := by
    by_cases hi : i < things.length
    · rw [List.getElem?_append_left hi] at hother
      obtain ⟨other', hother', hsame⟩ := h.get i other hother
      refine ⟨other', ?_, hsame⟩
      rw [List.getElem?_append_left (List.getElem?_eq_some_iff.mp hother').1]
      exact hother'
    · obtain rfl : i = things.length := by
        have := (List.getElem?_eq_some_iff.mp hother).1
        simp at this
        omega
      rw [List.getElem?_concat_length] at hother
      obtain rfl := Option.some.inj hother
      refine ⟨thing', ?_, hnew⟩
      rw [← h.length, List.getElem?_concat_length]

theorem modify (h : gap.Aligns same things things') {g g' : γ → γ}
    (hsame : ∀ thing thing', same i thing thing' → same i (g thing) (g' thing')) :
    gap.Aligns same (things.modify i g) (things'.modify (gap.skip i) g') where
  start := by rw [List.length_modify]; exact h.start
  length := by rw [List.length_modify, List.length_modify]; exact h.length
  get k other hother := by
    rw [List.getElem?_modify] at hother
    obtain ⟨thing, hthing, rfl⟩ := Option.map_eq_some_iff.mp hother
    obtain ⟨thing', hthing', hold⟩ := h.get k thing hthing
    rw [List.getElem?_modify, hthing', Option.map_eq_map, Option.map_some]
    by_cases hk : i = k
    · subst hk
      rw [if_pos rfl, if_pos rfl]
      exact ⟨_, rfl, hsame thing thing' hold⟩
    · rw [if_neg hk, if_neg (mt (fun heq ↦ gap.skip_injective heq) hk)]
      exact ⟨_, rfl, hold⟩

end Gap.Aligns

/-! ### Observers and what they take up -/

/-- What an observer does when it is called: under its key it takes note, and it composes by a
function. -/
structure Observer (α β : Type) where
  key : Nat
  compose : List α → β

/-- The ids that an observer takes up: those of its views and of its handles, and its tickets. -/
structure Footprint where
  views : Gap := {}
  handles : Gap := {}
  tickets : Target → Gap := fun _ ↦ {}

namespace Footprint

variable (f : Footprint)

def target : Target → Target
  | .source source => .source source
  | .view view => .view (f.views.skip view)

def ticket (target : Target) (ticket : Nat) : Nat := (f.tickets (f.target target)).skip ticket

def listener : Listener → Listener
  | .callback key => .callback key
  | .input view slot => .input (f.views.skip view) slot

def input (input : SourceId × Nat) : SourceId × Nat :=
  (input.1, f.ticket (.source input.1) input.2)

def handle (handle : Handle) : Handle :=
  { handle with target := f.target handle.target, ticket := f.ticket handle.target handle.ticket }

/-- A registration under its ids. -/
def turn (turn : Target × Nat) : Target × Nat := (f.target turn.1, f.ticket turn.1 turn.2)

/-- What a callback owns, under its ids. -/
def belongings : Belongings → Belongings
  | .nothing => .nothing
  | .subscription handle owned rest =>
    .subscription (f.handles.skip handle) (belongings owned) (belongings rest)
  | .view view composer listeners rest =>
    .view (f.views.skip view) (belongings composer) (belongings listeners) (belongings rest)

theorem target_injective : Function.Injective f.target := by
  intro target other h
  cases target <;> cases other <;> simp_all [Footprint.target, f.views.skip_injective.eq_iff]

theorem turn_injective : Function.Injective f.turn := by
  rintro ⟨target, ticket⟩ ⟨other, otherTicket⟩ h
  obtain ⟨htarget, hticket⟩ := Prod.mk.inj h
  obtain rfl := f.target_injective htarget
  exact congrArg (target, ·) ((f.tickets (f.target target)).skip_injective hticket)

/-- A view under its ids, with other listeners. -/
def view (v : View α β) (listeners : Registry Nat) : View α β :=
  { v with inputs := v.inputs.map f.input, listeners }

end Footprint

namespace Observer

/-- A listener of a source is the observer or an input of its view. -/
def IsHeardBy (o : Observer α β) (f : Footprint) : Listener → Prop
  | .callback key => key = o.key
  | .input view _ => f.views.has view

/-- A view of the observer: nobody listens to it or disposes of it, and its values are not lent. -/
structure Sees (o : Observer α β) (v : View α β) : Prop where
  composer : v.composer = .direct o.compose ∨ v.composer = .callback o.key
  listeners : v.listeners.entries = []
  live : v.live
  disposed : v.disposed = false
  lent : v.lent = false
  dirty : v.dirty = false

/-- A view of the observer that is not at work. -/
structure Keeps (o : Observer α β) (v : View α β) : Prop extends o.Sees v where
  owned : v.owned
  composing : v.composing = false

end Observer

/-! ### A world with an observer, and without -/

/-- The second world is the first one, but for what an observer has brought. -/
structure Footprint.Hosts (o : Observer α β) (f : Footprint) (world world' : World α β) : Prop where
  depth : world'.depth = world.depth
  deferred : f.views.Hosts world.deferred world'.deferred
  sources : Gap.Aligns {} (fun i s s' ↦ ∃ listeners, s' = { s with listeners } ∧
    s.listeners.Hosts (f.tickets (.source i)) f.listener (o.IsHeardBy f) listeners)
    world.sources world'.sources
  views : f.views.Aligns (fun j v v' ↦ ∃ listeners, v' = f.view v listeners ∧
    v.listeners.Hosts (f.tickets (.view (f.views.skip j))) id (· = o.key) listeners)
    world.views world'.views
  handles : f.handles.Aligns (fun _ handle handle' ↦ handle' = f.handle handle)
    world.handles world'.handles
  own : ∀ j, f.views.has j → ∃ v, world'.views[j]? = some v ∧ o.Keeps v
  newSource : ∀ i, world.sources.length ≤ i → f.tickets (.source i) = {}
  newView : ∀ j, world'.views.length ≤ j → f.tickets (.view j) = {}
  stranded : world'.stranded = world.stranded

namespace Footprint.Hosts

variable {o : Observer α β} {f : Footprint} {world world' : World α β} {i : SourceId} {j : ViewId}

/-! ### What is found in both worlds -/

theorem source? (h : f.Hosts o world world') (i : SourceId) :
    world.sources[i]? = none ∧ world'.sources[i]? = none ∨
      ∃ s listeners, world.sources[i]? = some s ∧
        world'.sources[i]? = some { s with listeners } ∧
        s.listeners.Hosts (f.tickets (.source i)) f.listener (o.IsHeardBy f) listeners := by
  cases hs : world.sources[i]? with
  | none =>
    have hnone := h.sources.get_none hs
    exact .inl ⟨rfl, by simpa using hnone⟩
  | some s =>
    obtain ⟨_, hs', listeners, rfl, hlisteners⟩ := h.sources.get i s hs
    exact .inr ⟨s, listeners, rfl, by simpa using hs', hlisteners⟩

theorem view? (h : f.Hosts o world world') (j : ViewId) :
    world.views[j]? = none ∧ world'.views[f.views.skip j]? = none ∨
      ∃ v listeners, world.views[j]? = some v ∧
        world'.views[f.views.skip j]? = some (f.view v listeners) ∧
        v.listeners.Hosts (f.tickets (.view (f.views.skip j))) id (· = o.key) listeners := by
  cases hv : world.views[j]? with
  | none => exact .inl ⟨rfl, h.views.get_none hv⟩
  | some v =>
    obtain ⟨_, hv', listeners, rfl, hlisteners⟩ := h.views.get j v hv
    exact .inr ⟨v, listeners, rfl, hv', hlisteners⟩

theorem liveView? (h : f.Hosts o world world') (j : ViewId) :
    world.liveView? j = none ∧ world'.liveView? (f.views.skip j) = none ∨
      ∃ v listeners, world.liveView? j = some v ∧
        world'.liveView? (f.views.skip j) = some (f.view v listeners) ∧
        world.views[j]? = some v ∧ world'.views[f.views.skip j]? = some (f.view v listeners) ∧
        v.listeners.Hosts (f.tickets (.view (f.views.skip j))) id (· = o.key) listeners := by
  rcases h.view? j with ⟨hv, hv'⟩ | ⟨v, listeners, hv, hv', hlisteners⟩
  · exact .inl ⟨by rw [World.liveView?, hv]; rfl, by rw [World.liveView?, hv']; rfl⟩
  · cases hlive : v.live with
    | false => simp [World.liveView?, hv, hv', Option.filter_some, Footprint.view, hlive]
    | true =>
      refine .inr ⟨v, listeners, ?_, ?_, hv, hv', hlisteners⟩
      · simp [World.liveView?, hv, Option.filter_some, hlive]
      · simp [World.liveView?, hv', Option.filter_some, Footprint.view, hlive]

theorem sourceListener? (h : f.Hosts o world world') (i : SourceId) (ticket : Nat) :
    world'.sourceListener? i (f.ticket (.source i) ticket) =
      (world.sourceListener? i ticket).map f.listener := by
  rcases h.source? i with ⟨hs, hs'⟩ | ⟨s, listeners, hs, hs', hlisteners⟩
  · rw [World.sourceListener?, hs', World.sourceListener?, hs]
    rfl
  · rw [World.sourceListener?, hs', World.sourceListener?, hs]
    exact hlisteners.find? ticket

theorem viewListener? (h : f.Hosts o world world') (j : ViewId) (ticket : Nat) :
    world'.viewListener? (f.views.skip j) (f.ticket (.view j) ticket) =
      world.viewListener? j ticket := by
  rcases h.view? j with ⟨hv, hv'⟩ | ⟨v, listeners, hv, hv', hlisteners⟩
  · rw [World.viewListener?, hv', World.viewListener?, hv]
    rfl
  · rw [World.viewListener?, hv', World.viewListener?, hv]
    exact (hlisteners.find? ticket).trans Option.map_id'

/-- The listeners under tickets of the observer are its own. -/
theorem own_of_sourceListener? (h : f.Hosts o world world') {ticket : Nat} {listener : Listener}
    (hticket : (f.tickets (.source i)).has ticket)
    (hlistener : world'.sourceListener? i ticket = some listener) : o.IsHeardBy f listener := by
  rcases h.source? i with ⟨-, hs'⟩ | ⟨s, listeners, -, hs', hlisteners⟩
  · simp [World.sourceListener?, hs'] at hlistener
  · rw [World.sourceListener?, hs'] at hlistener
    exact hlisteners.own_of_find? hticket hlistener

theorem own_of_viewListener? (h : f.Hosts o world world') {ticket key : Nat}
    (hticket : (f.tickets (.view (f.views.skip j))).has ticket)
    (hlistener : world'.viewListener? (f.views.skip j) ticket = some key) : key = o.key := by
  rcases h.view? j with ⟨-, hv'⟩ | ⟨v, listeners, -, hv', hlisteners⟩
  · simp [World.viewListener?, hv'] at hlistener
  · rw [World.viewListener?, hv'] at hlistener
    exact hlisteners.own_of_find? hticket hlistener

theorem sourceTickets (h : f.Hosts o world world') (i : SourceId) :
    (f.tickets (.source i)).Hosts (world.sourceTickets i) (world'.sourceTickets i) := by
  rcases h.source? i with ⟨hs, hs'⟩ | ⟨s, listeners, hs, hs', hlisteners⟩
  · simp only [World.sourceTickets, hs, hs']
    exact Gap.hosts_nil
  · simp only [World.sourceTickets, hs, hs']
    exact hlisteners.tickets

theorem viewTickets (h : f.Hosts o world world') (j : ViewId) :
    (f.tickets (.view (f.views.skip j))).Hosts (world.viewTickets j)
      (world'.viewTickets (f.views.skip j)) := by
  rcases h.view? j with ⟨hv, hv'⟩ | ⟨v, listeners, hv, hv', hlisteners⟩
  · simp only [World.viewTickets, hv, hv']
    exact Gap.hosts_nil
  · simp only [World.viewTickets, hv, hv']
    exact hlisteners.tickets

theorem lists (h : f.Hosts o world world') (target : Target) (ticket : Nat) :
    world'.lists (f.target target) (f.ticket target ticket) = world.lists target ticket := by
  cases target with
  | source source =>
    show (world'.sourceListener? source (f.ticket (.source source) ticket)).isSome = _
    rw [h.sourceListener? source ticket, Option.isSome_map]
    rfl
  | view view =>
    simp only [World.lists, Footprint.target]
    rcases h.liveView? view with ⟨hv, hv'⟩ | ⟨v, listeners, hv, hv', -, -, hlisteners⟩
    · rw [hv, hv']
      rfl
    · rw [hv, hv']
      show (listeners.find? (f.ticket (.view view) ticket)).isSome = _
      rw [Footprint.ticket, Footprint.target, hlisteners.find? ticket, Option.isSome_map]
      rfl

theorem names_mapM (h : f.Hosts o world world') (sources : List SourceId) :
    (sources.mapM fun i ↦ world'.sources[i]?).map (·.map (·.name)) =
      (sources.mapM fun i ↦ world.sources[i]?).map (·.map (·.name)) := by
  induction sources with
  | nil => rfl
  | cons i rest ih =>
    rw [List.mapM_cons, List.mapM_cons]
    rcases h.source? i with ⟨hs, hs'⟩ | ⟨s, listeners, hs, hs', -⟩
    · rw [hs, hs']
      rfl
    · rw [hs, hs']
      have hrest := congrArg (Option.map (s.name :: ·)) ih
      simpa [Option.map_eq_bind, Option.bind_assoc, Function.comp_def] using hrest

/-! ### What is done to both worlds alike -/

theorem openTick (h : f.Hosts o world world') : f.Hosts o world.openTick world'.openTick :=
  { h with depth := congrArg (· + 1) h.depth }

theorem closeTick (h : f.Hosts o world world') :
    f.views.Hosts world.closeTick.1 world'.closeTick.1 ∧
      f.Hosts o world.closeTick.2 world'.closeTick.2 := by
  unfold World.closeTick
  rw [h.depth]
  dsimp only
  split
  · exact ⟨h.deferred, { h with depth := rfl, deferred := Gap.hosts_nil }⟩
  · exact ⟨Gap.hosts_nil, { h with depth := rfl }⟩

theorem modifySource (h : f.Hosts o world world') (i : SourceId) {g g' : Source α → Source α}
    (hsame : ∀ (s : Source α) listeners,
      s.listeners.Hosts (f.tickets (.source i)) f.listener (o.IsHeardBy f) listeners →
        ∃ listeners', g' { s with listeners } = { g s with listeners := listeners' } ∧
          (g s).listeners.Hosts (f.tickets (.source i)) f.listener (o.IsHeardBy f) listeners') :
    f.Hosts o (world.modifySource i g) (world'.modifySource i g') where
  depth := h.depth
  deferred := h.deferred
  sources := by
    refine Gap.skip_empty i ▸ h.sources.modify fun s s' hs ↦ ?_
    obtain ⟨listeners, rfl, hlisteners⟩ := hs
    exact hsame s listeners hlisteners
  views := h.views
  handles := h.handles
  own := h.own
  newSource k hk := h.newSource k (by simpa [World.modifySource] using hk)
  newView := h.newView
  stranded := h.stranded

theorem modifyView (h : f.Hosts o world world') (j : ViewId) {g g' : View α β → View α β}
    (hsame : ∀ (v : View α β) listeners,
      v.listeners.Hosts (f.tickets (.view (f.views.skip j))) id (· = o.key) listeners →
        ∃ listeners', g' (f.view v listeners) = f.view (g v) listeners' ∧
          (g v).listeners.Hosts (f.tickets (.view (f.views.skip j))) id (· = o.key) listeners') :
    f.Hosts o (world.modifyView j g) (world'.modifyView (f.views.skip j) g') where
  depth := h.depth
  deferred := h.deferred
  sources := h.sources
  views := h.views.modify fun v v' hv ↦ by
    obtain ⟨listeners, rfl, hlisteners⟩ := hv
    exact hsame v listeners hlisteners
  handles := h.handles
  own k hk := by
    obtain ⟨v, hv, hkeeps⟩ := h.own k hk
    refine ⟨v, ?_, hkeeps⟩
    rw [World.modifyView, List.getElem?_modify_ne _ _ (Gap.skip_ne_of_has hk j)]
    exact hv
  newSource := h.newSource
  newView k hk := h.newView k (by simpa [World.modifyView] using hk)
  stranded := h.stranded

/-- Assumes: a change that has nothing to do with the inputs and the listeners of a view. -/
theorem modifyFlags (h : f.Hosts o world world') (j : ViewId) {g : View α β → View α β}
    (hview : ∀ v listeners, g (f.view v listeners) = f.view (g v) listeners)
    (hlisteners : ∀ v, (g v).listeners = v.listeners) :
    f.Hosts o (world.modifyView j g) (world'.modifyView (f.views.skip j) g) :=
  h.modifyView j fun v listeners hhosts ↦ ⟨listeners, hview v listeners, by rwa [hlisteners v]⟩

/-- A change of a view of the observer. -/
theorem modifyOwn (h : f.Hosts o world world') (hj : f.views.has j) {g : View α β → View α β}
    (hkeeps : ∀ v, o.Keeps v → o.Keeps (g v)) : f.Hosts o world (world'.modifyView j g) where
  depth := h.depth
  deferred := h.deferred
  sources := h.sources
  views := by
    refine ⟨h.views.start, ?_, fun k v hv ↦ ?_⟩
    · rw [World.modifyView, List.length_modify]
      exact h.views.length
    · obtain ⟨v', hv', hsame⟩ := h.views.get k v hv
      refine ⟨v', ?_, hsame⟩
      rw [World.modifyView, List.getElem?_modify_ne _ _ (Gap.skip_ne_of_has hj k).symm]
      exact hv'
  handles := h.handles
  own k hk := by
    obtain ⟨v, hv, hkept⟩ := h.own k hk
    rw [World.modifyView, List.getElem?_modify, hv, Option.map_eq_map, Option.map_some]
    split
    · exact ⟨_, rfl, hkeeps v hkept⟩
    · exact ⟨_, rfl, hkept⟩
  newSource := h.newSource
  newView k hk := h.newView k (by simpa [World.modifyView] using hk)
  stranded := h.stranded

theorem addSource (h : f.Hosts o world world') (name : String) :
    f.Hosts o (world.addSource name) (world'.addSource name) where
  depth := h.depth
  deferred := h.deferred
  sources := h.sources.concat ⟨{}, rfl, by
    rw [h.newSource _ (Nat.le_refl _)]
    exact .empty⟩
  views := h.views
  handles := h.handles
  own := h.own
  newSource k hk := h.newSource k (by simp [World.addSource] at hk; omega)
  newView := h.newView
  stranded := h.stranded

/-- Assumes: a new view that has no inputs and no listeners yet. -/
theorem addView (h : f.Hosts o world world') {v : View α β} (hinputs : v.inputs = [])
    (hlisteners : v.listeners = {}) : f.Hosts o (world.addView v) (world'.addView v) where
  depth := h.depth
  deferred := h.deferred
  sources := h.sources
  views := h.views.concat ⟨{}, by
    rw [Footprint.view, hinputs, ← hlisteners, List.map_nil, ← hinputs], by
    rw [h.newView _ (Nat.le_of_eq h.views.length), hlisteners]
    exact .empty⟩
  handles := h.handles
  own k hk := by
    obtain ⟨v, hv, hkeeps⟩ := h.own k hk
    refine ⟨v, ?_, hkeeps⟩
    rw [World.addView, List.getElem?_append_left (List.getElem?_eq_some_iff.mp hv).1]
    exact hv
  newSource := h.newSource
  newView k hk := h.newView k (by simp [World.addView] at hk; omega)
  stranded := h.stranded

theorem addHandle (h : f.Hosts o world world') (target : Target) (ticket : Nat) :
    f.Hosts o (world.addHandle target ticket)
      (world'.addHandle (f.target target) (f.ticket target ticket)) :=
  { h with handles := h.handles.concat rfl }

theorem modifyHandle (h : f.Hosts o world world') (handle : Nat) {g : Handle → Handle}
    (hsame : ∀ handle, g (f.handle handle) = f.handle (g handle)) :
    f.Hosts o (world.modifyHandle handle g) (world'.modifyHandle (f.handles.skip handle) g) :=
  { h with handles := h.handles.modify fun handle handle' heq ↦ by rw [heq, hsame] }

theorem registerAtSource (h : f.Hosts o world world') (i : SourceId) (listener : Listener) :
    f.Hosts o (world.registerAtSource i listener)
      (world'.registerAtSource i (f.listener listener)) :=
  h.modifySource i fun _ _ hlisteners ↦ ⟨_, rfl, hlisteners.register listener⟩

theorem registerAtView (h : f.Hosts o world world') (j : ViewId) (key : Nat) :
    f.Hosts o (world.registerAtView j key) (world'.registerAtView (f.views.skip j) key) :=
  h.modifyView j fun _ _ hlisteners ↦ ⟨_, rfl, hlisteners.register key⟩

theorem unregister (h : f.Hosts o world world') (target : Target) (ticket : Nat) :
    f.Hosts o (world.unregister target ticket)
      (world'.unregister (f.target target) (f.ticket target ticket)) := by
  cases target with
  | source source =>
    exact h.modifySource source fun _ _ hlisteners ↦ ⟨_, rfl, hlisteners.remove ticket⟩
  | view view => exact h.modifyView view fun _ _ hlisteners ↦ ⟨_, rfl, hlisteners.remove ticket⟩

theorem cancel (h : f.Hosts o world world') (handle : Nat) :
    f.Hosts o (world.cancel handle) (world'.cancel (f.handles.skip handle)) := by
  unfold World.cancel
  cases hhandle : world.handles[handle]? with
  | none =>
    rw [h.handles.get_none hhandle]
    exact h
  | some found =>
    obtain ⟨_, hfound', rfl⟩ := h.handles.get handle found hhandle
    rw [hfound']
    obtain ⟨target, ticket, state⟩ := found
    cases state with
    | active => exact (h.unregister target ticket).modifyHandle handle fun _ ↦ rfl
    | cancelled | detached => exact h

theorem strand (h : f.Hosts o world world') (target : Target) :
    f.Hosts o (world.strand target) (world'.strand (f.target target)) := by
  cases target with
  | source source => exact { h with stranded := congrArg (source :: ·) h.stranded }
  | view view => exact h

theorem detach (h : f.Hosts o world world') (handle : Nat) :
    f.Hosts o (world.detach handle) (world'.detach (f.handles.skip handle)) := by
  refine h.modifyHandle handle fun handle ↦ ?_
  obtain ⟨target, ticket, state⟩ := handle
  cases state <;> rfl

theorem foldl_unregister (h : f.Hosts o world world') (inputs : List (SourceId × Nat)) :
    f.Hosts o (inputs.foldl (fun w input ↦ w.unregister (.source input.1) input.2) world)
      ((inputs.map f.input).foldl (fun w input ↦ w.unregister (.source input.1) input.2)
        world') := by
  induction inputs generalizing world world' with
  | nil => exact h
  | cons input rest ih => exact ih (h.unregister (.source input.1) input.2)

theorem disconnect (h : f.Hosts o world world') (j : ViewId) :
    f.Hosts o (world.disconnect j) (world'.disconnect (f.views.skip j)) := by
  unfold World.disconnect
  rcases h.view? j with ⟨hv, hv'⟩ | ⟨v, listeners, hv, hv', -⟩
  · simp only [hv, hv']
    exact h
  · simp only [hv, hv']
    exact (h.foldl_unregister v.inputs).modifyFlags j (fun _ _ ↦ rfl) fun _ ↦ rfl

theorem dispose (h : f.Hosts o world world') (j : ViewId) :
    f.Hosts o (world.dispose j) (world'.dispose (f.views.skip j)) := by
  unfold World.dispose
  rcases h.view? j with ⟨hv, hv'⟩ | ⟨v, listeners, hv, hv', -⟩
  · simp only [hv, hv']
    exact h
  · simp only [hv, hv', Footprint.view]
    split
    · exact h
    · exact (h.disconnect j).modifyView j fun v _ hlisteners ↦ ⟨_, rfl, hlisteners.clear⟩

theorem takeApart (h : f.Hosts o world world') (j : ViewId) :
    f.Hosts o (world.takeApart j) (world'.takeApart (f.views.skip j)) :=
  (h.disconnect j).modifyFlags j (fun _ _ ↦ rfl) fun _ ↦ rfl

theorem unschedule {views views' : List ViewId} (h : f.Hosts o world world')
    (hviews : f.views.Hosts views views') :
    f.Hosts o (world.unschedule views) (world'.unschedule views') := by
  -- on the second list, where views of the observer stand in between
  induction views' generalizing views world world' with
  | nil =>
    obtain rfl := hviews.eq_nil
    exact h
  | cons view' rest' ih =>
    cases hhas : f.views.has view' with
    | true =>
      have hidle : f.Hosts o world
          (world'.modifyView view' fun v ↦ { v with scheduled := false }) :=
        h.modifyOwn hhas fun v hkeeps ↦
          ⟨⟨hkeeps.composer, hkeeps.listeners, hkeeps.live, hkeeps.disposed, hkeeps.lent,
            hkeeps.dirty⟩, hkeeps.owned, hkeeps.composing⟩
      have hrest := ih hidle ((Gap.hosts_cons_of_has hhas).mp hviews)
      exact hrest
    | false =>
      obtain ⟨view, rest, rfl, rfl, hrest⟩ := hviews.of_cons hhas
      have hboth : f.Hosts o (world.modifyView view fun v ↦ { v with scheduled := false })
          (world'.modifyView (f.views.skip view) fun v ↦ { v with scheduled := false }) :=
        h.modifyFlags view (fun _ _ ↦ rfl) fun _ ↦ rfl
      have hall := ih hboth hrest
      exact hall

theorem abandonTick (h : f.Hosts o world world') : f.Hosts o world.abandonTick world'.abandonTick :=
  h.closeTick.2.unschedule h.closeTick.1

theorem schedule (h : f.Hosts o world world') (j : ViewId) :
    f.Hosts o (world.schedule j) (world'.schedule (f.views.skip j)) := by
  have hdeferred : f.Hosts o { world with deferred := world.deferred ++ [j] }
      { world' with deferred := world'.deferred ++ [f.views.skip j] } :=
    { h with deferred := h.deferred.concat j }
  exact hdeferred.modifyFlags j (fun _ _ ↦ rfl) fun _ ↦ rfl

theorem absorb (h : f.Hosts o world world') (j : ViewId) (slot : Nat) (event : Event α) :
    f.Hosts o (world.modifyView j (.absorb slot event))
      (world'.modifyView (f.views.skip j) (.absorb slot event)) := by
  refine h.modifyFlags j (fun v listeners ↦ ?_) fun v ↦ ?_
  · cases event <;> cases hdisposed : v.disposed <;>
      simp [View.absorb, View.cache, View.mark, Footprint.view, hdisposed]
  · cases event <;> cases hdisposed : v.disposed <;>
      simp [View.absorb, View.cache, View.mark, hdisposed]

end Footprint.Hosts

end LiveRecord.Flow
