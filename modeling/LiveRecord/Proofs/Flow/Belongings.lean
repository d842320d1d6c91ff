import LiveRecord.Proofs.Flow.Backlog
import LiveRecord.Proofs.Flow.Issue
import LiveRecord.Proofs.Flow.Lockstep
import LiveRecord.Proofs.Flow.Observer

/-!
# What an observer brings

An observer takes up the ids that come next (`World.room`), which nobody knows yet, so whatever was
there before keeps its id (`Footprint.ComesNext.carries`). A world with what an observer brings
hosts the one without (`Footprint.Brings.hosts`).
-/

set_option autoImplicit false

namespace LiveRecord.Flow

variable {α β : Type}

namespace Gap

variable {gap : Gap} {ids ids' more : List Nat}

/-- Assumes: ids that were given out before those of the gap. -/
theorem hosts_self (h : ∀ i ∈ ids, i < gap.start) : gap.Hosts ids ids := by
  have hhosts := gap.hosts_skip ids
  rwa [List.map_congr_left fun i hi ↦ skip_of_lt (h i hi), List.map_id'] at hhosts

/-- Assumes: more ids, all of them of the gap. -/
theorem Hosts.append_own (h : gap.Hosts ids ids') (hmore : ∀ i ∈ more, gap.has i) :
    gap.Hosts ids (ids' ++ more) := by
  have hnone : more.filter (fun i ↦ !gap.has i) = [] := by
    simpa [List.filter_eq_nil_iff] using hmore
  rw [Hosts, List.filter_append, hnone, List.append_nil]
  exact h

end Gap

/-! ### Ids that come next -/

/-- The ids of the footprint come next in that world. -/
structure Footprint.ComesNext (f : Footprint) (world : World α β) : Prop where
  views : f.views.start = world.views.length
  handles : f.handles.start = world.handles.length
  tickets : ∀ target next, world.nextTicket? target = some next → (f.tickets target).start = next
  nowhere : ∀ target, world.nextTicket? target = none → f.tickets target = {}

theorem World.lt_length_of_issued {world : World α β} {view : ViewId} {ticket : Nat}
    (h : world.Issued (.view view) ticket) : view < world.views.length := by
  obtain ⟨next, hnext, -⟩ := h
  obtain ⟨v, hv, -⟩ := Option.map_eq_some_iff.mp hnext
  exact (List.getElem?_eq_some_iff.mp hv).1

theorem Footprint.answer_of_isPlain {answer : Answer α β} (h : answer.isPlain) (f : Footprint) :
    f.answer answer = answer := by
  cases answer with
  | subscribed _ | built _ => contradiction
  | _ => rfl

/-! What was there keeps its id. -/

namespace Footprint.ComesNext

variable {f : Footprint} {world : World α β} {target : Target} {ticket : Nat} {view : ViewId}

theorem skip (h : f.ComesNext world) (hview : view < world.views.length) :
    f.views.skip view = view :=
  Gap.skip_of_lt (h.views ▸ hview)

theorem lt_start (h : f.ComesNext world) (hissued : world.Issued target ticket) :
    ticket < (f.tickets target).start := by
  obtain ⟨next, hnext, hticket⟩ := hissued
  rwa [h.tickets target next hnext]

theorem target_eq (h : f.ComesNext world) (hissued : world.Issued target ticket) :
    f.target target = target := by
  cases target with
  | source source => rfl
  | view view => exact congrArg Target.view (h.skip (World.lt_length_of_issued hissued))

theorem ticket_eq (h : f.ComesNext world) (hissued : world.Issued target ticket) :
    f.ticket target ticket = ticket := by
  rw [Footprint.ticket, h.target_eq hissued]
  exact Gap.skip_of_lt (h.lt_start hissued)

theorem listener_eq (h : f.ComesNext world) {listener : Listener} (hnamed : world.Names listener) :
    f.listener listener = listener := by
  cases listener with
  | callback key => rfl
  | input view slot =>
    obtain ⟨v, hv, -⟩ := hnamed
    rw [Footprint.listener, h.skip (List.getElem?_eq_some_iff.mp hv).1]

theorem view_eq (h : f.ComesNext world) (hknown : world.Known) {v : View α β} (hv : v ∈ world.views)
    (listeners : Registry Nat) : f.view v listeners = { v with listeners } := by
  have hinputs : v.inputs.map f.input = v.inputs := by
    refine (List.map_congr_left fun input hinput ↦ ?_).trans (List.map_id' v.inputs)
    rw [Footprint.input, h.ticket_eq (hknown.inputs v hv input hinput)]
  rw [Footprint.view, hinputs]

theorem handle_eq (h : f.ComesNext world) (hknown : world.Known) {handle : Handle}
    (hhandle : handle ∈ world.handles) : f.handle handle = handle := by
  have hissued := hknown.handles handle hhandle
  rw [Footprint.handle, h.target_eq hissued, h.ticket_eq hissued]

/-- Assumes: views that wait are there. -/
theorem carries (h : f.ComesNext world) {frame : Frame α β} (hknown : frame.Known world)
    (hthere : ∀ view ∈ frame.batch?.getD [], view < world.views.length) :
    f.Carries frame frame := by
  have hview {view : ViewId} (of : ViewId → Frame α β)
      (hcarries : f.Carries (of view) (of (f.views.skip view))) (hlt : view < world.views.length) :
      f.Carries (of view) (of view) := by
    rwa [h.skip hlt] at hcarries
  cases frame with
  | calling call turn =>
    have hcarries : f.Carries (.calling call turn) (.calling call (turn.map f.turn)) :=
      .calling call turn
    cases turn with
    | none => exact hcarries
    | some turn =>
      obtain ⟨target, ticket⟩ := turn
      have hsame : f.turn (target, ticket) = (target, ticket) :=
        Prod.ext (h.target_eq hknown) (h.ticket_eq hknown)
      rwa [Option.map_some, hsame] at hcarries
  | feeding feed => exact .feeding feed
  | closing answer =>
    have hcarries : f.Carries (.closing answer) (.closing (f.answer answer)) := .closing answer
    rwa [answer_of_isPlain hknown] at hcarries
  | draining waiting answer =>
    have hcarries : f.Carries (.draining waiting answer) (.draining waiting (f.answer answer)) :=
      .draining answer (Gap.hosts_self fun view hmem ↦ h.views ▸ hthere view hmem)
    rwa [answer_of_isPlain hknown] at hcarries
  | delivering source event tickets =>
    exact .delivering source event (Gap.hosts_self fun ticket hticket ↦
      h.lt_start (hknown ticket hticket))
  | announcing view event tickets =>
    refine hview (fun view ↦ .announcing view event tickets) (.announcing view event ?_) hknown.1
    rw [h.skip hknown.1]
    exact Gap.hosts_self fun ticket hticket ↦ h.lt_start (hknown.2 ticket hticket)
  | failing view errors =>
    exact hview (fun view ↦ .failing view errors) (.failing view errors) hknown
  | composing view => exact hview .composing (.composing view) hknown
  | settling view => exact hview .settling (.settling view) hknown
  | holding view => exact hview .holding (.holding view) hknown
  | connecting view inputs =>
    exact hview (fun view ↦ .connecting view inputs) (.connecting view inputs) hknown
  | building view => exact hview .building (.building view) hknown
  | subscribing target ticket =>
    have hcarries : f.Carries (.subscribing target ticket : Frame α β)
        (.subscribing (f.target target) (f.ticket target ticket)) := .subscribing target ticket
    rwa [h.target_eq hknown, h.ticket_eq hknown] at hcarries

end Footprint.ComesNext

/-! ### What an observer brings -/

/-- The second registry has more listeners, under the tickets of the gap. -/
structure Registry.Adds {κ : Type} (gap : Gap) (own : κ → Prop) (registry registry' : Registry κ) :
    Prop where
  start : gap.start = registry.next
  next : registry'.next = registry.next + gap.count
  entries : ∃ more, registry'.entries = registry.entries ++ more ∧
    ∀ entry ∈ more, gap.has entry.1 ∧ own entry.2

namespace Registry.Adds

variable {κ : Type} {gap : Gap} {own own' : κ → Prop} {registry registry' : Registry κ}

theorem refl (own : κ → Prop) (registry : Registry κ) :
    registry.Adds { start := registry.next } own registry where
  start := rfl
  next := rfl
  entries := ⟨[], by simp⟩

theorem register {start count : Nat} (h : registry.Adds { start, count } own registry')
    {listener : κ} (hown : own listener) :
    registry.Adds { start, count := count + 1 } own (registry'.register listener) where
  start := h.start
  next := congrArg (· + 1) h.next
  entries := by
    obtain ⟨more, hentries, hmore⟩ := h.entries
    refine ⟨more ++ [(registry'.next, listener)], ?_, fun entry hentry ↦ ?_⟩
    · rw [Registry.register, hentries, List.append_assoc]
    · rcases List.mem_append.mp hentry with hold | hlast
      · obtain ⟨hhas, howns⟩ := hmore entry hold
        refine ⟨?_, howns⟩
        rw [Gap.has_iff] at hhas ⊢
        exact ⟨hhas.1, Nat.lt_succ_of_lt hhas.2⟩
      · rw [List.mem_singleton.mp hlast]
        refine ⟨?_, hown⟩
        have hnext : registry'.next = start + count :=
          h.next.trans (congrArg (· + count) h.start.symm)
        rw [Gap.has_iff, hnext]
        exact ⟨Nat.le_add_right _ _, Nat.lt_succ_self _⟩

/-- Assumes: listeners that were there keep their names and their tickets. -/
theorem hosts (h : registry.Adds gap own registry') {rename : κ → κ}
    (hrename : ∀ entry ∈ registry.entries, rename entry.2 = entry.2)
    (hgiven : ∀ ticket ∈ registry.tickets, ticket < registry.next) :
    registry.Hosts gap rename own registry' := by
  obtain ⟨more, hentries, hmore⟩ := h.entries
  have hlt (entry : Nat × κ) (hentry : entry ∈ registry.entries) : entry.1 < gap.start :=
    h.start ▸ hgiven entry.1 (List.mem_map_of_mem hentry)
  have hnot (entry : Nat × κ) (hentry : entry ∈ registry.entries) : gap.has entry.1 = false := by
    have hbefore := hlt entry hentry
    rw [← Bool.not_eq_true, Gap.has_iff]
    omega
  constructor
  case start => exact Nat.le_of_eq h.start
  case next => rw [h.next, Gap.skip_of_le (Nat.le_of_eq h.start)]
  case entries =>
    have hnone : more.filter (fun entry ↦ !gap.has entry.1) = [] := by
      simpa [List.filter_eq_nil_iff] using fun ticket listener hentry ↦
        (hmore (ticket, listener) hentry).1
    have hall : registry.entries.filter (fun entry ↦ !gap.has entry.1) = registry.entries := by
      rw [List.filter_eq_self]
      intro entry hentry
      rw [hnot entry hentry]
      rfl
    rw [hentries, List.filter_append, hnone, hall, List.append_nil]
    refine (List.map_id' _).symm.trans (List.map_congr_left fun entry hentry ↦ ?_)
    rw [Gap.skip_of_lt (hlt entry hentry), hrename entry hentry]
  case own =>
    intro entry hentry hhas
    rw [hentries] at hentry
    rcases List.mem_append.mp hentry with hold | hnew
    · rw [hnot entry hold] at hhas
      contradiction
    · exact (hmore entry hnew).2

end Registry.Adds

/-- The second world is the first one with what an observer brings. -/
structure Footprint.Brings (o : Observer α β) (f : Footprint) (world world' : World α β) :
    Prop where
  depth : world'.depth = world.depth
  deferred : ∃ more, world'.deferred = world.deferred ++ more ∧ ∀ view ∈ more, f.views.has view
  sources : world'.sources.length = world.sources.length
  source : ∀ (i : SourceId) (s : Source α), world.sources[i]? = some s → ∃ listeners,
    world'.sources[i]? = some { s with listeners } ∧
      s.listeners.Adds (f.tickets (.source i)) (o.IsHeardBy f) listeners
  views : world'.views.length = world.views.length + f.views.count
  view : ∀ (j : ViewId) (v : View α β), world.views[j]? = some v → ∃ listeners,
    world'.views[j]? = some { v with listeners } ∧
      v.listeners.Adds (f.tickets (.view j)) (· = o.key) listeners
  handles : ∃ more, world'.handles = world.handles ++ more ∧ more.length = f.handles.count
  stranded : world'.stranded = world.stranded

namespace Footprint.Brings

variable {o : Observer α β} {f : Footprint} {world world' world'' : World α β}

/-- Assumes: ids that come next, names of what is there, and views of the observer that are not at
work. -/
theorem hosts (h : f.Brings o world world') (hnext : f.ComesNext world) (hknown : world.Known)
    (hordered : world.Ordered) (hwired : world.Wired)
    (hthere : ∀ view ∈ world.deferred, view < world.views.length)
    (hown : ∀ j, f.views.has j → ∃ v, world'.views[j]? = some v ∧ o.Keeps v) :
    f.Hosts o world world' where
  depth := h.depth
  deferred := by
    obtain ⟨more, hdeferred, hmore⟩ := h.deferred
    rw [hdeferred]
    exact (Gap.hosts_self fun view hview ↦ hnext.views ▸ hthere view hview).append_own hmore
  sources := by
    refine ⟨Nat.zero_le _, by rw [h.sources, Gap.skip_empty], fun i s hs ↦ ?_⟩
    obtain ⟨listeners, hs', hadds⟩ := h.source i s hs
    refine ⟨_, by rwa [Gap.skip_empty], listeners, rfl, hadds.hosts ?_ ?_⟩
    · exact fun entry hentry ↦ hnext.listener_eq (hwired i s hs entry hentry)
    · intro ticket hticket
      obtain ⟨entry, hentry, rfl⟩ := List.mem_map.mp hticket
      exact (hordered i s hs).given entry hentry
  views := by
    refine ⟨Nat.le_of_eq hnext.views, ?_, fun j v hv ↦ ?_⟩
    · rw [h.views, Gap.skip_of_le (Nat.le_of_eq hnext.views)]
    · obtain ⟨listeners, hv', hadds⟩ := h.view j v hv
      have hskip := hnext.skip (List.getElem?_eq_some_iff.mp hv).1
      refine ⟨_, by rw [hskip, hv'], listeners, ?_, ?_⟩
      · exact (hnext.view_eq hknown (List.mem_of_getElem? hv) listeners).symm
      · rw [hskip]
        exact hadds.hosts (fun _ _ ↦ rfl) (hknown.listeners v (List.mem_of_getElem? hv))
  handles := by
    obtain ⟨more, hhandles, hcount⟩ := h.handles
    refine ⟨Nat.le_of_eq hnext.handles, ?_, fun i handle hhandle ↦ ?_⟩
    · rw [hhandles, List.length_append, hcount, Gap.skip_of_le (Nat.le_of_eq hnext.handles)]
    · have hi := (List.getElem?_eq_some_iff.mp hhandle).1
      refine ⟨handle, ?_, (hnext.handle_eq hknown (List.mem_of_getElem? hhandle)).symm⟩
      rw [hhandles, Gap.skip_of_lt (hnext.handles ▸ hi), List.getElem?_append_left hi, hhandle]
  stranded := h.stranded
  own := hown
  newSource i hi := hnext.nowhere _ (by
    rw [World.nextTicket?, List.getElem?_eq_none_iff.mpr hi]
    rfl)
  newView j hj := hnext.nowhere _ (by
    rw [World.nextTicket?, List.getElem?_eq_none_iff.mpr (by have := h.views; omega)]
    rfl)

/-- Nothing but a view of the observer has changed since. -/
theorem touch (h : f.Brings o world world') {j : ViewId} (hj : f.views.has j)
    (hnew : world.views.length ≤ j) (htouches : world'.Touches j world'') :
    f.Brings o world world'' where
  depth := htouches.depth.trans h.depth
  deferred := by
    obtain ⟨more, hdeferred, hmore⟩ := h.deferred
    obtain ⟨times, hdeferred'⟩ := htouches.deferred
    refine ⟨more ++ List.replicate times j, by rw [hdeferred', hdeferred, List.append_assoc], ?_⟩
    intro view hview
    rcases List.mem_append.mp hview with hold | hlast
    · exact hmore view hold
    · rw [List.eq_of_mem_replicate hlast]
      exact hj
  sources := htouches.sources ▸ h.sources
  source := htouches.sources ▸ h.source
  views := htouches.length.trans h.views
  view k v hv := by
    obtain ⟨listeners, hv', hadds⟩ := h.view k v hv
    have hk := (List.getElem?_eq_some_iff.mp hv).1
    have hne : k ≠ j := Nat.ne_of_lt (Nat.lt_of_lt_of_le hk hnew)
    exact ⟨listeners, (htouches.others k hne).trans hv', hadds⟩
  handles := htouches.handles ▸ h.handles
  stranded := htouches.stranded.trans h.stranded

/-- Assumes: nothing is put off when no tick is open. -/
theorem closeTick (h : f.Brings o world.openTick world') (hputs : world.PutsOffInTicks) :
    (∀ view ∈ world'.closeTick.1, f.views.has view) ∧ f.Brings o world world'.closeTick.2 := by
  obtain ⟨more, hdeferred, hmore⟩ := h.deferred
  have hdepth : world'.depth - 1 = world.depth := by
    rw [h.depth]
    rfl
  unfold World.closeTick
  rw [hdepth]
  dsimp only
  split
  case isTrue hlast =>
    -- no tick was open before, so nothing waits but what the observer brought
    have hnone : world.deferred = [] := hputs hlast
    have hall : world'.deferred = more := hdeferred.trans (by rw [World.openTick, hnone]; rfl)
    exact ⟨hall ▸ hmore, { h with depth := rfl, deferred := ⟨[], by simp [hnone]⟩ }⟩
  case isFalse =>
    exact ⟨by simp, { h with depth := rfl, deferred := ⟨more, hdeferred, hmore⟩ }⟩

end Footprint.Brings

/-- The ids that come next: of so many views, of so many handles, and a ticket at each of the
targets. -/
def World.room (views handles : Nat) (targets : List Target) (world : World α β) : Footprint where
  views := { start := world.views.length, count := views }
  handles := { start := world.handles.length, count := handles }
  tickets target := { start := (world.nextTicket? target).getD 0, count := targets.count target }

namespace World

variable {o : Observer α β} {world world' : World α β} {views handles : Nat}
  {targets : List Target}

/-- Assumes: targets that are there. -/
theorem comesNext_room (htargets : ∀ target ∈ targets, (world.nextTicket? target).isSome) :
    (world.room views handles targets).ComesNext world where
  views := rfl
  handles := rfl
  tickets target next hnext := by simp only [room, hnext, Option.getD_some]
  nowhere target hnone := by
    have hcount : targets.count target = 0 := List.count_eq_zero.mpr fun hmem ↦ by
      have hsome := htargets target hmem
      rw [hnone] at hsome
      contradiction
    simp only [room, hnone, hcount, Option.getD_none]

theorem tickets_room_source {i : SourceId} {s : Source α} (hs : world.sources[i]? = some s) :
    (world.room views handles targets).tickets (.source i) =
      { start := s.listeners.next, count := targets.count (.source i) } := by
  simp only [room, nextTicket?, hs, Option.map_some, Option.getD_some]

theorem tickets_room_view {j : ViewId} {v : View α β} (hv : world.views[j]? = some v) :
    (world.room views handles targets).tickets (.view j) =
      { start := v.listeners.next, count := targets.count (.view j) } := by
  simp only [room, nextTicket?, hv, Option.map_some, Option.getD_some]

theorem brings_nothing (o : Observer α β) (world : World α β) :
    (world.room 0 0 []).Brings o world world where
  depth := rfl
  deferred := ⟨[], by simp⟩
  sources := rfl
  source i s hs := ⟨s.listeners, hs, tickets_room_source hs ▸ .refl _ _⟩
  views := rfl
  view j v hv := ⟨v.listeners, hv, tickets_room_view hv ▸ .refl _ _⟩
  handles := ⟨[], by simp [room]⟩
  stranded := rfl

theorem brings_addView (o : Observer α β) (v : View α β) (world : World α β) :
    (world.room 1 0 []).Brings o world (world.addView v) where
  depth := rfl
  deferred := ⟨[], by simp [addView]⟩
  sources := rfl
  source i s hs := ⟨s.listeners, hs, tickets_room_source hs ▸ .refl _ _⟩
  views := by simp [addView, room]
  view j v' hv := by
    refine ⟨v'.listeners, ?_, tickets_room_view hv ▸ .refl _ _⟩
    rw [addView, List.getElem?_append_left (List.getElem?_eq_some_iff.mp hv).1, hv]
  handles := ⟨[], by simp [addView, room]⟩
  stranded := rfl

end World

namespace Footprint.Brings

variable {o : Observer α β} {world world' : World α β} {views handles : Nat}
  {targets : List Target}

/-- Assumes: a listener that is the observer. -/
theorem registerAtSource (h : (world.room views handles targets).Brings o world world')
    (source : SourceId) {listener : Listener}
    (hown : o.IsHeardBy (world.room views handles targets) listener) :
    (world.room views handles (targets ++ [.source source])).Brings o world
      (world'.registerAtSource source listener) where
  depth := h.depth
  deferred := h.deferred
  sources := (List.length_modify _ _ _).trans h.sources
  source i s hs := by
    obtain ⟨listeners, hs', hadds⟩ := h.source i s hs
    rw [World.tickets_room_source hs] at hadds
    rw [World.tickets_room_source hs, List.count_append]
    by_cases hi : i = source
    · subst hi
      refine ⟨listeners.register listener, ?_, ?_⟩
      · simp [World.registerAtSource, World.modifySource, hs']
      · rw [List.count_singleton_self]
        exact hadds.register hown
    · have hnot : Target.source i ∉ [Target.source source] := by simpa using hi
      refine ⟨listeners, ?_, ?_⟩
      · simp [World.registerAtSource, World.modifySource, hs', Ne.symm hi]
      · rw [List.count_eq_zero.mpr hnot]
        exact hadds
  views := h.views
  view j v hv := by
    obtain ⟨listeners, hv', hadds⟩ := h.view j v hv
    refine ⟨listeners, hv', ?_⟩
    have hnot : Target.view j ∉ [Target.source source] := by simp
    rw [World.tickets_room_view hv] at hadds
    rw [World.tickets_room_view hv, List.count_append, List.count_eq_zero.mpr hnot]
    exact hadds
  handles := h.handles
  stranded := h.stranded

theorem registerAtView (h : (world.room views handles targets).Brings o world world')
    (view : ViewId) : (world.room views handles (targets ++ [.view view])).Brings o world
      (world'.registerAtView view o.key) where
  depth := h.depth
  deferred := h.deferred
  sources := h.sources
  source i s hs := by
    obtain ⟨listeners, hs', hadds⟩ := h.source i s hs
    refine ⟨listeners, hs', ?_⟩
    have hnot : Target.source i ∉ [Target.view view] := by simp
    rw [World.tickets_room_source hs] at hadds
    rw [World.tickets_room_source hs, List.count_append, List.count_eq_zero.mpr hnot]
    exact hadds
  views := (List.length_modify _ _ _).trans h.views
  view j v hv := by
    obtain ⟨listeners, hv', hadds⟩ := h.view j v hv
    rw [World.tickets_room_view hv] at hadds
    rw [World.tickets_room_view hv, List.count_append]
    by_cases hj : j = view
    · subst hj
      refine ⟨listeners.register o.key, ?_, ?_⟩
      · simp [World.registerAtView, World.modifyView, hv']
      · rw [List.count_singleton_self]
        exact hadds.register rfl
    · have hnot : Target.view j ∉ [Target.view view] := by simpa using hj
      refine ⟨listeners, ?_, ?_⟩
      · simp [World.registerAtView, World.modifyView, hv', Ne.symm hj]
      · rw [List.count_eq_zero.mpr hnot]
        exact hadds
  handles := h.handles
  stranded := h.stranded

theorem addHandle (h : (world.room views handles targets).Brings o world world') (target : Target)
    (ticket : Nat) :
    (world.room views (handles + 1) targets).Brings o world (world'.addHandle target ticket) where
  depth := h.depth
  deferred := h.deferred
  sources := h.sources
  source := h.source
  views := h.views
  view := h.view
  handles := by
    obtain ⟨more, hhandles, hcount⟩ := h.handles
    refine ⟨more ++ [({ target, ticket } : Handle)], ?_, ?_⟩
    · rw [World.addHandle, hhandles, List.append_assoc]
    · rw [List.length_append, hcount]
      rfl
  stranded := h.stranded

end Footprint.Brings

end LiveRecord.Flow
