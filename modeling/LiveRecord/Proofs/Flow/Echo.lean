import LiveRecord.Proofs.Flow.Reference

/-!
# The core and the reference, side by side

What the core does while callbacks only record keeps a view and its reference in step: the delivery
of an event (`Machine.echoes_publish`), the compositions that were put off
(`Machine.echoes_draining`) and the end of a tick (`Machine.echoes_closeTick`). At rest, every act
leads from agreement to agreement (`Machine.Agrees.act`).
-/

set_option autoImplicit false

namespace LiveRecord.Flow

variable {α β : Type}

namespace Machine

/-- While a user only records, the machine gets on to another one and the reference to another
point, and the listener hears what the reference outputs meanwhile. -/
def Echoes (answers : Nat → List α → β) (watch : Watch α β) (ticket : Nat) (r : Reference α β)
    (m : Machine α β) (r' : Reference α β) (m' : Machine α β) : Prop :=
  ∃ told, r'.outputs = r.outputs ++ told ∧
    Tells answers watch.view ticket m
      (toldTo watch.view ticket watch.view watch.listeners.tickets told) m'

section Echoes

variable {answers : Nat → List α → β} {watch : Watch α β} {ticket : Nat}
  {r r' r'' : Reference α β} {m m' m'' : Machine α β} {connected : List SourceId}
  {shown : Nat → Event α} {stack : List (Frame α β)} {waiting : List ViewId} {world : World α β}
  {control : Control α β} {answer : Answer α β}

theorem Echoes.trans (hfirst : Echoes answers watch ticket r m r' m')
    (hlast : Echoes answers watch ticket r' m' r'' m'') :
    Echoes answers watch ticket r m r'' m'' := by
  obtain ⟨told, houtputs, htells⟩ := hfirst
  obtain ⟨later, houtputs', htells'⟩ := hlast
  refine ⟨told ++ later, ?_, ?_⟩
  · rw [houtputs', houtputs, List.append_assoc]
  · rw [toldTo_append]
    exact htells.trans htells'

theorem Echoes.of_tells (h : Tells answers watch.view ticket m [] m')
    (houtputs : r'.outputs = r.outputs) : Echoes answers watch ticket r m r' m' := by
  refine ⟨[], ?_, ?_⟩
  · rw [houtputs, List.append_nil]
  · rw [toldTo_nil]
    exact h

/-- Nobody hears a view that nobody listens to. -/
theorem Echoes.silent (h : Echoes answers watch ticket r m r' m')
    (hnobody : watch.listeners.tickets = []) : Tells answers watch.view ticket m [] m' := by
  obtain ⟨told, -, htells⟩ := h
  rwa [hnobody, toldTo_nobody] at htells

theorem hearNotices_quiet (view : ViewId) (slot : Nat) (event : Event α) (other : ViewId) (t : Nat)
    (told : ViewEvent β) (m : Machine α β) :
    .ofView other (.heard t told) ∉ m.hearNotices view slot event := by
  unfold hearNotices
  split
  · simp
  · split <;> simp

/-- Inside a tick, an input of a view hears an event. -/
theorem echoes_hear {slot : Nat} (event : Event α)
    (h : world.Follows watch connected shown stack world.deferred r) (htick : world.inTick)
    (hslot : slot < watch.inputs.length) :
    Echoes answers watch ticket r
      ((⟨world, stack, control⟩ : Machine α β).hear watch.view slot event) (r.hear event)
      ⟨world.takeIn answers watch.view slot event, stack, .returning .done⟩ := by
  obtain ⟨v, hview, hreflects, -, -⟩ := h.view
  refine ⟨v.takeInTold answers slot event, (hreflects.takeIn hslot event).2, ?_⟩
  rw [← hreflects.listeners]
  exact tells_hear slot event h.calm htick hview hreflects.live

/-- A listener that is no input of the view hears an event. -/
theorem tells_deliver_of_ne {source : SourceId} {t : Nat} {tickets : List Nat}
    {listener : Listener} (event : Event α)
    (h : world.Follows watch connected shown stack world.deferred r) (htick : world.inTick)
    (hlistener : world.sourceListener? source t = some listener)
    (hslot : listener.slot? watch.view = none) :
    ∃ world', Tells answers watch.view ticket
        ⟨world, .delivering source event (t :: tickets) :: stack, .returning answer⟩ []
        ⟨world', .delivering source event tickets :: stack, .returning .done⟩ ∧
      world'.Follows watch connected shown stack world'.deferred r ∧
      world'.sources = world.sources ∧ world'.depth = world.depth := by
  cases listener with
  | callback key =>
    refine ⟨world, ?_, h, rfl, rfl⟩
    have hcall : Tells answers watch.view ticket
        ⟨world, .delivering source event (t :: tickets) :: stack, .returning answer⟩ []
        ((⟨world, .delivering source event tickets :: stack, .returning answer⟩ :
          Machine α β).call (.sourceEvent key event) (some (.source source, t))) := by
      apply Tells.resume
      · simp only [Machine.resume, hlistener]
      · simp only [resumeNotices, hlistener]
        rfl
    exact hcall.trans (tells_call (by simp))
  | input view slot =>
    have hne : view ≠ watch.view := by
      intro heq
      rw [Listener.slot?, if_pos heq] at hslot
      contradiction
    have hturn : Tells answers watch.view ticket
        ⟨world, .delivering source event (t :: tickets) :: stack, .returning answer⟩ []
        ((⟨world, .delivering source event tickets :: stack, .returning answer⟩ :
          Machine α β).hear view slot event) := by
      apply Tells.resume
      · simp only [Machine.resume, hlistener]
      · simp only [resumeNotices, hlistener]
        exact heardBy_eq_nil (hearNotices_quiet view slot event · · · _)
    refine ⟨world.takeIn answers view slot event, ?_, h.takeIn_of_ne slot event hne,
      World.sources_takeIn slot event, World.depth_takeIn slot event⟩
    exact hturn.trans (tells_hear_of_ne slot event (h.calm.push _) htick hne)

/-- One listener hears of an event, and the others are left. -/
theorem echoes_deliver {source : SourceId} {s : Source α} {t : Nat} {listener : Listener}
    {tickets : List Nat} (event : Event α)
    (h : world.Follows watch connected shown stack world.deferred r) (htick : world.inTick)
    (hconnected : connected.length ≤ watch.inputs.length)
    (hsource : world.sources[source]? = some s) (hmem : (t, listener) ∈ s.listeners.entries) :
    ∃ world₁ r₁ shown₁,
      Echoes answers watch ticket r
        ⟨world, .delivering source event (t :: tickets) :: stack, .returning answer⟩ r₁
        ⟨world₁, .delivering source event tickets :: stack, .returning .done⟩ ∧
      world₁.Follows watch connected shown₁ stack world₁.deferred r₁ ∧
      world₁.sources = world.sources ∧ world₁.depth = world.depth ∧
      (listener.slot? watch.view = none ∧ r₁ = r ∧ shown₁ = shown ∨
        ∃ slot, listener.slot? watch.view = some slot ∧ r₁ = r.hear event ∧
          shown₁ = Function.update shown slot event) := by
  have hlistener : world.sourceListener? source t = some listener := by
    rw [World.sourceListener?, hsource, Option.bind_some]
    exact (h.ordered source s hsource).find?_of_mem hmem
  cases hslot : listener.slot? watch.view with
  | none =>
    obtain ⟨world₁, htells, h₁, hsources₁, hdepth₁⟩ :=
      tells_deliver_of_ne event h htick hlistener hslot
    exact ⟨world₁, r, shown, .of_tells htells rfl, h₁, hsources₁, hdepth₁, .inl ⟨rfl, rfl, rfl⟩⟩
  | some slot =>
    obtain rfl : listener = .input watch.view slot := by
      cases listener with
      | callback key => contradiction
      | input view other =>
        rw [Listener.slot?] at hslot
        split at hslot
        case isTrue hview => rw [hview, Option.some.inj hslot]
        case isFalse => contradiction
    have hfed : slot ∈ fed source connected := by
      rw [← h.slots source s hsource]
      exact List.mem_filterMap.mpr ⟨_, hmem, hslot⟩
    have hinput : slot < watch.inputs.length := by
      obtain ⟨hbound, -⟩ := List.getElem?_eq_some_iff.mp (mem_fed.mp hfed)
      exact Nat.lt_of_lt_of_le hbound hconnected
    have hturn : Tells answers watch.view ticket
        ⟨world, .delivering source event (t :: tickets) :: stack, .returning answer⟩ []
        ((⟨world, .delivering source event tickets :: stack, .returning answer⟩ :
          Machine α β).hear watch.view slot event) := by
      apply Tells.resume
      · simp only [Machine.resume, hlistener]
      · simp only [resumeNotices, hlistener]
        exact heardBy_eq_nil (hearNotices_quiet watch.view slot event · · · _)
    refine ⟨world.takeIn answers watch.view slot event, r.hear event,
      Function.update shown slot event, ?_, h.takeIn_self event hinput,
      World.sources_takeIn slot event, World.depth_takeIn slot event, .inr ⟨slot, rfl, rfl, rfl⟩⟩
    exact (Echoes.of_tells hturn rfl).trans (echoes_hear event (h.push _) htick hinput)

/-- An event of a source is delivered: every input that the source feeds hears it. -/
theorem echoes_delivering {source : SourceId} {s : Source α} {entries : List (Nat × Listener)}
    (event : Event α) (h : world.Follows watch connected shown stack world.deferred r)
    (htick : world.inTick) (hconnected : connected.length ≤ watch.inputs.length)
    (hsource : world.sources[source]? = some s) (hentries : entries ⊆ s.listeners.entries) :
    let slots := entries.filterMap (·.2.slot? watch.view)
    let r' := (Reference.hear event)^[slots.length] r
    ∃ world', Echoes answers watch ticket r
        ⟨world, .delivering source event (entries.map (·.1)) :: stack, .returning answer⟩ r'
        ⟨world', stack, .returning .done⟩ ∧
      world'.Follows watch connected (fun k ↦ if k ∈ slots then event else shown k) stack
        world'.deferred r' ∧
      world'.sources = world.sources ∧ world'.depth = world.depth := by
  induction entries generalizing world r shown answer with
  | nil =>
    refine ⟨world, .of_tells (.resume rfl rfl) rfl, ?_, rfl, rfl⟩
    simpa using h
  | cons entry entries ih =>
    obtain ⟨t, listener⟩ := entry
    have hmem : (t, listener) ∈ s.listeners.entries := hentries List.mem_cons_self
    have hrest : entries ⊆ s.listeners.entries := fun other hother ↦
      hentries (List.mem_cons_of_mem _ hother)
    obtain ⟨world₁, r₁, shown₁, hfirst, h₁, hsources₁, hdepth₁, hslots⟩ :=
      @echoes_deliver α β answers watch ticket _ _ _ _ _ answer _ _ _ _ (entries.map (·.1)) event h
        htick hconnected hsource hmem
    have htick₁ : world₁.inTick := by rwa [World.inTick, hdepth₁]
    have hsource₁ : world₁.sources[source]? = some s := by rw [hsources₁, hsource]
    obtain ⟨world', hlater, h', hsources', hdepth'⟩ := ih h₁ htick₁ hsource₁ hrest
    have hsources := hsources'.trans hsources₁
    have hdepth := hdepth'.trans hdepth₁
    rcases hslots with ⟨hslot, rfl, rfl⟩ | ⟨slot, hslot, rfl, rfl⟩
    · have hslots : ((t, listener) :: entries).filterMap (·.2.slot? watch.view) =
          entries.filterMap (·.2.slot? watch.view) := List.filterMap_cons_none hslot
      dsimp only
      rw [hslots]
      exact ⟨world', hfirst.trans hlater, h', hsources, hdepth⟩
    · have hslots : ((t, listener) :: entries).filterMap (·.2.slot? watch.view) =
          slot :: entries.filterMap (·.2.slot? watch.view) := List.filterMap_cons_some hslot
      have hshown : (fun k ↦ if k ∈ slot :: entries.filterMap (·.2.slot? watch.view) then event
          else shown k) = fun k ↦ if k ∈ entries.filterMap (·.2.slot? watch.view) then event
            else Function.update shown slot event k := by
        funext k
        by_cases hk : k = slot
        · rw [hk, if_pos List.mem_cons_self, Function.update_self, ite_self]
        · simp only [List.mem_cons, hk, false_or, Function.update_of_ne hk]
      dsimp only
      rw [hslots, hshown, List.length_cons, Function.iterate_succ_apply]
      exact ⟨world', hfirst.trans hlater, h', hsources, hdepth⟩

/-- A source publishes an event, and every input that it feeds hears it. -/
theorem echoes_publish {source : SourceId} {s : Source α} (event : Event α)
    (h : world.Follows watch watch.inputs (r.shown watch.inputs) stack world.deferred r)
    (hsource : world.sources[source]? = some s) :
    let r' := r.publish watch.inputs source event
    ∃ world', Echoes answers watch ticket r
        ⟨world.openTick.modifySource source fun s ↦ { s with current := event },
          .delivering source event (s.listeners.entries.map (·.1)) :: stack, .returning answer⟩ r'
        ⟨world', stack, .returning .done⟩ ∧
      world'.Follows watch watch.inputs (r'.shown watch.inputs) stack world'.deferred r' ∧
      world'.depth = world.depth + 1 := by
  intro r'
  let published : World α β :=
    world.openTick.modifySource source fun s ↦ { s with current := event }
  have htick : published.inTick := world.inTick_openTick
  have hfound : published.sources[source]? = some { s with current := event } := by
    simp [published, World.modifySource, World.openTick, hsource]
  have hbound : source < r.events.length := by
    rw [← h.events, List.length_map]
    exact (List.getElem?_eq_some_iff.mp hsource).1
  obtain ⟨world', hechoes, hfollows, -, hdepth⟩ :=
    @echoes_delivering α β answers watch ticket _ _ _ _ _ answer _ _ _ event
      (h.publish source event) htick (Nat.le_refl _) hfound (List.Subset.refl _)
  have hslots := h.slots source s hsource
  dsimp only at hechoes hfollows
  rw [hslots, length_fed] at hechoes hfollows
  have hshown : (fun k ↦ if k ∈ fed source watch.inputs then event else r.shown watch.inputs k) =
      r'.shown watch.inputs := by
    funext k
    have hevents : r'.events = r.events.set source event := r.events_publish _ _ _
    simp only [mem_fed, Reference.shown]
    cases watch.inputs[k]? with
    | none => rfl
    | some other =>
      by_cases hother : other = source
      · simp [hother, hbound, hevents, Reference.current]
      · simp [hother, Ne.symm hother, hevents, Reference.current]
  rw [hshown] at hfollows
  exact ⟨world', hechoes, hfollows, hdepth⟩

/-- The views that were put off compose, one after the other. -/
theorem echoes_draining {last : Answer α β} (views : List ViewId) (hrequested : watch.requested)
    (h : world.Follows watch connected (r.shown watch.inputs) stack views r) :
    let r' := r.endTick watch.inputs (watch.composer.apply answers)
    ∃ world', Echoes answers watch ticket r
        ⟨world, .draining views answer :: stack, .returning last⟩ r'
        ⟨world', stack, .returning answer⟩ ∧
      world'.Follows watch connected (r.shown watch.inputs) stack [] r' ∧
      world'.sources = world.sources ∧ world'.depth = world.depth ∧
      world'.deferred = world.deferred := by
  intro r'
  induction views generalizing world r last with
  | nil =>
    obtain ⟨v, -, hreflects, hdue, hwaits⟩ := h.view
    have hsame : r' = r := by
      refine hreflects.endTick_of_not_due ?_ _
      rw [Bool.eq_false_iff]
      intro hv
      exact absurd (hwaits (hdue hrequested hv)) List.not_mem_nil
    rw [hsame]
    exact ⟨world, .of_tells (.resume rfl rfl) rfl, h, rfl, rfl, rfl⟩
  | cons j views ih =>
    by_cases hj : j = watch.view
    · subst hj
      obtain ⟨v, hview, hreflects, -, -⟩ := h.view
      have hturn : Tells answers watch.view ticket
          ⟨world, .draining (watch.view :: views) answer :: stack, .returning last⟩ []
          ((⟨world, .draining views answer :: stack, .returning last⟩ :
            Machine α β).runDeferred watch.view) :=
        .resume rfl rfl
      have hcaughtUp : Echoes answers watch ticket r
          ((⟨world, .draining views answer :: stack, .returning last⟩ :
            Machine α β).runDeferred watch.view) r'
          ⟨world.catchUp answers watch.view, .draining views answer :: stack,
            .returning .done⟩ := by
        refine ⟨{ v with scheduled := false }.flushTold answers, hreflects.flushed.2, ?_⟩
        rw [← hreflects.listeners]
        exact tells_runDeferred (h.calm.push _) hview hreflects.live
      have hshown : r'.shown watch.inputs = r.shown watch.inputs :=
        Reference.shown_congr (r.events_endTick _ _) _
      have h₁ : (world.catchUp answers watch.view).Follows watch connected
          (r'.shown watch.inputs) stack views r' := by
        rw [hshown]
        exact h.catchUp_self
      obtain ⟨world', hlater, h', hsources, hdepth, hdeferred⟩ := ih h₁
      rw [Reference.endTick_endTick] at hlater h'
      rw [hshown] at h'
      refine ⟨world', ((Echoes.of_tells hturn rfl).trans hcaughtUp).trans hlater, h', ?_, ?_, ?_⟩
      · rw [hsources, World.sources_catchUp]
      · rw [hdepth, World.depth_catchUp]
      · rw [hdeferred, World.deferred_catchUp]
    · have hturn : Tells answers watch.view ticket
          ⟨world, .draining (j :: views) answer :: stack, .returning last⟩ []
          ((⟨world, .draining views answer :: stack, .returning last⟩ :
            Machine α β).runDeferred j) :=
        .resume rfl rfl
      have hcaughtUp : Tells answers watch.view ticket
          ((⟨world, .draining views answer :: stack, .returning last⟩ :
            Machine α β).runDeferred j) []
          ⟨world.catchUp answers j, .draining views answer :: stack, .returning .done⟩ :=
        tells_runDeferred_of_ne (h.calm.push _) hj
      obtain ⟨world', hlater, h', hsources, hdepth, hdeferred⟩ := ih (h.catchUp_of_ne hj)
      refine ⟨world', (Echoes.of_tells (hturn.trans hcaughtUp) rfl).trans hlater, h', ?_, ?_, ?_⟩
      · rw [hsources, World.sources_catchUp]
      · rw [hdepth, World.depth_catchUp]
      · rw [hdeferred, World.deferred_catchUp]

/-- A tick ends. -/
theorem echoes_closeTick {depth : Nat} (hrequested : watch.requested)
    (h : world.Follows watch connected (r.shown watch.inputs) stack world.deferred r)
    (hdepth : world.depth = depth + 1) :
    let r' := if depth = 0 then r.endTick watch.inputs (watch.composer.apply answers) else r
    ∃ world', Echoes answers watch ticket r
        ((⟨world, stack, control⟩ : Machine α β).closeTick answer) r'
        ⟨world', stack, .returning answer⟩ ∧
      world'.Follows watch connected (r.shown watch.inputs) stack world'.deferred r' ∧
      world'.sources = world.sources ∧ world'.depth = depth ∧
      (depth = 0 → world'.deferred = []) := by
  intro r'
  by_cases houtermost : depth = 0
  · let closed : World α β := { world with depth := 0, deferred := [] }
    have hclosed : closed.Follows watch connected (r.shown watch.inputs) stack world.deferred r :=
      ⟨h.view, h.events, h.slots, h.ordered, h.calm⟩
    have hstart : (⟨world, stack, control⟩ : Machine α β).closeTick answer =
        ⟨closed, .draining world.deferred answer :: stack, .returning .done⟩ := by
      simp only [Machine.closeTick, World.closeTick, hdepth, houtermost]
      rfl
    obtain ⟨world', hlater, h', hsources, hdepth', hdeferred⟩ := echoes_draining _ hrequested hclosed
    rw [hstart]
    simp only [r', if_pos houtermost]
    refine ⟨world', hlater, ?_, hsources, ?_, fun _ ↦ hdeferred⟩
    · rw [hdeferred]
      exact h'
    · rw [hdepth', houtermost]
  · let closed : World α β := { world with depth }
    have hstart : (⟨world, stack, control⟩ : Machine α β).closeTick answer =
        ⟨closed, .draining [] answer :: stack, .returning .done⟩ := by
      simp only [Machine.closeTick, World.closeTick, hdepth, Nat.add_sub_cancel, if_neg houtermost]
      rfl
    rw [hstart]
    simp only [r', if_neg houtermost]
    refine ⟨closed, .of_tells (.resume rfl rfl) rfl, ?_, rfl, rfl, fun hzero ↦ ?_⟩
    · exact ⟨h.view, h.events, h.slots, h.ordered, h.calm⟩
    · exact absurd hzero houtermost

/-! ### What is done at rest -/

/-- At rest, the view agrees with the reference. -/
structure Agrees (watch : Watch α β) (r : Reference α β) (m : Machine α β) : Prop where
  rest : m.AtRest
  requested : watch.requested
  world : m.world.Follows watch watch.inputs (r.shown watch.inputs) [] m.world.deferred r
  depth : m.world.depth = r.depth
  putsOff : m.world.PutsOffInTicks

/-- The core answers at rest. -/
theorem echoes_answer :
    Echoes answers watch ticket r ⟨world, [], .returning answer⟩ r
      ⟨world, [], .user (.answered answer)⟩ :=
  .of_tells (.resume rfl rfl) rfl

/-- Assumes: the world agrees with the reference, and nothing is put off outside ticks. -/
theorem agrees_answered (hrequested : watch.requested)
    (h : world.Follows watch watch.inputs (r.shown watch.inputs) [] world.deferred r)
    (hdepth : world.depth = r.depth) (hputsOff : world.depth = 0 → world.deferred = []) :
    (⟨world, [], .user (.answered answer)⟩ : Machine α β).Agrees watch r :=
  ⟨⟨rfl, rfl⟩, hrequested, h, hdepth, hputsOff⟩

/-- An event is accepted at rest: it is delivered in a tick of its own, at the end of which the view
composes if no other tick is open. -/
theorem Agrees.accept {source : SourceId} {s : Source α} {event : Event α} (h : m.Agrees watch r)
    (hsource : m.world.sources[source]? = some s)
    (haccepted : ¬∃ value, event = .pending ∧ s.current = .loaded value) :
    let r' := r.emit watch.inputs (watch.composer.apply answers) source event
    ∃ m', Echoes answers watch ticket r (m.emit source event) r' m' ∧ m'.Agrees watch r' := by
  intro r'
  obtain ⟨world, stack, control⟩ := m
  obtain ⟨⟨hstack, huser⟩, hrequested, hworld, hdepth, hputsOff⟩ := h
  dsimp only at hstack hworld hdepth hputsOff hsource
  subst hstack
  have hevent : r.events[source]? = some s.current := by
    rw [← hworld.events, List.getElem?_map, hsource, Option.map_some]
  let published : World α β :=
    world.openTick.modifySource source fun s ↦ { s with current := event }
  have hstart : (⟨world, [], control⟩ : Machine α β).emit source event =
      ⟨published, .delivering source event (s.listeners.entries.map (·.1)) ::
        [.closing (.accepted true)], .returning .done⟩ := by
    have htickets : published.sourceTickets source = s.listeners.entries.map (·.1) := by
      simp [published, World.sourceTickets, World.modifySource, World.openTick, hsource,
        Registry.tickets]
    simp only [Machine.emit, hsource]
    split
    case h_1 value hcurrent => exact absurd ⟨value, rfl, hcurrent⟩ haccepted
    case h_2 =>
      rw [← htickets]
      rfl
  have hreference : r' = if r.depth = 0 then
      (r.publish watch.inputs source event).endTick watch.inputs (watch.composer.apply answers)
      else r.publish watch.inputs source event := by
    simp only [r', Reference.emit, hevent]
    split
    case h_1 value hcurrent => exact absurd ⟨value, rfl, hcurrent⟩ haccepted
    case h_2 => simp only [Reference.depth_publish]
  obtain ⟨world₁, hpublished, h₁, hdepth₁⟩ :=
    @echoes_publish α β answers watch ticket _ _ _ .done _ _ event
      (hworld.push (.closing (.accepted true))) hsource
  obtain ⟨world₂, hclosed, h₂, -, hdepth₂, hputsOff₂⟩ :=
    @echoes_closeTick α β answers watch ticket _ _ _ _ (.returning .done) (.accepted true) _
      hrequested (h₁.pop fun _ ↦ rfl) hdepth₁
  have hturn : Tells answers watch.view ticket
      ⟨world₁, [.closing (.accepted true)], .returning .done⟩ []
      ((⟨world₁, [], .returning .done⟩ : Machine α β).closeTick (.accepted true)) :=
    .resume rfl rfl
  rw [hdepth, ← hreference] at hclosed h₂
  rw [hstart]
  refine ⟨_, ((hpublished.trans (.of_tells hturn rfl)).trans hclosed).trans echoes_answer, ?_⟩
  have hevents : r'.events = (r.publish watch.inputs source event).events := by
    rw [hreference]
    split
    · exact Reference.events_endTick _ _ _
    · rfl
  have hr' : r'.depth = r.depth := by
    rw [hreference]
    split
    · rw [Reference.depth_endTick, Reference.depth_publish]
    · rw [Reference.depth_publish]
  refine agrees_answered hrequested ?_ ?_ ?_
  · rw [Reference.shown_congr hevents]
    exact h₂
  · rw [hdepth₂, hr', hdepth]
  · rw [hdepth₂]
    exact hputsOff₂

/-- An event is emitted at rest. -/
theorem Agrees.emit (h : m.Agrees watch r) (source : SourceId) (event : Event α) :
    let r' := r.emit watch.inputs (watch.composer.apply answers) source event
    ∃ m', Echoes answers watch ticket r (m.emit source event) r' m' ∧ m'.Agrees watch r' := by
  intro r'
  have hevent : r.events[source]? = m.world.sources[source]?.map (·.current) := by
    rw [← h.world.events, List.getElem?_map]
  cases hsource : m.world.sources[source]? with
  | none =>
    have hsame : r' = r := by
      simp only [r', Reference.emit, hevent, hsource, Option.map_none]
    have hstart : m.emit source event = ⟨m.world, [], .returning .unknown⟩ := by
      simp only [Machine.emit, hsource, Machine.returning, h.rest.1]
    rw [hsame, hstart]
    exact ⟨_, echoes_answer, agrees_answered h.requested h.world h.depth h.putsOff⟩
  | some s =>
    by_cases hrejected : ∃ value, event = .pending ∧ s.current = .loaded value
    case neg => exact h.accept hsource hrejected
    obtain ⟨value, rfl, hcurrent⟩ := hrejected
    have hsame : r' = r := by
      simp only [r', Reference.emit, hevent, hsource, Option.map_some, hcurrent]
    have hstart : m.emit source .pending = ⟨m.world, [], .returning (.accepted false)⟩ := by
      simp only [Machine.emit, hsource, hcurrent, Machine.returning, h.rest.1]
    rw [hsame, hstart]
    exact ⟨_, echoes_answer, agrees_answered h.requested h.world h.depth h.putsOff⟩

/-- A tick is opened at rest. -/
theorem Agrees.enterTick (h : m.Agrees watch r) :
    ∃ m', Echoes answers watch ticket r ((m.withWorld .openTick).returning .done)
        { r with depth := r.depth + 1 } m' ∧
      m'.Agrees watch { r with depth := r.depth + 1 } := by
  obtain ⟨world, stack, control⟩ := m
  obtain ⟨⟨hstack, huser⟩, hrequested, hworld, hdepth, hputsOff⟩ := h
  dsimp only at hstack hworld hdepth hputsOff
  subst hstack
  let opened : World α β := world.openTick
  have hopened := hworld.atDepth (r.depth + 1)
  refine ⟨⟨opened, [], .user (.answered .done)⟩, .of_tells (.resume rfl rfl) rfl, ?_⟩
  refine agrees_answered hrequested ?_ ?_ ?_
  · exact ⟨hopened.view, hopened.events, hopened.slots, hopened.ordered, hopened.calm⟩
  · exact congrArg (· + 1) hdepth
  · exact fun hzero ↦ absurd hzero (Nat.succ_ne_zero _)

/-- A tick is closed at rest. -/
theorem Agrees.leaveTick (h : m.Agrees watch r) :
    let r' := r.leaveTick watch.inputs (watch.composer.apply answers)
    ∃ m', Echoes answers watch ticket r (m.closeTick .done) r' m' ∧ m'.Agrees watch r' := by
  intro r'
  obtain ⟨world, stack, control⟩ := m
  obtain ⟨⟨hstack, huser⟩, hrequested, hworld, hdepth, hputsOff⟩ := h
  dsimp only at hstack hworld hdepth hputsOff
  subst hstack
  cases hr : r.depth with
  | zero =>
    have hsame : r' = r := by simp only [r', Reference.leaveTick, hr]
    rw [hr] at hdepth
    let closed : World α β := { world with depth := 0, deferred := [] }
    have hdeferred : world.deferred = [] := hputsOff hdepth
    have hstart : (⟨world, [], control⟩ : Machine α β).closeTick .done =
        ⟨closed, [.draining [] .done], .returning .done⟩ := by
      simp only [Machine.closeTick, World.closeTick, hdepth, hdeferred]
      rfl
    have hdrained : Tells answers watch.view ticket
        ⟨closed, [.draining [] .done], .returning .done⟩ [] ⟨closed, [], .returning .done⟩ :=
      .resume rfl rfl
    rw [hsame, hstart]
    rw [hdeferred] at hworld
    refine ⟨_, (Echoes.of_tells hdrained rfl).trans echoes_answer, ?_⟩
    refine agrees_answered hrequested ?_ hr.symm fun _ ↦ rfl
    exact ⟨hworld.view, hworld.events, hworld.slots, hworld.ordered, hworld.calm⟩
  | succ depth =>
    have hreference : r' = if depth = 0 then
        { r with depth }.endTick watch.inputs (watch.composer.apply answers)
        else { r with depth } := by
      cases depth with
      | zero => simp only [r', Reference.leaveTick, hr, if_pos]
      | succ depth => simp only [r', Reference.leaveTick, hr, Nat.succ_ne_zero, if_false]
    obtain ⟨world', hclosed, h', -, hdepth', hputsOff'⟩ :=
      @echoes_closeTick α β answers watch ticket { r with depth } _ _ _ control .done depth
        hrequested (hworld.atDepth depth) (hdepth.trans hr)
    rw [← hreference] at hclosed h'
    have hstart : Echoes answers watch ticket r ((⟨world, [], control⟩ : Machine α β).closeTick .done)
        { r with depth } ((⟨world, [], control⟩ : Machine α β).closeTick .done) :=
      .of_tells (.refl _) rfl
    have hevents : r'.events = r.events := by
      rw [hreference]
      split
      · exact Reference.events_endTick _ _ _
      · rfl
    have hr' : r'.depth = depth := by
      rw [hreference]
      split
      · exact Reference.depth_endTick _ _ _
      · rfl
    refine ⟨_, (hstart.trans hclosed).trans echoes_answer, ?_⟩
    refine agrees_answered hrequested ?_ ?_ ?_
    · rw [Reference.shown_congr hevents]
      exact h'
    · rw [hdepth', hr']
    · rw [hdepth']
      exact hputsOff'

/-- Whatever is done at rest, the view agrees with the reference again. -/
theorem Agrees.act (h : m.Agrees watch r) (act : Act α) :
    let r' := r.act watch.inputs (watch.composer.apply answers) act
    ∃ m', Echoes answers watch ticket r (m.submit act.request) r' m' ∧ m'.Agrees watch r' := by
  rw [submit_eq_serve h.rest.2]
  cases act with
  | emit source event => exact h.emit source event
  | enterTick => exact h.enterTick
  | leaveTick => exact h.leaveTick

end Echoes

end Machine

end LiveRecord.Flow
