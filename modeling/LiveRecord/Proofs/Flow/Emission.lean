import LiveRecord.Proofs.Flow.Recording

/-!
# What an emission makes of the world

While callbacks only record, an emission at which the core arrives runs to its end, and what it
makes of the world is a function of the world (`Machine.reaches_emit`): the source shows the event,
its listeners hear it one after the other inside a tick (`World.deliver`), and the views that were
put off compose when the tick ends (`World.endTick`). The stack below the emission plays no part, so
this holds in the middle of a feed as well.
-/

set_option autoImplicit false

namespace LiveRecord.Flow

variable {α β : Type}

namespace World

section Emission

variable (answers : Nat → List α → β)

/-- The world once a listener of a source has heard an event inside a tick. -/
def tell (source : SourceId) (event : Event α) (world : World α β) (ticket : Nat) : World α β :=
  match world.sourceListener? source ticket with
  | some (.input view slot) => world.takeIn answers view slot event
  | _ => world

/-- The source shows the event, in a tick of its own. -/
def showEvent (source : SourceId) (event : Event α) (world : World α β) : World α β :=
  world.openTick.modifySource source fun s ↦ { s with current := event }

/-- The world once all listeners of a source have heard an event, before its tick ends. -/
def deliver (source : SourceId) (event : Event α) (world : World α β) : World α β :=
  (world.sourceTickets source).foldl (tell answers source event) (world.showEvent source event)

/-- The world once these views that were put off have composed. -/
def catchUpAll (views : List ViewId) (world : World α β) : World α β :=
  views.foldl (fun world view ↦ world.catchUp answers view) world

/-- The world once a tick has ended. -/
def endTick (world : World α β) : World α β :=
  world.closeTick.2.catchUpAll answers world.closeTick.1

/-- The world once an event has been emitted. -/
def emit (source : SourceId) (event : Event α) (world : World α β) : World α β :=
  (world.deliver answers source event).endTick answers

/-- The world once these events have been emitted, one after the other. -/
def emitAll (emissions : List (SourceId × Event α)) (world : World α β) : World α β :=
  emissions.foldl (fun world emission ↦ world.emit answers emission.1 emission.2) world

end Emission

variable {answers : Nat → List α → β} {source : SourceId} {event : Event α} {world : World α β}
  {stack : List (Frame α β)}

@[simp] theorem emitAll_nil (world : World α β) : world.emitAll answers [] = world := rfl

@[simp] theorem emitAll_cons (emission : SourceId × Event α) (rest : List (SourceId × Event α))
    (world : World α β) : world.emitAll answers (emission :: rest) =
      (world.emit answers emission.1 emission.2).emitAll answers rest := rfl

theorem emitAll_append (first last : List (SourceId × Event α)) (world : World α β) :
    world.emitAll answers (first ++ last) = (world.emitAll answers first).emitAll answers last :=
  List.foldl_append

theorem sourceTickets_showEvent : (world.showEvent source event).sourceTickets source =
    world.sourceTickets source := by
  simp only [showEvent, sourceTickets, modifySource, openTick, List.getElem?_modify_eq]
  cases world.sources[source]? <;> rfl

/-! ### What stays -/

theorem tell_cases (answers : Nat → List α → β) (source : SourceId) (event : Event α)
    (world : World α β) (ticket : Nat) :
    world.tell answers source event ticket = world ∨ ∃ view slot,
      world.sourceListener? source ticket = some (.input view slot) ∧
      world.tell answers source event ticket = world.takeIn answers view slot event := by
  unfold tell
  split
  case h_1 view slot hlistener => exact .inr ⟨view, slot, hlistener, rfl⟩
  case h_2 => exact .inl rfl

/-- What every input that hears the event keeps is kept when all listeners hear it. -/
theorem foldl_tell_preserves (property : World α β → Prop)
    (htakeIn : ∀ world view slot, property world → property (world.takeIn answers view slot event))
    (tickets : List Nat) (h : property world) :
    property (tickets.foldl (tell answers source event) world) := by
  induction tickets generalizing world with
  | nil => exact h
  | cons ticket tickets ih =>
    refine ih ?_
    rcases tell_cases answers source event world ticket with
      heq | ⟨view, slot, -, heq⟩
    · rwa [heq]
    · rw [heq]
      exact htakeIn world view slot h

/-- What every view that composes keeps is kept when all of them compose. -/
theorem catchUpAll_preserves (property : World α β → Prop)
    (hcatchUp : ∀ world view, property world → property (world.catchUp answers view))
    (views : List ViewId) (h : property world) : property (world.catchUpAll answers views) := by
  induction views generalizing world with
  | nil => exact h
  | cons view views ih => exact ih (hcatchUp world view h)

theorem sources_deliver (source : SourceId) (event : Event α) (world : World α β) :
    (world.deliver answers source event).sources =
      world.sources.modify source fun s ↦ { s with current := event } :=
  foldl_tell_preserves (fun w ↦ w.sources = (world.showEvent source event).sources)
    (fun _ _ slot h ↦ (sources_takeIn slot event).trans h) _ rfl

theorem depth_deliver (source : SourceId) (event : Event α) (world : World α β) :
    (world.deliver answers source event).depth = world.depth + 1 :=
  foldl_tell_preserves (fun w ↦ w.depth = world.depth + 1)
    (fun _ _ slot h ↦ (depth_takeIn slot event).trans h) _ rfl

theorem sources_closeTick (world : World α β) : world.closeTick.2.sources = world.sources := by
  unfold closeTick
  dsimp only
  split <;> rfl

/-- Outside ticks, everything that was put off composes when the tick of an emission ends. -/
theorem closeTick_deliver (h : world.depth = 0) :
    (world.deliver answers source event).closeTick =
      ((world.deliver answers source event).deferred,
        { world.deliver answers source event with depth := 0, deferred := [] }) := by
  rw [closeTick, depth_deliver, h]
  rfl

theorem sources_emit (source : SourceId) (event : Event α) (world : World α β) :
    (world.emit answers source event).sources =
      world.sources.modify source fun s ↦ { s with current := event } := by
  refine catchUpAll_preserves
    (fun w ↦
      w.sources = world.sources.modify source fun s ↦ { s with current := event })
    (fun _ _ h ↦ sources_catchUp.trans h) _ ?_
  rw [sources_closeTick, sources_deliver]

theorem length_sources_emit (source : SourceId) (event : Event α) (world : World α β) :
    (world.emit answers source event).sources.length = world.sources.length := by
  rw [sources_emit, List.length_modify]

theorem length_sources_emitAll (emissions : List (SourceId × Event α)) (world : World α β) :
    (world.emitAll answers emissions).sources.length = world.sources.length := by
  induction emissions generalizing world with
  | nil => rfl
  | cons emission rest ih => rw [emitAll_cons, ih, length_sources_emit]

/-- An emission leaves no tick open and nothing put off. -/
theorem depth_emit (h : world.depth = 0) : (world.emit answers source event).depth = 0 ∧
    (world.emit answers source event).deferred = [] := by
  rw [emit, endTick, closeTick_deliver h]
  refine catchUpAll_preserves (fun w ↦ w.depth = 0 ∧ w.deferred = []) ?_ _ ⟨rfl, rfl⟩
  exact fun _ _ hw ↦ ⟨depth_catchUp.trans hw.1, deferred_catchUp.trans hw.2⟩

theorem Calm.showEvent (h : world.Calm stack) : (world.showEvent source event).Calm stack := h

theorem Calm.deliver (h : world.Calm stack) : (world.deliver answers source event).Calm stack :=
  foldl_tell_preserves (Calm stack) (fun _ _ slot hw ↦ hw.takeIn slot event) _ h.showEvent

theorem Calm.closeTick (h : world.Calm stack) : world.closeTick.2.Calm stack := by
  unfold World.closeTick
  dsimp only
  split
  · exact h
  · exact h

theorem Calm.emit (h : world.Calm stack) : (world.emit answers source event).Calm stack :=
  catchUpAll_preserves (Calm stack) (fun _ _ hw ↦ hw.catchUp) _ h.deliver.closeTick

theorem Calm.emitAll (h : world.Calm stack) (emissions : List (SourceId × Event α)) :
    (world.emitAll answers emissions).Calm stack := by
  induction emissions generalizing world with
  | nil => exact h
  | cons emission rest ih => exact ih h.emit

end World

namespace Machine

/-! ### The core arrives there -/

/-- While a user only records, the machine gets on to another one. -/
def Reaches (answers : Nat → List α → β) (m m' : Machine α β) : Prop :=
  ∃ moves, Along (Records answers) moves m ∧ m.run moves = m'

section Reaches

variable {answers : Nat → List α → β} {m m' m'' : Machine α β} {world : World α β}
  {stack : List (Frame α β)} {control : Control α β} {answer : Answer α β} {source : SourceId}
  {event : Event α}

theorem Reaches.refl (m : Machine α β) : Reaches answers m m := ⟨[], trivial, rfl⟩

theorem Reaches.trans (hfirst : Reaches answers m m') (hlast : Reaches answers m' m'') :
    Reaches answers m m'' := by
  obtain ⟨moves, hmoves, rfl⟩ := hfirst
  obtain ⟨rest, hrest, rfl⟩ := hlast
  exact ⟨moves ++ rest, along_append.mpr ⟨hmoves, hrest⟩, run_append moves rest m⟩

theorem Tells.reaches {view : ViewId} {ticket : Nat} {events : List (ViewEvent β)}
    (h : Tells answers view ticket m events m') : Reaches answers m m' := by
  obtain ⟨moves, hmoves, hrun, -⟩ := h
  exact ⟨moves, hmoves, hrun⟩

/-- One step of the core. -/
theorem Reaches.resume
    (h : (⟨world, stack, .returning answer⟩ : Machine α β).resume answer = m') :
    Reaches answers ⟨world, stack, .returning answer⟩ m' :=
  ⟨[.advance], ⟨rfl, trivial⟩, h⟩

/-- Inside a tick, an input hears an event. -/
theorem reaches_hear {view : ViewId} (slot : Nat) (event : Event α) (hcalm : world.Calm stack)
    (htick : world.inTick) :
    Reaches answers ((⟨world, stack, control⟩ : Machine α β).hear view slot event)
      ⟨world.takeIn answers view slot event, stack, .returning .done⟩ := by
  -- whoever listens to another view hears nothing
  have htold : Tells answers (view + 1) 0
      ((⟨world, stack, control⟩ : Machine α β).hear view slot event) []
      ⟨world.takeIn answers view slot event, stack, .returning .done⟩ :=
    tells_hear_of_ne slot event hcalm htick view.succ_ne_self.symm
  exact htold.reaches

/-- A view that was put off composes. -/
theorem reaches_runDeferred {view : ViewId} (hcalm : world.Calm stack) :
    Reaches answers ((⟨world, stack, control⟩ : Machine α β).runDeferred view)
      ⟨world.catchUp answers view, stack, .returning .done⟩ := by
  have htold : Tells answers (view + 1) 0
      ((⟨world, stack, control⟩ : Machine α β).runDeferred view) []
      ⟨world.catchUp answers view, stack, .returning .done⟩ :=
    tells_runDeferred_of_ne hcalm view.succ_ne_self.symm
  exact htold.reaches

/-- A listener hears an event, and then the others do. -/
theorem reaches_tell {ticket : Nat} {tickets : List Nat} (hcalm : world.Calm stack)
    (htick : world.inTick) :
    Reaches answers ⟨world, .delivering source event (ticket :: tickets) :: stack,
        .returning answer⟩
      ⟨world.tell answers source event ticket, .delivering source event tickets :: stack,
        .returning .done⟩ := by
  let left : Machine α β := ⟨world, .delivering source event tickets :: stack, .returning answer⟩
  cases hlistener : world.sourceListener? source ticket with
  | none =>
    simp only [World.tell, hlistener]
    refine .resume ?_
    simp only [Machine.resume, hlistener]
    rfl
  | some listener =>
    cases listener with
    | callback key =>
      simp only [World.tell, hlistener]
      have hcalled : Reaches answers ⟨world, .delivering source event (ticket :: tickets) :: stack,
          .returning answer⟩ (left.call (.sourceEvent key event) (some (.source source, ticket))) :=
        .resume (by simp only [Machine.resume, hlistener, left])
      have hended : Tells answers 0 0 (left.call (.sourceEvent key event) (some (.source source, ticket))) []
          { left with control := .returning .done } :=
        tells_call (by simp)
      exact hcalled.trans hended.reaches
    | input view slot =>
      simp only [World.tell, hlistener]
      have hgiven : Reaches answers ⟨world, .delivering source event (ticket :: tickets) :: stack,
          .returning answer⟩ (left.hear view slot event) :=
        .resume (by simp only [Machine.resume, hlistener, left])
      exact hgiven.trans (reaches_hear slot event (hcalm.push _) htick)

theorem reaches_delivering {tickets : List Nat} (hcalm : world.Calm stack) (htick : world.inTick) :
    Reaches answers ⟨world, .delivering source event tickets :: stack, .returning answer⟩
      ⟨tickets.foldl (World.tell answers source event) world, stack, .returning .done⟩ := by
  induction tickets generalizing world answer with
  | nil => exact .resume rfl
  | cons ticket tickets ih =>
    refine (reaches_tell hcalm htick).trans (ih ?_ ?_)
    · exact World.foldl_tell_preserves (World.Calm stack)
        (fun _ _ slot hw ↦ hw.takeIn slot event) [ticket] hcalm
    · refine World.foldl_tell_preserves (fun w ↦ w.inTick) (fun w view slot hw ↦ ?_) [ticket] htick
      rwa [World.inTick, World.depth_takeIn]

theorem reaches_draining {last : Answer α β} {views : List ViewId} (hcalm : world.Calm stack) :
    Reaches answers ⟨world, .draining views answer :: stack, .returning last⟩
      ⟨world.catchUpAll answers views, stack, .returning answer⟩ := by
  induction views generalizing world last with
  | nil => exact .resume rfl
  | cons view views ih =>
    have hturn : Reaches answers ⟨world, .draining (view :: views) answer :: stack, .returning last⟩
        ((⟨world, .draining views answer :: stack, .returning last⟩ :
          Machine α β).runDeferred view) :=
      .resume rfl
    exact (hturn.trans (reaches_runDeferred (hcalm.push _))).trans (ih hcalm.catchUp)

/-- An emission runs to its end. Assumes: a source that is there, and an event that carries a value
or a failure. -/
theorem reaches_emit (hcalm : world.Calm stack) (hthere : source < world.sources.length)
    (hevent : event ≠ .pending) :
    Reaches answers ((⟨world, stack, control⟩ : Machine α β).emit source event)
      ⟨world.emit answers source event, stack, .returning (.accepted true)⟩ := by
  let delivered := world.deliver answers source event
  have hstart : (⟨world, stack, control⟩ : Machine α β).emit source event =
      ⟨world.showEvent source event, .delivering source event (world.sourceTickets source) ::
        .closing (.accepted true) :: stack, .returning .done⟩ := by
    rw [← World.sourceTickets_showEvent]
    simp only [Machine.emit, List.getElem?_eq_getElem hthere]
    split
    case h_1 => contradiction
    case h_2 => rfl
  have hdelivered : Reaches answers
      ⟨world.showEvent source event, .delivering source event (world.sourceTickets source) ::
        .closing (.accepted true) :: stack, .returning .done⟩
      ⟨delivered, .closing (.accepted true) :: stack, .returning .done⟩ :=
    reaches_delivering (hcalm.showEvent.push _) world.inTick_openTick
  have hclosed : Reaches answers ⟨delivered, .closing (.accepted true) :: stack, .returning .done⟩
      ⟨delivered.closeTick.2, .draining delivered.closeTick.1 (.accepted true) :: stack,
        .returning .done⟩ :=
    .resume rfl
  rw [hstart]
  exact (hdelivered.trans hclosed).trans (reaches_draining hcalm.deliver.closeTick)

end Reaches

end Machine

end LiveRecord.Flow
