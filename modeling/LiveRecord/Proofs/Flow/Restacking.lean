import LiveRecord.Proofs.Flow.Nesting

/-!
# What a move does to the stack

Apart from the ticks that the user opens and closes itself, a move puts frames on the stack, takes
the frame on top away or goes one step further with it (`Machine.Restacks`). Each way says what
becomes of the open ticks and of the events that sources show. That these are all the ways there are
is `Machine.restacks_move`.
-/

set_option autoImplicit false

namespace LiveRecord.Flow

variable {α β : Type}

/-! ### Open ticks and current events -/

/-- The same ticks are open, and the sources show the same events. -/
structure World.Unmoved (world world' : World α β) : Prop where
  depth : world'.depth = world.depth
  current : ∀ source, world'.scene.current source = world.scene.current source

namespace World.Unmoved

variable {world world' world'' : World α β}

theorem refl (world : World α β) : world.Unmoved world := ⟨rfl, fun _ ↦ rfl⟩

theorem trans (hfirst : world.Unmoved world') (hlast : world'.Unmoved world'') :
    world.Unmoved world'' where
  depth := hlast.depth.trans hfirst.depth
  current source := (hlast.current source).trans (hfirst.current source)

theorem of_scene (h : world'.scene = world.scene) : world.Unmoved world' :=
  ⟨congrArg Scene.depth h, fun source ↦ congrArg (Scene.current source) h⟩

theorem modifyView (view : ViewId) (f : View α β → View α β) (world : World α β) :
    world.Unmoved (world.modifyView view f) := ⟨rfl, fun _ ↦ rfl⟩

/-- Assumes: the source shows the same event. -/
theorem modifySource (source : SourceId) {f : Source α → Source α}
    (h : ∀ s, (f s).current = s.current) (world : World α β) :
    world.Unmoved (world.modifySource source f) :=
  ⟨rfl, fun other ↦ @Scene.current_modifySource α world.scene source other f h⟩

theorem registerAtSource (source : SourceId) (listener : Listener) (world : World α β) :
    world.Unmoved (world.registerAtSource source listener) :=
  @modifySource α β source (fun s ↦ { s with listeners := s.listeners.register listener })
    (fun _ ↦ rfl) world

theorem addSource (name : String) (world : World α β) : world.Unmoved (world.addSource name) where
  depth := rfl
  current source := by
    simp only [World.scene, World.addSource, Scene.current]
    by_cases hsource : source < world.sources.length
    · rw [List.getElem?_append_left hsource]
    · rw [List.getElem?_append_right (Nat.le_of_not_lt hsource),
        List.getElem?_eq_none (Nat.le_of_not_lt hsource)]
      cases source - world.sources.length <;> rfl

theorem unregister (target : Target) (ticket : Nat) (world : World α β) :
    world.Unmoved (world.unregister target ticket) := by
  cases target with
  | source source =>
    exact @modifySource α β source (fun s ↦ { s with listeners := s.listeners.remove ticket })
      (fun _ ↦ rfl) world
  | view view => exact modifyView view _ world

theorem disconnect (view : ViewId) (world : World α β) : world.Unmoved (world.disconnect view) := by
  unfold World.disconnect
  cases world.views[view]? with
  | none => exact refl world
  | some v =>
    refine trans ?_ (modifyView view _ _)
    induction v.inputs generalizing world with
    | nil => exact refl world
    | cons input rest ih => exact (unregister (.source input.1) input.2 world).trans (ih _)

theorem dispose (view : ViewId) (world : World α β) : world.Unmoved (world.dispose view) := by
  unfold World.dispose
  split
  · exact refl world
  · split
    · exact refl world
    · exact (disconnect view world).trans (modifyView view _ _)

theorem cancel (handle : Nat) (world : World α β) : world.Unmoved (world.cancel handle) := by
  unfold World.cancel
  split
  · exact (unregister _ _ world).trans ⟨rfl, fun _ ↦ rfl⟩
  · exact refl world

theorem strand (target : Target) (world : World α β) : world.Unmoved (world.strand target) := by
  cases target with
  | source source => exact ⟨rfl, fun _ ↦ rfl⟩
  | view view => exact refl world

theorem unschedule (views : List ViewId) (world : World α β) :
    world.Unmoved (world.unschedule views) := by
  unfold World.unschedule
  induction views generalizing world with
  | nil => exact refl world
  | cons view rest ih => exact (modifyView view _ world).trans (ih _)

end World.Unmoved

theorem World.depth_closeTick (world : World α β) : world.closeTick.2.depth = world.depth - 1 := by
  unfold closeTick
  dsimp only
  split <;> rfl

theorem World.current_closeTick (world : World α β) (source : SourceId) :
    world.closeTick.2.scene.current source = world.scene.current source := by
  unfold closeTick
  dsimp only
  split <;> rfl

/-! ### Kinds of frames -/

namespace Frame

/-- The frame has something to hand over. -/
def hands : Frame α β → Bool
  | subscribing _ _ | building _ | feeding _ => true
  | _ => false

/-- The frame has nothing left to do. -/
def isDone : Frame α β → Bool
  | draining [] _ | delivering _ _ [] | announcing _ _ [] | holding _ => true
  | _ => false

/-- The frame waits for the user. -/
def isCalling : Frame α β → Bool
  | calling _ _ => true
  | _ => false

/-- The frame only waits for the user, or for a tick to end. -/
def isMark (frame : Frame α β) : Bool := frame.isCalling || frame.closes

/-- The frame hands events to inputs as they happen: one of its own, or that of a source to which
it connects a new view. -/
def relays : Frame α β → Bool
  | delivering _ event _ => event.isFailed
  | connecting _ _ => true
  | _ => false

/-- The frame goes through the news of the view when nothing is left to announce. -/
inductive Looks (view : ViewId) : Frame α β → Prop
  | failing : Looks view (failing view [])
  | composing : Looks view (composing view)
  | settling : Looks view (settling view)

/-- The frame that is left when one has gone one step further. -/
inductive Next : Frame α β → Frame α β → Prop
  | draining (view : ViewId) (views : List ViewId) (answer : Answer α β) :
      Next (draining (view :: views) answer) (draining views answer)
  | delivering (source : SourceId) (event : Event α) (ticket : Nat) (tickets : List Nat) :
      Next (delivering source event (ticket :: tickets)) (delivering source event tickets)
  | announcing (view : ViewId) (event : ViewEvent β) (ticket : Nat) (tickets : List Nat) :
      Next (announcing view event (ticket :: tickets)) (announcing view event tickets)
  | connecting (view : ViewId) (input : SourceId × Nat) (inputs : List (SourceId × Nat)) :
      Next (connecting view (input :: inputs)) (connecting view inputs)

end Frame

/-- Assumes: the frame is not among the ones on top. -/
theorem suffix_of_append {γ : Type} {top : γ} {below new stack : List γ}
    (h : top :: below <:+ new ++ stack) (hnew : top ∉ new) : top :: below <:+ stack := by
  induction new with
  | nil => exact h
  | cons first rest ih =>
    rw [List.mem_cons, not_or] at hnew
    rcases List.suffix_cons_iff.mp h with heq | hrest
    · exact absurd (List.cons.inj heq).1 hnew.1
    · exact ih hrest hnew.2

/-! ### Marks on the stack -/

section Marks

variable {counts : Frame α β → Bool} {frame : Frame α β} {below new : List (Frame α β)}

theorem countP_cons_of_not_mark (hcounts : ∀ frame, counts frame → frame.isMark)
    (hmark : frame.isMark = false) : (frame :: below).countP counts = below.countP counts :=
  List.countP_cons_of_neg fun h ↦ by simp [hcounts frame h] at hmark

theorem countP_append_hands (hcounts : ∀ frame, counts frame → frame.isMark)
    (hhands : ∀ frame ∈ new, frame.hands) : (new ++ below).countP counts = below.countP counts := by
  induction new with
  | nil => rfl
  | cons frame rest ih =>
    have hframe := hhands frame List.mem_cons_self
    have hmark : frame.isMark = false := by
      cases frame with
      | subscribing _ _ | building _ | feeding _ => rfl
      | _ => simp [Frame.hands] at hframe
    rw [List.cons_append, countP_cons_of_not_mark hcounts hmark]
    exact ih fun other hother ↦ hhands other (List.mem_cons_of_mem _ hother)

theorem Frame.Next.isMark {next : Frame α β} (h : frame.Next next) :
    frame.isMark = false ∧ next.isMark = false := by
  cases h <;> exact ⟨rfl, rfl⟩

end Marks

/-! ### Ways to change the stack -/

/-- A view begins to go through its news while a frame goes on only when what was deferred is run,
no tick is open, or an input has heard a failure. -/
def World.Begins (frame : Frame α β) (view : ViewId) (world : World α β) : Prop :=
  (∃ views answer, frame = .draining views answer) ∨ world.depth = 0 ∨
    frame.relays ∧ ∃ v, world.views[view]? = some v ∧ v.allLoaded = false

/-- What a frame puts on top of itself when it goes one step further. -/
inductive Frame.Starts (frame : Frame α β) (world : World α β) : List (Frame α β) → Prop
  | nothing : Starts frame world []
  | call (call : Call α β) (turn : Option (Target × Nat)) : Starts frame world [calling call turn]
  | work {view : ViewId} {new : List (Frame α β)} (hnew : WorkFrames view new)
      (hbegins : new ≠ [] → world.Begins frame view) : Starts frame world (new ++ [holding view])

def Notice.accepted? : Notice α β → Option (SourceId × Event α)
  | accepted source event => some (source, event)
  | ofView _ _ => none

/-- What a history says was accepted. -/
def acceptedIn (history : List (Notice α β)) : List (SourceId × Event α) :=
  history.filterMap (·.accepted?)

namespace Machine

/-- The user opens a tick. -/
def opens (m : Machine α β) : Move α β → Bool
  | .request .enterTick => m.hasUser
  | _ => false

/-- The user closes a tick, or abandons it. -/
def closes (m : Machine α β) : Move α β → Bool
  | .request .leaveTick | .request .abandonTick => m.hasUser
  | _ => false

/-- What a move does to the stack and to what sources show, and what they accept. The user opens
and closes no tick itself. -/
inductive Restacks (m : Machine α β) : List (SourceId × Event α) → Machine α β → Prop
  | swap {m' : Machine α β} {gone kept below : List (Frame α β)}
      (hgone : ∀ frame ∈ gone, frame.hands) (hkept : ∀ frame ∈ kept, frame.hands)
      (hstack : m.stack = gone ++ below) (hstack' : m'.stack = kept ++ below)
      (hunmoved : m.world.Unmoved m'.world) : Restacks m [] m'
  | call {m' : Machine α β} {call : Call α β} {turn : Option (Target × Nat)}
      {kept : List (Frame α β)}
      (hkept : ∀ frame ∈ kept, frame.hands)
      (hstack' : m'.stack = .calling call turn :: (kept ++ m.stack))
      (hunmoved : m.world.Unmoved m'.world) : Restacks m [] m'
  | ended {m' : Machine α β} {call : Call α β} {turn : Option (Target × Nat)}
      (hstack : m.stack = .calling call turn :: m'.stack) (hworld : m'.world = m.world) : Restacks m [] m'
  | emit {m' : Machine α β} {source : SourceId} {event : Event α} {answer : Answer α β}
      {gone kept below : List (Frame α β)}
      (hthere : ∃ s, m.world.sources[source]? = some s)
      (hgone : ∀ frame ∈ gone, frame.hands) (hkept : ∀ frame ∈ kept, frame.hands)
      (hstack : m.stack = gone ++ below)
      (hstack' : m'.stack =
        .delivering source event (m.world.sourceTickets source) :: .closing answer :: (kept ++ below))
      (hworld : m'.world = publish source event m.world) : Restacks m [(source, event)] m'
  | build {m' : Machine α β} {inputs : List (SourceId × Nat)}
      (hstack' : m'.stack = .connecting m.world.views.length inputs :: .closing .done ::
        .building m.world.views.length :: m.stack)
      (hunmoved : m.world.openTick.Unmoved m'.world) : Restacks m [] m'
  | close {m' : Machine α β} {answer : Answer α β} {views : List ViewId} {below : List (Frame α β)}
      (hstack : m.stack = .closing answer :: below)
      (hstack' : m'.stack = .draining views answer :: below)
      (hviews : views = [] ∨ m'.world.depth = 0)
      (hunmoved : m.world.closeTick.2.Unmoved m'.world) : Restacks m [] m'
  | abandoned {m' : Machine α β} {answer : Answer α β} (hunwinding : m.isUnwinding)
      (hstack : m.stack = .closing answer :: m'.stack)
      (hunmoved : m.world.closeTick.2.Unmoved m'.world) : Restacks m [] m'
  | drop {m' : Machine α β} {frame : Frame α β} (hstack : m.stack = frame :: m'.stack)
      (hmark : frame.isMark = false) (hdone : m.isUnwinding ∨ frame.isDone)
      (hunmoved : m.world.Unmoved m'.world) : Restacks m [] m'
  | proceed {m' : Machine α β} {frame next : Frame α β} {above below : List (Frame α β)}
      (hnext : frame.Next next) (hstack : m.stack = frame :: below)
      (hstack' : m'.stack = above ++ next :: below) (habove : frame.Starts m'.world above)
      (hunmoved : m.world.Unmoved m'.world) : Restacks m [] m'
  | fail {m' : Machine α β} {view : ViewId} {error : SourceError} {errors : List SourceError}
      {tickets : List Nat} {below : List (Frame α β)}
      (hstack : m.stack = .failing view (error :: errors) :: below)
      (hstack' : m'.stack = .announcing view (.failed error) tickets :: .failing view errors :: below)
      (hunmoved : m.world.Unmoved m'.world) : Restacks m [] m'
  | work {m' : Machine α β} {view : ViewId} {frame : Frame α β} {new below : List (Frame α β)}
      (hframe : frame.Looks view) (hnew : WorkFrames view new) (hstack : m.stack = frame :: below)
      (hstack' : m'.stack = new ++ below) (hunmoved : m.world.Unmoved m'.world) : Restacks m [] m'
  | connected {m' : Machine α β} {view : ViewId} {new below : List (Frame α β)}
      (hnew : WorkFrames view new) (hbegins : new ≠ [] → m.world.depth = 0)
      (hstack : m.stack = .connecting view [] :: below) (hstack' : m'.stack = new ++ below)
      (hunmoved : m.world.Unmoved m'.world) : Restacks m [] m'

variable {m m' : Machine α β} {view : ViewId}

/-- Nothing happens to the stack. -/
theorem Restacks.stay (hstack : m'.stack = m.stack) (hunmoved : m.world.Unmoved m'.world) :
    m.Restacks [] m' :=
  .swap (List.forall_mem_nil _) (List.forall_mem_nil _) rfl hstack hunmoved

/-- A frame that has something to hand over is taken away. -/
theorem Restacks.hand {frame : Frame α β} (hframe : frame.hands)
    (hstack : m.stack = frame :: m'.stack) (hunmoved : m.world.Unmoved m'.world) : m.Restacks [] m' :=
  .swap (List.forall_mem_singleton.mpr hframe) (List.forall_mem_nil _) hstack rfl hunmoved

/-! ### The operations of the core -/

theorem unmoved_flush (view : ViewId) (m : Machine α β) : m.world.Unmoved (m.flush view).world :=
  .of_scene (works_flush view m).scene

theorem unmoved_settle (view : ViewId) (m : Machine α β) : m.world.Unmoved (m.settle view).world :=
  .of_scene (works_settle view m).scene

theorem unmoved_composeIfDue (view : ViewId) (m : Machine α β) :
    m.world.Unmoved (m.composeIfDue view).world :=
  .of_scene ((composeIfDue_spec view m).elim (·.scene) (·.2.1))

theorem unmoved_release (view : ViewId) (m : Machine α β) :
    m.world.Unmoved (m.release view).world := by
  unfold release
  split
  · split
    · exact .refl _
    · exact (World.Unmoved.disconnect view m.world).trans (.modifyView view _ _)
  · exact .refl _

theorem unmoved_dropView (view : ViewId) (m : Machine α β) :
    m.world.Unmoved (m.dropView view).world :=
  (World.Unmoved.modifyView view (fun v ↦ { v with owned := false }) m.world).trans
    (unmoved_release view (m.withWorld (.modifyView view fun v ↦ { v with owned := false })))

theorem unmoved_serve_cancel (handle : Nat) (owned : Belongings) (m : Machine α β) :
    m.world.Unmoved (m.serve (.cancel handle owned)).world :=
  serve_cancel_induction (motive := fun m' ↦ m.world.Unmoved m'.world)
    (fun m' handle h ↦ h.trans (.cancel handle m'.world))
    (fun m' target h ↦ h.trans (.strand target m'.world))
    (fun m' view h ↦ h.trans (unmoved_dropView view m')) handle owned (.refl _)

/-- A view that is asked to compose begins only when no tick is open. -/
theorem restacks_requestCompose (view : ViewId) (m : Machine α β) :
    m.world.Unmoved (m.requestCompose view).world ∧ ∃ new, WorkFrames view new ∧
      (m.requestCompose view).stack = new ++ m.stack ∧ (new ≠ [] → m.world.depth = 0) := by
  by_cases htick : m.world.inTick
  · obtain ⟨hscene, -, hstack⟩ := requestCompose_spec view htick
    exact ⟨.of_scene hscene, [], .none, hstack, fun hnew ↦ absurd rfl hnew⟩
  · have hdepth : m.world.depth = 0 := by simpa [World.inTick] using htick
    unfold requestCompose
    split
    · exact ⟨.refl _, [], .none, rfl, fun hnew ↦ absurd rfl hnew⟩
    · obtain ⟨new, hnew, hstack⟩ := flush_stack view m
      rw [if_pos (by simpa using htick)]
      exact ⟨unmoved_flush view m, new, hnew, hstack, fun _ ↦ hdepth⟩

/-- What is left of a failure: the input that heard it is not loaded. -/
theorem allLoaded_absorb_failed {slot : Nat} {v : View α β} (error : SourceError)
    (hslot : slot < v.slots.length) (hdisposed : v.disposed = false) :
    (v.absorb slot (.failed error)).allLoaded = false := by
  rw [View.absorb_failed error hdisposed]
  exact View.all_modify_hear hslot rfl

theorem restacks_hear {slot : Nat} (event : Event α) (hnamed : m.world.Names (.input view slot)) :
    m.world.Unmoved (m.hear view slot event).world ∧
      ((m.hear view slot event).stack = m.stack ∨ ∃ new, WorkFrames view new ∧
        (m.hear view slot event).stack = new ++ .holding view :: m.stack ∧
        (new ≠ [] → m.world.depth = 0 ∨ event.isFailed ∧
          ∃ v, (m.hear view slot event).world.views[view]? = some v ∧ v.allLoaded = false)) := by
  obtain ⟨v, hview, hslot⟩ := hnamed
  let absorbed : Machine α β :=
    (m.push (.holding view)).withWorld (.modifyView view (.absorb slot event))
  have habsorbed : m.world.Unmoved absorbed.world := .modifyView view _ _
  have hhears := m.hears view slot event
  generalize m.hear view slot event = m' at hhears ⊢
  cases hhears with
  | deaf => exact ⟨.refl _, .inl rfl⟩
  | lent => exact ⟨.refl _, .inr ⟨[], .none, rfl, fun hnew ↦ absurd rfl hnew⟩⟩
  | quiet => exact ⟨habsorbed, .inr ⟨[], .none, rfl, fun hnew ↦ absurd rfl hnew⟩⟩
  | loaded =>
    obtain ⟨hunmoved, new, hnew, hstack, hdepth⟩ := restacks_requestCompose view absorbed
    exact ⟨habsorbed.trans hunmoved, .inr ⟨new, hnew, hstack, fun h ↦ .inl (hdepth h)⟩⟩
  | @failed w error hfound hdisposed hevent =>
    subst hevent
    obtain ⟨hw, -⟩ := Option.filter_eq_some_iff.mp hfound
    obtain rfl := Option.some.inj (hview.symm.trans hw)
    obtain ⟨new, hnew, hstack⟩ := flush_stack view absorbed
    refine ⟨habsorbed.trans (unmoved_flush view _), .inr ⟨new, hnew, hstack, fun _ ↦ ?_⟩⟩
    have hheard : absorbed.world.views[view]? = some (v.absorb slot (.failed error)) := by
      simp [absorbed, withWorld, push, World.modifyView, hview]
    obtain ⟨w, hw, houtline⟩ := World.exists_of_scene
      ((works_flush view absorbed).scene ▸ World.getElem?_scene hheard)
    have hunloaded := allLoaded_absorb_failed error hslot hdisposed
    refine .inr ⟨rfl, w, hw, ?_⟩
    rwa [View.allLoaded, show w.slots = (v.absorb slot (.failed error)).slots from
      congrArg Outline.slots houtline]

theorem sourceTickets_publish (source other : SourceId) (event : Event α) (world : World α β) :
    (publish source event world).sourceTickets other = world.sourceTickets other := by
  simp only [World.sourceTickets, publish, World.openTick, World.modifySource,
    List.getElem?_modify]
  cases world.sources[other]? with
  | none => rfl
  | some s => by_cases hother : source = other <;> simp [hother]

/-- An emission begins with frames that were put on the stack for it. -/
theorem restacks_emit {base : Machine α β} {gone kept below : List (Frame α β)}
    (source : SourceId) (event : Event α) (hgone : ∀ frame ∈ gone, frame.hands)
    (hkept : ∀ frame ∈ kept, frame.hands) (hbase : base.stack = gone ++ below)
    (hstack : m.stack = kept ++ below) (hworld : m.world = base.world) :
    base.Restacks (acceptedIn (m.emitNotices source event)) (m.emit source event) := by
  have hrefused : base.Restacks [] (m.returning (.accepted false)) :=
    .swap hgone hkept hbase hstack (hworld ▸ .refl _)
  have haccepted : (∃ s, m.world.sources[source]? = some s) → base.Restacks [(source, event)]
      ((((m.withWorld (publish source event)).push (.closing (.accepted true))).push
        (.delivering source event
          ((publish source event m.world).sourceTickets source))).returning .done) := by
    intro hthere
    rw [hworld] at hthere
    rw [sourceTickets_publish, hworld]
    refine @Restacks.emit α β base _ source event (.accepted true) gone kept below hthere hgone hkept
      hbase ?_ (congrArg (publish source event) hworld)
    exact congrArg (fun stack ↦ _ :: _ :: stack) hstack
  cases hs : m.world.sources[source]? with
  | none =>
    simp only [emitNotices, emit, hs]
    exact .swap hgone hkept hbase hstack (hworld ▸ .refl _)
  | some s =>
    cases event with
    | pending =>
      cases hcurrent : s.current with
      | loaded value =>
        simp only [emitNotices, emit, hs, hcurrent]
        exact hrefused
      | _ =>
        simp only [emitNotices, emit, hs, hcurrent]
        exact haccepted ⟨s, hs⟩
    | _ =>
      simp only [emitNotices, emit, hs]
      exact haccepted ⟨s, hs⟩

theorem restacks_feed {base : Machine α β} {gone below : List (Frame α β)} (feed : Feed α)
    (hgone : ∀ frame ∈ gone, frame.hands) (hbase : base.stack = gone ++ below)
    (hstack : m.stack = below) (hworld : m.world = base.world) :
    base.Restacks (acceptedIn (m.feedNotices feed)) (m.feed feed) := by
  cases hnext : feed.next with
  | stop progress =>
    simp only [feedNotices, Machine.feed, hnext]
    exact .swap hgone (List.forall_mem_nil _) hbase hstack (hworld ▸ .refl _)
  | emit event rest =>
    simp only [feedNotices, Machine.feed, hnext]
    exact @restacks_emit α β (m.push (.feeding rest)) base gone [.feeding rest] below feed.source
      event hgone (by simp [Frame.hands]) hbase (congrArg (_ :: ·) hstack) hworld

theorem restacks_subscribe (target : Target) (key : Nat) (m : Machine α β) :
    m.Restacks [] (m.subscribe target key) := by
  have hsubscribing : ∀ ticket, ∀ frame ∈ [(.subscribing target ticket : Frame α β)],
      frame.hands := by simp [Frame.hands]
  have hsubscribes := m.subscribes target key
  generalize m.subscribe target key = m' at hsubscribes ⊢
  cases hsubscribes with
  | unknown => exact .stay rfl (.refl _)
  | @source source s =>
    refine .call (hsubscribing s.listeners.next) rfl ?_
    exact .registerAtSource source (.callback key) m.world
  | @silent view v =>
    exact .swap (List.forall_mem_nil _) (hsubscribing v.listeners.next) rfl rfl
      (.modifyView view _ _)
  | @view view v => exact .call (hsubscribing v.listeners.next) rfl (.modifyView view _ _)

theorem restacks_build (sources : List SourceId) (composer : Composer α β) (m : Machine α β) :
    m.Restacks [] (m.build sources composer) := by
  unfold build
  split
  · exact .stay rfl (.refl _)
  · exact .build rfl ⟨rfl, fun _ ↦ rfl⟩

/-- Assumes: a request that opens and closes no tick. -/
theorem restacks_serve (request : Request α β) (huser : m.hasUser)
    (hopens : m.opens (.request request) = false) (hcloses : m.closes (.request request) = false) :
    m.Restacks (acceptedIn (m.requestNotices request)) (m.serve request) := by
  cases request with
  | newSource name => exact .stay rfl (.addSource name m.world)
  | emit source event =>
    exact restacks_emit source event (List.forall_mem_nil _) (List.forall_mem_nil _) rfl rfl rfl
  | build sources composer => exact restacks_build sources composer m
  | subscribe target key =>
    have hnone : acceptedIn (m.requestNotices (.subscribe target key)) = [] := by
      cases target with
      | source source => rfl
      | view view =>
        simp only [requestNotices]
        split
        · rfl
        · rename_i v _
          cases v.status <;> rfl
    rw [hnone]
    exact restacks_subscribe target key m
  | cancel handle owned =>
    exact .stay (serve_cancel_stack handle owned m) (unmoved_serve_cancel handle owned m)
  | detach handle => exact .stay rfl ⟨rfl, fun _ ↦ rfl⟩
  | dispose view => exact .stay rfl (.dispose view m.world)
  | dropView view =>
    exact .stay (dropView_stack view m) (unmoved_dropView view m)
  | enterTick => simp [opens, huser] at hopens
  | leaveTick => simp [closes, huser] at hcloses
  | abandonTick => simp [closes, huser] at hcloses
  | poll feed => exact restacks_feed feed (List.forall_mem_nil _) rfl rfl rfl
  | finish | compose value | raise message =>
    exact serve_of_ends (motive := m.Restacks []) rfl (.stay rfl (.refl _))
      fun call turn below control hstack _ ↦ .ended hstack rfl

/-! ### Steps of the core -/

/-- A frame goes one step further, and an input hears an event. -/
theorem restacks_relay {frame next : Frame α β} {below : List (Frame α β)} {slot : Nat}
    {event : Event α} (hnext : frame.Next next) (hstack : m.stack = frame :: below)
    (hunmoved : m.world.Unmoved m'.world) (hstack' : m'.stack = next :: below)
    (hnamed : m'.world.Names (.input view slot)) (hrelays : event.isFailed → frame.relays) :
    m.Restacks [] (m'.hear view slot event) := by
  obtain ⟨hheard, hsame | ⟨new, hnew, hwork, hbegins⟩⟩ := restacks_hear event hnamed
  · exact .proceed hnext hstack (hsame.trans hstack') .nothing (hunmoved.trans hheard)
  · refine .proceed hnext hstack ?_ (.work hnew fun h ↦ ?_) (hunmoved.trans hheard)
    · rw [hwork, hstack', List.append_assoc]
      rfl
    · rcases hbegins h with hdepth | ⟨hfailed, hview⟩
      · exact .inr (.inl (hheard.depth.trans hdepth))
      · exact .inr (.inr ⟨hrelays hfailed, hview⟩)

theorem acceptedIn_hearNotices (view : ViewId) (slot : Nat) (event : Event α) (m : Machine α β) :
    acceptedIn (m.hearNotices view slot event) = [] := by
  unfold hearNotices
  split
  · rfl
  · split <;> rfl

theorem acceptedIn_composeNotices (view : ViewId) (m : Machine α β) :
    acceptedIn (m.composeNotices view) = [] := by
  unfold composeNotices
  split
  · rfl
  · split
    · split <;> rfl
    · rfl

/-- A frame is taken away, and then its view may be let go. -/
theorem restacks_release {frame : Frame α β} (left : Machine α β) (view : ViewId)
    (hstack : m.stack = frame :: left.stack) (hunmoved : m.world.Unmoved left.world)
    (hgone : frame.hands ∨ frame.isMark = false ∧ (m.isUnwinding ∨ frame.isDone))
    (hstack' : m'.stack = (left.release view).stack)
    (hworld : m'.world = (left.release view).world) : m.Restacks [] m' := by
  have hunmoved' : m.world.Unmoved m'.world := hworld ▸ hunmoved.trans (unmoved_release view left)
  have hleft : m.stack = frame :: m'.stack := by rw [hstack', release_stack, hstack]
  rcases hgone with hhands | ⟨hmark, hdone⟩
  · exact .hand hhands hleft hunmoved'
  · exact .drop hleft hmark hdone hunmoved'

theorem restacks_runDeferred {view : ViewId} {views : List ViewId} {answer : Answer α β}
    {below : List (Frame α β)} (hstack : m.stack = .draining (view :: views) answer :: below) :
    m.Restacks []
      (({ m with stack := .draining views answer :: below } : Machine α β).runDeferred view) := by
  unfold runDeferred
  split
  · exact .proceed (.draining view views answer) hstack rfl .nothing (.refl _)
  · let begun : Machine α β := (({ m with stack := .draining views answer :: below }.push
      (.holding view)).withWorld (.modifyView view fun v ↦ { v with scheduled := false }))
    obtain ⟨new, hnew, hwork⟩ := flush_stack view begun
    refine .proceed (.draining view views answer) hstack ?_
      (.work hnew fun _ ↦ .inl ⟨_, _, rfl⟩) ?_
    · rw [List.append_assoc]
      exact hwork
    · exact (World.Unmoved.modifyView view _ m.world).trans (unmoved_flush view begun)

theorem restacks_connect {view : ViewId} {input : SourceId × Nat} {inputs : List (SourceId × Nat)}
    {below : List (Frame α β)} (hwired : m.Wired)
    (hstack : m.stack = .connecting view (input :: inputs) :: below) :
    m.Restacks [] (({ m with stack := .connecting view inputs :: below } : Machine α β).connect view
      input.1 input.2) := by
  obtain ⟨source, slot⟩ := input
  unfold connect
  split
  · exact .proceed (.connecting view (source, slot) inputs) hstack rfl .nothing (.refl _)
  · rename_i s _
    obtain ⟨v, hview, hslot⟩ := hwired.names_of_connecting hstack
    refine restacks_relay (.connecting view (source, slot) inputs) hstack ?_ rfl ?_ fun _ ↦ rfl
    · exact (World.Unmoved.registerAtSource source (.input view slot) m.world).trans
        (.modifyView view _ _)
    · refine ⟨{ v with inputs := v.inputs ++ [(source, s.listeners.next)] }, ?_, hslot⟩
      simp [withWorld, World.modifyView, World.registerAtSource, World.modifySource, hview]

/-- Without a feed on top of the stack, a step of the core accepts nothing. -/
theorem acceptedIn_resumeNotices (answer : Answer α β)
    (htop : ∀ rest below, m.stack ≠ .feeding rest :: below) :
    acceptedIn (m.resumeNotices answer) = [] := by
  unfold resumeNotices
  split
  · split
    · exact acceptedIn_hearNotices _ _ _ _
    · rfl
  · split <;> rfl
  · exact acceptedIn_composeNotices _ _
  · split <;> rfl
  · split
    · rfl
    · exact acceptedIn_hearNotices _ _ _ _
  · rename_i hfed
    exact absurd hfed (htop _ _)
  · rfl

theorem restacks_feeding {rest : Feed α} {below : List (Frame α β)} (answer : Answer α β)
    (hstack : m.stack = .feeding rest :: below) :
    m.Restacks (acceptedIn (m.resumeNotices answer)) (m.resume answer) := by
  have hgone : ∀ frame ∈ [(.feeding rest : Frame α β)], frame.hands := by simp [Frame.hands]
  cases answer with
  | accepted accepted =>
    cases hnoted : rest.note accepted with
    | inl result =>
      simp only [resume, resumeNotices, hstack, hnoted]
      exact .hand rfl hstack (.refl _)
    | inr rest' =>
      simp only [resume, resumeNotices, hstack, hnoted]
      exact @restacks_feed α β { m with stack := below } m _ below rest' hgone hstack rfl rfl
  | _ =>
    simp only [resume, resumeNotices, hstack]
    exact @restacks_feed α β { m with stack := below } m _ below rest hgone hstack rfl rfl

theorem restacks_resume (answer : Answer α β) (hwired : m.Wired) :
    m.Restacks (acceptedIn (m.resumeNotices answer)) (m.resume answer) := by
  by_cases hfeeding : ∃ rest below, m.stack = .feeding rest :: below
  · obtain ⟨rest, below, hstack⟩ := hfeeding
    exact restacks_feeding answer hstack
  rw [acceptedIn_resumeNotices answer fun rest below hstack ↦ hfeeding ⟨rest, below, hstack⟩]
  have hresumes := m.resumes answer
  generalize m.resume answer = m' at hresumes ⊢
  cases hresumes with
  | rest | calling => exact .stay rfl (.refl _)
  | @closing result below hstack =>
    obtain ⟨views, hviews, hscene, hdraining⟩ := closeTick_spec result { m with stack := below }
    refine .close hstack hdraining (hviews.imp_right fun hlast ↦ ?_) (.refl _)
    exact (congrArg Scene.depth hscene).trans hlast
  | drain hstack => exact restacks_runDeferred hstack
  | drained hstack | delivered hstack | announced hstack =>
    exact .drop hstack rfl (.inr rfl) (.refl _)
  | skipDelivery hstack => exact .proceed (.delivering _ _ _ _) hstack rfl .nothing (.refl _)
  | callListener hstack => exact .proceed (.delivering _ _ _ _) hstack rfl (.call _ _) (.refl _)
  | hear hstack hlistener =>
    exact restacks_relay (.delivering _ _ _ _) hstack (.refl _) rfl
      (hwired.names_of_sourceListener? hlistener) id
  | skipAnnouncement hstack => exact .proceed (.announcing _ _ _ _) hstack rfl .nothing (.refl _)
  | callViewer hstack => exact .proceed (.announcing _ _ _ _) hstack rfl (.call _ _) (.refl _)
  | fail hstack => exact .fail hstack rfl (.refl _)
  | @compose view below hstack =>
    obtain ⟨new, hnew, hwork⟩ := composeIfDue_stack view { m with stack := below }
    exact .work .failing hnew hstack hwork (unmoved_composeIfDue view { m with stack := below })
  | composed hstack =>
    exact .work .composing (.ready _ _) hstack rfl
      ((World.Unmoved.modifyView _ _ _).trans (.modifyView _ _ _))
  | @notComposed view below hstack =>
    let returned : Machine α β :=
      { m with stack := below }.withWorld (.modifyView view fun v ↦ { v with lent := false })
    have hreturned : m.world.Unmoved returned.world := .modifyView view _ _
    obtain ⟨new, hnew, hwork⟩ := settle_stack view returned
    exact .work .composing hnew hstack hwork (hreturned.trans (unmoved_settle view returned))
  | @settle view below hstack =>
    obtain ⟨new, hnew, hwork⟩ := settle_stack view { m with stack := below }
    exact .work .settling hnew hstack hwork (unmoved_settle view { m with stack := below })
  | @release view below hstack =>
    exact restacks_release { m with stack := below } view hstack (.refl _) (.inr ⟨rfl, .inr rfl⟩)
      rfl rfl
  | subscribed hstack => exact .hand rfl hstack ⟨rfl, fun _ ↦ rfl⟩
  | @subscribedView view ticket below hstack =>
    let left : Machine α β := { m with stack := below }.withWorld (.addHandle (.view view) ticket)
    exact restacks_release left view hstack ⟨rfl, fun _ ↦ rfl⟩ (.inl rfl) rfl rfl
  | connect hstack => exact restacks_connect hwired hstack
  | @connected view below hstack =>
    obtain ⟨hunmoved, new, hnew, hwork, hbegins⟩ :=
      restacks_requestCompose view { m with stack := below }
    exact .connected hnew hbegins hstack hwork hunmoved
  | @built view below hstack => exact .hand rfl hstack (.modifyView view _ _)
  | @fed rest accepted result below hstack => exact absurd ⟨rest, below, hstack⟩ hfeeding
  | @feed rest rest' below hstack => exact absurd ⟨rest, below, hstack⟩ hfeeding

theorem restacks_giveUp (message : String) (hunwinding : m.isUnwinding) :
    m.Restacks [] (m.giveUp message) := by
  have hgivesUp := m.givesUp message
  generalize m.giveUp message = m' at hgivesUp ⊢
  cases hgivesUp with
  | rest | calling => exact .stay rfl (.refl _)
  | closing hstack => exact .abandoned hunwinding hstack (.unschedule _ _)
  | draining hstack => exact .drop hstack rfl (.inl hunwinding) (.unschedule _ _)
  | composing hstack => exact .drop hstack rfl (.inl hunwinding) (.modifyView _ _ _)
  | @holding view below hstack =>
    exact restacks_release { m with stack := below } view hstack (.refl _)
      (.inr ⟨rfl, .inl hunwinding⟩) rfl rfl
  | @building view below hstack =>
    exact restacks_release { m with stack := below } view hstack (.refl _) (.inl rfl) rfl rfl
  | @subscribing source ticket below hstack =>
    exact .hand rfl hstack (.unregister (.source source) ticket m.world)
  | @subscribingView view ticket below hstack =>
    let left : Machine α β := { m with stack := below }.withWorld (.unregister (.view view) ticket)
    exact restacks_release left view hstack (.unregister (.view view) ticket m.world) (.inl rfl)
      rfl rfl
  | @pop frame below hstack hframe =>
    cases frame with
    | feeding rest => exact .hand rfl hstack (.refl _)
    | delivering _ _ _ | announcing _ _ _ | failing _ _ | settling _ | connecting _ _ =>
      exact .drop hstack rfl (.inl hunwinding) (.refl _)
    | _ => cases hframe

/-- These are all the ways to change the stack. Assumes: the user opens and closes no tick. -/
theorem restacks_move (move : Move α β) (hwired : m.Wired)
    (hticks : ¬(m.opens move ∨ m.closes move)) :
    m.Restacks (acceptedIn (m.notices move)) (m.move move) := by
  rw [not_or, Bool.not_eq_true, Bool.not_eq_true] at hticks
  cases move with
  | advance =>
    simp only [Machine.move, advance, notices]
    cases hcontrol : m.control with
    | user heard => exact .stay rfl (.refl _)
    | returning answer => exact restacks_resume answer hwired
    | unwinding message => exact restacks_giveUp message (by simp [isUnwinding, hcontrol])
  | request request =>
    by_cases huser : m.hasUser
    · rw [notices_request huser]
      simp only [Machine.move, submit_eq_serve huser]
      exact restacks_serve request huser hticks.1 hticks.2
    · simp only [Machine.move, submit, notices]
      cases hcontrol : m.control with
      | user heard => simp [hasUser, hcontrol] at huser
      | _ => exact .stay rfl (.refl _)

/-- The user opens or closes a tick, which concerns no frame and no source. -/
theorem ticks_move {move : Move α β} (h : m.opens move ∨ m.closes move) :
    m.notices move = [] ∧
      (∀ source, (m.move move).world.scene.current source = m.world.scene.current source) ∧
      ((m.move move).stack = m.stack ∨
        ∃ views, (m.move move).stack = .draining views .done :: m.stack) := by
  cases move with
  | advance => simp [opens, closes] at h
  | request request =>
    cases request with
    | enterTick =>
      have huser : m.hasUser := by simpa [opens, closes] using h
      rw [notices_request huser, Machine.move, submit_eq_serve huser]
      exact ⟨rfl, fun _ ↦ rfl, .inl rfl⟩
    | leaveTick =>
      have huser : m.hasUser := by simpa [opens, closes] using h
      rw [notices_request huser, Machine.move, submit_eq_serve huser]
      obtain ⟨views, -, hscene, hstack⟩ := closeTick_spec .done m
      refine ⟨rfl, fun source ↦ ?_, .inr ⟨views, hstack⟩⟩
      exact (congrArg (Scene.current source) hscene).trans rfl
    | abandonTick =>
      have huser : m.hasUser := by simpa [opens, closes] using h
      rw [notices_request huser, Machine.move, submit_eq_serve huser]
      refine ⟨rfl, fun source ↦ ?_, .inl rfl⟩
      exact ((World.Unmoved.unschedule _ _).current source).trans
        (World.current_closeTick m.world source)
    | _ => simp [opens, closes] at h

/-- The user opens or closes the innermost tick. -/
theorem depth_of_ticks {move : Move α β} (h : m.opens move ∨ m.closes move) :
    (m.move move).world.depth =
      m.world.depth + (m.opens move).toNat - (m.closes move).toNat := by
  cases move with
  | advance => simp [opens, closes] at h
  | request request =>
    cases request with
    | enterTick =>
      have huser : m.hasUser := by simpa [opens, closes] using h
      rw [Machine.move, submit_eq_serve huser, opens, huser]
      rfl
    | leaveTick =>
      have huser : m.hasUser := by simpa [opens, closes] using h
      rw [Machine.move, submit_eq_serve huser, closes, huser]
      exact m.world.depth_closeTick
    | abandonTick =>
      have huser : m.hasUser := by simpa [opens, closes] using h
      rw [Machine.move, submit_eq_serve huser, closes, huser]
      exact ((World.Unmoved.unschedule _ _).depth).trans m.world.depth_closeTick
    | _ => simp [opens, closes] at h

/-! ### Where the user has control -/

/-- The user has control only where it is called or nothing is under way. -/
def Seated (m : Machine α β) : Prop :=
  m.hasUser → m.stack = [] ∨ ∃ call turn below, m.stack = .calling call turn :: below

theorem Poised.seated (h : m.Poised) : m.Seated := by
  intro huser
  obtain ⟨heard, hcontrol⟩ := exists_heard huser
  simpa only [Poised, hcontrol] using h

theorem Seated.of_busy (h : m.hasUser = false) : m.Seated :=
  fun huser ↦ absurd (huser.symm.trans h) (by simp)

theorem seated_requestCompose (view : ViewId) (m : Machine α β) :
    (m.requestCompose view).Seated := by
  unfold requestCompose
  split
  · exact .of_busy rfl
  · split
    · exact (works_flush view m).poised.seated
    · split <;> exact .of_busy rfl

theorem seated_hear (view : ViewId) (slot : Nat) (event : Event α) (m : Machine α β) :
    (m.hear view slot event).Seated := by
  have hhears := m.hears view slot event
  generalize m.hear view slot event = m' at hhears ⊢
  cases hhears with
  | deaf | lent | quiet => exact .of_busy rfl
  | loaded => exact seated_requestCompose view _
  | failed => exact (works_flush view _).poised.seated

theorem seated_feed (feed : Feed α) (m : Machine α β) : (m.feed feed).Seated := by
  unfold Machine.feed
  split
  · exact .of_busy rfl
  · exact (emit_spec _ _ _).1.seated

theorem seated_serve (request : Request α β) (h : m.Seated) : (m.serve request).Seated := by
  cases request with
  | emit source event => exact (emit_spec source event m).1.seated
  | build sources composer =>
    simp only [serve, build]
    split <;> exact .of_busy rfl
  | subscribe target key =>
    have hsubscribes := m.subscribes target key
    show (m.subscribe target key).Seated
    generalize m.subscribe target key = m' at hsubscribes ⊢
    cases hsubscribes with
    | unknown | silent => exact .of_busy rfl
    | source | view => exact fun _ ↦ .inr ⟨_, _, _, rfl⟩
  | poll feed => exact seated_feed feed m
  | finish | compose value | raise message =>
    refine serve_of_ends (motive := Seated) rfl h fun call turn below control _ hbusy ↦ ?_
    cases control with
    | user heard => exact absurd rfl (hbusy heard)
    | _ => exact .of_busy rfl
  | cancel handle owned => exact .of_busy (hasUser_serve_cancel handle owned m)
  | _ => exact .of_busy rfl

theorem seated_resume (answer : Answer α β) (m : Machine α β) : (m.resume answer).Seated := by
  have hresumes := m.resumes answer
  generalize m.resume answer = m' at hresumes ⊢
  cases hresumes with
  | rest hstack => exact fun _ ↦ .inl hstack
  | calling hstack => exact fun _ ↦ .inr ⟨_, _, _, hstack⟩
  | callListener | callViewer => exact fun _ ↦ .inr ⟨_, _, _, rfl⟩
  | drain =>
    unfold runDeferred
    split
    · exact .of_busy rfl
    · exact (works_flush _ _).poised.seated
  | hear => exact seated_hear _ _ _ _
  | compose => exact (composeIfDue_spec _ _).elim (·.poised.seated) (·.2.2.1.seated)
  | notComposed | settle => exact (works_settle _ _).poised.seated
  | connect =>
    unfold connect
    split
    · exact .of_busy rfl
    · exact seated_hear _ _ _ _
  | connected => exact seated_requestCompose _ _
  | feed => exact seated_feed _ _
  | closing | drained | skipDelivery | delivered | skipAnnouncement | announced | fail | composed
  | release | subscribed | subscribedView | built | fed => exact .of_busy rfl

theorem control_release (view : ViewId) (m : Machine α β) :
    (m.release view).control = m.control := by
  unfold release
  split
  · split <;> rfl
  · rfl

theorem seated_giveUp (message : String) (hunwinding : m.isUnwinding) :
    (m.giveUp message).Seated := by
  have hcontrol : m.hasUser = false := by
    unfold isUnwinding at hunwinding
    unfold hasUser
    split at hunwinding
    case h_1 hcontrol => simp [hcontrol]
    case h_2 => contradiction
  have hleft : ∀ left : Machine α β, left.control = m.control → left.Seated := fun left heq ↦
    .of_busy (by rw [hasUser, heq, ← hasUser, hcontrol])
  have hgivesUp := m.givesUp message
  generalize m.giveUp message = m' at hgivesUp ⊢
  cases hgivesUp with
  | rest hstack => exact fun _ ↦ .inl hstack
  | calling hstack => exact fun _ ↦ .inr ⟨_, _, _, hstack⟩
  | holding | building | subscribingView => exact hleft _ (control_release _ _)
  | closing | draining | composing | subscribing | pop => exact hleft _ rfl

theorem seated_move (move : Move α β) (h : m.Seated) : (m.move move).Seated :=
  move_of (motive := Seated) move h (fun request _ _ ↦ seated_serve request h)
    (fun answer _ _ ↦ seated_resume answer m)
    (fun message _ hcontrol ↦ seated_giveUp message (by simp [isUnwinding, hcontrol]))

end Machine

end LiveRecord.Flow
