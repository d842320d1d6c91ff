import LiveRecord.Proofs.Flow.Delivery
import LiveRecord.Proofs.Flow.Joining

/-!
# The books on registrations

Who is registered at a source is written down in two places: the source keeps the tickets, and
somebody keeps the means to give each of them back, which is a handle, a subscription whose callback
hears for the first time, or an input of a view. The books hold both sides (`Machine.books`), and
what a move does to them is a sequence of entries (`Machine.books_move`).
-/

set_option autoImplicit false

namespace LiveRecord.Flow

variable {α β : Type}

/-- The inputs of a view, and whether it is still there to hear them. -/
structure Intake where
  inputs : List (SourceId × Nat) := []
  hears : Bool := true

def Outline.intake (o : Outline α) : Intake where
  inputs := o.inputs
  hears := o.live && !o.disposed

def View.intake (v : View α β) : Intake := v.outline.intake

/-- The frame has registrations to write down. -/
def Frame.writes : Frame α β → Bool
  | subscribing _ _ | connecting _ _ => true
  | _ => false

/-- The tickets at every source, who can give them back, and who still has some to write down, the
innermost frame first. -/
structure Books (α β : Type) where
  tickets : SourceId → List Nat
  handles : List Handle
  intakes : List Intake
  writers : List (Frame α β)

namespace Books

/-- A registration is new. Those at views are not in the books. -/
def enter (target : Target) (ticket : Nat) (books : Books α β) : Books α β :=
  match target with
  | .source source =>
    { books with
      tickets := Function.update books.tickets source (books.tickets source ++ [ticket]) }
  | .view _ => books

/-- These registrations are gone. -/
def leave (gone : List (Target × Nat)) (books : Books α β) : Books α β :=
  { books with
    tickets := fun source ↦ (books.tickets source).filter fun ticket ↦
      (Target.source source, ticket) ∉ gone }

variable {books : Books α β} {gone : List (Target × Nat)} {target : Target} {ticket : Nat}

@[simp] theorem handles_enter : (books.enter target ticket).handles = books.handles := by
  cases target <;> rfl

@[simp] theorem intakes_enter : (books.enter target ticket).intakes = books.intakes := by
  cases target <;> rfl

@[simp] theorem handles_leave : (books.leave gone).handles = books.handles := rfl

@[simp] theorem intakes_leave : (books.leave gone).intakes = books.intakes := rfl

@[simp] theorem writers_leave : (books.leave gone).writers = books.writers := rfl

end Books

/-- Nobody at that target has the ticket. -/
def Books.Fresh (target : Target) (ticket : Nat) (books : Books α β) : Prop :=
  ∀ source, target = .source source → ticket ∉ books.tickets source

/-- The registrations of an intake. -/
def Intake.registrations (intake : Intake) : List (Target × Nat) :=
  intake.inputs.map fun input ↦ (.source input.1, input.2)

/-- The registration that a handle can give back. -/
def Handle.registrations (handle : Handle) : List (Target × Nat) :=
  if handle.state = .cancelled then [] else [(handle.target, handle.ticket)]

/-- An entry in the books, and the sources of the view that it is about if one is built. -/
inductive Books.Step : List (List SourceId) → Books α β → Books α β → Prop
  | build {books : Books α β} (inputs : List (SourceId × Nat))
      (h : ∀ view left, .connecting view left ∉ books.writers) :
      Step [inputs.map (·.1)] books { books with
        intakes := books.intakes ++ [{}]
        writers := .connecting books.intakes.length inputs :: books.writers }
  | connect {books : Books α β} {view : ViewId} {source : SourceId} {slot : Nat}
      {left : List (SourceId × Nat)} {writers : List (Frame α β)} {intake : Intake} {ticket : Nat}
      (h : books.writers = .connecting view ((source, slot) :: left) :: writers)
      (hintake : books.intakes[view]? = some intake) (hhears : intake.hears)
      (hfresh : books.Fresh (.source source) ticket) :
      Step [] books { books.enter (.source source) ticket with
        intakes := books.intakes.modify view fun intake ↦
          { intake with inputs := intake.inputs ++ [(source, ticket)] }
        writers := .connecting view left :: writers }
  | connected {books : Books α β} {view : ViewId} {writers : List (Frame α β)}
      (h : books.writers = .connecting view [] :: writers) : Step [] books { books with writers }
  | retire {books : Books α β} {view : ViewId} {intake : Intake}
      (h : books.intakes[view]? = some intake) :
      Step [] books { books.leave intake.registrations with
        intakes := books.intakes.modify view fun _ ↦ { hears := false } }
  | subscribe {books : Books α β} {target : Target} {ticket : Nat}
      (hfresh : books.Fresh target ticket) :
      Step [] books { books.enter target ticket with
        writers := .subscribing target ticket :: books.writers }
  | handOver {books : Books α β} {target : Target} {ticket : Nat} {writers : List (Frame α β)}
      (h : books.writers = .subscribing target ticket :: writers) :
      Step [] books { books with writers, handles := books.handles ++ [{ target, ticket }] }
  | turnAway {books : Books α β} {target : Target} {ticket : Nat} {writers : List (Frame α β)}
      (h : books.writers = .subscribing target ticket :: writers) :
      Step [] books { books.leave [(target, ticket)] with writers }
  | cancel {books : Books α β} {handle : Nat} {target : Target} {ticket : Nat}
      (h : books.handles[handle]? = some { target, ticket, state := .active }) :
      Step [] books { books.leave [(target, ticket)] with
        handles := books.handles.modify handle fun h ↦ { h with state := .cancelled } }
  | detach {books : Books α β} (handle : Nat) (f : Handle → Handle)
      (h : ∀ h, (f h).registrations = h.registrations) :
      Step [] books { books with handles := books.handles.modify handle f }

/-- Entries in the books, one after the other, and the sources of the views that are built. -/
inductive Books.Steps : List (List SourceId) → Books α β → Books α β → Prop
  | refl {books : Books α β} : Steps [] books books
  | cons {asked later : List (List SourceId)} {books books' books'' : Books α β}
      (hfirst : Step asked books books') (hlast : Steps later books' books'') :
      Steps (asked ++ later) books books''

theorem Books.Steps.single {asked : List (List SourceId)} {books books' : Books α β}
    (h : Step asked books books') : Steps asked books books' := by
  simpa using cons h .refl

theorem Books.Steps.trans {asked later : List (List SourceId)} {books books' books'' : Books α β}
    (hfirst : Steps asked books books') (hlast : Steps later books' books'') :
    Steps (asked ++ later) books books'' := by
  induction hfirst with
  | refl => exact hlast
  | cons hstep _ ih =>
    rw [List.append_assoc]
    exact .cons hstep (ih hlast)

namespace World

variable {world world' : World α β} {view : ViewId} {writers : List (Frame α β)}

def books (writers : List (Frame α β)) (world : World α β) : Books α β where
  tickets source := world.sourceTickets source
  handles := world.handles
  intakes := world.views.map (·.intake)
  writers := writers

theorem books_congr (htickets : ∀ source, world'.sourceTickets source = world.sourceTickets source)
    (hhandles : world'.handles = world.handles)
    (hintakes : world'.views.map (·.intake) = world.views.map (·.intake)) :
    world'.books writers = world.books writers := by
  simp only [books, htickets, hhandles, hintakes]

/-- Assumes: nothing is seen of what happens to the world. -/
theorem books_of_scene (h : world'.scene = world.scene) :
    world'.books writers = world.books writers := by
  have hintakes : ∀ w : World α β, w.views.map (·.intake) = w.scene.views.map (·.intake) := by
    intro w
    simp only [scene, List.map_map]
    rfl
  have hsources : world'.sources = world.sources := congrArg Scene.sources h
  refine books_congr (fun source ↦ ?_) (congrArg Scene.handles h) ?_
  · simp only [sourceTickets, hsources]
  · rw [hintakes, hintakes, h]

theorem intakes_modifyView {f : View α β → View α β} {g : Intake → Intake}
    (h : ∀ v, (f v).intake = g v.intake) :
    (world.views.modify view f).map (·.intake) = (world.views.map (·.intake)).modify view g := by
  ext j intake
  simp only [List.getElem?_map, List.getElem?_modify]
  cases world.views[j]? with
  | none => rfl
  | some v =>
    by_cases hj : view = j
    · simp [hj, h]
    · simp [hj]

/-- Assumes: a change of a view that keeps its inputs, and whether it hears them. -/
theorem books_modifyView {f : View α β → View α β} (h : ∀ v, (f v).intake = v.intake) :
    (world.modifyView view f).books writers = world.books writers := by
  have hid := @intakes_modifyView α β world view f id h
  rw [List.modify_id] at hid
  exact books_congr (fun _ ↦ rfl) rfl hid

/-- Assumes: a change of a source that keeps its listeners. -/
theorem books_modifySource {source : SourceId} {f : Source α → Source α}
    (h : ∀ s, (f s).listeners = s.listeners) :
    (world.modifySource source f).books writers = world.books writers := by
  refine books_congr (fun other ↦ ?_) rfl rfl
  simp only [sourceTickets, modifySource, List.getElem?_modify]
  cases world.sources[other]? with
  | none => rfl
  | some s => by_cases hother : source = other <;> simp [hother, h]

theorem books_unschedule (views : List ViewId) (world : World α β) :
    (world.unschedule views).books writers = world.books writers := by
  unfold unschedule
  induction views generalizing world with
  | nil => rfl
  | cons view rest ih => exact (ih _).trans (books_modifyView fun _ ↦ rfl)

theorem books_addSource (name : String) :
    (world.addSource name).books writers = world.books writers := by
  refine books_congr (fun source ↦ ?_) rfl rfl
  simp only [sourceTickets, addSource]
  by_cases hsource : source < world.sources.length
  · rw [List.getElem?_append_left hsource]
  · rw [List.getElem?_append_right (Nat.le_of_not_lt hsource),
      List.getElem?_eq_none (Nat.le_of_not_lt hsource)]
    cases source - world.sources.length <;> rfl

/-- The next ticket of a source is nobody's. Assumes: listeners in order. -/
theorem fresh_next {source : SourceId} {s : Source α} (h : world.Ordered)
    (hs : world.sources[source]? = some s) :
    (world.books writers).Fresh (.source source) s.listeners.next := by
  rintro other ⟨rfl⟩ hmem
  simp only [books, sourceTickets, hs] at hmem
  obtain ⟨entry, hentry, hticket⟩ := List.mem_map.mp hmem
  exact absurd hticket (Nat.ne_of_lt ((h source s hs).given entry hentry))

theorem tickets_registerAtSource {source : SourceId} {s : Source α} (listener : Listener)
    (hs : world.sources[source]? = some s) (other : SourceId) :
    (world.registerAtSource source listener).sourceTickets other =
      Function.update (fun source ↦ world.sourceTickets source) source
        (world.sourceTickets source ++ [s.listeners.next]) other := by
  simp only [sourceTickets, registerAtSource, modifySource, List.getElem?_modify]
  by_cases hother : source = other
  · subst hother
    simp [hs, Registry.tickets_register]
  · rw [Function.update_of_ne (Ne.symm hother)]
    cases world.sources[other]? with
    | none => rfl
    | some s => simp [hother]

theorem sourceTickets_unregister (source other : SourceId) (ticket : Nat) (world : World α β) :
    (world.unregister (.source other) ticket).sourceTickets source =
      (world.sourceTickets source).filter fun t ↦ (source, t) ≠ (other, ticket) := by
  simp only [sourceTickets, unregister, modifySource, List.getElem?_modify]
  cases world.sources[source]? with
  | none => rfl
  | some s =>
    by_cases hother : other = source
    · subst hother
      simp only [if_true, Registry.tickets, Registry.remove, List.filter_map]
      refine congrArg _ (List.filter_congr fun entry _ ↦ ?_)
      simp [bne, Bool.beq_eq_decide_eq]
    · simp [hother, Ne.symm hother]

theorem sourceTickets_foldl_unregister (inputs : List (SourceId × Nat)) (source : SourceId)
    (world : World α β) :
    (inputs.foldl (fun w input ↦ w.unregister (.source input.1) input.2) world).sourceTickets
        source = (world.sourceTickets source).filter fun t ↦ (source, t) ∉ inputs := by
  induction inputs generalizing world with
  | nil => simp
  | cons input rest ih =>
    rw [List.foldl_cons, ih, sourceTickets_unregister, List.filter_filter]
    refine List.filter_congr fun t _ ↦ ?_
    rw [← Bool.decide_and, decide_eq_decide, List.mem_cons, not_or, and_comm]

/-- A registration is taken away. -/
theorem books_unregister (target : Target) (ticket : Nat) (world : World α β) :
    (world.unregister target ticket).books writers =
      (world.books writers).leave [(target, ticket)] := by
  cases target with
  | source other =>
    have htickets : ∀ source, (world.unregister (.source other) ticket).sourceTickets source =
        (world.sourceTickets source).filter fun t ↦
          (Target.source source, t) ∉ [(Target.source other, ticket)] := by
      intro source
      rw [sourceTickets_unregister]
      exact List.filter_congr fun t _ ↦ by simp
    simp only [books, htickets, Books.leave]
    rfl
  | view view =>
    have hkept : ∀ source : SourceId, (world.sourceTickets source).filter (fun t ↦
        (Target.source source, t) ∉ [(Target.view view, ticket)]) = world.sourceTickets source := by
      intro source
      exact List.filter_eq_self.mpr fun t _ ↦ by simp
    simp only [books, Books.leave, hkept]
    exact books_modifyView (f := fun v ↦ { v with listeners := v.listeners.remove ticket })
      fun _ ↦ rfl

/-- A view is taken off its inputs for good. -/
theorem enters_disconnect {v : View α β} {f : View α β → View α β}
    (hview : world.views[view]? = some v)
    (hf : ∀ v, (f v).intake = { inputs := v.inputs, hears := false }) :
    Books.Steps [] (world.books writers)
      (((world.disconnect view).modifyView view f).books writers) := by
  have hdisconnected : (world.disconnect view).modifyView view f =
      (v.inputs.foldl (fun w input ↦ w.unregister (.source input.1) input.2) world).modifyView view
        fun v ↦ f { v with inputs := [] } := by
    simp only [disconnect, hview, World.modifyView, List.modify_modify_eq]
    rfl
  let base : World α β :=
    v.inputs.foldl (fun w input ↦ w.unregister (.source input.1) input.2) world
  have hviews : base.views = world.views := views_foldl_unregister v.inputs world
  have hhandles : base.handles = world.handles := handles_foldl_unregister v.inputs world
  have hbooks : (base.modifyView view fun v ↦ f { v with inputs := [] }).books writers =
      { (world.books writers).leave v.intake.registrations with
        intakes := (world.books writers).intakes.modify view fun _ ↦ { hears := false } } := by
    have htickets : ∀ source, base.sourceTickets source =
        (world.sourceTickets source).filter fun t ↦
          (Target.source source, t) ∉ v.intake.registrations := by
      intro source
      rw [sourceTickets_foldl_unregister]
      refine List.filter_congr fun t _ ↦ ?_
      simp [Intake.registrations, View.intake, Outline.intake, View.outline]
    have hintakes := @intakes_modifyView α β base view (fun v ↦ f { v with inputs := [] })
      (fun _ ↦ { hears := false }) fun v ↦ hf { v with inputs := [] }
    rw [hviews] at hintakes
    simp only [books, modifyView, Books.leave]
    rw [hviews, hintakes]
    congr 1
    · exact funext htickets
  rw [hdisconnected, hbooks]
  exact .single (.retire (by simp [books, hview]))

/-- Disposing of a view is an entry in the books, unless it has been done. -/
theorem enters_dispose (view : ViewId) (world : World α β) :
    Books.Steps [] (world.books writers) ((world.dispose view).books writers) := by
  unfold dispose
  cases hview : world.views[view]? with
  | none => exact .refl
  | some v =>
    dsimp only
    split
    · exact .refl
    · exact enters_disconnect hview fun v ↦ by simp [View.intake, Outline.intake, View.outline]

/-- Cancelling a subscription is an entry in the books, if it is active. -/
theorem enters_cancel (handle : Nat) (world : World α β) :
    Books.Steps [] (world.books writers) ((world.cancel handle).books writers) := by
  unfold cancel
  split
  case h_1 target ticket hhandle =>
    have hbooks := @books_unregister α β writers target ticket world
    have hhandles : (world.unregister target ticket).handles = world.handles := by
      cases target <;> rfl
    have hcancelled : ((world.unregister target ticket).modifyHandle handle fun h ↦
        { h with state := .cancelled }).books writers =
        { (world.books writers).leave [(target, ticket)] with
          handles := (world.books writers).handles.modify handle fun h ↦
            { h with state := .cancelled } } := by
      rw [← hbooks]
      simp only [books, modifyHandle, hhandles]
      rfl
    rw [hcancelled]
    exact .single (.cancel hhandle)
  case h_2 => exact .refl

end World

theorem WorkFrames.filter_writes {view : ViewId} {new : List (Frame α β)}
    (h : WorkFrames view new) : new.filter (·.writes) = [] := by
  cases h <;> rfl

namespace Machine

variable {m m' : Machine α β} {view : ViewId}

def books (m : Machine α β) : Books α β := m.world.books (m.stack.filter (·.writes))

/-- Assumes: nothing is seen of what a view does that goes through its news. -/
theorem books_of_work {stack : List (Frame α β)} (hscene : m'.world.scene = m.world.scene)
    (hwork : ∃ new, WorkFrames view new ∧ m'.stack = new ++ stack) :
    m'.books = m.world.books (stack.filter (·.writes)) := by
  obtain ⟨new, hnew, hstack⟩ := hwork
  rw [books, hstack, List.filter_append, hnew.filter_writes, List.nil_append]
  exact World.books_of_scene hscene

/-- Assumes: a frame on top that has nothing to write down. -/
theorem books_tail {frame : Frame α β} {below : List (Frame α β)}
    (hstack : m.stack = frame :: below)
    (hwrites : frame.writes = false) : m.world.books (below.filter (·.writes)) = m.books := by
  simp only [books, hstack, List.filter_cons, hwrites, Bool.false_eq_true, if_false]

/-- Assumes: a frame on top that has nothing to write down, and goes. -/
theorem enters_pop {frame : Frame α β} {below : List (Frame α β)}
    (hstack : m.stack = frame :: below)
    (hwrites : frame.writes = false) (heq : m'.books = m.world.books (below.filter (·.writes))) :
    Books.Steps [] m.books m'.books := by
  rw [heq, books_tail hstack hwrites]
  exact .refl

theorem scene_requestCompose (view : ViewId) (m : Machine α β) :
    (m.requestCompose view).world.scene = m.world.scene := by
  by_cases htick : m.world.inTick
  · exact (requestCompose_spec view htick).1
  · unfold requestCompose
    split
    · rfl
    · rw [if_pos (by simpa using htick)]
      exact (works_flush view m).scene

theorem books_requestCompose (view : ViewId) (m : Machine α β) :
    (m.requestCompose view).books = m.books :=
  books_of_work (scene_requestCompose view m) (requestCompose_stack view m)

theorem books_flush (view : ViewId) (m : Machine α β) : (m.flush view).books = m.books :=
  books_of_work (works_flush view m).scene (flush_stack view m)

theorem books_settle (view : ViewId) (m : Machine α β) : (m.settle view).books = m.books :=
  books_of_work (works_settle view m).scene (settle_stack view m)

theorem books_composeIfDue (view : ViewId) (m : Machine α β) :
    (m.composeIfDue view).books = m.books :=
  books_of_work ((composeIfDue_spec view m).elim (·.scene) (·.2.1)) (composeIfDue_stack view m)

theorem books_hear (view : ViewId) (slot : Nat) (event : Event α) (m : Machine α β) :
    (m.hear view slot event).books = m.books := by
  have habsorbed : ((m.push (.holding view)).withWorld
      (.modifyView view (.absorb slot event))).books = m.books :=
    World.books_modifyView fun v ↦ by
      cases event <;> cases hdisposed : v.disposed <;>
        simp [View.absorb, View.intake, Outline.intake, View.outline, View.cache, View.mark,
          hdisposed]
  have hhears := m.hears view slot event
  generalize m.hear view slot event = m' at hhears ⊢
  cases hhears with
  | deaf | lent => rfl
  | quiet => exact habsorbed
  | loaded => exact (books_requestCompose view _).trans habsorbed
  | failed => exact (books_flush view _).trans habsorbed

theorem books_becomeReady (view : ViewId) (value : β) (m : Machine α β) :
    (m.becomeReady view value).books = m.books :=
  books_of_work (becomeReady_spec view value m).1 ⟨_, .ready _ _, rfl⟩

theorem books_runDeferred (view : ViewId) (m : Machine α β) :
    (m.runDeferred view).books = m.books := by
  unfold runDeferred
  split
  · rfl
  · exact (books_flush view _).trans (World.books_modifyView fun _ ↦ rfl)

theorem books_closeTick (answer : Answer α β) (m : Machine α β) :
    (m.closeTick answer).books = m.books := by
  unfold closeTick World.closeTick
  dsimp only
  split <;> rfl

theorem books_abandonTick (m : Machine α β) : (m.withWorld .abandonTick).books = m.books := by
  have hclosed : m.world.closeTick.2.books (m.stack.filter (·.writes)) = m.books := by
    unfold World.closeTick
    dsimp only
    split <;> rfl
  exact (World.books_unschedule _ _).trans hclosed

theorem books_emit (source : SourceId) (event : Event α) (m : Machine α β) :
    (m.emit source event).books = m.books := by
  unfold emit
  split
  · rfl
  · split
    · rfl
    · exact World.books_modifySource fun _ ↦ rfl

theorem books_feed (feed : Feed α) (m : Machine α β) : (m.feed feed).books = m.books := by
  unfold Machine.feed
  split
  · rfl
  · exact books_emit _ _ _

/-- Taking a view apart that nobody holds is an entry in the books. -/
theorem enters_release (view : ViewId) (m : Machine α β) :
    Books.Steps [] m.books (m.release view).books := by
  unfold release
  split
  case h_1 v hlive =>
    obtain ⟨hview, -⟩ := Option.filter_eq_some_iff.mp hlive
    split
    · exact .refl
    · exact World.enters_disconnect hview fun v ↦ by
        simp [View.intake, Outline.intake, View.outline]
  case h_2 => exact .refl

theorem enters_dropView (view : ViewId) (m : Machine α β) :
    Books.Steps [] m.books (m.dropView view).books := by
  have hdropped : (m.withWorld (.modifyView view fun v ↦ { v with owned := false })).books =
      m.books := World.books_modifyView fun _ ↦ rfl
  exact hdropped ▸ enters_release view _

theorem books_refuse (target : Target) (m : Machine α β) : (m.refuse target).books = m.books :=
  World.books_congr (fun source ↦ by simp [World.sourceTickets])
    (World.handles_strand target m.world) (by simp)

/-- What goes with callbacks are entries in the books. What is refused is none. -/
theorem enters_serve_cancel (handle : Nat) (owned : Belongings) (m : Machine α β) :
    Books.Steps [] m.books (m.serve (.cancel handle owned)).books :=
  serve_cancel_induction (motive := fun m' ↦ Books.Steps [] m.books m'.books)
    (fun m' handle h ↦ h.trans (World.enters_cancel handle m'.world))
    (fun m' target h ↦ by rwa [books_refuse]) (fun m' view h ↦ h.trans (enters_dropView view m'))
    handle owned .refl

theorem enters_subscribe (target : Target) (key : Nat) (hordered : m.world.Ordered) :
    Books.Steps [] m.books (m.subscribe target key).books := by
  have hview {m' : Machine α β} {view : ViewId} {v : View α β}
      (hworld : m'.world = m.world.registerAtView view key)
      (hstack : m'.stack.filter (·.writes) =
        .subscribing (.view view) v.listeners.next :: m.stack.filter (·.writes)) :
      Books.Steps [] m.books m'.books := by
    have hregistered : (m.world.registerAtView view key).books
        (m.stack.filter (·.writes)) = m.books := World.books_modifyView fun _ ↦ rfl
    have hbooks : m'.books = { m.books.enter (.view view) v.listeners.next with
        writers := .subscribing (.view view) v.listeners.next :: m.books.writers } := by
      rw [books, hworld, hstack, Books.enter, ← hregistered]
      rfl
    rw [hbooks]
    exact .single (.subscribe fun source hsource ↦ by contradiction)
  have hsubscribes := m.subscribes target key
  generalize m.subscribe target key = m' at hsubscribes ⊢
  cases hsubscribes with
  | unknown => exact .refl
  | @source source s hs =>
    have hbooks : (((m.withWorld (.registerAtSource source (.callback key))).push
        (.subscribing (.source source) s.listeners.next)).call
          (.sourceEvent key s.current)).books =
        { m.books.enter (.source source) s.listeners.next with
          writers := .subscribing (.source source) s.listeners.next :: m.books.writers } := by
      simp only [books, World.books, Books.enter]
      congr 1
      exact funext (World.tickets_registerAtSource _ hs)
    rw [hbooks]
    exact .single (.subscribe (World.fresh_next hordered hs))
  | silent | view => exact hview rfl rfl

/-- The sources of the view that a request builds, if it builds one. -/
def askedBy (request : Request α β) (m : Machine α β) : List (List SourceId) :=
  match request with
  | .build sources _ =>
    match sources.mapM fun source ↦ m.world.sources[source]? with
    | none => []
    | some _ => [sources]
  | _ => []

/-- The sources of the view that a move begins to build, if it does. -/
def asked (move : Move α β) (m : Machine α β) : List (List SourceId) :=
  match move, m.control with
  | .request request, .user _ => m.askedBy request
  | _, _ => []

/-- Assumes: no view is being connected. -/
theorem enters_build (sources : List SourceId) (composer : Composer α β) (h : m.connections = []) :
    Books.Steps (m.askedBy (.build sources composer)) m.books (m.build sources composer).books := by
  have hnone : ∀ view left, Frame.connecting view left ∉ m.books.writers := by
    intro view left hmem
    have hconnection : (view, left) ∈ m.connections :=
      List.mem_filterMap.mpr ⟨_, (List.mem_filter.mp hmem).1, rfl⟩
    rw [h] at hconnection
    contradiction
  cases hfound : sources.mapM fun source ↦ m.world.sources[source]? with
  | none =>
    simp only [build, askedBy, hfound]
    exact .refl
  | some found =>
    have hbooks : (m.build sources composer).books =
        { m.books with
          intakes := m.books.intakes ++ [{}]
          writers := .connecting m.books.intakes.length sources.zipIdx :: m.books.writers } := by
      simp only [build, hfound, books, World.books, withWorld, World.addView, World.openTick, push,
        returning, List.map_append, List.length_map]
      rfl
    have hasked : m.askedBy (.build sources composer) = [sources.zipIdx.map (·.1)] := by
      simp [askedBy, hfound]
    rw [hbooks, hasked]
    exact .single (.build _ hnone)

theorem enters_serve (request : Request α β) (hordered : m.world.Ordered)
    (h : m.connections = []) : Books.Steps (m.askedBy request) m.books (m.serve request).books := by
  have hsame (heq : (m.serve request).books = m.books) :
      Books.Steps [] m.books (m.serve request).books := by
    rw [heq]
    exact .refl
  cases request with
  | newSource name => exact hsame (World.books_addSource name)
  | emit source event => exact hsame (books_emit source event m)
  | build sources composer => exact enters_build sources composer h
  | subscribe target key => exact enters_subscribe target key hordered
  | cancel handle owned => exact enters_serve_cancel handle owned m
  | detach handle =>
    refine .single (.detach handle _ fun handle ↦ ?_)
    cases hstate : handle.state <;> simp [Handle.registrations, hstate]
  | dispose view => exact World.enters_dispose view m.world
  | dropView view => exact enters_dropView view m
  | enterTick => exact .refl
  | leaveTick => exact hsame (books_closeTick .done m)
  | abandonTick => exact hsame (books_abandonTick m)
  | poll feed => exact hsame (books_feed feed m)
  | finish | compose value | raise message =>
    exact serve_of_ends (motive := fun m' ↦ Books.Steps [] m.books m'.books) rfl .refl
      fun call turn below control hstack _ ↦ enters_pop hstack rfl rfl

theorem enters_connecting {inputs : List (SourceId × Nat)} {above below : List (Frame α β)}
    (answer : Answer α β) (hordered : m.world.Ordered) (h : m.Joins view inputs above below)
    (hstack : m.stack = .connecting view inputs :: .closing .done :: .building view :: below) :
    Books.Steps [] m.books (m.resume answer).books := by
  have hwriters : m.books.writers = .connecting view inputs :: below.filter (·.writes) := by
    simp only [books, World.books, hstack]
    rfl
  cases inputs with
  | nil =>
    simp only [resume, hstack]
    rw [books_requestCompose]
    exact .single (.connected hwriters)
  | cons input left =>
    obtain ⟨source, slot⟩ := input
    obtain ⟨s, hs⟩ := h.known (source, slot) List.mem_cons_self
    obtain ⟨v, hv, hlive, hdisposed, -⟩ := h.unseen.exists_view
    have hintake : m.books.intakes[view]? = some v.intake := by
      simp [books, World.books, hv]
    have hconnected : ((({ m with
        stack := .connecting view left :: .closing .done :: .building view :: below } :
          Machine α β).withWorld (.registerAtSource source (.input view slot))).withWorld
            (.modifyView view fun v ↦
              { v with inputs := v.inputs ++ [(source, s.listeners.next)] })).books =
        { m.books.enter (.source source) s.listeners.next with
          intakes := m.books.intakes.modify view fun intake ↦
            { intake with inputs := intake.inputs ++ [(source, s.listeners.next)] }
          writers := .connecting view left :: below.filter (·.writes) } := by
      have hintakes := @World.intakes_modifyView α β m.world view
        (fun v ↦ { v with inputs := v.inputs ++ [(source, s.listeners.next)] })
        (fun intake ↦ { intake with inputs := intake.inputs ++ [(source, s.listeners.next)] })
        fun v ↦ rfl
      simp only [books, World.books, Books.enter, withWorld, World.modifyView]
      congr 1
      exact funext (World.tickets_registerAtSource _ hs)
    simp only [resume, hstack, connect, hs]
    rw [books_hear, hconnected]
    refine .single (.connect hwriters hintake ?_ (World.fresh_next hordered hs))
    simp [View.intake, Outline.intake, View.outline, hlive, hdisposed]

theorem enters_resume (answer : Answer α β) (hordered : m.world.Ordered) (hjoining : m.Joining) :
    Books.Steps [] m.books (m.resume answer).books := by
  -- a new view is connected on the tick that it was built in
  have hconnecting {view : ViewId} {inputs : List (SourceId × Nat)} {below : List (Frame α β)}
      (hstack : m.stack = .connecting view inputs :: below) :
      Books.Steps [] m.books (m.resume answer).books := by
    rcases hjoining with hnone | ⟨j, left, above, rest, hjoins⟩
    · simp [connections, hstack, Frame.connection?] at hnone
    · have hj := hjoins.stack
      rw [hstack] at hj
      cases hjoins.above with
      | nothing =>
        obtain ⟨hframe, rfl⟩ := List.cons.inj hj
        obtain ⟨rfl, rfl⟩ := Frame.connecting.inj hframe
        exact enters_connecting answer hordered hjoins hstack
      | _ => simp at hj
  have hresumes := m.resumes answer
  generalize m.resume answer = m' at hconnecting hresumes ⊢
  cases hresumes with
  | rest | calling => exact .refl
  | drained hstack | skipDelivery hstack | callListener hstack | delivered hstack
  | skipAnnouncement hstack | callViewer hstack | announced hstack | fail hstack | fed hstack =>
    exact enters_pop hstack rfl rfl
  | closing hstack => exact enters_pop hstack rfl (books_closeTick _ _)
  | drain hstack => exact enters_pop hstack rfl (books_runDeferred _ _)
  | hear hstack => exact enters_pop hstack rfl (books_hear _ _ _ _)
  | compose hstack => exact enters_pop hstack rfl (books_composeIfDue _ _)
  | composed hstack =>
    exact enters_pop hstack rfl
      ((books_becomeReady _ _ _).trans (World.books_modifyView fun _ ↦ rfl))
  | notComposed hstack =>
    exact enters_pop hstack rfl ((books_settle _ _).trans (World.books_modifyView fun _ ↦ rfl))
  | settle hstack => exact enters_pop hstack rfl (books_settle _ _)
  | @release view below hstack =>
    have hreleased := enters_release view { m with stack := below }
    exact books_tail hstack rfl ▸ hreleased
  | subscribed hstack => exact .single (.handOver (by simp only [books, World.books, hstack]; rfl))
  | @subscribedView view ticket below hstack =>
    have hhanded : Books.Step [] m.books (({ m with stack := below } : Machine α β).withWorld
        (.addHandle (.view view) ticket)).books :=
      .handOver (by simp only [books, World.books, hstack]; rfl)
    exact .cons hhanded (enters_release view _)
  | connect hstack | connected hstack => exact hconnecting hstack
  | built hstack => exact enters_pop hstack rfl (World.books_modifyView fun _ ↦ rfl)
  | feed hstack => exact enters_pop hstack rfl (books_feed _ _)

theorem enters_giveUp (message : String) (hnone : m.connections = []) :
    Books.Steps [] m.books (m.giveUp message).books := by
  have hturned {target : Target} {ticket : Nat} {below : List (Frame α β)}
      (hstack : m.stack = .subscribing target ticket :: below) :
      Books.Step [] m.books (({ m with stack := below } : Machine α β).withWorld
        (.unregister target ticket)).books := by
    have hbooks : (({ m with stack := below } : Machine α β).withWorld
        (.unregister target ticket)).books =
          { m.books.leave [(target, ticket)] with writers := below.filter (·.writes) } :=
      World.books_unregister target ticket m.world
    rw [hbooks]
    exact .turnAway (by simp only [books, World.books, hstack]; rfl)
  have hgivesUp := m.givesUp message
  generalize m.giveUp message = m' at hgivesUp ⊢
  cases hgivesUp with
  | rest | calling => exact .refl
  | closing hstack => exact enters_pop hstack rfl (books_abandonTick _)
  | draining hstack => exact enters_pop hstack rfl (World.books_unschedule _ _)
  | composing hstack => exact enters_pop hstack rfl (World.books_modifyView fun _ ↦ rfl)
  | @holding view below hstack | @building view below hstack =>
    have hreleased := enters_release view { m with stack := below }
    exact books_tail hstack rfl ▸ hreleased
  | subscribing hstack => exact .single (hturned hstack)
  | subscribingView hstack => exact .cons (hturned hstack) (enters_release _ _)
  | @pop frame below hstack hframe =>
    cases frame with
    | connecting view inputs => simp [connections, hstack, Frame.connection?] at hnone
    | delivering _ _ _ | announcing _ _ _ | failing _ _ | settling _ | feeding _ =>
      exact enters_pop hstack rfl rfl
    | _ => contradiction

/-- What a move does to registrations is a sequence of entries in the books. -/
theorem books_move (move : Move α β) (hordered : m.world.Ordered) (hjoining : m.Joining) :
    Books.Steps (m.asked move) m.books (m.move move).books := by
  cases move with
  | request request =>
    simp only [Machine.move, submit, asked]
    cases hcontrol : m.control with
    | user heard =>
      exact enters_serve request hordered (hjoining.connections_eq_nil (by simp [hcontrol]))
    | returning answer | unwinding message => exact .refl
  | advance =>
    simp only [Machine.move, advance, asked]
    cases hcontrol : m.control with
    | user heard => exact .refl
    | returning answer => exact enters_resume answer hordered hjoining
    | unwinding message =>
      exact enters_giveUp message (hjoining.connections_eq_nil (by simp [hcontrol]))

end Machine

end LiveRecord.Flow
