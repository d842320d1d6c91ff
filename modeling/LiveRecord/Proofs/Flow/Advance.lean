import LiveRecord.Proofs.Flow.Run

/-!
# What the core does

An event for an input of a view, and a request to subscribe, can come to few things
(`Machine.hears`, `Machine.subscribes`). After something is done, the frame on top of the stack says
how the core goes on (`Machine.resumes`), and when a callback has raised, what is left of the frame's
operation (`Machine.givesUp`). The cases say what was there and what machine comes of it, so that
what the core keeps can be shown case by case. A move is a request that is served, or a step of the
core, or nothing (`Machine.move_of`).
-/

set_option autoImplicit false

namespace LiveRecord.Flow

variable {α β : Type}

/-- The request ends a callback. -/
def Request.ends : Request α β → Bool
  | finish | compose _ | raise _ => true
  | _ => false

/-- The subscriptions among what a callback owns. -/
def Belongings.handles : Belongings → List Nat
  | nothing => []
  | subscription handle owned rest => handle :: (owned.handles ++ rest.handles)
  | view _ composer listeners rest => composer.handles ++ (listeners.handles ++ rest.handles)

/-- Nothing has to be taken back when the frame is given up. -/
def Frame.leavesNothing : Frame α β → Bool
  | delivering _ _ _ | announcing _ _ _ | failing _ _ | settling _ | connecting _ _
  | feeding _ => true
  | _ => false

namespace World

@[simp] theorem sources_strand (target : Target) (world : World α β) :
    (world.strand target).sources = world.sources := by
  cases target <;> rfl

@[simp] theorem views_strand (target : Target) (world : World α β) :
    (world.strand target).views = world.views := by
  cases target <;> rfl

@[simp] theorem handles_strand (target : Target) (world : World α β) :
    (world.strand target).handles = world.handles := by
  cases target <;> rfl

@[simp] theorem deferred_strand (target : Target) (world : World α β) :
    (world.strand target).deferred = world.deferred := by
  cases target <;> rfl

end World

namespace Machine

/-! ### Operations -/

/-- What comes of an event for an input of a view. -/
inductive Hears (m : Machine α β) (view : ViewId) (slot : Nat) (event : Event α) :
    Machine α β → Prop
  /-- The view is gone. -/
  | deaf (hgone : m.world.liveView? view = none) : Hears m view slot event (m.returning .done)
  /-- The value cannot be kept. -/
  | lent {v : View α β} (hview : m.world.liveView? view = some v) (hlent : v.lent)
    (hloaded : event.isLoaded) :
    Hears m view slot event ((m.push (.holding view)).unwind lentMessage)
  /-- The view does nothing about it. -/
  | quiet {v : View α β} (hview : m.world.liveView? view = some v)
    (hkept : v.lent → event.isLoaded = false) (hquiet : v.disposed ∨ event = .pending) :
    Hears m view slot event
      (((m.push (.holding view)).withWorld (.modifyView view (.absorb slot event))).returning .done)
  | loaded {v : View α β} {value : α} (hview : m.world.liveView? view = some v)
    (hlent : v.lent = false) (hdisposed : v.disposed = false) (hevent : event = .loaded value) :
    Hears m view slot event
      (((m.push (.holding view)).withWorld (.modifyView view (.absorb slot event))).requestCompose
        view)
  | failed {v : View α β} {error : SourceError} (hview : m.world.liveView? view = some v)
    (hdisposed : v.disposed = false) (hevent : event = .failed error) :
    Hears m view slot event
      (((m.push (.holding view)).withWorld (.modifyView view (.absorb slot event))).flush view)

theorem hears (view : ViewId) (slot : Nat) (event : Event α) (m : Machine α β) :
    m.Hears view slot event (m.hear view slot event) := by
  unfold hear
  split
  case h_1 hgone => exact .deaf hgone
  case h_2 v hview =>
    dsimp only
    split
    case isTrue hlent =>
      obtain ⟨hlent, hloaded⟩ := Bool.and_eq_true_iff.mp hlent
      exact .lent hview hlent hloaded
    case isFalse hkept =>
      have hkept : v.lent → event.isLoaded = false := by simpa using hkept
      split
      case isTrue hdisposed => exact .quiet hview hkept (.inl hdisposed)
      case isFalse hdisposed =>
        have hdisposed : v.disposed = false := by simpa using hdisposed
        cases event with
        | pending => exact .quiet hview hkept (.inr rfl)
        | loaded value =>
          have hlent : v.lent = false :=
            Bool.eq_false_iff.mpr fun hlent ↦ Bool.noConfusion (hkept hlent)
          exact .loaded hview hlent hdisposed rfl
        | failed error => exact .failed hview hdisposed rfl

/-- What comes of a request to be told of the events of a source or of a view. -/
inductive Subscribes (m : Machine α β) (key : Nat) : Target → Machine α β → Prop
  | unknown {target : Target} : Subscribes m key target (m.returning .unknown)
  | source {source : SourceId} {s : Source α} (hs : m.world.sources[source]? = some s) :
    Subscribes m key (.source source) (((m.withWorld (.registerAtSource source (.callback key))).push
      (.subscribing (.source source) s.listeners.next)).call (.sourceEvent key s.current))
  /-- There is nothing to hear yet. -/
  | silent {view : ViewId} {v : View α β} (hview : m.world.liveView? view = some v) :
    Subscribes m key (.view view) (((m.withWorld (.registerAtView view key)).push
      (.subscribing (.view view) v.listeners.next)).returning .done)
  | view {view : ViewId} {v : View α β} {event : ViewEvent β}
    (hview : m.world.liveView? view = some v) :
    Subscribes m key (.view view) (((m.withWorld (.registerAtView view key)).push
      (.subscribing (.view view) v.listeners.next)).call (.viewEvent key event))

theorem subscribes (target : Target) (key : Nat) (m : Machine α β) :
    m.Subscribes key target (m.subscribe target key) := by
  cases target with
  | source source =>
    simp only [subscribe]
    split
    case h_1 => exact .unknown
    case h_2 hs => exact .source hs
  | view view =>
    simp only [subscribe]
    split
    case h_1 => exact .unknown
    case h_2 hview =>
      split
      · exact .silent hview
      · exact .view hview

/-! ### What goes with a callback -/

@[simp] theorem world_refuse (target : Target) (m : Machine α β) :
    (m.refuse target).world = m.world.strand target := rfl

/-- What refusing, dropping views and cancelling these subscriptions preserve, dropping what callbacks
own preserves. -/
theorem drop_induction_of_mem {motive : Machine α β → Prop} {owned : Belongings}
    (hcancel : ∀ m, ∀ handle ∈ owned.handles, motive m → motive (m.withWorld (.cancel handle)))
    (hrefuse : ∀ m target, motive m → motive (m.refuse target))
    (hdropView : ∀ m view, motive m → motive (m.dropView view)) (locked : List Target)
    {m : Machine α β} (h : motive m) : motive (m.drop locked owned) := by
  have hrefused (targets : List Target) {m : Machine α β} (h : motive m) :
      motive (targets.foldl (fun m target ↦ m.refuse target) m) := by
    induction targets generalizing m with
    | nil => exact h
    | cons target rest ih => exact ih (hrefuse m target h)
  induction owned generalizing m locked with
  | nothing => exact h
  | subscription handle owned rest ihowned ihrest =>
    simp only [Belongings.handles, List.mem_cons, List.mem_append] at hcancel
    have hleft := hcancel m handle (.inl rfl) h
    simp only [drop]
    refine ihrest (fun m other hmem ↦ hcancel m other (.inr (.inr hmem))) locked ?_
    split
    · split
      · exact hrefuse _ _ hleft
      · split
        · exact ihowned (fun m other hmem ↦ hcancel m other (.inr (.inl hmem))) _ hleft
        · exact hleft
    · exact hleft
  | view view composer listeners rest ihcomposer ihlisteners ihrest =>
    simp only [Belongings.handles, List.mem_append] at hcancel
    simp only [drop]
    refine ihrest (fun m other hmem ↦ hcancel m other (.inr (.inr hmem))) locked ?_
    split
    · refine ihlisteners (fun m other hmem ↦ hcancel m other (.inr (.inl hmem))) _ (hrefused _ ?_)
      exact hdropView _ view (ihcomposer (fun m other hmem ↦ hcancel m other (.inl hmem)) locked h)
    · exact hdropView m view h

theorem drop_induction {motive : Machine α β → Prop}
    (hcancel : ∀ m handle, motive m → motive (m.withWorld (.cancel handle)))
    (hrefuse : ∀ m target, motive m → motive (m.refuse target))
    (hdropView : ∀ m view, motive m → motive (m.dropView view)) (locked : List Target)
    (owned : Belongings) {m : Machine α β} (h : motive m) : motive (m.drop locked owned) :=
  drop_induction_of_mem (fun m handle _ ↦ hcancel m handle) hrefuse hdropView locked h

theorem release_stack (view : ViewId) (m : Machine α β) : (m.release view).stack = m.stack := by
  unfold release
  split
  · split <;> rfl
  · rfl

theorem dropView_stack (view : ViewId) (m : Machine α β) : (m.dropView view).stack = m.stack :=
  release_stack view _

theorem dropView_control (view : ViewId) (m : Machine α β) :
    (m.dropView view).control = m.control := by
  unfold dropView release
  split
  · split <;> rfl
  · rfl

@[simp] theorem drop_stack (locked : List Target) (owned : Belongings) (m : Machine α β) :
    (m.drop locked owned).stack = m.stack :=
  drop_induction (motive := fun m' ↦ m'.stack = m.stack) (fun _ _ h ↦ h) (fun _ _ h ↦ h)
    (fun m' view h ↦ (dropView_stack view m').trans h) locked owned rfl

/-- The core goes on, or it gives operations up. -/
theorem drop_control (locked : List Target) (owned : Belongings) (m : Machine α β) :
    (m.drop locked owned).control = m.control ∨
      (m.drop locked owned).control = .unwinding lentMessage :=
  drop_induction (motive := fun m' ↦ m'.control = m.control ∨ m'.control = .unwinding lentMessage)
    (fun _ _ h ↦ h) (fun _ _ _ ↦ .inr rfl)
    (fun m' view h ↦ by rwa [dropView_control]) locked owned (.inl rfl)

/-- What cancelling, refusing and dropping views preserve, a request to cancel preserves. -/
theorem serve_cancel_induction {motive : Machine α β → Prop}
    (hcancel : ∀ m handle, motive m → motive (m.withWorld (.cancel handle)))
    (hrefuse : ∀ m target, motive m → motive (m.refuse target))
    (hdropView : ∀ m view, motive m → motive (m.dropView view)) (handle : Nat) (owned : Belongings)
    {m : Machine α β} (h : motive (m.returning .done)) :
    motive (m.serve (.cancel handle owned)) :=
  drop_induction hcancel hrefuse hdropView [] (.subscription handle owned .nothing) h

@[simp] theorem serve_cancel_stack (handle : Nat) (owned : Belongings) (m : Machine α β) :
    (m.serve (.cancel handle owned)).stack = m.stack :=
  drop_stack [] (.subscription handle owned .nothing) (m.returning .done)

theorem serve_cancel_control (handle : Nat) (owned : Belongings) (m : Machine α β) :
    (m.serve (.cancel handle owned)).control = .returning .done ∨
      (m.serve (.cancel handle owned)).control = .unwinding lentMessage :=
  drop_control [] (.subscription handle owned .nothing) (m.returning .done)

theorem hasUser_serve_cancel (handle : Nat) (owned : Belongings) (m : Machine α β) :
    (m.serve (.cancel handle owned)).hasUser = false := by
  rcases serve_cancel_control handle owned m with h | h <;> rw [hasUser, h]

/-- To cancel a subscription whose callback owns nothing comes to nothing else. -/
theorem serve_cancel (handle : Nat) (m : Machine α β) :
    m.serve (.cancel handle) = (m.withWorld (.cancel handle)).returning .done := by
  simp only [serve, drop, List.contains_nil, Bool.false_eq_true, if_false, ite_self]
  split <;> rfl

/-! ### Steps -/

/-- How the core goes on when something is done. -/
inductive Resumes (m : Machine α β) (answer : Answer α β) : Machine α β → Prop
  /-- Nothing is under way. -/
  | rest (hstack : m.stack = []) : Resumes m answer (m.answer answer)
  /-- The user goes on with a call. -/
  | calling {call : Call α β} {turn : Option (Target × Nat)} {below : List (Frame α β)}
    (hstack : m.stack = .calling call turn :: below) :
    Resumes m answer (m.answer answer)
  | closing {result : Answer α β} {below : List (Frame α β)}
    (hstack : m.stack = .closing result :: below) :
    Resumes m answer ({ m with stack := below }.closeTick result)
  | drain {view : ViewId} {views : List ViewId} {result : Answer α β} {below : List (Frame α β)}
    (hstack : m.stack = .draining (view :: views) result :: below) :
    Resumes m answer ({ m with stack := .draining views result :: below }.runDeferred view)
  | drained {result : Answer α β} {below : List (Frame α β)}
    (hstack : m.stack = .draining [] result :: below) :
    Resumes m answer ({ m with stack := below }.returning result)
  /-- Who held the ticket is gone. -/
  | skipDelivery {source : SourceId} {event : Event α} {ticket : Nat} {tickets : List Nat}
    {below : List (Frame α β)}
    (hstack : m.stack = .delivering source event (ticket :: tickets) :: below)
    (hnone : m.world.sourceListener? source ticket = none) :
    Resumes m answer
      ({ m with stack := .delivering source event tickets :: below }.returning .done)
  | callListener {source : SourceId} {event : Event α} {ticket key : Nat} {tickets : List Nat}
    {below : List (Frame α β)}
    (hstack : m.stack = .delivering source event (ticket :: tickets) :: below)
    (hlistener : m.world.sourceListener? source ticket = some (.callback key)) :
    Resumes m answer
      ({ m with stack := .delivering source event tickets :: below }.call (.sourceEvent key event)
        (some (.source source, ticket)))
  | hear {source : SourceId} {event : Event α} {ticket : Nat} {tickets : List Nat} {view : ViewId}
    {slot : Nat} {below : List (Frame α β)}
    (hstack : m.stack = .delivering source event (ticket :: tickets) :: below)
    (hlistener : m.world.sourceListener? source ticket = some (.input view slot)) :
    Resumes m answer
      ({ m with stack := .delivering source event tickets :: below }.hear view slot event)
  | delivered {source : SourceId} {event : Event α} {below : List (Frame α β)}
    (hstack : m.stack = .delivering source event [] :: below) :
    Resumes m answer ({ m with stack := below }.returning .done)
  /-- Who held the ticket is gone. -/
  | skipAnnouncement {view : ViewId} {event : ViewEvent β} {ticket : Nat} {tickets : List Nat}
    {below : List (Frame α β)}
    (hstack : m.stack = .announcing view event (ticket :: tickets) :: below)
    (hnone : m.world.viewListener? view ticket = none) :
    Resumes m answer ({ m with stack := .announcing view event tickets :: below }.returning .done)
  | callViewer {view : ViewId} {event : ViewEvent β} {ticket key : Nat} {tickets : List Nat}
    {below : List (Frame α β)}
    (hstack : m.stack = .announcing view event (ticket :: tickets) :: below)
    (hlistener : m.world.viewListener? view ticket = some key) :
    Resumes m answer
      ({ m with stack := .announcing view event tickets :: below }.call (.viewEvent key event)
        (some (.view view, ticket)))
  | announced {view : ViewId} {event : ViewEvent β} {below : List (Frame α β)}
    (hstack : m.stack = .announcing view event [] :: below) :
    Resumes m answer ({ m with stack := below }.returning .done)
  | fail {view : ViewId} {error : SourceError} {errors : List SourceError}
    {below : List (Frame α β)} (hstack : m.stack = .failing view (error :: errors) :: below) :
    Resumes m answer (({ m with stack := .failing view errors :: below }.push
      (.announcing view (.failed error) (m.world.viewTickets view))).returning .done)
  | compose {view : ViewId} {below : List (Frame α β)}
    (hstack : m.stack = .failing view [] :: below) :
    Resumes m answer ({ m with stack := below }.composeIfDue view)
  | composed {view : ViewId} {value : β} {below : List (Frame α β)}
    (hstack : m.stack = .composing view :: below) (hanswer : answer = .composed value) :
    Resumes m answer (({ m with stack := below }.withWorld
      (.modifyView view fun v ↦ { v with lent := false })).becomeReady view value)
  | notComposed {view : ViewId} {below : List (Frame α β)}
    (hstack : m.stack = .composing view :: below) (hanswer : ∀ value, answer ≠ .composed value) :
    Resumes m answer (({ m with stack := below }.withWorld
      (.modifyView view fun v ↦ { v with lent := false })).settle view)
  | settle {view : ViewId} {below : List (Frame α β)} (hstack : m.stack = .settling view :: below) :
    Resumes m answer ({ m with stack := below }.settle view)
  | release {view : ViewId} {below : List (Frame α β)} (hstack : m.stack = .holding view :: below) :
    Resumes m answer (({ m with stack := below }.release view).returning answer)
  | subscribed {source : SourceId} {ticket : Nat} {below : List (Frame α β)}
    (hstack : m.stack = .subscribing (.source source) ticket :: below) :
    Resumes m answer (({ m with stack := below }.withWorld
      (.addHandle (.source source) ticket)).returning (.subscribed m.world.handles.length))
  | subscribedView {view : ViewId} {ticket : Nat} {below : List (Frame α β)}
    (hstack : m.stack = .subscribing (.view view) ticket :: below) :
    Resumes m answer ((({ m with stack := below }.withWorld
      (.addHandle (.view view) ticket)).release view).returning
        (.subscribed m.world.handles.length))
  | connect {view : ViewId} {input : SourceId × Nat} {inputs : List (SourceId × Nat)}
    {below : List (Frame α β)} (hstack : m.stack = .connecting view (input :: inputs) :: below) :
    Resumes m answer
      ({ m with stack := .connecting view inputs :: below }.connect view input.1 input.2)
  | connected {view : ViewId} {below : List (Frame α β)}
    (hstack : m.stack = .connecting view [] :: below) :
    Resumes m answer ({ m with stack := below }.requestCompose view)
  | built {view : ViewId} {below : List (Frame α β)} (hstack : m.stack = .building view :: below) :
    Resumes m answer (({ m with stack := below }.withWorld
      (.modifyView view fun v ↦ { v with owned := true })).returning (.built view))
  /-- The feed was for one item. -/
  | fed {rest : Feed α} {accepted : Bool} {result : FeedResult} {below : List (Frame α β)}
    (hstack : m.stack = .feeding rest :: below) (hanswer : answer = .accepted accepted)
    (hnoted : rest.note accepted = .inl result) :
    Resumes m answer ({ m with stack := below }.returning (.polled (.finished result)))
  | feed {rest rest' : Feed α} {below : List (Frame α β)}
    (hstack : m.stack = .feeding rest :: below)
    (hgoes : (∃ accepted, answer = .accepted accepted ∧ rest.note accepted = .inr rest') ∨
      (∀ accepted, answer ≠ .accepted accepted) ∧ rest' = rest) :
    Resumes m answer ({ m with stack := below }.feed rest')

theorem resumes (answer : Answer α β) (m : Machine α β) : m.Resumes answer (m.resume answer) := by
  unfold resume
  split
  case h_1 hstack => exact .rest hstack
  case h_2 hstack => exact .calling hstack
  case h_3 hstack => exact .closing hstack
  case h_4 hstack => exact .drained hstack
  case h_5 hstack => exact .drain hstack
  case h_6 hstack => exact .delivered hstack
  case h_7 source event ticket tickets below hstack =>
    dsimp only
    split
    case h_1 hnone => exact .skipDelivery hstack hnone
    case h_2 hlistener => exact .callListener hstack hlistener
    case h_3 hlistener => exact .hear hstack hlistener
  case h_8 hstack => exact .announced hstack
  case h_9 view event ticket tickets below hstack =>
    dsimp only
    split
    case h_1 hnone => exact .skipAnnouncement hstack hnone
    case h_2 hlistener => exact .callViewer hstack hlistener
  case h_10 hstack => exact .compose hstack
  case h_11 hstack => exact .fail hstack
  case h_12 view below hstack =>
    dsimp only
    split
    case h_1 => exact .composed hstack rfl
    case h_2 hanswer => exact .notComposed hstack hanswer
  case h_13 hstack => exact .settle hstack
  case h_14 hstack => exact .release hstack
  case h_15 target ticket below hstack =>
    cases target with
    | source source => exact .subscribed hstack
    | view view => exact .subscribedView hstack
  case h_16 hstack => exact .connected hstack
  case h_17 hstack => exact .connect hstack
  case h_18 hstack => exact .built hstack
  case h_19 rest below hstack =>
    dsimp only
    split
    case h_1 accepted =>
      split
      case h_1 hnoted => exact .fed hstack rfl hnoted
      case h_2 hnoted => exact .feed hstack (.inl ⟨accepted, rfl, hnoted⟩)
    case h_2 hanswer => exact .feed hstack (.inr ⟨hanswer, rfl⟩)

/-- How an operation is given up. -/
inductive GivesUp (m : Machine α β) (message : String) : Machine α β → Prop
  /-- Nothing is under way any more. -/
  | rest (hstack : m.stack = []) : GivesUp m message (m.tell (.raised message))
  /-- The user can go on after all. -/
  | calling {call : Call α β} {turn : Option (Target × Nat)} {below : List (Frame α β)}
    (hstack : m.stack = .calling call turn :: below) :
    GivesUp m message (m.tell (.raised message))
  | closing {result : Answer α β} {below : List (Frame α β)}
    (hstack : m.stack = .closing result :: below) :
    GivesUp m message ({ m with stack := below }.withWorld .abandonTick)
  | draining {views : List ViewId} {result : Answer α β} {below : List (Frame α β)}
    (hstack : m.stack = .draining views result :: below) :
    GivesUp m message ({ m with stack := below }.withWorld (.unschedule views))
  | composing {view : ViewId} {below : List (Frame α β)}
    (hstack : m.stack = .composing view :: below) :
    GivesUp m message ({ m with stack := below }.withWorld
      (.modifyView view fun v ↦ { v with lent := false }))
  | holding {view : ViewId} {below : List (Frame α β)} (hstack : m.stack = .holding view :: below) :
    GivesUp m message ({ m with stack := below }.release view)
  | building {view : ViewId} {below : List (Frame α β)}
    (hstack : m.stack = .building view :: below) :
    GivesUp m message ({ m with stack := below }.release view)
  | subscribing {source : SourceId} {ticket : Nat} {below : List (Frame α β)}
    (hstack : m.stack = .subscribing (.source source) ticket :: below) :
    GivesUp m message ({ m with stack := below }.withWorld (.unregister (.source source) ticket))
  | subscribingView {view : ViewId} {ticket : Nat} {below : List (Frame α β)}
    (hstack : m.stack = .subscribing (.view view) ticket :: below) :
    GivesUp m message
      (({ m with stack := below }.withWorld (.unregister (.view view) ticket)).release view)
  | pop {frame : Frame α β} {below : List (Frame α β)} (hstack : m.stack = frame :: below)
    (hframe : frame.leavesNothing) : GivesUp m message { m with stack := below }

theorem givesUp (message : String) (m : Machine α β) : m.GivesUp message (m.giveUp message) := by
  cases hstack : m.stack with
  | nil =>
    simp only [giveUp, hstack]
    exact .rest hstack
  | cons frame below =>
    simp only [giveUp, hstack]
    cases frame with
    | calling call turn => exact .calling hstack
    | closing result => exact .closing hstack
    | draining views result => exact .draining hstack
    | composing view => exact .composing hstack
    | holding view => exact .holding hstack
    | building view => exact .building hstack
    | subscribing target ticket =>
      cases target with
      | source source => exact .subscribing hstack
      | view view => exact .subscribingView hstack
    | delivering _ _ _ | announcing _ _ _ | failing _ _ | settling _ | connecting _ _ | feeding _ =>
      exact .pop hstack rfl

section Move

variable {m : Machine α β}

/-- A property of what comes of it when a callback is to be ended. -/
theorem serve_of_ends {motive : Machine α β → Prop} {request : Request α β} (hends : request.ends)
    (hrefused : motive m)
    (hended : ∀ call turn below control, m.stack = .calling call turn :: below →
      (∀ heard, control ≠ .user heard) → motive { m with stack := below, control }) :
    motive (m.serve request) := by
  cases request with
  | finish =>
    simp only [serve]
    split
    case h_1 hstack | h_2 hstack => exact hended _ _ _ _ hstack (by simp)
    case h_3 => exact hrefused
  | compose value | raise message =>
    simp only [serve]
    split
    case h_1 hstack => exact hended _ _ _ _ hstack (by simp)
    case h_2 => exact hrefused
  | _ => cases hends

/-- A property of what comes of a move, by who acts. -/
theorem move_of {motive : Machine α β → Prop} (move : Move α β) (hidle : motive m)
    (hserve : ∀ request, move = .request request → m.hasUser → motive (m.serve request))
    (hresume : ∀ answer, move = .advance → m.control = .returning answer →
      motive (m.resume answer))
    (hgiveUp : ∀ message, move = .advance → m.control = .unwinding message →
      motive (m.giveUp message)) :
    motive (m.move move) := by
  cases move with
  | request request =>
    simp only [Machine.move, submit]
    split
    case h_1 hcontrol => exact hserve request rfl (by simp [hasUser, hcontrol])
    case h_2 => exact hidle
  | advance =>
    simp only [Machine.move, advance]
    split
    case h_1 => exact hidle
    case h_2 answer hcontrol => exact hresume answer rfl hcontrol
    case h_3 message hcontrol => exact hgiveUp message rfl hcontrol

end Move

end Machine

end LiveRecord.Flow
