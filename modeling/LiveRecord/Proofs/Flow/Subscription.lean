import LiveRecord.Proofs.Flow.Cancellation
import LiveRecord.Proofs.Flow.Issue

/-!
# Subscriptions and their handles

To subscribe registers a callback, and hands over a handle when the callback has heard for the first
time. The handle names the registration that was made then (`Machine.made_of_mem`), and no other
handle names that one (`Machine.eq_of_subscription`). To cancel a subscription takes its registration
away and no other one, and once is all it does, whatever happens later (`Machine.governs_run`).
-/

set_option autoImplicit false

namespace LiveRecord.Flow

variable {α β : Type}

/-- What a handle names. -/
def Handle.subscription (handle : Handle) : Target × Nat := (handle.target, handle.ticket)

/-- The subscription whose callback hears for the first time. -/
def Frame.subscription? : Frame α β → Option (Target × Nat)
  | subscribing target ticket => some (target, ticket)
  | _ => none

theorem World.Issued.lt_next {world : World α β} {target : Target} {ticket : Nat}
    (h : world.Issued target ticket) : ticket < (world.registry target).next := by
  obtain ⟨next, hnext, hticket⟩ := h
  cases target with
  | source source =>
    obtain ⟨s, hs, rfl⟩ := Option.map_eq_some_iff.mp hnext
    simpa [World.registry, hs] using hticket
  | view view =>
    obtain ⟨v, hv, rfl⟩ := Option.map_eq_some_iff.mp hnext
    simpa [World.registry, hv, Registry.map] using hticket

namespace Machine

variable {m m' base : Machine α β} {move : Move α β}

/-- The subscriptions that have no handle yet, the innermost one first. -/
def entrants (m : Machine α β) : List (Target × Nat) := m.stack.filterMap (·.subscription?)

/-- The subscriptions in use, with a handle or without. -/
def subscriptions (m : Machine α β) : List (Target × Nat) :=
  m.entrants ++ m.world.handles.map (·.subscription)

/-! ### What a move does to subscriptions -/

/-- What becomes of subscriptions in a move. Some are cancelled at a request or one is detached, a
subscription is entered when its callback is registered, and then its handle is handed over, or it is
turned away. -/
inductive Signs (m : Machine α β) : Move α β → Machine α β → Prop
  | keep {move : Move α β} {m' : Machine α β} (hhandles : m'.world.handles = m.world.handles)
      (hentrants : m'.entrants = m.entrants) : Signs m move m'
  | cancel {handle : Nat} {owned : Belongings} {m' : Machine α β} (huser : m.hasUser)
      (hmarks : World.Marks .cancelled (handle :: owned.handles) m.world m'.world)
      (hentrants : m'.entrants = m.entrants) : Signs m (.request (.cancel handle owned)) m'
  | detach {handle : Nat} {m' : Machine α β} (huser : m.hasUser)
      (hmarks : World.Marks .detached [handle] m.world m'.world)
      (hentrants : m'.entrants = m.entrants) : Signs m (.request (.detach handle)) m'
  | enter {target : Target} {key : Nat} {m' : Machine α β}
      (hregistry : m'.world.registry target = (m.world.registry target).register (.callback key))
      (hhandles : m'.world.handles = m.world.handles)
      (hentrants : m'.entrants = (target, (m.world.registry target).next) :: m.entrants) :
      Signs m (.request (.subscribe target key)) m'
  | hand {move : Move α β} {m' : Machine α β} {target : Target} {ticket : Nat}
      (hentrants : m.entrants = (target, ticket) :: m'.entrants)
      (hhandles : m'.world.handles = (m.world.addHandle target ticket).handles) : Signs m move m'
  | turnAway {move : Move α β} {m' : Machine α β} {target : Target} {ticket : Nat}
      (hentrants : m.entrants = (target, ticket) :: m'.entrants)
      (hhandles : m'.world.handles = m.world.handles) : Signs m move m'

theorem entrants_eq_of_books (h : m'.books = base.books) : m'.entrants = base.entrants := by
  have hwriters (m : Machine α β) : m.books.writers.filterMap (·.subscription?) = m.entrants := by
    show (m.stack.filter (·.writes)).filterMap (·.subscription?) = _
    rw [List.filterMap_filter]
    refine List.filterMap_congr fun frame _ ↦ ?_
    cases frame <;> rfl
  rw [← hwriters, ← hwriters, h]

theorem entrants_release (view : ViewId) (m : Machine α β) :
    (m.release view).entrants = m.entrants := by
  rw [entrants, release_stack, entrants]

/-- Assumes: a machine with the same books, in which nothing has become of subscriptions. -/
theorem Signs.of_books (base : Machine α β) (hbooks : m'.books = base.books)
    (hhandles : base.world.handles = m.world.handles) (hentrants : base.entrants = m.entrants) :
    m.Signs move m' :=
  .keep ((congrArg Books.handles hbooks : _).trans hhandles)
    ((entrants_eq_of_books hbooks).trans hentrants)

/-- Assumes: a view is let go when nothing has become of subscriptions. -/
theorem Signs.of_release (base : Machine α β) (view : ViewId)
    (hworld : m'.world = (base.release view).world) (hstack : m'.stack = (base.release view).stack)
    (hhandles : base.world.handles = m.world.handles) (hentrants : base.entrants = m.entrants) :
    m.Signs move m' := by
  refine .keep ?_ ?_
  · rw [hworld, handles_release, hhandles]
  · rw [entrants, hstack]
    exact (entrants_release view base).trans hentrants

theorem entrants_cons {frame : Frame α β} {below : List (Frame α β)}
    (hstack : m.stack = frame :: below) (hframe : frame.subscription? = none) :
    ({ m with stack := below } : Machine α β).entrants = m.entrants := by
  rw [entrants, entrants, hstack, List.filterMap_cons_none hframe]

theorem entrants_subscribing {target : Target} {ticket : Nat} {below : List (Frame α β)}
    (hstack : m.stack = .subscribing target ticket :: below) :
    m.entrants = (target, ticket) :: ({ m with stack := below } : Machine α β).entrants := by
  rw [entrants, hstack]
  rfl

theorem signs_subscribe (target : Target) (key : Nat) :
    m.Signs (.request (.subscribe target key)) (m.subscribe target key) := by
  have hnext {view : ViewId} {v : View α β} (hlive : m.world.liveView? view = some v) :
      (m.world.registry (.view view)).next = v.listeners.next := by
    obtain ⟨hview, -⟩ := Option.filter_eq_some_iff.mp hlive
    simp [World.registry, hview, Registry.map]
  have hregistry {view : ViewId} {v : View α β} (hlive : m.world.liveView? view = some v) :
      (m.world.registerAtView view key).registry (.view view) =
        (m.world.registry (.view view)).register (.callback key) := by
    obtain ⟨hview, -⟩ := Option.filter_eq_some_iff.mp hlive
    simp [World.registry, World.registerAtView, World.modifyView, hview]
  have hsubscribes := m.subscribes target key
  generalize m.subscribe target key = m' at hsubscribes ⊢
  cases hsubscribes with
  | unknown => exact .keep rfl rfl
  | @source source s hs =>
    refine .enter ?_ rfl ?_
    · simp [call, tell, push, withWorld, World.registry, World.registerAtSource,
        World.modifySource, hs]
    · simp [entrants, call, tell, push, withWorld, Frame.subscription?, World.registry, hs]
  | silent hlive | view hlive =>
    refine .enter (hregistry hlive) rfl ?_
    rw [hnext hlive]
    rfl

theorem marks_detach (handle : Nat) (world : World α β) :
    World.Marks .detached [handle] world (world.detach handle) := by
  intro other
  rw [World.detach, World.modifyHandle, List.getElem?_modify]
  by_cases hother : handle = other
  · subst hother
    cases hown : world.handles[handle]? with
    | none => exact .inl rfl
    | some own =>
      obtain ⟨target, ticket, state⟩ := own
      cases state with
      | active => exact .inr ⟨List.mem_singleton_self handle, _, rfl, rfl, by simp⟩
      | cancelled | detached => exact .inl (by simp)
  · exact .inl (by simp [hother])

theorem signs_serve (huser : m.hasUser) (request : Request α β) :
    m.Signs (.request request) (m.serve request) := by
  cases request with
  | newSource name => exact .of_books m (World.books_addSource name) rfl rfl
  | emit source event => exact .of_books m (books_emit source event m) rfl rfl
  | build sources composer =>
    simp only [serve, build]
    split <;> exact .keep rfl rfl
  | subscribe target key => exact signs_subscribe target key
  | cancel handle owned =>
    exact .cancel huser (marks_serve_cancel handle owned m)
      (congrArg (List.filterMap _) (serve_cancel_stack handle owned m))
  | detach handle => exact .detach huser (marks_detach handle m.world) rfl
  | dispose view => exact .keep (World.handles_dispose view m.world) rfl
  | dropView view => exact .of_release _ view rfl rfl rfl rfl
  | enterTick => exact .keep rfl rfl
  | leaveTick => exact .of_books m (books_closeTick .done m) rfl rfl
  | abandonTick => exact .of_books m (books_abandonTick m) rfl rfl
  | poll feed => exact .of_books m (books_feed feed m) rfl rfl
  | finish | compose value | raise message =>
    exact serve_of_ends (motive := m.Signs _) rfl (.keep rfl rfl)
      fun call turn below control hstack _ ↦ .keep rfl (entrants_cons hstack rfl)

theorem signs_resume (answer : Answer α β) : m.Signs move (m.resume answer) := by
  have hresumes := m.resumes answer
  generalize m.resume answer = m' at hresumes ⊢
  cases hresumes with
  | rest hstack | calling hstack => exact .keep rfl rfl
  | drained hstack | skipDelivery hstack | callListener hstack | delivered hstack
  | skipAnnouncement hstack | callViewer hstack | announced hstack | fail hstack
  | built hstack | fed hstack =>
    have hleft := entrants_cons hstack rfl
    exact .keep rfl hleft
  | closing hstack =>
    have hleft := entrants_cons hstack rfl
    exact .of_books _ (books_closeTick _ _) rfl hleft
  | drain hstack =>
    have hleft := entrants_cons hstack rfl
    exact .of_books _ (books_runDeferred _ _) rfl hleft
  | hear hstack =>
    have hleft := entrants_cons hstack rfl
    exact .of_books _ (books_hear _ _ _ _) rfl hleft
  | compose hstack =>
    have hleft := entrants_cons hstack rfl
    exact .of_books _ (books_composeIfDue _ _) rfl hleft
  | composed hstack =>
    have hleft := entrants_cons hstack rfl
    exact .of_books _ (books_becomeReady _ _ _) rfl hleft
  | notComposed hstack | settle hstack =>
    have hleft := entrants_cons hstack rfl
    exact .of_books _ (books_settle _ _) rfl hleft
  | release hstack =>
    have hleft := entrants_cons hstack rfl
    exact .of_release _ _ rfl rfl rfl hleft
  | subscribed hstack =>
    have hentrants := entrants_subscribing hstack
    exact .hand hentrants rfl
  | @subscribedView view ticket below hstack =>
    let added : Machine α β :=
      { m with stack := below }.withWorld (.addHandle (.view view) ticket)
    have hkept : (added.release view).entrants = added.entrants := entrants_release view added
    exact .hand (hkept ▸ entrants_subscribing hstack) (handles_release view added)
  | connect hstack =>
    have hleft := entrants_cons hstack rfl
    simp only [connect]
    split
    · exact .keep rfl hleft
    · exact .of_books _ (books_hear _ _ _ _) rfl hleft
  | connected hstack =>
    have hleft := entrants_cons hstack rfl
    exact .of_books _ (books_requestCompose _ _) rfl hleft
  | feed hstack =>
    have hleft := entrants_cons hstack rfl
    exact .of_books _ (books_feed _ _) rfl hleft

theorem signs_giveUp (message : String) : m.Signs move (m.giveUp message) := by
  have hgivesUp := m.givesUp message
  generalize m.giveUp message = m' at hgivesUp ⊢
  cases hgivesUp with
  | rest hstack | calling hstack => exact .keep rfl rfl
  | closing hstack =>
    have hleft := entrants_cons hstack rfl
    exact .of_books _ (books_abandonTick _) rfl hleft
  | draining hstack =>
    have hleft := entrants_cons hstack rfl
    exact .of_books _ (World.books_unschedule _ _) rfl hleft
  | composing hstack =>
    have hleft := entrants_cons hstack rfl
    exact .keep rfl hleft
  | holding hstack | building hstack =>
    have hleft := entrants_cons hstack rfl
    exact .of_release _ _ rfl rfl rfl hleft
  | subscribing hstack =>
    have hentrants := entrants_subscribing hstack
    exact .turnAway hentrants rfl
  | @subscribingView view ticket below hstack =>
    let gone : Machine α β :=
      { m with stack := below }.withWorld (.unregister (.view view) ticket)
    have hkept : (gone.release view).entrants = gone.entrants := entrants_release view gone
    exact .turnAway (hkept ▸ entrants_subscribing hstack) (handles_release view gone)
  | @pop frame below hstack hframe =>
    have hnone : frame.subscription? = none := by
      cases frame <;> first | rfl | cases hframe
    have hleft := entrants_cons hstack hnone
    exact .keep rfl hleft

theorem signs_move (move : Move α β) (m : Machine α β) : m.Signs move (m.move move) :=
  move_of (motive := (m.Signs move ·)) move (.keep rfl rfl)
    (fun request hmove huser ↦ hmove ▸ signs_serve huser request) (fun answer _ _ ↦ signs_resume answer)
    (fun message _ _ ↦ signs_giveUp message)

/-! ### No two handles name one registration -/

theorem subscription_mem {handle : Nat} {h : Handle} (hhandle : m.world.handles[handle]? = some h) :
    h.subscription ∈ m.subscriptions :=
  List.mem_append_right _ (List.mem_map_of_mem (List.mem_of_getElem? hhandle))

/-- Only tickets that were given out are in use. -/
theorem Known.lt_next (h : m.Known) {target : Target} {ticket : Nat}
    (hmem : (target, ticket) ∈ m.subscriptions) : ticket < (m.world.registry target).next := by
  rcases List.mem_append.mp hmem with hentrant | hhandle
  · obtain ⟨frame, hframe, hsome⟩ := List.mem_filterMap.mp hentrant
    have hknown := h.frames frame hframe
    cases frame with
    | subscribing other otherTicket =>
      obtain ⟨rfl, rfl⟩ := Prod.mk.inj (Option.some.inj hsome)
      exact hknown.lt_next
    | _ => simp [Frame.subscription?] at hsome
  · obtain ⟨handle, hthere, heq⟩ := List.mem_map.mp hhandle
    obtain ⟨rfl, rfl⟩ := Prod.mk.inj heq
    exact (h.world.handles handle hthere).lt_next

theorem map_subscription_of_marks {world world' : World α β} {state : HandleState}
    {named : List Nat} (hmarks : World.Marks state named world world') :
    world'.handles.map (·.subscription) = world.handles.map (·.subscription) := by
  ext handle subscription
  rw [List.getElem?_map, List.getElem?_map]
  rcases hmarks handle with hsame | ⟨-, own, hown, -, hmarked⟩
  · rw [hsame]
  · rw [hown, hmarked]
    rfl

/-- The subscriptions after a move: one may be new, and one may be turned away. -/
theorem Signs.subscriptions (h : m.Signs move m') :
    m'.subscriptions.Perm m.subscriptions ∨
      (∃ target key, move = .request (.subscribe target key) ∧
        m'.world.registry target = (m.world.registry target).register (.callback key) ∧
        m'.subscriptions = (target, (m.world.registry target).next) :: m.subscriptions) ∨
      ∃ gone, m.subscriptions = gone :: m'.subscriptions := by
  cases h with
  | keep hhandles hentrants =>
    refine .inl (.of_eq ?_)
    rw [Machine.subscriptions, hhandles, hentrants, Machine.subscriptions]
  | cancel _ hmarks hentrants | detach _ hmarks hentrants =>
    refine .inl (.of_eq ?_)
    rw [Machine.subscriptions, hentrants, map_subscription_of_marks hmarks, Machine.subscriptions]
  | @enter target key _ hregistry hhandles hentrants =>
    refine .inr (.inl ⟨target, key, rfl, hregistry, ?_⟩)
    rw [Machine.subscriptions, hentrants, hhandles, List.cons_append, Machine.subscriptions]
  | @hand _ _ target ticket hentrants hhandles =>
    refine .inl ?_
    rw [Machine.subscriptions, Machine.subscriptions, hentrants, hhandles, World.addHandle,
      List.map_append, ← List.append_assoc]
    exact List.perm_append_singleton (target, ticket) _
  | @turnAway _ _ target ticket hentrants hhandles =>
    refine .inr (.inr ⟨(target, ticket), ?_⟩)
    rw [Machine.subscriptions, hentrants, ← hhandles, List.cons_append, Machine.subscriptions]

theorem nodup_subscriptions (moves : List (Move α β)) :
    (run moves ({} : Machine α β)).subscriptions.Nodup := by
  induction moves using List.reverseRecOn with
  | nil => exact List.nodup_nil
  | append_singleton earlier last ih =>
    rw [run_append earlier [last]]
    rcases (signs_move last (run earlier {})).subscriptions with
      hperm | ⟨target, key, -, -, hnew⟩ | ⟨gone, hgone⟩
    · exact hperm.nodup_iff.mpr ih
    · refine hnew ▸ List.nodup_cons.mpr ⟨fun hmem ↦ ?_, ih⟩
      exact Nat.lt_irrefl _ ((known_run earlier).lt_next hmem)
    · exact (List.nodup_cons.mp (hgone ▸ ih)).2

/-- Two handles that name one registration are the same one. -/
theorem eq_of_subscription {moves : List (Move α β)} {handle other : Nat} {h h' : Handle}
    (hhandle : (run moves ({} : Machine α β)).world.handles[handle]? = some h)
    (hother : (run moves ({} : Machine α β)).world.handles[other]? = some h')
    (hsame : h'.subscription = h.subscription) : other = handle := by
  have hnodup := (List.nodup_append.mp (nodup_subscriptions moves)).2.1
  have hat {k : Nat} {own : Handle}
      (hk : (run moves ({} : Machine α β)).world.handles[k]? = some own) :
      ((run moves ({} : Machine α β)).world.handles.map (·.subscription))[k]? =
        some own.subscription := by
    rw [List.getElem?_map, hk]
    rfl
  obtain ⟨hlength, -⟩ := List.getElem?_eq_some_iff.mp (hat hother)
  exact (List.getElem?_inj hlength hnodup).mp ((hat hother).trans (hsame ▸ (hat hhandle).symm))

/-! ### Where a subscription comes from -/

/-- The run asked for a subscription, and the registration that was made then got the ticket. -/
def Made (moves : List (Move α β)) (target : Target) (ticket : Nat) : Prop :=
  ∃ early key late, moves = early ++ .request (.subscribe target key) :: late ∧
    ((run early ({} : Machine α β)).world.registry target).next = ticket ∧
    (run (early ++ [.request (.subscribe target key)]) ({} : Machine α β)).world.registry target =
      ((run early ({} : Machine α β)).world.registry target).register (.callback key)

theorem Made.append {moves : List (Move α β)} {target : Target} {ticket : Nat}
    (h : Made moves target ticket) (last : Move α β) : Made (moves ++ [last]) target ticket := by
  obtain ⟨early, key, late, rfl, hmade⟩ := h
  exact ⟨early, key, late ++ [last], by simp, hmade⟩

/-- Whatever subscription is in use was asked for. -/
theorem made_of_mem {moves : List (Move α β)} {target : Target} {ticket : Nat}
    (hmem : (target, ticket) ∈ (run moves ({} : Machine α β)).subscriptions) :
    Made moves target ticket := by
  induction moves using List.reverseRecOn with
  | nil => exact absurd hmem List.not_mem_nil
  | append_singleton earlier last ih =>
    rw [run_append earlier [last]] at hmem
    rcases (signs_move last (run earlier {})).subscriptions with
      hperm | ⟨other, key, rfl, hregistry, hnew⟩ | ⟨gone, hgone⟩
    · exact (ih (hperm.mem_iff.mp hmem)).append last
    · rcases List.mem_cons.mp (hnew ▸ hmem) with heq | hold
      · obtain ⟨rfl, rfl⟩ := Prod.mk.inj heq
        exact ⟨earlier, key, [], rfl, rfl, (run_append earlier _ {}).symm ▸ hregistry⟩
      · exact (ih hold).append _
    · exact (ih (hgone ▸ List.mem_cons_of_mem _ hmem)).append last

/-! ### Subscriptions that are not active any more -/

/-- A handle goes on to name its registration, and is not active again once it is not. -/
theorem Signs.exists_handle (hsigns : m.Signs move m') {handle : Nat} {h : Handle}
    (hhandle : m.world.handles[handle]? = some h) :
    ∃ h', m'.world.handles[handle]? = some h' ∧ h'.subscription = h.subscription ∧
      (h.isActive = false → h' = h) := by
  cases hsigns with
  | keep hhandles _ | turnAway _ hhandles => exact ⟨h, hhandles ▸ hhandle, rfl, fun _ ↦ rfl⟩
  | enter _ hhandles _ => exact ⟨h, hhandles ▸ hhandle, rfl, fun _ ↦ rfl⟩
  | cancel _ hmarks _ | detach _ hmarks _ =>
    rcases hmarks handle with hsame | ⟨-, own, hown, hactive, hmarked⟩
    · exact ⟨h, hsame.trans hhandle, rfl, fun _ ↦ rfl⟩
    · obtain rfl := Option.some.inj (hhandle.symm.trans hown)
      exact ⟨_, hmarked, rfl, fun hnot ↦ absurd hactive (by simp [hnot])⟩
  | hand hentrants hhandles =>
    refine ⟨h, ?_, rfl, fun _ ↦ rfl⟩
    rw [hhandles, World.addHandle,
      List.getElem?_append_left (List.getElem?_eq_some_iff.mp hhandle).1, hhandle]

theorem handle_run_of_not_active {handle : Nat} {h : Handle} (hactive : h.isActive = false)
    (moves : List (Move α β)) (hhandle : m.world.handles[handle]? = some h) :
    (m.run moves).world.handles[handle]? = some h := by
  induction moves generalizing m with
  | nil => exact hhandle
  | cons move rest ih =>
    obtain ⟨h', hhandle', -, hstays⟩ := (signs_move move m).exists_handle hhandle
    exact ih (hstays hactive ▸ hhandle')

/-- After it was cancelled, a subscription is not active. -/
theorem exists_handle_serve_cancel {handle : Nat} {h : Handle} (owned : Belongings)
    (hhandle : m.world.handles[handle]? = some h) :
    ∃ h', (m.serve (.cancel handle owned)).world.handles[handle]? = some h' ∧
      h'.isActive = false := by
  cases hactive : h.isActive with
  | false => exact ⟨h, (marks_serve_cancel handle owned m).of_not_active hhandle hactive, hactive⟩
  | true =>
    obtain ⟨target, ticket, state⟩ := h
    obtain rfl : state = .active := by simpa [Handle.isActive] using hactive
    exact ⟨_, handle_serve_cancel owned hhandle, rfl⟩

/-- After it was detached, a subscription is not active. -/
theorem exists_handle_detach {world : World α β} {handle : Nat} {h : Handle}
    (hhandle : world.handles[handle]? = some h) :
    ∃ h', (world.detach handle).handles[handle]? = some h' ∧ h'.isActive = false := by
  obtain ⟨target, ticket, state⟩ := h
  cases state <;> simp [World.detach, World.modifyHandle, hhandle, Handle.isActive]

/-! ### How a handle comes to its state -/

/-- Where the state of a handle comes from in a move. -/
theorem Signs.state_cases (hsigns : m.Signs move m') {handle : Nat} {h : Handle}
    (hhandle : m'.world.handles[handle]? = some h) :
    m.world.handles[handle]? = some h ∨ h.state = .active ∨
      (∃ other owned, move = .request (.cancel other owned) ∧ m.hasUser ∧
        handle ∈ other :: owned.handles ∧ h.state = .cancelled ∧
          m.world.handles[handle]? = some { h with state := .active }) ∨
      (move = .request (.detach handle) ∧ m.hasUser ∧ h.state = .detached ∧
        m.world.handles[handle]? = some { h with state := .active }) := by
  have hbefore {state : HandleState} {own : Handle} (hown : m.world.handles[handle]? = some own)
      (hactive : own.isActive) (hmarked : m'.world.handles[handle]? = some { own with state }) :
      h.state = state ∧ m.world.handles[handle]? = some { h with state := .active } := by
    obtain rfl := Option.some.inj (hmarked.symm.trans hhandle)
    obtain ⟨target, ticket, before⟩ := own
    obtain rfl : before = .active := by simpa [Handle.isActive] using hactive
    exact ⟨rfl, hown⟩
  cases hsigns with
  | keep hhandles _ | turnAway _ hhandles | enter _ hhandles _ => exact .inl (hhandles ▸ hhandle)
  | cancel huser hmarks _ =>
    rcases hmarks handle with hsame | ⟨hnamed, own, hown, hactive, hmarked⟩
    · exact .inl (hsame ▸ hhandle)
    · obtain ⟨hstate, hactive⟩ := hbefore hown hactive hmarked
      exact .inr (.inr (.inl ⟨_, _, rfl, huser, hnamed, hstate, hactive⟩))
  | detach huser hmarks _ =>
    rcases hmarks handle with hsame | ⟨hnamed, own, hown, hactive, hmarked⟩
    · exact .inl (hsame ▸ hhandle)
    · obtain ⟨hstate, hactive⟩ := hbefore hown hactive hmarked
      obtain rfl := List.mem_singleton.mp hnamed
      exact .inr (.inr (.inr ⟨rfl, huser, hstate, hactive⟩))
  | hand _ hhandles =>
    rw [hhandles, World.addHandle, List.getElem?_append] at hhandle
    split at hhandle
    · exact .inl hhandle
    · obtain rfl := List.mem_singleton.mp (List.mem_of_getElem? hhandle)
      exact .inr (.inl rfl)

/-- The state of a handle is what the requests of the run have made of it. -/
structure Explains (moves : List (Move α β)) (handle : Nat) (h : Handle) : Prop where
  /-- Nobody has asked to cancel or to detach a subscription that is active. -/
  active : h.state = .active → ∀ (early late : List (Move α β)) (request : Request α β),
    moves = early ++ .request request :: late → (run early ({} : Machine α β)).hasUser →
      (∃ owned, request = .cancel handle owned) ∨ request = .detach handle →
        (run early ({} : Machine α β)).world.handles[handle]? = none
  /-- A subscription was cancelled at a request, its own or that of the one whose callback owned it.
  -/
  cancelled : h.state = .cancelled → ∃ early other owned late,
    moves = early ++ .request (.cancel other owned) :: late ∧
      (run early ({} : Machine α β)).hasUser ∧ handle ∈ other :: owned.handles ∧
        (run early ({} : Machine α β)).world.handles[handle]? = some { h with state := .active }
  detached : h.state = .detached → ∃ early late,
    moves = early ++ .request (.detach handle) :: late ∧
      (run early ({} : Machine α β)).hasUser ∧
        (run early ({} : Machine α β)).world.handles[handle]? = some { h with state := .active }

/-- Assumes: the user has asked to cancel the subscription or to detach it. -/
theorem not_active_of_asked {handle : Nat} {own h : Handle} {early late : List (Move α β)}
    {request : Request α β} (huser : (run early ({} : Machine α β)).hasUser)
    (hasked : (∃ owned, request = .cancel handle owned) ∨ request = .detach handle)
    (hown : (run early ({} : Machine α β)).world.handles[handle]? = some own)
    (hhandle : (run (early ++ .request request :: late) ({} : Machine α β)).world.handles[handle]? =
      some h) : h.isActive = false := by
  have hserved : (run early ({} : Machine α β)).move (.request request) =
      (run early ({} : Machine α β)).serve request := submit_eq_serve huser request
  obtain ⟨h', hhandle', hnot⟩ : ∃ h',
      ((run early ({} : Machine α β)).serve request).world.handles[handle]? = some h' ∧
        h'.isActive = false := by
    rcases hasked with ⟨owned, rfl⟩ | rfl
    · exact exists_handle_serve_cancel owned hown
    · exact exists_handle_detach hown
  rw [run_append, run_cons, hserved] at hhandle
  have hkept := handle_run_of_not_active hnot late hhandle'
  exact Option.some.inj (hhandle.symm.trans hkept) ▸ hnot

theorem explains_run {moves : List (Move α β)} {handle : Nat} {h : Handle}
    (hhandle : (run moves ({} : Machine α β)).world.handles[handle]? = some h) :
    Explains moves handle h where
  active hstate early late request hmoves huser hasked := by
    subst hmoves
    cases hown : (run early ({} : Machine α β)).world.handles[handle]? with
    | none => rfl
    | some own =>
      have hnot := not_active_of_asked huser hasked hown hhandle
      simp [Handle.isActive, hstate] at hnot
  cancelled hstate := by
    induction moves using List.reverseRecOn with
    | nil => simp at hhandle
    | append_singleton earlier last ih =>
      rw [run_append earlier [last]] at hhandle
      rcases (signs_move last (run earlier {})).state_cases hhandle with hsame | hactive |
        ⟨other, owned, rfl, huser, hnamed, -, hbefore⟩ | ⟨-, -, hdetached, -⟩
      · obtain ⟨early, other, owned, late, rfl, hrest⟩ := ih hsame
        exact ⟨early, other, owned, late ++ [last], by simp, hrest⟩
      · simp [hstate] at hactive
      · exact ⟨earlier, other, owned, [], rfl, huser, hnamed, hbefore⟩
      · simp [hstate] at hdetached
  detached hstate := by
    induction moves using List.reverseRecOn with
    | nil => simp at hhandle
    | append_singleton earlier last ih =>
      rw [run_append earlier [last]] at hhandle
      rcases (signs_move last (run earlier {})).state_cases hhandle with hsame | hactive |
        ⟨-, -, -, -, -, hcancelled, -⟩ | ⟨rfl, huser, -, hbefore⟩
      · obtain ⟨early, late, rfl, hrest⟩ := ih hsame
        exact ⟨early, late ++ [last], by simp, hrest⟩
      · simp [hstate] at hactive
      · simp [hstate] at hcancelled
      · exact ⟨earlier, [], rfl, huser, hbefore⟩

/-! ### What a handle is good for -/

/-- After the run the handle stands for one registration, and for no other one. -/
structure Governs (moves : List (Move α β)) (handle : Nat) (h : Handle) : Prop where
  /-- The registration was made when the subscription was asked for. -/
  made : Made moves h.target h.ticket
  /-- No other handle names it. -/
  alone : ∀ (other : Nat) (h' : Handle),
    (run moves ({} : Machine α β)).world.handles[other]? = some h' →
      h'.target = h.target → h'.ticket = h.ticket → other = handle
  /-- To cancel the subscription takes it away, and no other registration. -/
  cancels : ∀ target, ((run moves ({} : Machine α β)).world.cancel handle).registry target =
    if h.isActive ∧ target = h.target then
      ((run moves ({} : Machine α β)).world.registry target).remove h.ticket
    else (run moves ({} : Machine α β)).world.registry target
  /-- That is all that comes of a request to cancel it, if its callback owns nothing. -/
  plain : (run moves ({} : Machine α β)).serve (.cancel handle) =
    ((run moves ({} : Machine α β)).withWorld (.cancel handle)).returning .done
  /-- It goes whatever the callback owns. -/
  goes : h.isActive → ∀ owned,
    h.ticket ∉ (((run moves ({} : Machine α β)).serve (.cancel handle owned)).world.registry
      h.target).tickets
  /-- A subscription that is active stays so, or goes because a callback owns it, and its own
  registration with it. -/
  others : ∀ (owned : Belongings) (other : Nat) (target : Target) (ticket : Nat),
    (run moves ({} : Machine α β)).world.handles[other]? = some { target, ticket } →
      let m := (run moves ({} : Machine α β)).serve (.cancel handle owned)
      m.world.handles[other]? = some { target, ticket } ∨
        other ∈ handle :: owned.handles ∧
          m.world.handles[other]? = some { target, ticket, state := .cancelled } ∧
            ticket ∉ (m.world.registry target).tickets
  /-- Every other registration stays, but for inputs of views that are let go. -/
  spares : ∀ (owned : Belongings) (target : Target) (ticket : Nat),
    ticket ∈ ((run moves ({} : Machine α β)).world.registry target).tickets →
      let m := (run moves ({} : Machine α β)).serve (.cancel handle owned)
      ticket ∈ (m.world.registry target).tickets ∨
        (∃ other ∈ handle :: owned.handles,
          (run moves ({} : Machine α β)).world.handles[other]? = some { target, ticket } ∧
            m.world.handles[other]? = some { target, ticket, state := .cancelled }) ∨
        World.Unplugs target ticket (run moves ({} : Machine α β)).world m.world
  /-- The core raises exactly if something that goes with the callback is registered in a list from
  which a listener is being taken out. -/
  raises : ∀ owned,
    ((run moves ({} : Machine α β)).serve (.cancel handle owned)).isUnwinding ↔
      h.isActive ∧ (run moves ({} : Machine α β)).frees h.target h.ticket ∧
        Clashes [h.target] owned
          (((run moves ({} : Machine α β)).withWorld (.cancel handle)).returning .done)
  /-- None stays behind in its list, unless the core raises. -/
  clean : ∀ owned,
    ((run moves ({} : Machine α β)).serve (.cancel handle owned)).isUnwinding = false →
      ((run moves ({} : Machine α β)).serve (.cancel handle owned)).world.stranded =
        (run moves ({} : Machine α β)).world.stranded
  /-- To cancel it once more changes nothing, whenever that happens. -/
  once : (run moves ({} : Machine α β)).hasUser →
    ∀ (owned : Belongings) (later : List (Move α β)) (again : Belongings),
      let m := run (moves ++ .request (.cancel handle owned) :: later) ({} : Machine α β)
      m.serve (.cancel handle again) = m.returning .done

theorem governs_run {moves : List (Move α β)} {handle : Nat} {h : Handle}
    (hhandle : (run moves ({} : Machine α β)).world.handles[handle]? = some h) :
    Governs moves handle h where
  made := made_of_mem (subscription_mem hhandle)
  alone _ _ hother htarget hticket :=
    eq_of_subscription hhandle hother (Prod.ext htarget hticket)
  cancels := World.registry_cancel hhandle
  plain := serve_cancel handle _
  goes hactive owned := by
    obtain ⟨target, ticket, state⟩ := h
    obtain rfl : state = .active := by simpa [Handle.isActive] using hactive
    have hgiven := (known_run moves).lt_next (subscription_mem hhandle)
    exact (active_or_notMem_serve_cancel handle owned hhandle hgiven).resolve_left
      (by simp [handle_serve_cancel owned hhandle])
  others owned other target ticket hother := by
    have hgiven := (known_run moves).lt_next (subscription_mem hother)
    refine (active_or_notMem_serve_cancel handle owned hother hgiven).elim .inl fun hgone ↦ ?_
    rcases marks_serve_cancel handle owned (run moves {}) other with
      hsame | ⟨hnamed, own, hown, -, hmarked⟩
    · exact .inl (hsame.trans hother)
    · obtain rfl := Option.some.inj (hother.symm.trans hown)
      exact .inr ⟨hnamed, hmarked, hgone⟩
  spares owned target ticket hmem := (withdraws_serve_cancel handle owned _).spared hmem
  raises owned := by
    obtain ⟨target, ticket, state⟩ := h
    rw [isUnwinding_serve_cancel_iff]
    simp only [hhandle, Handle.isActive, Option.some.injEq, Handle.mk.injEq, beq_iff_eq]
    constructor
    · rintro ⟨_, _, ⟨rfl, rfl, rfl⟩, hclashes⟩
      exact ⟨rfl, hclashes⟩
    · rintro ⟨rfl, hclashes⟩
      exact ⟨target, ticket, ⟨rfl, rfl, rfl⟩, hclashes⟩
  clean owned := stranded_serve_cancel
  once huser owned later again := by
    obtain ⟨h', hhandle', hactive⟩ := exists_handle_serve_cancel owned hhandle
    have hserved : (run moves ({} : Machine α β)).move (.request (.cancel handle owned)) =
        (run moves ({} : Machine α β)).serve (.cancel handle owned) := submit_eq_serve huser _
    refine serve_cancel_of_idle again fun target ticket hnow ↦ ?_
    rw [run_append, run_cons, hserved] at hnow
    have hkept := handle_run_of_not_active hactive later hhandle'
    obtain rfl := Option.some.inj (hkept.symm.trans hnow)
    contradiction

end Machine

end LiveRecord.Flow
