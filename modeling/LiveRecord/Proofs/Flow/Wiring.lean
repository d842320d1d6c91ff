import LiveRecord.Proofs.Flow.Change
import LiveRecord.Proofs.Flow.Stack

/-!
# Inputs that listen are inputs that there are

Whatever listens to a source for a view is one of the inputs of that view, after every run
(`Machine.wired_run`), and the view knows of its registration (`Machine.recorded_run`). Nothing is
put off when no tick is open (`Machine.putsOffInTicks_run`).
-/

set_option autoImplicit false

namespace LiveRecord.Flow

variable {α β : Type}

namespace World

variable {new : Listener → Prop} {world world' : World α β}

/-! ### Compositions that are put off -/

/-- Nothing is put off unless a tick is open. -/
def PutsOffInTicks (world : World α β) : Prop := world.depth = 0 → world.deferred = []

theorem Change.putsOffInTicks (hchange : world.Change new world') (h : world.PutsOffInTicks) :
    world'.PutsOffInTicks := by
  cases hchange with
  | openTick => exact fun hdepth ↦ absurd hdepth (Nat.succ_ne_zero _)
  | closeTick =>
    intro hdepth
    by_cases hlast : world.depth - 1 = 0
    · simp only [World.closeTick, if_pos hlast]
    · simp only [World.closeTick, if_neg hlast] at hdepth
      exact absurd hdepth hlast
  | defer view htick =>
    intro hdepth
    have hopen : 0 < world.depth := by simpa [inTick] using htick
    exact absurd hdepth (Nat.ne_of_gt hopen)
  | _ => exact h

/-! ### Inputs -/

/-- The view of the listener has that input, if the listener is one. -/
def Names (world : World α β) : Listener → Prop
  | .callback _ => True
  | .input view slot => ∃ v, world.views[view]? = some v ∧ slot < v.slots.length

/-- Every listener of a source is named. -/
def Wired (world : World α β) : Prop :=
  ∀ (source : SourceId) (s : Source α), world.sources[source]? = some s →
    ∀ entry ∈ s.listeners.entries, world.Names entry.2

theorem Change.names {listener : Listener} (hchange : world.Change new world')
    (h : world.Names listener) : world'.Names listener := by
  cases listener with
  | callback key => trivial
  | input view slot =>
    obtain ⟨v, hv, hslot⟩ := h
    cases hchange with
    | addView label composer count =>
      refine ⟨v, ?_, hslot⟩
      have hview : view < world.views.length := (List.getElem?_eq_some_iff.mp hv).1
      simpa [World.addView, List.getElem?_append_left hview] using hv
    | view other f hf =>
      by_cases hne : other = view
      · subst hne
        refine ⟨f v, by simp [modifyView, hv], ?_⟩
        rw [(hf v).slots]
        exact hslot
      · exact ⟨v, by simpa [modifyView, List.getElem?_modify, hne] using hv, hslot⟩
    | unplug other _ =>
      by_cases hne : other = view
      · subst hne
        exact ⟨{ v with inputs := [] }, by simp [modifyView, hv], hslot⟩
      · exact ⟨v, by simpa [modifyView, List.getElem?_modify, hne] using hv, hslot⟩
    | closeTick =>
      refine ⟨v, ?_, hslot⟩
      simp only [World.closeTick]
      split <;> exact hv
    | _ => exact ⟨v, hv, hslot⟩

theorem Change.mem_listeners {source : SourceId} {s' : Source α} {entry : Nat × Listener}
    (hchange : world.Change new world') (hsource : world'.sources[source]? = some s')
    (hentry : entry ∈ s'.listeners.entries) :
    new entry.2 ∨ ∃ s, world.sources[source]? = some s ∧ entry ∈ s.listeners.entries := by
  rcases hchange.listeners hsource with hnone | ⟨s, hs, hlisteners⟩
  · rw [hnone] at hentry
    exact absurd hentry List.not_mem_nil
  · exact (hlisteners.mem hentry).symm.imp_right fun hold ↦ ⟨s, hs, hold⟩

theorem Changes.names {listener : Listener} (hchanges : Changes new world world')
    (h : world.Names listener) : world'.Names listener :=
  hchanges.preserves (fun _ _ hnamed hchange ↦ hchange.names hnamed) h

/-- Assumes: the new listeners are named already. -/
theorem Changes.wired (hchanges : Changes new world world')
    (hnew : ∀ listener, new listener → world.Names listener) (h : world.Wired) : world'.Wired := by
  induction hchanges with
  | refl => exact h
  | tail hfirst hlast ih =>
    intro source s' hsource entry hentry
    rcases hlast.mem_listeners hsource hentry with hfresh | ⟨s, hs, hold⟩
    · exact hlast.names (Changes.names hfirst (hnew _ hfresh))
    · exact hlast.names (ih source s hs entry hold)

/-! ### Registrations that views know of -/

/-- A view knows the source and the ticket of every input that listens for it. -/
def Recorded (world : World α β) : Prop :=
  ∀ (source : SourceId) (s : Source α), world.sources[source]? = some s →
    ∀ entry ∈ s.listeners.entries, ∀ view slot, entry.2 = .input view slot →
      ∃ v, world.views[view]? = some v ∧ (source, entry.1) ∈ v.inputs

/-- Assumes: no input is new. -/
theorem Change.recorded (hchange : world.Change new world')
    (hnew : ∀ view slot, ¬ new (.input view slot)) (h : world.Recorded) : world'.Recorded := by
  intro source s' hsource entry hentry view slot hinput
  rcases hchange.mem_listeners hsource hentry with hfresh | ⟨s, hs, hold⟩
  · exact absurd (hinput ▸ hfresh) (hnew view slot)
  · obtain ⟨v, hv, hrecorded⟩ := h source s hs entry hold view slot hinput
    cases hchange with
    | addView label composer count =>
      refine ⟨v, ?_, hrecorded⟩
      have hview : view < world.views.length := (List.getElem?_eq_some_iff.mp hv).1
      simpa [World.addView, List.getElem?_append_left hview] using hv
    | view other f hf =>
      by_cases hother : other = view
      · subst hother
        exact ⟨f v, by simp [modifyView, hv], (hf v).inputs hrecorded⟩
      · exact ⟨v, by simpa [modifyView, List.getElem?_modify, hother] using hv, hrecorded⟩
    | unplug other hnone =>
      by_cases hother : other = view
      · subst hother
        exact absurd hrecorded (hnone v source s entry hv hs hold)
      · exact ⟨v, by simpa [modifyView, List.getElem?_modify, hother] using hv, hrecorded⟩
    | closeTick =>
      refine ⟨v, ?_, hrecorded⟩
      simp only [World.closeTick]
      split <;> exact hv
    | _ => exact ⟨v, hv, hrecorded⟩

theorem Changes.recorded (hchanges : Changes new world world')
    (hnew : ∀ view slot, ¬ new (.input view slot)) (h : world.Recorded) : world'.Recorded :=
  hchanges.preserves (fun _ _ hrecorded hchange ↦ hchange.recorded hnew hrecorded) h

/-- Assumes: a view that is there. -/
theorem Recorded.connect {view : ViewId} {source : SourceId} {slot : Nat} {v : View α β}
    {s : Source α} (h : world.Recorded) (hview : world.views[view]? = some v)
    (hs : world.sources[source]? = some s) :
    ((world.registerAtSource source (.input view slot)).modifyView view fun v ↦
      { v with inputs := v.inputs ++ [(source, s.listeners.next)] }).Recorded := by
  have hkept : ∀ (j : ViewId) (o : View α β) (input : SourceId × Nat), world.views[j]? = some o →
      input ∈ o.inputs → ∃ o', (world.views.modify view fun v ↦
        { v with inputs := v.inputs ++ [(source, s.listeners.next)] })[j]? = some o' ∧
          input ∈ o'.inputs := by
    intro j o input ho hinput
    by_cases hj : view = j
    · subst hj
      exact ⟨{ o with inputs := o.inputs ++ [(source, s.listeners.next)] }, by simp [ho],
        List.mem_append_left _ hinput⟩
    · exact ⟨o, by simpa [List.getElem?_modify, hj] using ho, hinput⟩
  intro other s' hother entry hentry j k hinput
  simp only [registerAtSource, modifySource, modifyView, List.getElem?_modify] at hother ⊢
  obtain ⟨before, hbefore, rfl⟩ := Option.map_eq_some_iff.mp hother
  by_cases hsame : source = other
  · subst hsame
    obtain rfl := Option.some.inj (hs.symm.trans hbefore)
    rw [if_pos rfl] at hentry
    rcases List.mem_append.mp hentry with hold | hnew
    · obtain ⟨o, ho, hrecorded⟩ := h source s hs entry hold j k hinput
      simpa [List.getElem?_modify] using hkept j o _ ho hrecorded
    · obtain rfl := List.mem_singleton.mp hnew
      obtain ⟨rfl, rfl⟩ := Listener.input.inj hinput
      refine ⟨{ v with inputs := v.inputs ++ [(source, s.listeners.next)] }, by simp [hview], ?_⟩
      exact List.mem_append_right _ List.mem_cons_self
  · rw [if_neg hsame] at hentry
    obtain ⟨o, ho, hrecorded⟩ := h other before hbefore entry hentry j k hinput
    simpa [List.getElem?_modify] using hkept j o _ ho hrecorded

end World

/-! ### Inputs that are still to be connected -/

/-- The view that a frame is connecting, and its inputs that are left. -/
def Frame.connection? : Frame α β → Option (ViewId × List (SourceId × Nat))
  | connecting view inputs => some (view, inputs)
  | _ => none

theorem WorkFrames.connections {view : ViewId} {new : List (Frame α β)} (h : WorkFrames view new) :
    new.filterMap (·.connection?) = [] := by
  cases h <;> rfl

namespace Machine

variable {m m' : Machine α β}

/-- What is left to connect, the innermost view first. -/
def connections (m : Machine α β) : List (ViewId × List (SourceId × Nat)) :=
  m.stack.filterMap (·.connection?)

/-- A frame goes that connects nothing. -/
theorem connections_pop {frame : Frame α β} {below : List (Frame α β)}
    (hstack : m.stack = frame :: below) (hframe : frame.connection? = none) :
    below.filterMap (·.connection?) = m.connections := by
  rw [connections, hstack, List.filterMap_cons_none hframe]

theorem connections_of_work {view : ViewId} {stack : List (Frame α β)}
    (h : ∃ new, WorkFrames view new ∧ m'.stack = new ++ stack) :
    m'.connections = stack.filterMap (·.connection?) := by
  obtain ⟨new, hnew, hstack⟩ := h
  rw [connections, hstack, List.filterMap_append, hnew.connections, List.nil_append]

theorem connections_hear (view : ViewId) (slot : Nat) (event : Event α) (m : Machine α β) :
    (m.hear view slot event).connections = m.connections := by
  rcases hear_stack view slot event m with hstack | hwork
  · rw [connections, hstack, connections]
  · rw [connections_of_work hwork]
    rfl

theorem connections_runDeferred (view : ViewId) (m : Machine α β) :
    (m.runDeferred view).connections = m.connections := by
  unfold runDeferred
  split
  · rfl
  · rw [connections_of_work (flush_stack view _)]
    rfl

theorem connections_emit (source : SourceId) (event : Event α) (m : Machine α β) :
    (m.emit source event).connections = m.connections := by
  unfold emit
  split
  · rfl
  · split <;> rfl

theorem connections_feed (feed : Feed α) (m : Machine α β) :
    (m.feed feed).connections = m.connections := by
  unfold Machine.feed
  split
  · rfl
  · exact connections_emit _ _ _

theorem connections_release (view : ViewId) (m : Machine α β) :
    (m.release view).connections = m.connections := by
  rw [connections, release_stack, connections]

theorem connections_subscribe (target : Target) (key : Nat) (m : Machine α β) :
    (m.subscribe target key).connections = m.connections := by
  have hsubscribes := m.subscribes target key
  generalize m.subscribe target key = m' at hsubscribes ⊢
  cases hsubscribes <;> rfl

theorem connections_serve (request : Request α β) (m : Machine α β)
    (hbuild : ∀ sources composer, request ≠ .build sources composer) :
    (m.serve request).connections = m.connections := by
  cases request with
  | emit source event => exact connections_emit source event m
  | build sources composer => exact absurd rfl (hbuild sources composer)
  | subscribe target key => exact connections_subscribe target key m
  | cancel handle owned => rw [connections, serve_cancel_stack, connections]
  | dropView view => exact connections_release view _
  | poll feed => exact connections_feed feed m
  | finish | compose value | raise message =>
    exact serve_of_ends (motive := fun m' ↦ m'.connections = m.connections) rfl rfl
      fun call turn below control hstack _ ↦ connections_pop hstack rfl
  | _ => rfl

/-- A step of the core leaves the connections alone, or takes one input up. -/
theorem connections_resume (answer : Answer α β) (m : Machine α β) :
    (m.resume answer).connections = m.connections ∨
      (∃ view rest, m.connections = (view, []) :: rest ∧ (m.resume answer).connections = rest) ∨
      ∃ view input inputs rest, m.connections = (view, input :: inputs) :: rest ∧
        (m.resume answer).connections = (view, inputs) :: rest := by
  have hresumes := m.resumes answer
  generalize m.resume answer = m' at hresumes ⊢
  cases hresumes with
  | @connected view below hstack =>
    refine .inr (.inl ⟨view, below.filterMap (·.connection?), ?_, ?_⟩)
    · simp [connections, hstack, Frame.connection?]
    · exact connections_of_work (requestCompose_stack view _)
  | @connect view input inputs below hstack =>
    refine .inr (.inr ⟨view, input, inputs, below.filterMap (·.connection?), ?_, ?_⟩)
    · simp [connections, hstack, Frame.connection?]
    · simp only [connect]
      split
      · rfl
      · exact connections_hear _ _ _ _
  | rest hstack | calling hstack => exact .inl rfl
  | closing hstack | drained hstack | skipDelivery hstack | callListener hstack | delivered hstack
  | skipAnnouncement hstack | callViewer hstack | announced hstack | fail hstack | subscribed hstack
  | built hstack | fed hstack =>
    have hpopped := connections_pop hstack rfl
    exact .inl hpopped
  | drain hstack =>
    have hpopped := connections_pop hstack rfl
    exact .inl ((connections_runDeferred _ _).trans hpopped)
  | hear hstack =>
    have hpopped := connections_pop hstack rfl
    exact .inl ((connections_hear _ _ _ _).trans hpopped)
  | compose hstack =>
    have hpopped := connections_pop hstack rfl
    exact .inl ((connections_of_work (composeIfDue_stack _ _)).trans hpopped)
  | composed hstack =>
    have hpopped := connections_pop hstack rfl
    exact .inl ((connections_of_work ⟨_, .ready _ _, rfl⟩).trans hpopped)
  | notComposed hstack | settle hstack =>
    have hpopped := connections_pop hstack rfl
    exact .inl ((connections_of_work (settle_stack _ _)).trans hpopped)
  | release hstack | subscribedView hstack =>
    have hpopped := connections_pop hstack rfl
    exact .inl ((connections_release _ _).trans hpopped)
  | feed hstack =>
    have hpopped := connections_pop hstack rfl
    exact .inl ((connections_feed _ _).trans hpopped)

/-- Giving operations up connects nothing more. -/
theorem mem_connections_giveUp {connection : ViewId × List (SourceId × Nat)} (message : String)
    (h : connection ∈ (m.giveUp message).connections) : connection ∈ m.connections := by
  have hpopped {frame : Frame α β} {below : List (Frame α β)} (hstack : m.stack = frame :: below)
      (hbelow : connection ∈ below.filterMap (·.connection?)) : connection ∈ m.connections := by
    rw [connections, hstack, List.filterMap_cons]
    split
    · exact hbelow
    · exact List.mem_cons_of_mem _ hbelow
  have hgivesUp := m.givesUp message
  generalize m.giveUp message = m' at hgivesUp h
  cases hgivesUp with
  | rest | calling => exact h
  | closing hstack | draining hstack | composing hstack | subscribing hstack | pop hstack =>
    exact hpopped hstack h
  | holding hstack | building hstack | subscribingView hstack =>
    rw [connections_release] at h
    exact hpopped hstack h

/-! ### Every run -/

/-- Whatever listens to a source, or is still to be connected, is an input that there is. -/
structure Wired (m : Machine α β) : Prop where
  world : m.world.Wired
  connections : ∀ connection ∈ m.connections, ∀ input ∈ connection.2,
    m.world.Names (.input connection.1 input.2)

theorem Wired.start : Wired ({} : Machine α β) where
  world := by simp [World.Wired]
  connections := by simp [Machine.connections]

theorem Wired.names_of_sourceListener? {source : SourceId} {ticket : Nat} {listener : Listener}
    (h : m.Wired) (hlistener : m.world.sourceListener? source ticket = some listener) :
    m.world.Names listener := by
  obtain ⟨s, hs, hfound⟩ := Option.bind_eq_some_iff.mp hlistener
  obtain ⟨entry, hentry, rfl⟩ := Option.map_eq_some_iff.mp hfound
  exact h.world source s hs entry (List.mem_of_find?_eq_some hentry)

theorem Wired.names_of_connecting {view : ViewId} {input : SourceId × Nat}
    {inputs : List (SourceId × Nat)} {stack : List (Frame α β)} (h : m.Wired)
    (hstack : m.stack = .connecting view (input :: inputs) :: stack) :
    m.world.Names (.input view input.2) := by
  refine h.connections (view, input :: inputs) ?_ input List.mem_cons_self
  rw [Machine.connections, hstack]
  exact List.mem_cons_self

theorem Wired.names_of_mayListen {listener : Listener} (h : m.Wired)
    (hlistener : m.MayListen listener) : m.world.Names listener := by
  cases listener with
  | callback key => trivial
  | input view slot =>
    obtain ⟨source, inputs, stack, hstack⟩ := hlistener
    exact h.names_of_connecting hstack

/-- A view that is built has as many inputs as there are to connect. -/
theorem names_build {sources : List SourceId} {composer : Composer α β}
    {connection : ViewId × List (SourceId × Nat)}
    (h : connection ∈ (m.build sources composer).connections) :
    connection ∈ m.connections ∨ connection.1 = m.world.views.length ∧
      ∀ input ∈ connection.2,
        (m.build sources composer).world.Names (.input connection.1 input.2) := by
  cases hfound : sources.mapM fun source ↦ m.world.sources[source]? with
  | none =>
    simp only [build, hfound] at h
    exact .inl h
  | some found =>
    have hlength : found.length = sources.length := by
      simpa using (congrArg List.length (mapM_eq_some_iff.mp hfound)).symm
    simp only [build, hfound] at h ⊢
    rcases List.mem_cons.mp h with rfl | hold
    · refine .inr ⟨rfl, fun input hinput ↦ ?_⟩
      obtain ⟨-, hslot, -⟩ := List.mem_zipIdx hinput
      refine ⟨_, List.getElem?_concat_length, ?_⟩
      simp only [List.length_map, hlength]
      omega
    · exact .inl hold

/-- What is left to connect was left before the move, or is of a view that the move builds. -/
theorem mem_connections_move {move : Move α β} {connection : ViewId × List (SourceId × Nat)}
    (h : connection ∈ (m.move move).connections) :
    (∃ inputs, (connection.1, inputs) ∈ m.connections ∧ connection.2 ⊆ inputs) ∨
      connection.1 = m.world.views.length ∧
        ∀ input ∈ connection.2, (m.move move).world.Names (.input connection.1 input.2) := by
  have hold : connection ∈ m.connections →
      ∃ inputs, (connection.1, inputs) ∈ m.connections ∧ connection.2 ⊆ inputs := fun hmem ↦
    ⟨connection.2, hmem, List.Subset.refl _⟩
  refine move_of (motive := fun m' ↦ connection ∈ m'.connections →
    (∃ inputs, (connection.1, inputs) ∈ m.connections ∧ connection.2 ⊆ inputs) ∨
      connection.1 = m.world.views.length ∧
        ∀ input ∈ connection.2, m'.world.Names (.input connection.1 input.2)) move
    (fun h ↦ .inl (hold h)) (fun request _ _ h ↦ ?_) (fun answer _ _ h ↦ .inl ?_)
    (fun message _ _ h ↦ .inl (hold (mem_connections_giveUp message h))) h
  · by_cases hbuild : ∃ sources composer, request = .build sources composer
    · obtain ⟨sources, composer, rfl⟩ := hbuild
      exact (names_build h).imp_left hold
    · refine .inl (hold ?_)
      rwa [connections_serve request m fun sources composer heq ↦
        hbuild ⟨sources, composer, heq⟩] at h
  · rcases connections_resume answer m with hsame | ⟨view, rest, hbefore, hafter⟩ |
      ⟨view, next, inputs, rest, hbefore, hafter⟩
    · exact hold (hsame ▸ h)
    · rw [hafter] at h
      exact hold (hbefore ▸ List.mem_cons_of_mem _ h)
    · rw [hafter] at h
      rcases List.mem_cons.mp h with rfl | hrest
      · exact ⟨next :: inputs, hbefore ▸ List.mem_cons_self, List.subset_cons_self _ _⟩
      · exact hold (hbefore ▸ List.mem_cons_of_mem _ hrest)

theorem wired_move (move : Move α β) (h : m.Wired) : (m.move move).Wired := by
  have hchanges := changes_move move m
  refine ⟨hchanges.wired (fun _ ↦ h.names_of_mayListen) h.world, ?_⟩
  intro connection hconnection input hinput
  rcases mem_connections_move hconnection with ⟨inputs, hbefore, hsub⟩ | ⟨-, hnew⟩
  · exact hchanges.names (h.connections _ hbefore input (hsub hinput))
  · exact hnew input hinput

/-- What listens for a view is one of its inputs, after every run. -/
theorem wired_run (moves : List (Move α β)) : (run moves {}).Wired :=
  run_preserves (fun _ move ↦ wired_move move) .start moves

theorem recorded_connect (view : ViewId) (source : SourceId) (slot : Nat)
    (hnamed : m.world.Names (.input view slot)) (h : m.world.Recorded) :
    (m.connect view source slot).world.Recorded := by
  obtain ⟨v, hview, -⟩ := hnamed
  unfold connect
  cases hs : m.world.sources[source]? with
  | none => exact h
  | some s =>
    have hchanges := @changes_hear α β (fun _ ↦ False) view slot s.current
      ((m.withWorld (.registerAtSource source (.input view slot))).withWorld
        (.modifyView view fun v ↦ { v with inputs := v.inputs ++ [(source, s.listeners.next)] }))
    exact hchanges.recorded (fun _ _ ↦ id) (h.connect hview hs)

theorem recorded_move (move : Move α β) (hwired : m.Wired) (h : m.world.Recorded) :
    (m.move move).world.Recorded := by
  by_cases hconnecting : ∃ view source slot inputs stack,
      m.stack = .connecting view ((source, slot) :: inputs) :: stack
  · obtain ⟨view, source, slot, inputs, stack, hstack⟩ := hconnecting
    refine move_of (motive := (·.world.Recorded)) move h (fun request _ _ ↦ ?_)
      (fun answer _ _ ↦ ?_) fun message _ _ ↦ ?_
    · have hchanges := @changes_serve α β (fun listener ↦ ∃ key, listener = .callback key) request
        m fun key ↦ ⟨key, rfl⟩
      exact hchanges.recorded (fun _ _ ↦ by simp) h
    · simp only [resume, hstack]
      exact recorded_connect view source slot (hwired.names_of_connecting hstack) h
    · simp only [giveUp, hstack]
      exact h
  · refine (changes_move move m).recorded (fun view slot hmay ↦ ?_) h
    obtain ⟨source, inputs, stack, hstack⟩ := hmay
    exact hconnecting ⟨view, source, slot, inputs, stack, hstack⟩

/-- Views know the registrations of their inputs, after every run. -/
theorem recorded_run (moves : List (Move α β)) :
    (run moves ({} : Machine α β)).world.Recorded :=
  (@run_preserves α β (fun m ↦ m.Wired ∧ m.world.Recorded) (fun _ move h ↦
    ⟨wired_move move h.1, recorded_move move h.1 h.2⟩) {}
    ⟨.start, fun source s hsource ↦ by simp at hsource⟩ moves).2

/-- Nothing is put off when no tick is open, after every run. -/
theorem putsOffInTicks_run (moves : List (Move α β)) :
    (run moves ({} : Machine α β)).world.PutsOffInTicks :=
  @run_preserves α β (fun m ↦ m.world.PutsOffInTicks) (fun m move h ↦
    (changes_move move m).preserves (fun _ _ hputs hchange ↦ hchange.putsOffInTicks hputs) h)
    {} (fun _ ↦ rfl) moves

end Machine

end LiveRecord.Flow
