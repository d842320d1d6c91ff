import LiveRecord.Proofs.Flow.Arrival

/-!
# Observers do not interfere

Where an observer has arrived, everything else goes on as it does without it: after each move of the
run without the observer, perhaps after some turns of the observer, the run with it has made that
move too, and nothing else can tell the two apart (`Observer.shadows_of_asks`).
-/

set_option autoImplicit false

namespace LiveRecord.Flow

variable {α β : Type}

namespace Observer

variable {o : Observer α β} {f : Footprint} {m m' : Machine α β} {world world' : World α β}
  {below : List (Frame α β)}

/-! ### Turns of the observer -/

/-- Where a frame goes through ids and comes to one of the observer, it is the observer's turn, and
the frame goes on with the next one. -/
def TakesTurns (o : Observer α β) (f : Footprint) (gap : Gap) (world : World α β)
    (frame : List Nat → Frame α β) : Prop :=
  ∀ world' id ids below answer, f.Hosts o world world' → gap.has id → ∃ world'',
    f.Hosts o world world'' ∧
      o.Leads f
        { world := world', stack := frame (id :: ids) :: below, control := .returning answer }
        { world := world'', stack := frame ids :: below, control := .returning .done }

theorem takesTurns_draining (o : Observer α β) (f : Footprint) (world : World α β)
    (result : Answer α β) : o.TakesTurns f f.views world fun views ↦ .draining views result := by
  intro world' j views below answer hhosts hj
  obtain ⟨v, hview, hkeeps⟩ := hhosts.own j hj
  have hruns : o.Completes f j true (.draining views result :: below) world'
      (Machine.runDeferred j { world := world', stack := .draining views result :: below,
                               control := .returning answer }) :=
    completes_runDeferred hview hkeeps.toSees hkeeps.owned hkeeps.composing hj (.inl rfl)
  obtain ⟨world'', v', htouches, hview', hsees, howned, hcomposing, hleads⟩ := hruns
  refine ⟨world'', hhosts.touch hj htouches hview' ⟨hsees, howned, hcomposing⟩, ?_⟩
  exact .trans (.resume rfl (by simp [Machine.resumeNotices])) hleads

theorem takesTurns_delivering (o : Observer α β) (f : Footprint) (world : World α β)
    (source : SourceId) (event : Event α) :
    o.TakesTurns f (f.tickets (.source source)) world fun tickets ↦
      .delivering source event tickets := by
  intro world' ticket tickets below answer hhosts hticket
  let before : Machine α β :=
    { world := world'
      stack := .delivering source event (ticket :: tickets) :: below
      control := .returning answer }
  let rest : Machine α β :=
    { world := world'
      stack := .delivering source event tickets :: below
      control := .returning answer }
  cases hlistener : world'.sourceListener? source ticket with
  | none =>
    refine ⟨world', hhosts, .resume_eq rfl ?_ (by simp [Machine.resumeNotices, hlistener])⟩
    simp only [Machine.resume, hlistener]
    rfl
  | some listener =>
    have hown := hhosts.own_of_sourceListener? hticket hlistener
    cases listener with
    | callback key =>
      have hcalled : o.Leads f before
          (rest.call (.sourceEvent key event) (some (.source source, ticket))) :=
        .resume_eq rfl (by simp only [before, Machine.resume, hlistener]; rfl)
          (by simp [before, Machine.resumeNotices, hlistener])
      exact ⟨world', hhosts, hcalled.trans (.call (if_pos hown))⟩
    | input j slot =>
      obtain ⟨v, hview, hkeeps⟩ := hhosts.own j hown
      have hheard : o.Leads f before (rest.hear j slot event) :=
        .resume_eq rfl (by simp only [before, Machine.resume, hlistener]; rfl) (by
          simp only [before, Machine.resumeNotices, hlistener]
          exact owns_hearNotices hown slot event _)
      have hears : o.Completes f j true (.delivering source event tickets :: below) world'
          (rest.hear j slot event) :=
        completes_hear hview hkeeps.toSees hkeeps.owned hkeeps.composing hown (.inl rfl) slot event
      obtain ⟨world'', v', htouches, hview', hsees, howned, hcomposing, hleads⟩ := hears
      exact ⟨world'', hhosts.touch hown htouches hview' ⟨hsees, howned, hcomposing⟩,
        hheard.trans hleads⟩

theorem takesTurns_announcing (o : Observer α β) (f : Footprint) (world : World α β)
    (view : ViewId) (event : ViewEvent β) :
    o.TakesTurns f (f.tickets (.view (f.views.skip view))) world fun tickets ↦
      .announcing (f.views.skip view) event tickets := by
  intro world' ticket tickets below answer hhosts hticket
  let before : Machine α β :=
    { world := world'
      stack := .announcing (f.views.skip view) event (ticket :: tickets) :: below
      control := .returning answer }
  let rest : Machine α β :=
    { world := world'
      stack := .announcing (f.views.skip view) event tickets :: below
      control := .returning answer }
  refine ⟨world', hhosts, ?_⟩
  cases hlistener : world'.viewListener? (f.views.skip view) ticket with
  | none =>
    refine .resume_eq rfl ?_ (by simp [Machine.resumeNotices, hlistener])
    simp only [Machine.resume, hlistener]
    rfl
  | some key =>
    obtain rfl := hhosts.own_of_viewListener? hticket hlistener
    have hcalled : o.Leads f before (rest.call (.viewEvent o.key event)
        (some (.view (f.views.skip view), ticket))) :=
      .resume_eq rfl (by simp only [before, Machine.resume, hlistener]; rfl)
        (by simp [before, Machine.resumeNotices, hlistener, Footprint.owns, hticket])
    exact hcalled.trans (.call (if_pos rfl))

/-- The observer has all the turns that come before the next id that is not its own. -/
theorem TakesTurns.all {gap : Gap} {frame : List Nat → Frame α β}
    (h : o.TakesTurns f gap world frame) {ids ids' : List Nat} (hids : gap.Hosts ids ids')
    (hhosts : f.Hosts o world world') (below : List (Frame α β)) (answer : Answer α β) :
    ∃ world'' rest answer',
      f.Hosts o world world'' ∧ gap.Hosts ids rest ∧ (∀ id ∈ rest.head?, gap.has id = false) ∧
        o.Leads f { world := world', stack := frame ids' :: below, control := .returning answer }
          { world := world'', stack := frame rest :: below, control := .returning answer' } := by
  induction ids' generalizing world' answer with
  | nil => exact ⟨world', [], answer, hhosts, hids, by simp, .refl _⟩
  | cons id rest ih =>
    cases hhas : gap.has id with
    | false => exact ⟨world', id :: rest, answer, hhosts, hids, by simp [hhas], .refl _⟩
    | true =>
      obtain ⟨world'', hhosts', hturn⟩ := h world' id rest below answer hhosts hhas
      obtain ⟨last, left, answer', hhosts'', hleft, hhead, hleads⟩ :=
        ih ((Gap.hosts_cons_of_has hhas).mp hids) hhosts' .done
      exact ⟨last, left, answer', hhosts'', hleft, hhead, hturn.trans hleads⟩

/-- Assumes: a frame that goes through ids is on top. -/
theorem TakesTurns.exists_poised {gap : Gap} {frame' : List Nat → Frame α β}
    {ids ids' : List Nat} {below' : List (Frame α β)} {answer : Answer α β}
    (hturns : o.TakesTurns f gap m.world frame') (frame : List Nat → Frame α β)
    (h : f.Follows o m m')
    (hcontrol : m.control = .returning answer) (hstack : m.stack = frame ids :: below)
    (hstack' : m'.stack = frame' ids' :: below') (hbelow : List.Forall₂ f.Carries below below')
    (hids : gap.Hosts ids ids') (hiterates : (frame ids).iterates)
    (hcarries : ∀ left, gap.Hosts ids left → f.Carries (frame ids) (frame' left))
    (hpoised : ∀ left, (∀ id ∈ left.head?, gap.has id = false) →
      f.Poised (frame' left :: below')) :
    ∃ m'', o.Leads f m' m'' ∧ f.Follows o m m'' ∧ f.Poised m''.stack := by
  obtain ⟨answer', hcontrol', -⟩ := h.returning hcontrol
  obtain ⟨world'', left, answer'', hhosts, hleft, hhead, hleads⟩ :=
    hturns.all hids h.world below' answer'
  have hm' : m' =
      { world := m'.world, stack := frame' ids' :: below', control := .returning answer' } := by
    rw [← hstack', ← hcontrol']
  rw [← hm'] at hleads
  refine ⟨_, hleads, ⟨⟨hhosts, ?_⟩, .passing hcontrol rfl ?_⟩, hpoised left hhead⟩
  · exact hstack ▸ .cons (hcarries left hleft) hbelow
  · exact .inr ⟨_, _, hstack, hiterates⟩

/-- Where the core is on its way back, the observer has its turns, and then it is not its turn. -/
theorem exists_poised (h : f.Follows o m m') {answer : Answer α β}
    (hcontrol : m.control = .returning answer) :
    ∃ m'', o.Leads f m' m'' ∧ f.Follows o m m'' ∧ f.Poised m''.stack := by
  cases hstack : m.stack with
  | nil =>
    have hstack' : m'.stack = [] := List.forall₂_nil_left_iff.mp (hstack ▸ h.stack)
    exact ⟨m', .refl _, h, by rw [hstack']; trivial⟩
  | cons frame below =>
    obtain ⟨frame', below', hstack', hframe, hbelow⟩ := h.toMirrors.pop hstack
    cases hframe with
    | draining result hviews =>
      refine (takesTurns_draining o f m.world (f.answer result)).exists_poised
        (fun views ↦ .draining views result) h hcontrol hstack hstack'
        hbelow.stack hviews rfl (fun _ hleft ↦ .draining result hleft) fun left hhead ↦ ?_
      cases left with
      | nil => trivial
      | cons view rest => exact hhead view rfl
    | delivering source event htickets =>
      refine (takesTurns_delivering o f m.world source event).exists_poised
        (fun tickets ↦ .delivering source event tickets) h hcontrol hstack hstack'
        hbelow.stack htickets rfl (fun _ hleft ↦ .delivering source event hleft) fun left hhead ↦ ?_
      cases left with
      | nil => trivial
      | cons ticket rest => exact hhead ticket rfl
    | announcing view event htickets =>
      refine (takesTurns_announcing o f m.world view event).exists_poised
        (fun tickets ↦ .announcing view event tickets) h hcontrol hstack hstack'
        hbelow.stack htickets rfl (fun _ hleft ↦ .announcing view event hleft) fun left hhead ↦ ?_
      cases left with
      | nil => trivial
      | cons ticket rest => exact hhead ticket rfl
    | _ => exact ⟨m', .refl _, h, by rw [hstack']; trivial⟩

end Observer

/-! ### Runs with an observer, and without -/

/-- But for ids, and for the number of listeners where the observer listens, the worlds look the
same. -/
structure Footprint.Resembles (f : Footprint) (world world' : World α β) : Prop where
  depth : world'.depth = world.depth
  sources : ∀ (i : SourceId) (s : Source α), world.sources[i]? = some s → ∃ s',
    world'.sources[i]? = some s' ∧ s'.name = s.name ∧ s'.current = s.current ∧
      ((f.tickets (.source i)).count = 0 → s'.listeners.size = s.listeners.size)
  views : ∀ (j : ViewId) (v : View α β), world.views[j]? = some v → ∃ v',
    world'.views[f.views.skip j]? = some v' ∧ v'.label = v.label ∧ v'.status = v.status ∧
      v'.emissions = v.emissions ∧ v'.disposed = v.disposed ∧
      ((f.tickets (.view (f.views.skip j))).count = 0 → v'.listeners.size = v.listeners.size)
  handles : ∀ (i : Nat) (handle : Handle), world.handles[i]? = some handle → ∃ handle',
    world'.handles[f.handles.skip i]? = some handle' ∧ handle'.state = handle.state

theorem Footprint.Hosts.resembles {o : Observer α β} {f : Footprint} {world world' : World α β}
    (h : f.Hosts o world world') : f.Resembles world world' where
  depth := h.depth
  sources i s hs := by
    obtain ⟨_, hs', listeners, rfl, hlisteners⟩ := h.sources.get i s hs
    rw [Gap.skip_empty] at hs'
    exact ⟨_, hs', rfl, rfl, hlisteners.size⟩
  views j v hv := by
    obtain ⟨_, hv', listeners, rfl, hlisteners⟩ := h.views.get j v hv
    exact ⟨_, hv', rfl, rfl, rfl, rfl, hlisteners.size⟩
  handles i handle hhandle := by
    obtain ⟨_, hhandle', rfl⟩ := h.handles.get i handle hhandle
    exact ⟨_, hhandle', rfl⟩

namespace Observer

/-- The second run makes the moves of the first one, with turns of the observer in between. Each
move is seen to do the same in both, and the user, when it has control then, has heard the same: the
same calls with the same events and values, the same answers and the same raises. -/
inductive Shadows (o : Observer α β) (f : Footprint) :
    Machine α β → Machine α β → List (Move α β) → List (Move α β) → Prop
  | done {m m' : Machine α β} (hworld : f.Resembles m.world m'.world) : Shadows o f m m' [] []
  | turn {m m' : Machine α β} {move : Move α β} {after after' : List (Move α β)}
      (hturn : o.Turn f m' move) (hrest : Shadows o f m (m'.move move) after after') :
      Shadows o f m m' after (move :: after')
  | move {m m' : Machine α β} {move : Move α β} {after after' : List (Move α β)}
      (hworld : f.Resembles m.world m'.world)
      (hnotices : m'.notices (f.move move) = (m.notices move).map f.notice)
      (hcontrol : (m'.move (f.move move)).control = f.control (m.move move).control ∨
        m.move move = m ∧ m'.move (f.move move) = m')
      (hrest : Shadows o f (m.move move) (m'.move (f.move move)) after after') :
      Shadows o f m m' (move :: after) (f.move move :: after')

variable {o : Observer α β} {f : Footprint} {m m' m'' : Machine α β} {after : List (Move α β)}

theorem Leads.shadows (hleads : o.Leads f m' m'') (h : ∃ after', o.Shadows f m m'' after after') :
    ∃ after', o.Shadows f m m' after after' := by
  obtain ⟨turns, hturns, rfl⟩ := hleads
  induction turns generalizing m' with
  | nil => exact h
  | cons move rest ih =>
    obtain ⟨after', hrest⟩ := ih hturns.2 h
    exact ⟨move :: after', .turn hturns.1 hrest⟩

theorem exists_shadows (h : f.Follows o m m') (after : List (Move α β)) :
    ∃ after', o.Shadows f m m' after after' := by
  -- on the moves of the run without the observer: after each of them its machine is followed again
  induction after generalizing m m' with
  | nil => exact ⟨[], .done h.world.resembles⟩
  | cons move rest ih =>
    -- the move itself, where it is not the observer's turn
    have hmove (m'' : Machine α β) (hfollows : f.Follows o m m'')
        (hpoised : ∀ answer, m.control = .returning answer → f.Poised m''.stack) :
        ∃ after', o.Shadows f m m'' (move :: rest) after' := by
      have hnotices := hfollows.notices hpoised move
      rcases hfollows.move hpoised move with hagrees | ⟨hsame, hsame'⟩
      · obtain ⟨after', hrest⟩ := ih hagrees.toFollows
        exact ⟨_, .move hfollows.world.resembles hnotices (.inl hagrees.control) hrest⟩
      · obtain ⟨after', hrest⟩ := ih hfollows
        exact ⟨_, .move hfollows.world.resembles hnotices (.inr ⟨hsame, hsame'⟩)
          (by rwa [hsame, hsame'])⟩
    cases hcontrol : m.control with
    | returning answer =>
      obtain ⟨m'', hleads, hfollows, hpoised⟩ := exists_poised h hcontrol
      exact hleads.shadows (hmove m'' hfollows fun _ _ ↦ hpoised)
    | user _ | unwinding _ => exact hmove m' h fun _ hreturning ↦ by simp [hcontrol] at hreturning

/-- Observers do not interfere. Whatever happened before and whatever comes after, where the user
asks for an observer everything goes on as it does without, and nothing more is seen of the request
than what concerns the observer. Assumes: the user has control, also in the middle of a callback or
of a tick, and asks for the observer. -/
theorem shadows_of_asks {o : Observer α β} {request : Request α β} (hasks : o.Asks request)
    (before after : List (Move α β)) (huser : (Machine.run before ({} : Machine α β)).hasUser) :
    let m := Machine.run before ({} : Machine α β)
    let f := m.world.footprint request
    (∀ notice ∈ m.notices (.request request), f.owns notice) ∧
      ∃ after', o.Shadows f m (m.move (.request request)) after after' := by
  have harrives := arrives (Machine.orderly_run before) huser hasks
  obtain ⟨m', hleads, hfollows⟩ := harrives.leads
  constructor
  · rw [Machine.notices_request huser]
    exact harrives.notices
  · refine Leads.shadows ?_ (exists_shadows hfollows after)
    rw [Machine.move, Machine.submit_eq_serve huser]
    exact hleads

/-- A view is built inside a tick, by a callback that hears an event. -/
theorem shadows_of_asks_amid_delivery :
    let o : Observer Nat Nat := { key := 7, compose := List.sum }
    let request : Request Nat Nat := .build [0] (.direct List.sum)
    let before : List (Move Nat Nat) := Move.script 3
      [.newSource "price", .subscribe (.source 0) 1, .finish, .enterTick, .emit 0 (.loaded 3)]
    let after : List (Move Nat Nat) := Move.script 3 [.finish, .emit 0 (.loaded 4), .leaveTick]
    let m := Machine.run before ({} : Machine Nat Nat)
    let f := m.world.footprint request
    o.Asks request ∧ m.hasUser ∧ m.world.depth = 2 ∧
      (∀ notice ∈ m.notices (.request request), f.owns notice) ∧
      ∃ after', o.Shadows f m (m.move (.request request)) after after' := by
  intro o request before after
  have huser : (Machine.run before ({} : Machine Nat Nat)).hasUser := by decide +kernel
  have hdepth : (Machine.run before ({} : Machine Nat Nat)).world.depth = 2 := by decide +kernel
  exact ⟨.direct [0], huser, hdepth,
    @shadows_of_asks Nat Nat o request (.direct [0]) before after huser⟩

end Observer

end LiveRecord.Flow
