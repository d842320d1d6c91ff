import LiveRecord.Proofs.Flow.Belongings
import LiveRecord.Proofs.Flow.Ownership
import LiveRecord.Proofs.Flow.Postponement

/-!
# The arrival of an observer

The request for an observer is answered after nothing but turns of the observer. The machine is then
the one without the observer, but for what was brought (`Observer.arrives`).
-/

set_option autoImplicit false

namespace LiveRecord.Flow

variable {α β : Type}

/-! ### Requests for an observer -/

/-- The request subscribes the observer, or builds a view of it. -/
inductive Observer.Asks (o : Observer α β) : Request α β → Prop
  | subscribe (target : Target) : Asks o (.subscribe target o.key)
  | call (sources : List SourceId) : Asks o (.build sources (.callback o.key))
  | direct (sources : List SourceId) : Asks o (.build sources (.direct o.compose))

namespace Request

/-- Where the request registers listeners. -/
def targets : Request α β → List Target
  | subscribe target _ => [target]
  | build sources _ => sources.map .source
  | _ => []

def newViews : Request α β → Nat
  | build _ _ => 1
  | _ => 0

def newHandles : Request α β → Nat
  | subscribe _ _ => 1
  | _ => 0

end Request

namespace World

/-- Listeners can register there. -/
def hasTarget (world : World α β) : Target → Bool
  | .source source => world.sources[source]?.isSome
  | .view view => (world.liveView? view).isSome

/-- The ids that a request for an observer takes up. It takes up none where it names something that
is not there. -/
def footprint (request : Request α β) (world : World α β) : Footprint :=
  if request.targets.all world.hasTarget then
    world.room request.newViews request.newHandles request.targets
  else world.room 0 0 []

variable {world : World α β} {request : Request α β}

theorem isSome_nextTicket? {target : Target} (h : world.hasTarget target) :
    (world.nextTicket? target).isSome := by
  cases target with
  | source source => simpa [hasTarget, nextTicket?] using h
  | view view =>
    obtain ⟨v, hlive⟩ := Option.isSome_iff_exists.mp h
    simp [nextTicket?, (Option.filter_eq_some_iff.mp hlive).1]

theorem comesNext_footprint (request : Request α β) (world : World α β) :
    (world.footprint request).ComesNext world := by
  unfold footprint
  split
  case isFalse => exact comesNext_room (by simp)
  case isTrue hall =>
    exact comesNext_room fun target hmem ↦
      isSome_nextTicket? (List.all_eq_true.mp hall target hmem)

theorem footprint_of_all (h : request.targets.all world.hasTarget) :
    world.footprint request =
      world.room request.newViews request.newHandles request.targets :=
  if_pos h

end World

/-! ### Machines in order -/

/-- What holds after every run, as far as it matters to an observer that arrives. -/
structure Machine.Orderly (m : Machine α β) : Prop where
  known : m.Known
  ordered : m.world.Ordered
  wired : m.world.Wired
  manned : m.Manned
  putsOff : m.world.PutsOffInTicks
  waiting : ∀ view ∈ m.waiting, view < m.world.views.length
  seated : m.Seated

theorem Machine.orderly_run (moves : List (Move α β)) :
    (run moves ({} : Machine α β)).Orderly where
  known := known_run moves
  ordered := ordered_run moves
  wired := (wired_run moves).world
  manned := manned_run moves
  putsOff := putsOffInTicks_run moves
  waiting := (allBooked_run moves).there
  seated := run_preserves (fun _ move ↦ seated_move move) (fun _ ↦ .inl rfl) moves

namespace Observer

variable {o : Observer α β} {f : Footprint} {m : Machine α β} {world base : World α β}
  {below : List (Frame α β)} {answer : Answer α β} {j : ViewId}

/-- Assumes: the user has control where it is called or nothing is under way. -/
theorem leads_answer (hseated : below = [] ∨ ∃ call turn rest, below = .calling call turn :: rest) :
    o.Leads f { world, stack := below, control := .returning answer }
      { world, stack := below, control := .user (.answered answer) } := by
  rcases hseated with rfl | ⟨call, turn, rest, rfl⟩ <;>
    exact .resume_eq rfl rfl (by simp [Machine.resumeNotices])

/-- Assumes: what the observer has brought under ids that come next, and its views are not at
work. -/
theorem follows_of_brings (horderly : m.Orderly) (huser : m.hasUser) (hnext : f.ComesNext m.world)
    (hbrings : f.Brings o m.world world)
    (hown : ∀ j, f.views.has j → ∃ v, world.views[j]? = some v ∧ o.Keeps v) (answer : Answer α β) :
    f.Follows o m { world, stack := m.stack, control := .user (.answered answer) } := by
  obtain ⟨heard, hcontrol⟩ := Machine.exists_heard huser
  have hqueue (view : ViewId) (hview : view ∈ m.world.deferred) : view < m.world.views.length :=
    horderly.waiting view (List.mem_append_left _ hview)
  have hbatches (frame : Frame α β) (hframe : frame ∈ m.stack) (view : ViewId)
      (hview : view ∈ frame.batch?.getD []) : view < m.world.views.length := by
    refine horderly.waiting view (List.mem_append_right _ ?_)
    cases hbatch : frame.batch? with
    | none => simp [hbatch] at hview
    | some views =>
      rw [hbatch] at hview
      exact List.mem_flatten.mpr
        ⟨views, List.mem_filterMap.mpr ⟨frame, hframe, hbatch⟩, hview⟩
  refine ⟨⟨?_, ?_⟩, .user hcontrol rfl⟩
  · exact hbrings.hosts hnext horderly.known.world horderly.ordered horderly.wired hqueue hown
  · exact List.forall₂_same.mpr fun frame hframe ↦
      hnext.carries (horderly.known.frames frame hframe) (hbatches frame hframe)

/-! ### Subscriptions -/

/-- Assumes: a view is kept. -/
theorem leads_subscribed {target : Target} {ticket : Nat}
    (hkept : ∀ view v, target = .view view → world.liveView? view = some v →
      v.owned ∨ below.any (·.holds view))
    (hseated : below = [] ∨ ∃ call turn rest, below = .calling call turn :: rest) :
    o.Leads f { world, stack := .subscribing target ticket :: below, control := .returning answer }
      { world := world.addHandle target ticket
        stack := below
        control := .user (.answered (.subscribed world.handles.length)) } := by
  have hended : o.Leads f
      { world, stack := .subscribing target ticket :: below, control := .returning answer }
      { world := world.addHandle target ticket
        stack := below
        control := .returning (.subscribed world.handles.length) } := by
    refine .resume_eq rfl ?_ (by simp [Machine.resumeNotices])
    cases target with
    | source source => rfl
    | view view =>
      have hsame : (world.addHandle (.view view) ticket).liveView? view = world.liveView? view :=
        rfl
      simp only [Machine.resume, Machine.withWorld, Machine.release, hsame]
      cases hlive : world.liveView? view with
      | none => rfl
      | some v =>
        have hheld : (v.owned || below.any (·.holds view)) = true := by
          simpa using hkept view v rfl hlive
        simp only [hheld]
        rfl
  exact hended.trans (leads_answer hseated)

/-- The request leads to a machine that follows the one without it, and nothing is seen of it but
what concerns the observer. -/
structure Arrives (o : Observer α β) (request : Request α β) (m : Machine α β) : Prop where
  notices : ∀ notice ∈ m.requestNotices request, (m.world.footprint request).owns notice
  leads : ∃ m', o.Leads (m.world.footprint request) (m.serve request) m' ∧
    (m.world.footprint request).Follows o m m'

/-- Assumes: the request names something that is not there, and is refused. -/
theorem arrives_unknown (horderly : m.Orderly) (huser : m.hasUser) {request : Request α β}
    (hknown : request.targets.all m.world.hasTarget = false)
    (hrefused : m.serve request = m.returning .unknown)
    (hnotices : m.requestNotices request = []) : o.Arrives request m := by
  have hroom : m.world.footprint request = m.world.room 0 0 [] := by
    rw [World.footprint, hknown]
    rfl
  have hleads : o.Leads (m.world.footprint request) (m.serve request)
      { world := m.world, stack := m.stack, control := .user (.answered .unknown) } := by
    rw [hrefused]
    exact leads_answer (horderly.seated huser)
  refine ⟨by simp [hnotices], _, hleads, ?_⟩
  refine follows_of_brings horderly huser (World.comesNext_footprint request m.world) ?_ ?_ _
  · exact hroom ▸ World.brings_nothing o m.world
  · intro j hj
    rw [hroom, World.room, Gap.has_of_count rfl] at hj
    contradiction

/-- Assumes: a registration that brings one listener, and a view that is kept. -/
theorem arrives_subscribed (horderly : m.Orderly) (huser : m.hasUser) {target : Target} {key : Nat}
    (hthere : m.world.hasTarget target)
    (hnotices : ∀ notice ∈ m.requestNotices (.subscribe target key),
      (m.world.footprint (.subscribe target key : Request α β)).owns notice)
    {ticket : Nat}
    (hleads : o.Leads (m.world.footprint (.subscribe target key : Request α β))
      (m.serve (.subscribe target key))
      { world, stack := .subscribing target ticket :: m.stack, control := .returning .done })
    (hbrings : (m.world.room 0 0 [target]).Brings o m.world world)
    (hkept : ∀ view v, target = .view view → world.liveView? view = some v →
      v.owned ∨ m.stack.any (·.holds view)) : o.Arrives (.subscribe target key) m := by
  have hroom : m.world.footprint (.subscribe target key : Request α β) =
      m.world.room 0 1 [target] :=
    World.footprint_of_all (by simpa [Request.targets] using hthere)
  refine ⟨hnotices, _, hleads.trans (leads_subscribed hkept (horderly.seated huser)), ?_⟩
  refine follows_of_brings horderly huser (World.comesNext_footprint _ m.world) ?_ ?_ _
  · exact hroom ▸ hbrings.addHandle target ticket
  · intro j hj
    rw [hroom, World.room, Gap.has_of_count rfl] at hj
    contradiction

theorem arrives_subscribe (horderly : m.Orderly) (huser : m.hasUser) (target : Target) :
    o.Arrives (.subscribe target o.key) m := by
  cases target with
  | source source =>
    cases hs : m.world.sources[source]? with
    | none =>
      refine arrives_unknown horderly huser ?_ ?_ rfl
      · simp [Request.targets, World.hasTarget, hs]
      · simp only [Machine.serve, Machine.subscribe, hs]
    | some s =>
      have hthere : m.world.hasTarget (.source source) := by simp [World.hasTarget, hs]
      have hleads : o.Leads (m.world.footprint (.subscribe (.source source) o.key : Request α β))
          (m.serve (.subscribe (.source source) o.key))
          { world := m.world.registerAtSource source (.callback o.key)
            stack := .subscribing (.source source) s.listeners.next :: m.stack
            control := .returning .done } := by
        simp only [Machine.serve, Machine.subscribe, hs]
        exact .call (if_pos rfl)
      have hbrings : (m.world.room 0 0 [.source source]).Brings o m.world
          (m.world.registerAtSource source (.callback o.key)) :=
        (World.brings_nothing o m.world).registerAtSource source rfl
      exact arrives_subscribed horderly huser hthere (by simp [Machine.requestNotices]) hleads
        hbrings (by simp)
  | view view =>
    cases hlive : m.world.liveView? view with
    | none =>
      refine arrives_unknown horderly huser ?_ ?_ ?_
      · simp [Request.targets, World.hasTarget, hlive]
      · simp only [Machine.serve, Machine.subscribe, hlive]
      · simp only [Machine.requestNotices, hlive]
    | some v =>
      obtain ⟨hview, hv⟩ := Option.filter_eq_some_iff.mp hlive
      have hthere : m.world.hasTarget (.view view) := by simp [World.hasTarget, hlive]
      have hnew : ((m.world.footprint (.subscribe (.view view) o.key : Request α β)).tickets
          (.view view)).has v.listeners.next := by
        rw [World.footprint_of_all (by simpa [Request.targets] using hthere),
          World.tickets_room_view hview]
        simp [Gap.has, Request.targets]
      have hleads : o.Leads (m.world.footprint (.subscribe (.view view) o.key : Request α β))
          (m.serve (.subscribe (.view view) o.key))
          { world := m.world.registerAtView view o.key
            stack := .subscribing (.view view) v.listeners.next :: m.stack
            control := .returning .done } := by
        simp only [Machine.serve, Machine.subscribe, hlive]
        split
        · exact .refl _
        · exact .call (if_pos rfl)
      have hbrings := (World.brings_nothing o m.world).registerAtView view
      refine arrives_subscribed horderly huser hthere ?_ hleads hbrings ?_
      · intro notice hnotice
        simp only [Machine.requestNotices, hlive] at hnotice
        obtain ⟨event, -, rfl⟩ := List.mem_map.mp hnotice
        simp [Footprint.owns, hnew]
      · intro other v' hother hlive'
        obtain rfl := Target.view.inj hother
        obtain ⟨hview', -⟩ := Option.filter_eq_some_iff.mp hlive'
        rw [World.registerAtView, getElem?_modifyView_self hview] at hview'
        obtain rfl := Option.some.inj hview'
        exact horderly.manned.held _ v hview hv

/-! ### Views -/

/-- The view of the observer is there and not at work, and its inputs listen at the targets. -/
structure Connected (o : Observer α β) (targets : List Target) (base world : World α β) :
    Prop where
  brings : (base.room 1 0 targets).Brings o base world
  view : ∃ v, world.views[base.views.length]? = some v ∧ o.Sees v ∧ v.owned = false ∧
    v.composing = false

variable {targets : List Target}

theorem connected_of_completes (hbrings : (base.room 1 0 targets).Brings o base world)
    (h : o.Completes f base.views.length false below world m) : ∃ world',
      o.Connected targets base world' ∧
        o.Leads f m { world := world', stack := below, control := .returning .done } := by
  obtain ⟨world', v, htouches, hview, hsees, howned, hcomposing, hleads⟩ := h
  refine ⟨world', ⟨?_, v, hview, hsees, howned, hcomposing⟩, hleads⟩
  exact hbrings.touch (by simp [Gap.has, World.room]) (Nat.le_refl _) htouches

/-- The next input connects, and hears the current event of its source. Assumes: a view that is
being built. -/
theorem leads_connect {source : SourceId} {s : Source α} {control : Control α β}
    (hs : base.sources[source]? = some s) (hconnected : o.Connected targets base world)
    (hj : f.views.has base.views.length) (hbuilding : below.any (·.holds base.views.length))
    (slot : Nat) : ∃ world', o.Connected (targets ++ [.source source]) base world' ∧
      o.Leads f (Machine.connect base.views.length source slot { world, stack := below, control })
        { world := world', stack := below, control := .returning .done } := by
  obtain ⟨v, hview, hsees, howned, hcomposing⟩ := hconnected.view
  obtain ⟨listeners, hs', -⟩ := hconnected.brings.source source s hs
  let plugged := (world.registerAtSource source (.input base.views.length slot)).modifyView
    base.views.length fun v ↦ { v with inputs := v.inputs ++ [(source, listeners.next)] }
  have hplugged : plugged.views[base.views.length]? =
      some { v with inputs := v.inputs ++ [(source, listeners.next)] } :=
    getElem?_modifyView_self hview _
  have hbrings : (base.room 1 0 (targets ++ [.source source])).Brings o base plugged := by
    refine Footprint.Brings.touch ?_ (by simp [Gap.has, World.room]) (Nat.le_refl _)
      (.modifyView _ _ _)
    exact hconnected.brings.registerAtSource source (by simp [IsHeardBy, Gap.has, World.room])
  have hconnects :
      Machine.connect base.views.length source slot { world, stack := below, control } =
        Machine.hear base.views.length slot s.current
          { world := plugged, stack := below, control } := by
    simp only [Machine.connect, hs']
    rfl
  rw [hconnects]
  refine connected_of_completes hbrings
    (completes_hear hplugged ?_ howned hcomposing hj (.inr hbuilding) _ _)
  exact ⟨hsees.composer, hsees.listeners, hsees.live, hsees.disposed, hsees.lent, hsees.dirty⟩

/-- The inputs connect, one after the other, and the view is asked to compose. Assumes: sources that
are there, and a view that is being built. -/
theorem leads_connecting {inputs : List (SourceId × Nat)}
    (hsources : ∀ input ∈ inputs, ∃ s, base.sources[input.1]? = some s)
    (hconnected : o.Connected targets base world) (hj : f.views.has base.views.length)
    (hbuilding : below.any (·.holds base.views.length)) (answer : Answer α β) :
    ∃ world', o.Connected (targets ++ inputs.map fun input ↦ .source input.1) base world' ∧
      o.Leads f
        { world, stack := .connecting base.views.length inputs :: below,
          control := .returning answer }
        { world := world', stack := below, control := .returning .done } := by
  -- on the inputs that are left: with each of them the view listens at one more target
  induction inputs generalizing targets world answer with
  | nil =>
    obtain ⟨v, hview, hsees, howned, hcomposing⟩ := hconnected.view
    have hresumed : o.Leads f
        { world, stack := .connecting base.views.length [] :: below, control := .returning answer }
        _ := .resume rfl (by simp [Machine.resumeNotices])
    rw [List.map_nil, List.append_nil]
    exact connected_of_completes hconnected.brings
      (.after hresumed (.refl _ _) (completes_requestCompose hview hsees howned hcomposing hj))
  | cons input rest ih =>
    obtain ⟨source, slot⟩ := input
    obtain ⟨s, hs⟩ := hsources (source, slot) List.mem_cons_self
    obtain ⟨listeners, hs', -⟩ := hconnected.brings.source source s hs
    have hresumed : o.Leads f
        { world, stack := .connecting base.views.length ((source, slot) :: rest) :: below,
          control := .returning answer } _ :=
      .resume rfl (by
        simp only [Machine.resumeNotices, hs']
        exact owns_hearNotices hj slot s.current _)
    have hbuilding' : (Frame.connecting base.views.length rest :: below).any
        (·.holds base.views.length) := by
      simpa [Frame.holds] using hbuilding
    obtain ⟨first, hfirst, hconnects⟩ := leads_connect hs hconnected hj hbuilding' slot
    obtain ⟨last, hlast, hrest⟩ :=
      ih (fun other hother ↦ hsources other (List.mem_cons_of_mem _ hother)) hfirst .done
    refine ⟨last, ?_, hresumed.trans (hconnects.trans hrest)⟩
    rwa [List.append_assoc] at hlast

/-- The view composes as often as it waits for the end of the tick. -/
theorem leads_draining {views : List ViewId} (hviews : ∀ view ∈ views, view = base.views.length)
    (hconnected : o.Connected targets base world) (hj : f.views.has base.views.length)
    (hbuilding : below.any (·.holds base.views.length)) (answer result : Answer α β) :
    ∃ world', o.Connected targets base world' ∧
      o.Leads f { world, stack := .draining views result :: below, control := .returning answer }
        { world := world', stack := below, control := .returning result } := by
  induction views generalizing world answer with
  | nil => exact ⟨world, hconnected, .resume rfl (by simp [Machine.resumeNotices])⟩
  | cons view rest ih =>
    obtain rfl := hviews view List.mem_cons_self
    obtain ⟨v, hview, hsees, howned, hcomposing⟩ := hconnected.view
    have hresumed : o.Leads f
        { world, stack := .draining (base.views.length :: rest) result :: below,
          control := .returning answer } _ :=
      .resume rfl (by simp [Machine.resumeNotices])
    have hbuilding' : (Frame.draining rest result :: below).any (·.holds base.views.length) := by
      simpa [Frame.holds] using hbuilding
    obtain ⟨first, hfirst, hruns⟩ := connected_of_completes hconnected.brings
      (.after hresumed (.refl _ _)
        (completes_runDeferred hview hsees howned hcomposing hj (.inr hbuilding')))
    obtain ⟨last, hlast, hrest⟩ :=
      ih (fun other hother ↦ hviews other (List.mem_cons_of_mem _ hother)) hfirst .done
    exact ⟨last, hlast, hruns.trans hrest⟩

/-- Assumes: inputs that are connected in a tick of their own. -/
theorem Connected.closeTick (h : o.Connected targets base.openTick world)
    (hputs : base.PutsOffInTicks) :
    (∀ view ∈ world.closeTick.1, view = base.views.length) ∧
      o.Connected targets base world.closeTick.2 := by
  obtain ⟨hviews, hbrings⟩ := Footprint.Brings.closeTick h.brings hputs
  have hsame : world.closeTick.2.views = world.views := by
    unfold World.closeTick
    dsimp only
    split <;> rfl
  refine ⟨fun view hview ↦ ?_, hbrings, hsame ▸ h.view⟩
  obtain ⟨hfrom, hto⟩ := Gap.has_iff.mp (hviews view hview)
  exact Nat.le_antisymm (Nat.le_of_lt_succ hto) hfrom

theorem isSome_mapM_sources (sources : List SourceId) (world : World α β) :
    (sources.mapM fun source ↦ world.sources[source]?).isSome =
      (sources.map Target.source).all world.hasTarget := by
  induction sources with
  | nil => rfl
  | cons source rest ih =>
    rw [List.mapM_cons, List.map_cons, List.all_cons, ← ih, World.hasTarget]
    cases world.sources[source]? with
    | none => rfl
    | some s => cases rest.mapM fun source ↦ world.sources[source]? <;> rfl

/-- The view is handed over to its owner. -/
theorem leads_building (hseated : below = [] ∨ ∃ call turn rest, below = .calling call turn :: rest) :
    o.Leads f { world, stack := .building j :: below, control := .returning answer }
      { world := world.modifyView j fun v ↦ { v with owned := true }
        stack := below
        control := .user (.answered (.built j)) } := by
  have hresumed : o.Leads f { world, stack := .building j :: below, control := .returning answer }
      { world := world.modifyView j fun v ↦ { v with owned := true }
        stack := below
        control := .returning (.built j) } := .resume rfl (by simp [Machine.resumeNotices])
  exact hresumed.trans (leads_answer hseated)

/-- What was put off in the tick of the view is gone through at its end, and the view is handed
over. Assumes: inputs that are connected, and a user who has control where nothing else is under
way. -/
theorem leads_closing (hconnected : o.Connected targets base.openTick world)
    (hputs : base.PutsOffInTicks) (hj : f.views.has base.views.length)
    (hseated : below = [] ∨ ∃ call turn rest, below = .calling call turn :: rest) :
    ∃ world', o.Connected targets base world' ∧
      o.Leads f
        { world, stack := .closing .done :: .building base.views.length :: below,
          control := .returning .done }
        { world := world'.modifyView base.views.length fun v ↦ { v with owned := true }
          stack := below
          control := .user (.answered (.built base.views.length)) } := by
  obtain ⟨hviews, hclosed⟩ := hconnected.closeTick hputs
  have hcloses : o.Leads f
      { world, stack := .closing .done :: .building base.views.length :: below,
        control := .returning .done }
      { world := world.closeTick.2
        stack := .draining world.closeTick.1 .done :: .building base.views.length :: below
        control := .returning .done } := .resume rfl (by simp [Machine.resumeNotices])
  have hbuilding : (Frame.building base.views.length :: below).any
      (·.holds base.views.length) := by
    simp [Frame.holds]
  obtain ⟨world', hdrained, hdrains⟩ := leads_draining hviews hclosed hj hbuilding .done .done
  exact ⟨world', hdrained, hcloses.trans (hdrains.trans (leads_building hseated))⟩

/-- Assumes: sources that are there. -/
theorem leads_build (horderly : m.Orderly) (huser : m.hasUser) {sources : List SourceId}
    {composer : Composer α β}
    (hcomposer : composer = .direct o.compose ∨ composer = .callback o.key)
    (hthere : (sources.map .source).all m.world.hasTarget)
    (hj : f.views.has m.world.views.length) :
    ∃ world', o.Connected (sources.map .source) m.world world' ∧
      o.Leads f (m.serve (.build sources composer))
        { world := world'.modifyView m.world.views.length fun v ↦ { v with owned := true }
          stack := m.stack
          control := .user (.answered (.built m.world.views.length)) } := by
  obtain ⟨found, hfound⟩ := Option.isSome_iff_exists.mp
    ((isSome_mapM_sources sources m.world).trans hthere)
  let new : View α β :=
    { label := labelOf (found.map (·.name)), composer, slots := found.map fun _ ↦ {} }
  have hadded : o.Connected [] m.world.openTick (m.world.openTick.addView new) := by
    refine ⟨World.brings_addView o new _, new, List.getElem?_concat_length, ?_, rfl, rfl⟩
    exact ⟨hcomposer, rfl, rfl, rfl, rfl, rfl⟩
  have hbuilds : m.serve (.build sources composer) =
      { world := m.world.openTick.addView new
        stack := .connecting m.world.views.length sources.zipIdx :: .closing .done ::
          .building m.world.views.length :: m.stack
        control := .returning .done } := by
    simp only [Machine.serve, Machine.build, hfound]
    rfl
  have hsources (input : SourceId × Nat) (hinput : input ∈ sources.zipIdx) :
      ∃ s, m.world.openTick.sources[input.1]? = some s := by
    have hmem := List.mem_map_of_mem (f := Target.source) (List.fst_mem_of_mem_zipIdx hinput)
    exact Option.isSome_iff_exists.mp (List.all_eq_true.mp hthere _ hmem)
  have hinputs : (sources.zipIdx.map fun input ↦ Target.source input.1) = sources.map .source := by
    have hfst := congrArg (List.map Target.source) (List.zipIdx_map_fst 0 sources)
    rwa [List.map_map] at hfst
  have hbuilding : (Frame.closing .done :: .building m.world.views.length :: m.stack).any
      (·.holds m.world.openTick.views.length) := by
    simp [Frame.holds, World.openTick]
  obtain ⟨first, hfirst, hconnects⟩ := leads_connecting hsources hadded hj hbuilding .done
  rw [List.nil_append, hinputs] at hfirst
  obtain ⟨last, hlast, hcloses⟩ :=
    leads_closing hfirst horderly.putsOff hj (horderly.seated huser)
  exact ⟨last, hlast, hbuilds ▸ hconnects.trans hcloses⟩

theorem arrives_build (horderly : m.Orderly) (huser : m.hasUser) (sources : List SourceId)
    {composer : Composer α β}
    (hcomposer : composer = .direct o.compose ∨ composer = .callback o.key) :
    o.Arrives (.build sources composer) m := by
  cases hthere : (sources.map Target.source).all m.world.hasTarget with
  | false =>
    refine arrives_unknown horderly huser hthere ?_ rfl
    have hnone := (isSome_mapM_sources sources m.world).trans hthere
    rw [Option.isSome_eq_false_iff, Option.isNone_iff_eq_none] at hnone
    simp only [Machine.serve, Machine.build, hnone]
  | true =>
    have hroom : m.world.footprint (.build sources composer : Request α β) =
        m.world.room 1 0 (sources.map .source) := World.footprint_of_all hthere
    have hj : (m.world.footprint (.build sources composer : Request α β)).views.has
        m.world.views.length := by
      rw [hroom, Gap.has_iff]
      exact ⟨Nat.le_refl _, Nat.lt_succ_self _⟩
    obtain ⟨world', hconnected, hleads⟩ := leads_build horderly huser hcomposer hthere hj
    refine ⟨by simp [Machine.requestNotices], _, hleads, ?_⟩
    refine follows_of_brings horderly huser (World.comesNext_footprint _ m.world) ?_ ?_ _
    · rw [hroom] at hj ⊢
      exact hconnected.brings.touch hj (Nat.le_refl _) (.modifyView _ _ _)
    · intro j hown
      rw [hroom] at hown
      obtain ⟨hfrom, hto⟩ := Gap.has_iff.mp hown
      obtain rfl : j = m.world.views.length := Nat.le_antisymm (Nat.le_of_lt_succ hto) hfrom
      obtain ⟨v, hview, hsees, -, hcomposing⟩ := hconnected.view
      refine ⟨_, getElem?_modifyView_self hview _, ⟨hsees.composer, hsees.listeners, hsees.live,
        hsees.disposed, hsees.lent, hsees.dirty⟩, rfl, hcomposing⟩

theorem arrives (horderly : m.Orderly) (huser : m.hasUser) {request : Request α β}
    (hasks : o.Asks request) : o.Arrives request m := by
  cases hasks with
  | subscribe target => exact arrives_subscribe horderly huser target
  | call sources => exact arrives_build horderly huser sources (.inr rfl)
  | direct sources => exact arrives_build horderly huser sources (.inl rfl)

end Observer

end LiveRecord.Flow
