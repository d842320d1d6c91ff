import LiveRecord.Proofs.Flow.Ownership
import LiveRecord.Proofs.Flow.Plugging

/-!
# Runs in which callbacks only emit

Callbacks that emit in the middle of a delivery nest deliveries (`Machine.Reentrant`). Every frame
then fits on what is below it (`Frame.Fits`): deliveries stand on the tick that they opened, a view
composes with all its inputs, and if no source emits while it delivers, a view that works in the
middle of a delivery is blocked by an input that failed, or the delivery is over (`Scene.Blocked`).
-/

set_option autoImplicit false

namespace LiveRecord.Flow

variable {α β : Type}

/-! ### What callbacks do -/

def Call.composes : Call α β → Bool
  | compose _ _ => true
  | _ => false

/-- What a callback may ask for: the callback of a listener emits and ends, and one that composes
answers. -/
def Request.reenters (call : Call α β) : Request α β → Bool
  | emit _ _ | finish => !call.composes
  | compose _ => call.composes
  | _ => false

/-- Callbacks only emit, or answer if they compose. While none is at work, the user asks for
anything, no tick is abandoned, and no request raises at once. -/
def Machine.reenters (m : Machine α β) : Move α β → Bool
  | .advance => true
  | .request request =>
    match m.stack with
    | .calling call _ :: _ => request.reenters call
    | _ => m.RaiseFree (.request request)

def Machine.Reentrant (m : Machine α β) (move : Move α β) : Prop := m.reenters move

instance (m : Machine α β) (move : Move α β) : Decidable (m.Reentrant move) := by
  unfold Machine.Reentrant
  infer_instance

/-- The source that accepts an event. -/
def Notice.source? : Notice α β → Option SourceId
  | accepted source _ => some source
  | ofView _ _ => none

/-- The source whose event a frame delivers. -/
def Frame.source? : Frame α β → Option SourceId
  | delivering source _ _ => some source
  | _ => none

/-- The sources in whose deliveries the core is, the innermost one first. -/
def deliverers (stack : List (Frame α β)) : List SourceId := stack.filterMap (·.source?)

/-- The source is connected to an input of the view. -/
def World.feeds (source : SourceId) (view : ViewId) (world : World α β) : Bool :=
  world.views[view]?.any fun v ↦ v.inputs.any (·.1 == source)

/-- No source that feeds the view accepts an event while it still delivers an earlier one. -/
def Machine.Undisturbed (view : ViewId) (m : Machine α β) (move : Move α β) : Prop :=
  ∀ source ∈ (m.notices move).filterMap (·.source?), m.world.feeds source view →
    source ∉ deliverers m.stack

instance (view : ViewId) (m : Machine α β) (move : Move α β) :
    Decidable (m.Undisturbed view move) := by
  unfold Machine.Undisturbed
  infer_instance

/-! ### How frames stand on each other -/

namespace Frame

def closes : Frame α β → Bool
  | closing _ => true
  | _ => false

def connects : Frame α β → Bool
  | connecting _ _ => true
  | _ => false

/-- The frame waits for the value of a composing callback. -/
def waits : Frame α β → Bool
  | composing _ => true
  | _ => false

end Frame

/-- No composing callback is waited for. -/
def NoneWaits (stack : List (Frame α β)) : Prop := ∀ frame ∈ stack, frame.waits = false

/-- No view is being connected. -/
def NoneConnects (stack : List (Frame α β)) : Prop := ∀ frame ∈ stack, frame.connects = false

namespace Scene

variable {scene scene' : Scene α} {view j : ViewId}

/-- Nobody listens to the view, and one of its inputs is not loaded. -/
def Blank (j : ViewId) (scene : Scene α) : Prop :=
  ∃ o, scene.views[j]? = some o ∧ o.listeners.tickets = [] ∧ o.allLoaded = false

/-- The inputs that are left to connect are the next ones of the view. -/
def Continues (j : ViewId) (inputs : List (SourceId × Nat)) (scene : Scene α) : Prop :=
  ∃ o, scene.views[j]? = some o ∧ o.live ∧ o.disposed = false ∧ o.listeners.tickets = [] ∧
    o.inputs.length + inputs.length = o.slots.length ∧
    ∀ (n : Nat) (input : SourceId × Nat), inputs[n]? = some input →
      input.2 = o.inputs.length + n ∧ input.1 < scene.sources.length

/-- No delivery is under way, or an input has failed whose source is still at its delivery. -/
def Blocked (view : ViewId) (stack : List (Frame α β)) (scene : Scene α) : Prop :=
  deliverers stack = [] ∨ ∃ (o : Outline α) (k : Nat) (slot : Slot α) (input : SourceId × Nat),
    scene.views[view]? = some o ∧ o.slots[k]? = some slot ∧ slot.status = .failed ∧
      o.inputs[k]? = some input ∧ input.1 ∈ deliverers stack

/-- The view is there, and it is blocked if deliveries are undisturbed. -/
def Allows (view : ViewId) (undisturbed : Prop) (stack : List (Frame α β)) (scene : Scene α) :
    Prop :=
  (∃ o, scene.views[view]? = some o ∧ o.live ∧ o.disposed = false) ∧
    (undisturbed → scene.Blocked view stack)

def Feeds (source : SourceId) (view : ViewId) (scene : Scene α) : Prop :=
  ∃ slot ticket, scene.input? view slot = some (source, ticket)

end Scene

/-- The frame can stand on a stack. What is asked for one view is asked for no other. -/
def Frame.Fits (view : ViewId) (undisturbed : Prop) (scene : Scene α) (below : List (Frame α β)) :
    Frame α β → Prop
  | calling (.compose _ _) _ => ∃ j stack, below = composing j :: stack
  | calling _ _ => NoneWaits below ∧ NoneConnects below
  | closing _ => NoneWaits below ∧ NoneConnects below
  | draining views _ =>
    NoneWaits below ∧ NoneConnects below ∧ (views = [] ∨ deliverers below = [])
  | delivering source event _ => NoneWaits below ∧ NoneConnects below ∧
    (∃ answer stack, below = closing answer :: stack) ∧
    (undisturbed → scene.Feeds source view →
      scene.current source = event ∧ source ∉ deliverers below)
  | announcing _ _ tickets => NoneWaits below ∧ (tickets = [] ∨ NoneConnects below)
  | failing j _ => NoneWaits below ∧ (NoneConnects below ∨ scene.Blank j) ∧
    (j = view → scene.Allows view undisturbed below)
  | composing j | settling j => NoneWaits below ∧ NoneConnects below ∧
    (j = view → scene.Allows view undisturbed below)
  | holding _ => NoneWaits below
  | subscribing target ticket => below = [] ∧
    ∀ source, target = .source source → scene.Foreign source ticket
  | connecting j inputs => below = [closing .done, building j] ∧ scene.Continues j inputs
  | building _ | feeding _ => below = []

/-- Every frame fits on what is below it. -/
def Stacked (view : ViewId) (undisturbed : Prop) (scene : Scene α) : List (Frame α β) → Prop
  | [] => True
  | frame :: below => frame.Fits view undisturbed scene below ∧ Stacked view undisturbed scene below

/-- The event has still to be delivered to the input. -/
def Owed (input : SourceId × Nat) (stack : List (Frame α β)) : Prop :=
  ∃ event tickets, .delivering input.1 event tickets ∈ stack ∧ input.2 ∈ tickets

/-- Every input of the view shows the current event of its source, or has still to hear it. -/
def Scene.Served (view : ViewId) (stack : List (Frame α β)) (scene : Scene α) : Prop :=
  ∀ o, scene.views[view]? = some o → ∀ (k : Nat) (input : SourceId × Nat),
    o.inputs[k]? = some input →
      (∃ slot, o.slots[k]? = some slot ∧ slot.Shows (scene.current input.1)) ∨ Owed input stack

section Stacked

variable {view j : ViewId} {undisturbed later : Prop} {scene scene' : Scene α}
  {stack below above : List (Frame α β)} {frame : Frame α β}

theorem deliverers_cons (frame : Frame α β) (stack : List (Frame α β)) :
    deliverers (frame :: stack) = frame.source?.toList ++ deliverers stack := by
  rw [deliverers, List.filterMap_cons]
  cases frame.source? <;> rfl

theorem mem_deliverers {source : SourceId} : source ∈ deliverers stack ↔
    ∃ event tickets, .delivering source event tickets ∈ stack := by
  rw [deliverers, List.mem_filterMap]
  constructor
  · rintro ⟨frame, hframe, hsource⟩
    cases frame with
    | delivering other event tickets =>
      obtain rfl := Option.some.inj hsource
      exact ⟨event, tickets, hframe⟩
    | _ => contradiction
  · rintro ⟨event, tickets, hframe⟩
    exact ⟨_, hframe, rfl⟩

theorem deliverers_subset (h : below ⊆ stack) : deliverers below ⊆ deliverers stack := by
  intro source hsource
  obtain ⟨event, tickets, hframe⟩ := mem_deliverers.mp hsource
  exact mem_deliverers.mpr ⟨event, tickets, h hframe⟩

theorem NoneConnects.subset (h : NoneConnects stack) (hsub : below ⊆ stack) : NoneConnects below :=
  fun frame hframe ↦ h frame (hsub hframe)

theorem noneWaits_nil : NoneWaits ([] : List (Frame α β)) := fun _ hframe ↦ absurd hframe (by simp)

theorem noneConnects_nil : NoneConnects ([] : List (Frame α β)) :=
  fun _ hframe ↦ absurd hframe (by simp)

theorem noneWaits_cons : NoneWaits (frame :: stack) ↔ frame.waits = false ∧ NoneWaits stack :=
  List.forall_mem_cons

theorem noneConnects_cons :
    NoneConnects (frame :: stack) ↔ frame.connects = false ∧ NoneConnects stack :=
  List.forall_mem_cons

/-- Assumes: every frame that fits in the one scene fits in the other. -/
theorem Stacked.imp (h : Stacked view undisturbed scene stack)
    (hfits : ∀ frame below, frame :: below <:+ stack → frame.Fits view undisturbed scene below →
      frame.Fits view later scene' below) : Stacked view later scene' stack := by
  induction stack with
  | nil => trivial
  | cons frame below ih =>
    refine ⟨hfits frame below (List.suffix_refl _) h.1, ih h.2 fun other rest hsuffix ↦ ?_⟩
    exact hfits other rest (hsuffix.trans (List.suffix_cons frame below))

theorem Stacked.fits (h : Stacked view undisturbed scene stack)
    (hsuffix : frame :: below <:+ stack) : frame.Fits view undisturbed scene below := by
  induction stack with
  | nil => exact absurd (List.suffix_nil.mp hsuffix) (List.cons_ne_nil _ _)
  | cons other rest ih =>
    rcases List.suffix_cons_iff.mp hsuffix with heq | hrest
    · obtain ⟨rfl, rfl⟩ := List.cons.inj heq
      exact h.1
    · exact ih h.2 hrest

/-- Fewer promises are asked of frames when there are more conditions. -/
theorem Stacked.mono (hlater : later → undisturbed) (h : Stacked view undisturbed scene stack) :
    Stacked view later scene stack := by
  refine h.imp fun frame below _ hfits ↦ ?_
  have hallows : scene.Allows view undisturbed below → scene.Allows view later below :=
    And.imp_right fun hblocked hl ↦ hblocked (hlater hl)
  cases frame with
  | calling call turn => cases call <;> exact hfits
  | delivering source event tickets =>
    obtain ⟨hwaits, hconnects, hclosing, hcurrent⟩ := hfits
    exact ⟨hwaits, hconnects, hclosing, fun hl ↦ hcurrent (hlater hl)⟩
  | failing other errors =>
    exact ⟨hfits.1, hfits.2.1, fun hview ↦ hallows (hfits.2.2 hview)⟩
  | composing other => exact ⟨hfits.1, hfits.2.1, fun hview ↦ hallows (hfits.2.2 hview)⟩
  | settling other => exact ⟨hfits.1, hfits.2.1, fun hview ↦ hallows (hfits.2.2 hview)⟩
  | _ => exact hfits

/-- A delivery is under way only in a tick of its own. -/
theorem Stacked.closes (h : Stacked view undisturbed scene stack)
    (hdelivers : deliverers stack ≠ []) : 0 < stack.countP (·.closes) := by
  obtain ⟨source, hsource⟩ := List.exists_mem_of_ne_nil _ hdelivers
  obtain ⟨event, tickets, hframe⟩ := mem_deliverers.mp hsource
  obtain ⟨above, below, rfl⟩ := List.append_of_mem hframe
  obtain ⟨-, -, ⟨answer, rest, rfl⟩, -⟩ := h.fits (List.suffix_append _ _)
  rw [List.countP_pos_iff]
  exact ⟨.closing answer, by simp, rfl⟩

/-! ### Changes of the scene -/

/-- The input of a view hears an event of its source. Assumes: a source that is not at an earlier
delivery. -/
theorem Scene.Allows.hear {source : SourceId} {ticket k : Nat} (event : Event α)
    (h : scene.Allows view undisturbed stack) (hinput : scene.input? j k = some (source, ticket))
    (hsource : undisturbed → scene.Feeds source view → source ∉ deliverers stack) :
    (scene.modifyView j (·.hear k event)).Allows view undisturbed stack := by
  by_cases hj : j = view
  case neg =>
    obtain ⟨hthere, hblocked⟩ := h
    have hsame : (scene.modifyView j (·.hear k event)).views[view]? = scene.views[view]? :=
      getElem?_modifyView_of_ne _ hj
    unfold Scene.Allows Scene.Blocked
    rw [hsame]
    exact ⟨hthere, hblocked⟩
  case pos =>
    subst hj
    obtain ⟨⟨o, ho, hlive, hdisposed⟩, hblocked⟩ := h
    have ho' := getElem?_modifyView_self (·.hear k event) ho
    refine ⟨⟨_, ho', hlive, hdisposed⟩, fun hu ↦ (hblocked hu).imp_right ?_⟩
    rintro ⟨o₁, other, slot, input, ho₁, hslot, hfailed, hother, hdelivers⟩
    obtain rfl := Option.some.inj (ho.symm.trans ho₁)
    refine ⟨_, other, slot, input, ho', ?_, hfailed, hother, hdelivers⟩
    -- the input that failed is fed by a source that is at an earlier delivery
    have hne : k ≠ other := by
      rintro rfl
      rw [Scene.input?_of_view ho] at hinput
      obtain rfl := Option.some.inj (hinput.symm.trans hother)
      exact hsource hu ⟨k, ticket, (Scene.input?_of_view ho k).trans hinput⟩ hdelivers
    exact (List.getElem?_modify_ne _ o.slots hne).trans hslot

theorem Stacked.hear {source : SourceId} {event : Event α} {tickets : List Nat} {ticket k : Nat}
    (h : Stacked view undisturbed scene (.delivering source event tickets :: below))
    (hinput : scene.input? j k = some (source, ticket)) :
    Stacked view undisturbed (scene.modifyView j (·.hear k event))
      (.delivering source event tickets :: below) := by
  obtain ⟨⟨hwaits, hconnects, hclosing, hcurrent⟩, hbelow⟩ := h
  have hfeeds : ∀ other, (scene.modifyView j (·.hear k event)).Feeds other view →
      scene.Feeds other view := by
    rintro other ⟨slot, ticket', hother⟩
    exact ⟨slot, ticket',
      (Scene.input?_modifyView (f := (·.hear k event)) (fun _ ↦ rfl) slot).symm.trans hother⟩
  refine ⟨⟨hwaits, hconnects, hclosing, fun hu hf ↦ hcurrent hu (hfeeds source hf)⟩, ?_⟩
  refine hbelow.imp fun frame rest hsuffix hfits ↦ ?_
  have hsub : rest ⊆ below := fun other hother ↦
    hsuffix.subset (List.mem_cons_of_mem _ hother)
  have hquiet : NoneConnects rest := hconnects.subset hsub
  have hallows : scene.Allows view undisturbed rest →
      (scene.modifyView j (·.hear k event)).Allows view undisturbed rest := fun ha ↦
    ha.hear event hinput fun hu hf hmem ↦ (hcurrent hu hf).2 (deliverers_subset hsub hmem)
  cases frame with
  | calling call turn => cases call <;> exact hfits
  | delivering other earlier left =>
    obtain ⟨hw, hc, hcl, hcur⟩ := hfits
    exact ⟨hw, hc, hcl, fun hu hf ↦ hcur hu (hfeeds other hf)⟩
  | failing other errors => exact ⟨hfits.1, .inl hquiet, fun hview ↦ hallows (hfits.2.2 hview)⟩
  | composing other => exact ⟨hfits.1, hquiet, fun hview ↦ hallows (hfits.2.2 hview)⟩
  | settling other => exact ⟨hfits.1, hquiet, fun hview ↦ hallows (hfits.2.2 hview)⟩
  | subscribing target ticket' =>
    refine ⟨hfits.1, fun other hother ↦ ?_⟩
    exact ⟨(hfits.2 other hother).given, (hfits.2 other hother).listener⟩
  | connecting other inputs =>
    have hnot := hconnects _ (hsuffix.subset List.mem_cons_self)
    contradiction
  | _ => exact hfits

/-- A source accepts an event. Assumes: it is not at an earlier delivery if the view hears of it. -/
theorem Stacked.publish {source : SourceId} (event : Event α)
    (h : Stacked view undisturbed scene stack) (hquiet : NoneConnects stack)
    (hsource : undisturbed → scene.Feeds source view → source ∉ deliverers stack)
    (hforeign : ∀ other ticket, scene.Foreign other ticket →
      (scene.modifySource source fun s ↦ { s with current := event }).Foreign other ticket) :
    Stacked view undisturbed (scene.modifySource source fun s ↦ { s with current := event })
      stack := by
  refine h.imp fun frame rest hsuffix hfits ↦ ?_
  cases frame with
  | calling call turn => cases call <;> exact hfits
  | delivering other earlier left =>
    obtain ⟨hwaits, hconnects, hclosing, hcurrent⟩ := hfits
    refine ⟨hwaits, hconnects, hclosing, fun hu hf ↦ ?_⟩
    obtain ⟨hevent, hnot⟩ := hcurrent hu hf
    refine ⟨?_, hnot⟩
    have hne : source ≠ other := by
      rintro rfl
      exact hsource hu hf (mem_deliverers.mpr ⟨earlier, left, hsuffix.subset List.mem_cons_self⟩)
    rw [← hevent]
    exact Scene.current_modifySource_of_ne _ hne
  | subscribing target ticket =>
    exact ⟨hfits.1, fun other hother ↦ hforeign _ _ (hfits.2 other hother)⟩
  | connecting other inputs =>
    have hnot := hquiet _ (hsuffix.subset List.mem_cons_self)
    contradiction
  | _ => exact hfits

theorem Scene.Foreign.congr {source : SourceId} {ticket : Nat} (h : scene.Foreign source ticket)
    (hsources : scene'.sources = scene.sources) : scene'.Foreign source ticket where
  given := hsources ▸ h.given
  listener slot := by
    rw [Scene.listener?, hsources]
    exact h.listener slot

/-- Ticks are opened and closed. -/
theorem Stacked.atDepth (depth : Nat) (h : Stacked view undisturbed scene stack) :
    Stacked view undisturbed { scene with depth } stack := by
  refine h.imp fun frame below _ hfits ↦ ?_
  cases frame with
  | calling call turn => cases call <;> exact hfits
  | subscribing target ticket =>
    exact ⟨hfits.1, fun other hother ↦ (hfits.2 other hother).congr rfl⟩
  | _ => exact hfits

/-! ### Events that are still to be delivered -/

theorem Owed.mono {input : SourceId × Nat} (h : Owed input below) (hsub : below ⊆ stack) :
    Owed input stack := by
  obtain ⟨event, tickets, hframe, hticket⟩ := h
  exact ⟨event, tickets, hsub hframe, hticket⟩

/-- One more ticket of a delivery is done with. -/
theorem Owed.skip {source : SourceId} {event : Event α} {ticket : Nat} {tickets : List Nat}
    {input : SourceId × Nat}
    (h : Owed input (.delivering source event (ticket :: tickets) :: below))
    (hne : input ≠ (source, ticket)) : Owed input (.delivering source event tickets :: below) := by
  obtain ⟨other, left, hframe, hticket⟩ := h
  rcases List.mem_cons.mp hframe with heq | hbelow
  · obtain ⟨hsource, rfl, rfl⟩ := Frame.delivering.inj heq
    refine ⟨other, tickets, ?_, ?_⟩
    · rw [hsource]
      exact List.mem_cons_self
    · refine (List.mem_cons.mp hticket).resolve_left fun heq ↦ hne ?_
      rw [← hsource, ← heq]
  · exact ⟨other, left, List.mem_cons_of_mem _ hbelow, hticket⟩

/-- The input of a view hears the current event of its source. -/
theorem Scene.Served.hear {source : SourceId} {event : Event α} {ticket k : Nat}
    {tickets : List Nat}
    (h : scene.Served view (.delivering source event (ticket :: tickets) :: below))
    (hplugged : scene.Plugged) (hinput : scene.input? j k = some (source, ticket))
    (hcurrent : scene.Feeds source view → scene.current source = event) :
    (scene.modifyView j (·.hear k event)).Served view
      (.delivering source event tickets :: below) := by
  intro o' ho' slot input hslot
  obtain ⟨o, ho, hwhich⟩ := Scene.exists_of_modifyView ho'
  have hinput' : scene.input? view slot = some input := by
    rw [Scene.input?_of_view ho]
    rcases hwhich with ⟨-, rfl⟩ | ⟨-, rfl⟩
    · exact hslot
    · exact hslot
  by_cases hself : input = (source, ticket)
  · -- only one input has that ticket
    subst hself
    have hlistener := (hplugged.wired source ticket view slot).mpr hinput'
    rw [(hplugged.wired source ticket j k).mpr hinput] at hlistener
    obtain ⟨rfl, rfl⟩ := Listener.input.inj (Option.some.inj hlistener)
    obtain ⟨-, rfl⟩ | ⟨hne, -⟩ := hwhich
    case inr => exact absurd rfl hne
    left
    have hbound : k < o.slots.length := by
      rw [Scene.input?_of_view ho] at hinput
      exact Nat.lt_of_lt_of_le (List.getElem?_eq_some_iff.mp hinput).1 (hplugged.room j o ho)
    refine ⟨o.slots[k].hear event, ?_, ?_⟩
    · show (o.slots.modify k _)[k]? = _
      rw [List.getElem?_modify_eq, List.getElem?_eq_getElem hbound]
      rfl
    · have hevent : (scene.modifyView j (·.hear k event)).current source = event :=
        hcurrent ⟨k, ticket, hinput⟩
      rw [hevent]
      exact Slot.shows_hear event _
  · rcases hwhich with ⟨rfl, rfl⟩ | ⟨-, rfl⟩
    · have hne : k ≠ slot := by
        rintro rfl
        exact hself (Option.some.inj (hinput'.symm.trans hinput))
      refine (h o ho slot input hslot).imp ?_ fun howed ↦ howed.skip hself
      rintro ⟨s, hs, hshows⟩
      exact ⟨s, (List.getElem?_modify_ne _ o.slots hne).trans hs, hshows⟩
    · exact (h _ ho slot input hslot).imp id fun howed ↦ howed.skip hself

/-! ### The next input of a new view -/

theorem Scene.Continues.plug {source : SourceId} {slot ticket : Nat} {event : Event α}
    {inputs : List (SourceId × Nat)} (h : scene.Continues j ((source, slot) :: inputs)) :
    (scene.plug j source slot ticket event).Continues j inputs := by
  obtain ⟨o, ho, hlive, hdisposed, hnobody, hlength, hnext⟩ := h
  have hinputs : (o.plug source slot ticket event).inputs.length = o.inputs.length + 1 :=
    List.length_append
  have hslots : (o.plug source slot ticket event).slots.length = o.slots.length :=
    List.length_modify _ o.slots slot
  refine ⟨_, Scene.getElem?_plug_self ho, hlive, hdisposed, hnobody, ?_, ?_⟩
  · rw [hinputs, hslots, ← hlength, List.length_cons]
    omega
  · intro n input hinput
    obtain ⟨hplace, hthere⟩ := hnext (n + 1) input hinput
    constructor
    · rw [hinputs, hplace]
      omega
    · show input.1 < (scene.sources.modify source _).length
      rw [List.length_modify]
      exact hthere

/-- A new input shows the current event of its source. Assumes: nobody has still to hear of an
event. -/
theorem Scene.Served.plug {source : SourceId} {ticket : Nat} {o : Outline α}
    (h : scene.Served view stack) (howed : ∀ input, ¬ Owed input stack)
    (ho : scene.views[j]? = some o) (hroom : o.inputs.length < o.slots.length) :
    (scene.plug j source o.inputs.length ticket (scene.current source)).Served view below := by
  intro o' ho' k input hinput
  rw [Scene.current_plug]
  left
  obtain ⟨o₁, hold, ⟨rfl, rfl⟩ | ⟨-, rfl⟩⟩ := Scene.exists_of_plug ho'
  case inr => exact (h _ hold k input hinput).resolve_right (howed input)
  obtain rfl := Option.some.inj (ho.symm.trans hold)
  have hinputs : (o.inputs ++ [(source, ticket)])[k]? = some input := hinput
  show ∃ slot, (o.slots.modify o.inputs.length _)[k]? = some slot ∧ _
  by_cases hk : k = o.inputs.length
  · subst hk
    rw [List.getElem?_concat_length] at hinputs
    obtain rfl := Option.some.inj hinputs
    rw [List.getElem?_modify_eq, List.getElem?_eq_getElem hroom]
    exact ⟨_, rfl, Slot.shows_hear _ _⟩
  · have hless : k < o.inputs.length := by
      have hbound := (List.getElem?_eq_some_iff.mp hinputs).1
      rw [List.length_append, List.length_singleton] at hbound
      omega
    rw [List.getElem?_append_left hless] at hinputs
    rw [List.getElem?_modify_ne _ _ (Ne.symm hk)]
    exact (h o ho k input hinputs).resolve_right (howed input)

end Stacked

end LiveRecord.Flow
