import LiveRecord.Proofs.Flow.Reentry

/-!
# Nested deliveries

While callbacks only emit, a view works only while it is there and has all its inputs, and if the
sources that feed it are undisturbed, every input shows the current event of its source or has still
to hear it (`Machine.prompt_move`).
-/

set_option autoImplicit false

namespace LiveRecord.Flow

variable {α β : Type}

/-- The frame can be replaced without anybody missing it. -/
def Frame.plain : Frame α β → Bool
  | building _ | connecting _ _ | delivering _ _ _ => false
  | _ => true

namespace Machine

/-- What holds of one view while callbacks only emit, and what holds if the sources that feed it are
undisturbed. -/
structure Prompt (view : ViewId) (undisturbed : Prop) (m : Machine α β) : Prop where
  poised : m.Poised
  plugged : m.world.scene.Plugged
  handled : m.world.Handled
  owned : ∀ (j : ViewId) (o : Outline α), m.world.scene.views[j]? = some o → o.live →
    o.owned ∨ .building j ∈ m.stack
  complete : ∀ o, m.world.scene.views[view]? = some o → o.live → o.disposed = false →
    o.inputs.length = o.slots.length ∨ ∃ inputs, .connecting view inputs ∈ m.stack
  closings : m.stack.countP (·.closes) ≤ m.world.scene.depth
  stacked : Stacked view undisturbed m.world.scene m.stack
  served : undisturbed → m.world.scene.Served view m.stack

section Prompt

variable {view j : ViewId} {undisturbed later : Prop} {m m' : Machine α β} {frame : Frame α β}
  {below : List (Frame α β)}

theorem Prompt.mono (hlater : later → undisturbed) (h : m.Prompt view undisturbed) :
    m.Prompt view later :=
  { h with
    stacked := h.stacked.mono hlater
    served := fun hl ↦ h.served (hlater hl) }

theorem Prompt.inTick (h : m.Prompt view undisturbed) (hdelivers : deliverers m.stack ≠ []) :
    m.world.inTick := by
  have hopen := Nat.lt_of_lt_of_le (h.stacked.closes hdelivers) h.closings
  exact decide_eq_true hopen

/-- Assumes: the scene stays the same, and every frame that is gone is not missed. -/
theorem Prompt.restack (h : m.Prompt view undisturbed)
    (hscene : m'.world.scene = m.world.scene) (hpoised : m'.Poised)
    (hstacked : Stacked view undisturbed m.world.scene m'.stack)
    (hclosings : m'.stack.countP (·.closes) ≤ m.stack.countP (·.closes))
    (hbuilding : ∀ j, .building j ∈ m.stack → .building j ∈ m'.stack)
    (hconnecting : ∀ inputs, .connecting view inputs ∈ m.stack →
      .connecting view inputs ∈ m'.stack)
    (howed : ∀ slot input, m.world.scene.input? view slot = some input → Owed input m.stack →
      Owed input m'.stack) : m'.Prompt view undisturbed where
  poised := hpoised
  plugged := hscene ▸ h.plugged
  handled := by
    show ∀ handle ∈ m'.world.scene.handles, _
    rw [hscene]
    exact h.handled
  owned j o ho hlive := by
    rw [hscene] at ho
    exact (h.owned j o ho hlive).imp_right (hbuilding j)
  complete o ho hlive hdisposed := by
    rw [hscene] at ho
    refine (h.complete o ho hlive hdisposed).imp_right ?_
    rintro ⟨inputs, hinputs⟩
    exact ⟨inputs, hconnecting inputs hinputs⟩
  closings := by
    rw [hscene]
    exact Nat.le_trans hclosings h.closings
  stacked := hscene ▸ hstacked
  served hu := by
    rw [hscene]
    intro o ho k input hinput
    refine (h.served hu o ho k input hinput).imp_right ?_
    exact howed k input ((Scene.input?_of_view ho k).trans hinput)

/-- Assumes: a plain frame on top gives way to frames that fit and open no tick. -/
theorem Prompt.replace (new : List (Frame α β)) (h : m.Prompt view undisturbed)
    (hstack : m.stack = frame :: below) (hplain : frame.plain)
    (hscene : m'.world.scene = m.world.scene) (hpoised : m'.Poised)
    (hnew : m'.stack = new ++ below) (hopens : new.countP (·.closes) = 0)
    (hstacked : Stacked view undisturbed m.world.scene (new ++ below)) :
    m'.Prompt view undisturbed := by
  have hkept : ∀ other ∈ m.stack, other.plain = false → other ∈ m'.stack := by
    intro other hother hnot
    rw [hstack] at hother
    rw [hnew]
    rcases List.mem_cons.mp hother with rfl | hbelow
    · rw [hplain] at hnot
      contradiction
    · exact List.mem_append_right new hbelow
  refine h.restack hscene hpoised (hnew ▸ hstacked) ?_ ?_ ?_ ?_
  · rw [hnew, hstack, List.countP_append, hopens, Nat.zero_add]
    exact (List.sublist_cons_self frame below).countP_le
  · exact fun j hj ↦ hkept _ hj rfl
  · exact fun inputs hinputs ↦ hkept _ hinputs rfl
  · rintro slot input - ⟨event, tickets, hframe, hticket⟩
    exact ⟨event, tickets, hkept _ hframe rfl, hticket⟩

theorem Prompt.pop (h : m.Prompt view undisturbed) (hstack : m.stack = frame :: below)
    (hplain : frame.plain) (hscene : m'.world.scene = m.world.scene) (hpoised : m'.Poised)
    (hnew : m'.stack = below) : m'.Prompt view undisturbed := by
  have hstacked := h.stacked
  rw [hstack] at hstacked
  exact h.replace [] hstack hplain hscene hpoised hnew rfl hstacked.2

/-- The stack and the control change only. -/
theorem Prompt.push (h : m.Prompt view undisturbed) (hscene : m'.world.scene = m.world.scene)
    (hpoised : m'.Poised) (hnew : m'.stack = frame :: m.stack) (hopens : frame.closes = false)
    (hfits : frame.Fits view undisturbed m.world.scene m.stack) : m'.Prompt view undisturbed := by
  have hkept : ∀ other ∈ m.stack, other ∈ m'.stack := by
    intro other hother
    rw [hnew]
    exact List.mem_cons_of_mem frame hother
  refine h.restack hscene hpoised (hnew ▸ ⟨hfits, h.stacked⟩) ?_ (fun j ↦ hkept _)
    (fun inputs ↦ hkept _) ?_
  · rw [hnew, List.countP_cons, hopens]
    exact Nat.le_refl _
  · rintro slot input - ⟨event, tickets, hframe, hticket⟩
    exact ⟨event, tickets, hkept _ hframe, hticket⟩

/-- Only the control changes. -/
theorem Prompt.stay (h : m.Prompt view undisturbed) (hscene : m'.world.scene = m.world.scene)
    (hpoised : m'.Poised) (hstack : m'.stack = m.stack) : m'.Prompt view undisturbed :=
  h.restack hscene hpoised (hstack ▸ h.stacked) (Nat.le_of_eq (by rw [hstack]))
    (fun _ hj ↦ hstack ▸ hj) (fun _ hinputs ↦ hstack ▸ hinputs) (fun _ _ _ ho ↦ hstack ▸ ho)

/-! ### Views at work -/

/-- Assumes: a frame on top that is at work for the view, and a view that goes through its news. -/
theorem Prompt.works (base : Machine α β) (h : m.Prompt view undisturbed)
    (hstack : m.stack = frame :: base.stack) (hplain : frame.plain)
    (hbase : base.world.scene = m.world.scene) (hwaits : NoneWaits base.stack)
    (hconnects : NoneConnects base.stack ∨ m.world.scene.Blank j)
    (hallows : j = view → m.world.scene.Allows view undisturbed base.stack)
    (hworks : Works j base m') : m'.Prompt view undisturbed := by
  have hstacked := h.stacked
  rw [hstack] at hstacked
  have hscene := hworks.scene.trans hbase
  rcases hworks.stack with hsame | ⟨o, errors, -, -, hfailing⟩
  · exact h.pop hstack hplain hscene hworks.poised hsame
  · exact h.replace [.failing j errors] hstack hplain hscene hworks.poised hfailing rfl
      ⟨⟨hwaits, hconnects, hallows⟩, hstacked.2⟩

/-- Assumes: a frame on top that is at work for the view, and a view that composes. -/
theorem Prompt.composes (h : m.Prompt view undisturbed) (hstack : m.stack = frame :: below)
    (hplain : frame.plain) (hwaits : NoneWaits below) (hconnects : NoneConnects below)
    (hallows : j = view → m.world.scene.Allows view undisturbed below)
    (hscene : m'.world.scene = m.world.scene) (hpoised : m'.Poised)
    (hcomposes : Composes j below m'.stack) : m'.Prompt view undisturbed := by
  have hstacked := h.stacked
  rw [hstack] at hstacked
  generalize hnew : m'.stack = stack at hcomposes
  cases hcomposes with
  | ready event tickets =>
    have hsettling : Stacked view undisturbed m.world.scene (.settling j :: below) :=
      ⟨⟨hwaits, hconnects, hallows⟩, hstacked.2⟩
    refine h.replace [.announcing j event tickets, .settling j] hstack hplain hscene hpoised hnew
      rfl ⟨⟨?_, .inr ?_⟩, hsettling⟩
    · exact noneWaits_cons.mpr ⟨rfl, hwaits⟩
    · exact noneConnects_cons.mpr ⟨rfl, hconnects⟩
  | call key inputs =>
    have hcomposing : Stacked view undisturbed m.world.scene (.composing j :: below) :=
      ⟨⟨hwaits, hconnects, hallows⟩, hstacked.2⟩
    exact h.replace [.calling (.compose key inputs) none, .composing j] hstack hplain hscene hpoised
      hnew rfl ⟨⟨j, below, rfl⟩, hcomposing⟩

theorem prompt_settling (h : m.Prompt view undisturbed) (hstack : m.stack = .settling j :: below) :
    ({ m with stack := below }.settle j).Prompt view undisturbed := by
  have hstacked := h.stacked
  rw [hstack] at hstacked
  obtain ⟨⟨hwaits, hconnects, hallows⟩, -⟩ := hstacked
  exact h.works { m with stack := below } hstack rfl rfl hwaits (.inl hconnects) hallows
    (works_settle j _)

/-- The value of a composing callback is there, or the callback has ended without one. -/
theorem prompt_composing (answer : Answer α β) (h : m.Prompt view undisturbed)
    (hstack : m.stack = .composing j :: below) : (m.resume answer).Prompt view undisturbed := by
  have hstacked := h.stacked
  rw [hstack] at hstacked
  obtain ⟨⟨hwaits, hconnects, hallows⟩, -⟩ := hstacked
  let returned : Machine α β :=
    { m with stack := below }.withWorld (.modifyView j fun v ↦ { v with lent := false })
  have hreturned : returned.world.scene = m.world.scene := World.scene_modifyView_eq fun _ ↦ rfl
  simp only [resume, hstack]
  split
  case h_1 value =>
    obtain ⟨hscene, hpoised, hcomposes⟩ := becomeReady_spec j value returned
    exact h.composes hstack rfl hwaits hconnects hallows (hscene.trans hreturned) hpoised hcomposes
  case h_2 =>
    exact h.works returned hstack rfl hreturned hwaits (.inl hconnects) hallows
      (works_settle j returned)

theorem prompt_failing {errors : List SourceError} (answer : Answer α β)
    (h : m.Prompt view undisturbed) (hstack : m.stack = .failing j errors :: below) :
    (m.resume answer).Prompt view undisturbed := by
  have hstacked := h.stacked
  rw [hstack] at hstacked
  obtain ⟨⟨hwaits, hconnects, hallows⟩, hbelow⟩ := hstacked
  cases errors with
  | nil =>
    simp only [resume, hstack]
    rcases composeIfDue_spec j { m with stack := below } with hworks | ⟨hloaded, hscene, hpoised,
      hcomposes⟩
    · exact h.works { m with stack := below } hstack rfl rfl hwaits hconnects hallows
        hworks
    · -- a view that is being connected has an input that is not loaded
      have hquiet : NoneConnects below := by
        refine hconnects.resolve_right ?_
        rintro ⟨o, ho, -, hnot⟩
        obtain ⟨o', ho', hall⟩ := hloaded
        obtain rfl := Option.some.inj (ho.symm.trans ho')
        rw [hnot] at hall
        contradiction
      exact h.composes hstack rfl hwaits hquiet hallows hscene hpoised hcomposes
  | cons error errors =>
    simp only [resume, hstack]
    have hfailing : Stacked view undisturbed m.world.scene (.failing j errors :: below) :=
      ⟨⟨hwaits, hconnects, hallows⟩, hbelow⟩
    refine h.replace [.announcing j (.failed error) (m.world.viewTickets j),
      .failing j errors] hstack rfl rfl trivial rfl rfl ⟨⟨?_, ?_⟩, hfailing⟩
    · exact noneWaits_cons.mpr ⟨rfl, hwaits⟩
    · rcases hconnects with hquiet | ⟨o, ho, hnobody, -⟩
      · exact .inr (noneConnects_cons.mpr ⟨rfl, hquiet⟩)
      · obtain ⟨v, hv, rfl⟩ := World.exists_of_scene ho
        left
        rw [World.viewTickets, hv]
        exact hnobody

theorem prompt_announcing {event : ViewEvent β} {tickets : List Nat} (answer : Answer α β)
    (h : m.Prompt view undisturbed) (hstack : m.stack = .announcing j event tickets :: below) :
    (m.resume answer).Prompt view undisturbed := by
  have hstacked := h.stacked
  rw [hstack] at hstacked
  obtain ⟨⟨hwaits, hquiet⟩, hbelow⟩ := hstacked
  cases tickets with
  | nil =>
    simp only [resume, hstack]
    exact h.pop hstack rfl rfl trivial rfl
  | cons ticket tickets =>
    have hquiet : NoneConnects below := hquiet.resolve_left (List.cons_ne_nil _ _)
    have hrest : Stacked view undisturbed m.world.scene (.announcing j event tickets :: below) :=
      ⟨⟨hwaits, .inr hquiet⟩, hbelow⟩
    simp only [resume, hstack]
    split
    case h_1 =>
      exact h.replace [.announcing j event tickets] hstack rfl rfl trivial rfl rfl hrest
    case h_2 key _ =>
      refine h.replace [.calling (.viewEvent key event) _, .announcing j event tickets]
        hstack rfl rfl (.inr ⟨_, _, _, rfl⟩) rfl rfl ⟨⟨?_, ?_⟩, hrest⟩
      · exact noneWaits_cons.mpr ⟨rfl, hwaits⟩
      · exact noneConnects_cons.mpr ⟨rfl, hquiet⟩

/-! ### Ticks and deliveries -/

theorem handled_congr (h : m.world.Handled) (hhandles : m'.world.handles = m.world.handles)
    (hforeign : ∀ source ticket, m.world.scene.Foreign source ticket →
      m'.world.scene.Foreign source ticket) : m'.world.Handled := by
  intro handle hhandle source htarget
  rw [hhandles] at hhandle
  exact hforeign source _ (h handle hhandle source htarget)

/-- A tick ends. The outermost one stands on no delivery. -/
theorem prompt_closing {answer : Answer α β} (h : m.Prompt view undisturbed)
    (hstack : m.stack = .closing answer :: below) :
    ({ m with stack := below }.closeTick answer).Prompt view undisturbed := by
  have hstacked := h.stacked
  rw [hstack] at hstacked
  obtain ⟨⟨hwaits, hconnects⟩, hbelow⟩ := hstacked
  have hopen : below.countP (·.closes) + 1 ≤ m.world.depth := by
    have hclosings := h.closings
    rwa [hstack, List.countP_cons] at hclosings
  obtain ⟨views, hviews, hscene, hnew⟩ := closeTick_spec answer { m with stack := below }
  have hlast : views = [] ∨ deliverers below = [] := by
    refine hviews.imp_right fun hzero ↦ ?_
    have hzero : m.world.depth - 1 = 0 := hzero
    by_cases hdelivers : deliverers below = []
    · exact hdelivers
    · have hcloses := hbelow.closes hdelivers
      omega
  have hkept {other : Frame α β} (hother : other ∈ m.stack) (hne : other ≠ .closing answer) :
      other ∈ ({ m with stack := below }.closeTick answer).stack := by
    rw [hstack] at hother
    rw [hnew]
    exact List.mem_cons_of_mem _ ((List.mem_cons.mp hother).resolve_left hne)
  constructor
  case poised => exact trivial
  case plugged => exact hscene ▸ h.plugged.of_eq rfl rfl
  case handled =>
    refine handled_congr h.handled ?_ fun source ticket hforeign ↦ ?_
    · exact congrArg Scene.handles hscene
    · rw [hscene]
      exact hforeign.congr rfl
  case owned =>
    intro k o ho hlive
    rw [hscene] at ho
    exact (h.owned k o ho hlive).imp_right fun hbuilding ↦ hkept hbuilding (by simp)
  case complete =>
    intro o ho hlive hdisposed
    rw [hscene] at ho
    refine (h.complete o ho hlive hdisposed).imp_right ?_
    rintro ⟨inputs, hinputs⟩
    exact ⟨inputs, hkept hinputs (by simp)⟩
  case closings =>
    rw [hscene, hnew, List.countP_cons]
    show below.countP _ + 0 ≤ m.world.depth - 1
    omega
  case stacked =>
    rw [hscene, hnew]
    exact ⟨⟨hwaits, hconnects, hlast⟩, hbelow.atDepth _⟩
  case served =>
    intro hu
    rw [hscene]
    intro o ho slot input hinput
    refine (h.served hu o ho slot input hinput).imp_right ?_
    rintro ⟨event, tickets, hframe, hticket⟩
    exact ⟨event, tickets, hkept hframe (by simp), hticket⟩

/-- Assumes: a view that may begin to go through its news where it stands. -/
theorem Prompt.begin (h : m.Prompt view undisturbed) (hwaits : NoneWaits m.stack)
    (hconnects : NoneConnects m.stack)
    (hallows : ∀ o, m.world.scene.views[j]? = some o → o.disposed = false → j = view →
      m.world.scene.Allows view undisturbed m.stack)
    (hworks : Works j m m') : m'.Prompt view undisturbed := by
  rcases hworks.stack with hsame | ⟨o, errors, ho, hdisposed, hfailing⟩
  · exact h.stay hworks.scene hworks.poised hsame
  · exact h.push hworks.scene hworks.poised hfailing rfl
      ⟨hwaits, .inl hconnects, hallows o ho hdisposed⟩

theorem prompt_draining {views : List ViewId} {answer' : Answer α β} (answer : Answer α β)
    (h : m.Prompt view undisturbed) (hstack : m.stack = .draining views answer' :: below) :
    (m.resume answer).Prompt view undisturbed := by
  have hstacked := h.stacked
  rw [hstack] at hstacked
  obtain ⟨⟨hwaits, hconnects, hlast⟩, hbelow⟩ := hstacked
  cases views with
  | nil =>
    simp only [resume, hstack]
    exact h.pop hstack rfl rfl trivial rfl
  | cons j views =>
    have hnone : deliverers below = [] := hlast.resolve_left (List.cons_ne_nil _ _)
    have hrest : Stacked view undisturbed m.world.scene (.draining views answer' :: below) :=
      ⟨⟨hwaits, hconnects, .inr hnone⟩, hbelow⟩
    simp only [resume, hstack, runDeferred]
    split
    case h_1 =>
      exact h.replace [.draining views answer'] hstack rfl rfl trivial rfl rfl hrest
    case h_2 v hfound =>
      obtain ⟨hview, hlive⟩ := Option.filter_eq_some_iff.mp hfound
      let held : Machine α β := ({ m with stack := .draining views answer' :: below }.push
        (.holding j)).withWorld (.modifyView j fun v ↦ { v with scheduled := false })
      have hscene : held.world.scene = m.world.scene := World.scene_modifyView_eq fun _ ↦ rfl
      have hdraining : NoneWaits (.draining views answer' :: below) :=
        noneWaits_cons.mpr ⟨rfl, hwaits⟩
      have hheld : (held.returning .done).Prompt view undisturbed :=
        h.replace [.holding j, .draining views answer'] hstack rfl hscene trivial rfl rfl
          ⟨hdraining, hrest⟩
      have hworks := works_flush j held
      refine hheld.begin ?_ ?_ ?_ ⟨hworks.scene, hworks.poised, hworks.stack⟩
      · exact noneWaits_cons.mpr ⟨rfl, hdraining⟩
      · exact noneConnects_cons.mpr ⟨rfl, noneConnects_cons.mpr ⟨rfl, hconnects⟩⟩
      · rintro o ho hdisposed rfl
        refine ⟨⟨o, ho, ?_, hdisposed⟩, fun _ ↦ .inl hnone⟩
        have houtline : (held.returning .done).world.scene.views[j]? = some v.outline := by
          show held.world.scene.views[j]? = _
          rw [hscene]
          exact World.getElem?_scene hview
        obtain rfl := Option.some.inj (ho.symm.trans houtline)
        exact hlive

/-- Who listens as an input of a view is there to hear, and its values are not lent. Assumes: values
are lent only to composing callbacks at work. -/
theorem Prompt.exists_listening {source : SourceId} {event : Event α} {ticket k : Nat}
    {tickets : List Nat} (h : m.Prompt view undisturbed) (hmanned : m.Manned)
    (hstack : m.stack = .delivering source event tickets :: below)
    (hinput : m.world.scene.input? j k = some (source, ticket)) :
    ∃ v, m.world.views[j]? = some v ∧ v.live ∧ v.disposed = false ∧ v.lent = false ∧
      v.inputs[k]? = some (source, ticket) ∧ k < v.outline.slots.length := by
  obtain ⟨o, ho, hslot⟩ := Scene.input?_eq_some_iff.mp hinput
  obtain ⟨hlive, hdisposed⟩ := h.plugged.there j o ho fun hnone ↦ by
    rw [hnone] at hslot
    contradiction
  have hbound : k < o.slots.length :=
    Nat.lt_of_lt_of_le (List.getElem?_eq_some_iff.mp hslot).1 (h.plugged.room j o ho)
  obtain ⟨v, hview, rfl⟩ := World.exists_of_scene ho
  refine ⟨v, hview, hlive, hdisposed, ?_, hslot, hbound⟩
  cases hlent : v.lent with
  | false => rfl
  | true =>
    have hcomposing := hmanned.lent j v hview hlent
    have hstacked := h.stacked
    rw [hstack] at hstacked hcomposing
    obtain ⟨⟨hwaits, -⟩, -⟩ := hstacked
    have hnot := hwaits _ ((List.mem_cons.mp hcomposing).resolve_left (by simp))
    contradiction

/-- An input has heard the event that it was to hear, and the delivery goes on. -/
theorem Prompt.heard {source : SourceId} {event : Event α} {ticket k : Nat} {tickets : List Nat}
    (h : m.Prompt view undisturbed)
    (hstack : m.stack = .delivering source event (ticket :: tickets) :: below)
    (hinput : m.world.scene.input? j k = some (source, ticket))
    (hscene : m'.world.scene = m.world.scene.modifyView j (·.hear k event)) (hpoised : m'.Poised)
    (hnew : m'.stack = .delivering source event tickets :: below) :
    m'.Prompt view undisturbed := by
  have hstacked := h.stacked
  rw [hstack] at hstacked
  obtain ⟨⟨hwaits, hconnects, hclosing, hcurrent⟩, hbelow⟩ := hstacked
  have hkept {other : Frame α β} (hother : other ∈ m.stack)
      (hne : other ≠ .delivering source event (ticket :: tickets)) : other ∈ m'.stack := by
    rw [hstack] at hother
    rw [hnew]
    exact List.mem_cons_of_mem _ ((List.mem_cons.mp hother).resolve_left hne)
  constructor
  case poised => exact hpoised
  case plugged =>
    rw [hscene]
    exact h.plugged.modifyView (fun _ ↦ rfl) (fun o ↦ List.length_modify _ o.slots k)
      (fun _ ↦ rfl) (fun _ ↦ rfl)
  case handled =>
    refine handled_congr h.handled (congrArg Scene.handles hscene) fun other ticket' hforeign ↦ ?_
    rw [hscene]
    exact hforeign.congr rfl
  case owned =>
    intro i o' ho' hlive'
    rw [hscene] at ho'
    obtain ⟨o, ho, ⟨-, rfl⟩ | ⟨-, rfl⟩⟩ := Scene.exists_of_modifyView ho'
    · exact (h.owned i o ho hlive').imp_right fun hbuilding ↦ hkept hbuilding (by simp)
    · exact (h.owned i _ ho hlive').imp_right fun hbuilding ↦ hkept hbuilding (by simp)
  case complete =>
    intro o' ho' hlive' hdisposed'
    rw [hscene] at ho'
    have hstill : (∃ inputs, .connecting view inputs ∈ m.stack) →
        ∃ inputs, .connecting view inputs ∈ m'.stack := by
      rintro ⟨inputs, hinputs⟩
      exact ⟨inputs, hkept hinputs (by simp)⟩
    obtain ⟨o, ho, ⟨-, rfl⟩ | ⟨-, rfl⟩⟩ := Scene.exists_of_modifyView ho'
    · refine (h.complete o ho hlive' hdisposed').imp ?_ hstill
      exact fun hlength ↦ hlength.trans (List.length_modify _ o.slots k).symm
    · exact (h.complete _ ho hlive' hdisposed').imp_right hstill
  case closings =>
    have hclosings := h.closings
    rw [hstack, List.countP_cons] at hclosings
    rw [hscene, hnew]
    exact hclosings
  case stacked =>
    have hwhole :
        Stacked view undisturbed m.world.scene (.delivering source event tickets :: below) :=
      ⟨⟨hwaits, hconnects, hclosing, hcurrent⟩, hbelow⟩
    rw [hscene, hnew]
    exact hwhole.hear hinput
  case served =>
    intro hu
    have hserved := h.served hu
    rw [hstack] at hserved
    rw [hscene, hnew]
    exact hserved.hear h.plugged hinput fun hf ↦ (hcurrent hu hf).1

/-- An input of a view hears an event that its source delivers. Assumes: values are lent only to
composing callbacks at work. -/
theorem prompt_hear {source : SourceId} {event : Event α} {ticket k : Nat} {tickets : List Nat}
    (h : m.Prompt view undisturbed) (hmanned : m.Manned)
    (hstack : m.stack = .delivering source event (ticket :: tickets) :: below)
    (hlistener : m.world.scene.listener? source ticket = some (.input j k)) :
    ({ m with stack := .delivering source event tickets :: below }.hear j k event).Prompt view
      undisturbed := by
  have hinput := (h.plugged.wired source ticket j k).mp hlistener
  obtain ⟨v, hview, hlive, hdisposed, hlent, hslot, hbound⟩ :=
    h.exists_listening hmanned hstack hinput
  have htick : m.world.inTick := h.inTick (by
    rw [hstack, deliverers_cons]
    exact List.cons_ne_nil _ _)
  have hstacked := h.stacked
  rw [hstack] at hstacked
  obtain ⟨⟨hwaits, hconnects, -, -⟩, -⟩ := hstacked
  let delivering : Machine α β := { m with stack := .delivering source event tickets :: below }
  obtain ⟨hscene, hpoised, hnew⟩ :=
    @hear_spec α β j delivering v k event hview hlive hdisposed hlent htick
  let heard : Machine α β :=
    { delivering.hear j k event with stack := delivering.stack, control := .returning .done }
  have hheard : heard.Prompt view undisturbed := h.heard hstack hinput hscene trivial rfl
  have hdelivering : NoneWaits delivering.stack := noneWaits_cons.mpr ⟨rfl, hwaits⟩
  let holding : Machine α β := { heard with stack := .holding j :: heard.stack }
  have hholding : holding.Prompt view undisturbed := hheard.push rfl trivial rfl rfl hdelivering
  rcases hnew with hnew | ⟨hfailed, errors, hnew⟩
  · exact hholding.stay rfl hpoised hnew
  · refine hholding.push rfl hpoised hnew rfl ⟨noneWaits_cons.mpr ⟨rfl, hdelivering⟩, .inl ?_, ?_⟩
    · exact noneConnects_cons.mpr ⟨rfl, noneConnects_cons.mpr ⟨rfl, hconnects⟩⟩
    · rintro rfl
      have hself : holding.world.scene.views[j]? = some (v.outline.hear k event) := by
        show (delivering.hear j k event).world.scene.views[j]? = _
        rw [hscene]
        exact Scene.getElem?_modifyView_self _ (World.getElem?_scene hview)
      refine ⟨⟨_, hself, hlive, hdisposed⟩, fun _ ↦ .inr ?_⟩
      -- the input that has just failed blocks the view while its source delivers
      refine ⟨_, k, v.outline.slots[k].hear event, (source, ticket), hself, ?_, ?_, hslot, ?_⟩
      · show (v.outline.slots.modify k _)[k]? = _
        rw [List.getElem?_modify_eq, List.getElem?_eq_getElem hbound]
        rfl
      · cases event with
        | failed error => rfl
        | _ => contradiction
      · exact mem_deliverers.mpr ⟨event, tickets, List.mem_cons_of_mem _ List.mem_cons_self⟩

/-- Assumes: values are lent only to composing callbacks at work. -/
theorem prompt_delivering {source : SourceId} {event : Event α} {tickets : List Nat}
    (answer : Answer α β) (h : m.Prompt view undisturbed) (hmanned : m.Manned)
    (hstack : m.stack = .delivering source event tickets :: below) :
    (m.resume answer).Prompt view undisturbed := by
  have hstacked := h.stacked
  rw [hstack] at hstacked
  obtain ⟨hfits, hbelow⟩ := hstacked
  obtain ⟨hwaits, hconnects, hclosing, hcurrent⟩ := hfits
  cases tickets with
  | nil =>
    simp only [resume, hstack]
    have hkept {other : Frame α β} (hother : other ∈ m.stack)
        (hne : other ≠ .delivering source event []) : other ∈ below :=
      (List.mem_cons.mp (hstack ▸ hother)).resolve_left hne
    refine h.restack rfl trivial hbelow ?_ (fun j hj ↦ hkept hj (by simp))
      (fun inputs hinputs ↦ hkept hinputs (by simp)) ?_
    · rw [hstack]
      exact (List.sublist_cons_self _ below).countP_le
    · rintro slot input - ⟨other, left, hframe, hticket⟩
      refine ⟨other, left, hkept hframe ?_, hticket⟩
      rintro heq
      obtain ⟨-, -, rfl⟩ := Frame.delivering.inj heq
      contradiction
  | cons ticket tickets =>
    have hrest :
        Stacked view undisturbed m.world.scene (.delivering source event tickets :: below) :=
      ⟨⟨hwaits, hconnects, hclosing, hcurrent⟩, hbelow⟩
    have hdelivering : NoneWaits (.delivering source event tickets :: below) :=
      noneWaits_cons.mpr ⟨rfl, hwaits⟩
    have hquiet : NoneConnects (.delivering source event tickets :: below) :=
      noneConnects_cons.mpr ⟨rfl, hconnects⟩
    have hlistener : m.world.sourceListener? source ticket =
        m.world.scene.listener? source ticket := rfl
    -- a ticket of somebody else is of no concern to the view
    have hskip (hforeign : ∀ k, m.world.scene.listener? source ticket ≠ some (.input view k)) :
        Prompt view undisturbed { m with
          stack := .delivering source event tickets :: below, control := .returning .done } := by
      refine h.restack rfl trivial hrest ?_ ?_ ?_ ?_
      · rw [hstack, List.countP_cons, List.countP_cons]
        exact Nat.le_refl _
      · intro j hj
        rw [hstack] at hj
        exact List.mem_cons_of_mem _ ((List.mem_cons.mp hj).resolve_left (by simp))
      · intro inputs hinputs
        rw [hstack] at hinputs
        exact List.mem_cons_of_mem _ ((List.mem_cons.mp hinputs).resolve_left (by simp))
      · intro slot input hinput howed
        rw [hstack] at howed
        refine howed.skip ?_
        rintro rfl
        exact hforeign slot ((h.plugged.wired source ticket view slot).mpr hinput)
    simp only [resume, hstack]
    split
    case h_1 hnone =>
      refine hskip fun k hk ↦ ?_
      rw [← hlistener, hnone] at hk
      contradiction
    case h_2 key hkey =>
      have hskipped := hskip fun k hk ↦ by
        rw [← hlistener, hkey] at hk
        exact absurd (Option.some.inj hk) (by simp)
      exact hskipped.push rfl (.inr ⟨_, _, _, rfl⟩) rfl rfl ⟨hdelivering, hquiet⟩
    case h_3 j k hinput => exact prompt_hear h hmanned hstack (hlistener.symm.trans hinput)

/-! ### Emissions -/

/-- The world when a source has accepted an event, in a tick of its own. -/
def publish (source : SourceId) (event : Event α) (world : World α β) : World α β :=
  world.openTick.modifySource source fun s ↦ { s with current := event }

/-- An emission is refused, or accepted and delivered in a tick of its own. -/
theorem emit_spec (source : SourceId) (event : Event α) (m : Machine α β) :
    (m.emit source event).Poised ∧
      ((m.emit source event).world = m.world ∧ (m.emit source event).stack = m.stack ∨
        .accepted source event ∈ m.emitNotices source event ∧
        (m.emit source event).world = publish source event m.world ∧
        (m.emit source event).stack =
          .delivering source event ((publish source event m.world).sourceTickets source) ::
            .closing (.accepted true) :: m.stack) := by
  cases hs : m.world.sources[source]? with
  | none =>
    simp only [emit, hs]
    exact ⟨trivial, .inl ⟨rfl, rfl⟩⟩
  | some s =>
    cases event with
    | pending =>
      cases hcurrent : s.current with
      | loaded value =>
        simp only [emit, hs, hcurrent]
        exact ⟨trivial, .inl ⟨rfl, rfl⟩⟩
      | _ =>
        simp only [emit, emitNotices, hs, hcurrent]
        exact ⟨trivial, .inr ⟨List.mem_singleton_self _, rfl, rfl⟩⟩
    | _ =>
      simp only [emit, emitNotices, hs]
      exact ⟨trivial, .inr ⟨List.mem_singleton_self _, rfl, rfl⟩⟩

theorem foreign_publish {source other : SourceId} {ticket : Nat} (event : Event α)
    {scene : Scene α} (h : scene.Foreign other ticket) :
    (scene.modifySource source fun s ↦ { s with current := event }).Foreign other ticket where
  given := by
    obtain ⟨s, hs, hticket⟩ := h.given
    by_cases hother : source = other
    · subst hother
      exact ⟨{ s with current := event }, by simp [Scene.modifySource, hs], hticket⟩
    · exact ⟨s, by simp [Scene.modifySource, hother, hs], hticket⟩
  listener j slot := by
    have hlistener : (scene.modifySource source fun s ↦ { s with current := event }).listener?
        other ticket = scene.listener? other ticket := Scene.listener?_modifySource fun _ ↦ rfl
    rw [hlistener]
    exact h.listener j slot

theorem exists_source_of_listener? {source : SourceId} {ticket : Nat} {listener : Listener}
    {scene : Scene α} (h : scene.listener? source ticket = some listener) :
    ∃ s, scene.sources[source]? = some s ∧ ticket ∈ s.listeners.tickets := by
  obtain ⟨s, hs, hfind⟩ := Option.bind_eq_some_iff.mp h
  exact ⟨s, hs, Registry.mem_tickets_of_find? hfind⟩

theorem plugged_publish {source : SourceId} (event : Event α) {scene : Scene α}
    (h : scene.Plugged) :
    (scene.modifySource source fun s ↦ { s with current := event }).Plugged where
  wired other ticket j slot := by
    have hlistener : (scene.modifySource source fun s ↦ { s with current := event }).listener?
        other ticket = scene.listener? other ticket := Scene.listener?_modifySource fun _ ↦ rfl
    rw [hlistener]
    exact h.wired other ticket j slot
  there := h.there
  room := h.room

/-- The delivery of an event lies on a tick of its own. -/
theorem Prompt.stacked_publish (h : m.Prompt view undisturbed) {source : SourceId} (event : Event α)
    (tickets : List Nat) (hwaits : NoneWaits m.stack) (hconnects : NoneConnects m.stack)
    (hsource : undisturbed → m.world.scene.Feeds source view → source ∉ deliverers m.stack) :
    Stacked view undisturbed
      (m.world.scene.modifySource source fun s ↦ { s with current := event })
      (.delivering source event tickets :: .closing (.accepted true) :: m.stack) := by
  have hbelow := h.stacked.publish event hconnects hsource fun other ticket ↦ foreign_publish event
  refine ⟨⟨noneWaits_cons.mpr ⟨rfl, hwaits⟩, noneConnects_cons.mpr ⟨rfl, hconnects⟩, ⟨_, _, rfl⟩,
    fun hu hf ↦ ⟨?_, hsource hu hf⟩⟩, ⟨hwaits, hconnects⟩, hbelow⟩
  obtain ⟨slot, ticket, hinput⟩ := hf
  obtain ⟨s, hs, -⟩ :=
    exists_source_of_listener? ((h.plugged.wired source ticket view slot).mpr hinput)
  simp [Scene.current, Scene.modifySource, hs]

/-- Who is registered at the source has the event to come, and to the others nothing happens. -/
theorem Prompt.served_publish (h : m.Prompt view undisturbed) (source : SourceId) (event : Event α)
    (hu : undisturbed) :
    (publish source event m.world).scene.Served view
      (.delivering source event ((publish source event m.world).sourceTickets source) ::
        .closing (.accepted true) :: m.stack) := by
  intro o ho slot input hinput
  have hregistered := (h.plugged.wired input.1 input.2 view slot).mpr
    ((Scene.input?_of_view ho slot).trans hinput)
  by_cases hself : input.1 = source
  · right
    rw [hself] at hregistered
    obtain ⟨s, hs, hticket⟩ := exists_source_of_listener? hregistered
    refine ⟨event, (publish source event m.world).sourceTickets source, ?_, ?_⟩
    · rw [hself]
      exact List.mem_cons_self
    · have hs' : (publish source event m.world).sources[source]? =
          some { s with current := event } := by
        simp [publish, World.openTick, World.modifySource,
          show m.world.sources[source]? = _ from hs]
      rw [World.sourceTickets, hs']
      exact hticket
  · refine (h.served hu o ho slot input hinput).imp ?_ fun howed ↦ howed.mono fun _ hframe ↦
      List.mem_cons_of_mem _ (List.mem_cons_of_mem _ hframe)
    rintro ⟨s, hs, hshows⟩
    refine ⟨s, hs, ?_⟩
    have hcurrent : (m.world.scene.modifySource source fun s ↦ { s with current := event }).current
        input.1 = m.world.scene.current input.1 :=
      Scene.current_modifySource_of_ne _ (Ne.symm hself)
    exact hcurrent ▸ hshows

/-- Assumes: a source that is not at an earlier delivery if the view hears of the event. -/
theorem Prompt.emit (h : m.Prompt view undisturbed) (source : SourceId) (event : Event α)
    (hwaits : NoneWaits m.stack) (hconnects : NoneConnects m.stack)
    (hsource : .accepted source event ∈ m.emitNotices source event → undisturbed →
      m.world.scene.Feeds source view → source ∉ deliverers m.stack) :
    (m.emit source event).Prompt view undisturbed := by
  obtain ⟨hpoised, ⟨hworld, hstack⟩ | ⟨haccepted, hworld, hstack⟩⟩ := emit_spec source event m
  case inl => exact h.stay (congrArg World.scene hworld) hpoised hstack
  have hscene : (m.emit source event).world.scene =
      { m.world.scene.modifySource source fun s ↦ { s with current := event } with
        depth := m.world.depth + 1 } := by
    rw [hworld]
    rfl
  have hkept {frame : Frame α β} (hframe : frame ∈ m.stack) :
      frame ∈ (m.emit source event).stack := by
    rw [hstack]
    exact List.mem_cons_of_mem _ (List.mem_cons_of_mem _ hframe)
  constructor
  case poised => exact hpoised
  case plugged =>
    rw [hscene]
    exact (plugged_publish event h.plugged).of_eq rfl rfl
  case handled =>
    refine handled_congr h.handled ?_ fun other ticket hforeign ↦ ?_
    · rw [hworld]
      rfl
    · rw [hscene]
      exact (foreign_publish event hforeign).congr rfl
  case owned =>
    intro j o ho hlive
    rw [hscene] at ho
    exact (h.owned j o ho hlive).imp_right hkept
  case complete =>
    intro o ho hlive hdisposed
    rw [hscene] at ho
    refine (h.complete o ho hlive hdisposed).imp_right ?_
    rintro ⟨inputs, hinputs⟩
    exact ⟨inputs, hkept hinputs⟩
  case closings =>
    rw [hscene, hstack, List.countP_cons, List.countP_cons]
    exact Nat.succ_le_succ h.closings
  case stacked =>
    rw [hscene, hstack]
    exact (h.stacked_publish event _ hwaits hconnects (hsource haccepted)).atDepth _
  case served =>
    intro hu
    rw [hworld, hstack]
    exact h.served_publish source event hu

end Prompt

end Machine

end LiveRecord.Flow
