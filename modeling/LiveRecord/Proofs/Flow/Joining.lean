import LiveRecord.Proofs.Flow.Ownership
import LiveRecord.Proofs.Flow.Scene
import LiveRecord.Proofs.Flow.Wiring

/-!
# While a view is connected

Building a view connects its inputs one after the other, and each of them hears the current event of
its source at once. Nobody knows of the view yet, and a tick is open: its failures are announced to
nobody, and it composes later. So no callback is called and nothing is given up until all inputs are
connected, whatever the callbacks of the run do (`Machine.joining_run`). In particular no view is
half connected when the user has control (`Machine.Joining.connections_eq_nil`).
-/

set_option autoImplicit false

namespace LiveRecord.Flow

variable {α β : Type}

/-- Nobody has got to know of the view: it is there, and nobody listens to it. -/
structure Outline.Unseen (o : Outline α) : Prop where
  live : o.live
  disposed : o.disposed = false
  listeners : o.listeners.entries = []

namespace World

variable {world world' : World α β} {view : ViewId}

/-- Nobody has got to know of the view, and no callback composes with its values. -/
structure Unseen (view : ViewId) (world : World α β) : Prop where
  outline : ∃ o, world.scene.views[view]? = some o ∧ o.Unseen
  lent : ∀ v, world.views[view]? = some v → v.lent = false

/-- Some input of the view is not loaded. -/
def Unloaded (view : ViewId) (world : World α β) : Prop :=
  ∃ o, world.scene.views[view]? = some o ∧ o.allLoaded = false

theorem Unseen.exists_view (h : world.Unseen view) :
    ∃ v, world.views[view]? = some v ∧ v.live ∧ v.disposed = false ∧ v.lent = false ∧
      v.listeners.entries = [] := by
  obtain ⟨⟨o, ho, hunseen⟩, hlent⟩ := h
  obtain ⟨v, hv, rfl⟩ := exists_of_scene ho
  exact ⟨v, hv, hunseen.live, hunseen.disposed, hlent v hv, hunseen.listeners⟩

/-- Assumes: no values are lent. -/
theorem Unseen.of_outline {o : Outline α} (h : world.Unseen view)
    (ho : world'.scene.views[view]? = some o) (hunseen : o.Unseen) (heases : world.Eases world') :
    world'.Unseen view where
  outline := ⟨o, ho, hunseen⟩
  lent v' hv' := by
    obtain ⟨v, hv, hlent, -⟩ := heases view v' hv'
    refine Bool.eq_false_iff.mpr fun hlent' ↦ ?_
    have hkept := h.lent v hv
    rw [hlent hlent'] at hkept
    contradiction

/-- Assumes: nothing is seen of what happens, and no values are lent. -/
theorem Unseen.of_scene (h : world.Unseen view) (hscene : world'.scene = world.scene)
    (heases : world.Eases world') : world'.Unseen view := by
  obtain ⟨o, ho, hunseen⟩ := h.outline
  exact h.of_outline (hscene ▸ ho) hunseen heases

theorem Unloaded.of_scene (h : world.Unloaded view) (hscene : world'.scene = world.scene) :
    world'.Unloaded view := by
  rw [Unloaded, hscene]
  exact h

theorem inTick_of_scene (h : world.inTick) (hdepth : world'.scene.depth = world.scene.depth) :
    world'.inTick := by
  rw [inTick, show world'.depth = world.depth from hdepth]
  exact h

end World

/-- What is above the frame that connects a view, when an input hears its first event. -/
inductive Greets (world : World α β) (view : ViewId) : List (Frame α β) → Prop
  | nothing : Greets world view []
  | holding : Greets world view [.holding view]
  | failing (errors : List SourceError) (h : world.Unloaded view) :
      Greets world view [.failing view errors, .holding view]
  | announcing (event : ViewEvent β) (errors : List SourceError) (h : world.Unloaded view) :
      Greets world view [.announcing view event [], .failing view errors, .holding view]

namespace Machine

variable {m m' : Machine α β} {view : ViewId} {inputs : List (SourceId × Nat)}
  {above below : List (Frame α β)}

/-- A view is being connected, and these inputs are left. -/
structure Joins (view : ViewId) (inputs : List (SourceId × Nat)) (above below : List (Frame α β))
    (m : Machine α β) : Prop where
  stack : m.stack = above ++ .connecting view inputs :: .closing .done :: .building view :: below
  above : Greets m.world view above
  below : below.filterMap (·.connection?) = []
  returning : ∃ answer, m.control = .returning answer
  inTick : m.world.inTick
  unseen : m.world.Unseen view
  known : ∀ input ∈ inputs, ∃ s, m.world.sources[input.1]? = some s

/-- At most one view is being connected, and nobody but the core acts meanwhile. -/
def Joining (m : Machine α β) : Prop :=
  m.connections = [] ∨ ∃ view inputs above below, m.Joins view inputs above below

/-- The core acts, unless it has just called the user or has nothing to do. -/
theorem Poised.returning {frame : Frame α β} {stack : List (Frame α β)} (h : m.Poised)
    (hstack : m.stack = frame :: stack) (hframe : ∀ call turn, frame ≠ .calling call turn) :
    ∃ answer, m.control = .returning answer := by
  unfold Poised at h
  cases hcontrol : m.control with
  | user heard =>
    rw [hcontrol, hstack] at h
    rcases h with hnil | ⟨call, turn, _, hcalling⟩
    · contradiction
    · exact absurd (List.cons.inj hcalling).1 (hframe call turn)
  | returning answer => exact ⟨answer, rfl⟩
  | unwinding message =>
    rw [hcontrol] at h
    exact h.elim

/-- Assumes: the view goes through its news above the frame that holds it. -/
theorem Joins.works (h : m.Joins view inputs [.holding view] below)
    (hunloaded : m.world.Unloaded view) (hworks : Works view m m') (heases : m.Eases m') :
    m'.Joining := by
  have hunseen := h.unseen.of_scene hworks.scene heases.world
  have htick := World.inTick_of_scene h.inTick (congrArg Scene.depth hworks.scene)
  have hsources : m'.world.sources = m.world.sources := congrArg Scene.sources hworks.scene
  have hknown : ∀ input ∈ inputs, ∃ s, m'.world.sources[input.1]? = some s := by
    rw [hsources]
    exact h.known
  rcases hworks.stack with hstack | ⟨o, errors, -, -, hstack⟩
  · rw [h.stack] at hstack
    exact .inr ⟨view, inputs, _, below, hstack, .holding, h.below,
      hworks.poised.returning hstack (by simp), htick, hunseen, hknown⟩
  · rw [h.stack] at hstack
    exact .inr ⟨view, inputs, _, below, hstack, .failing errors (hunloaded.of_scene hworks.scene),
      h.below, hworks.poised.returning hstack (by simp), htick, hunseen, hknown⟩

/-- An input of the view hears an event. -/
theorem Joins.hear {slot : Nat} (h : m.Joins view inputs [] below) (event : Event α)
    (hnamed : m.world.Names (.input view slot)) : (m.hear view slot event).Joining := by
  obtain ⟨v, hv, hlive, hdisposed, hlent, -⟩ := h.unseen.exists_view
  obtain ⟨o, ho, hunseen⟩ := h.unseen.outline
  obtain ⟨hscene, hpoised, hstack⟩ := hear_spec slot event hv hlive hdisposed hlent h.inTick
  have hheard : (m.hear view slot event).world.scene.views[view]? = some (o.hear slot event) := by
    rw [hscene]
    exact Scene.getElem?_modifyView_self _ ho
  have htick : (m.hear view slot event).world.inTick :=
    World.inTick_of_scene h.inTick ((congrArg Scene.depth hscene).trans rfl)
  have hstill : (m.hear view slot event).world.Unseen view :=
    h.unseen.of_outline hheard ⟨hunseen.live, hunseen.disposed, hunseen.listeners⟩
      (eases_hear view slot event m).world
  have hsources : (m.hear view slot event).world.sources = m.world.sources :=
    (congrArg Scene.sources hscene).trans rfl
  have hknown : ∀ input ∈ inputs, ∃ s,
      (m.hear view slot event).world.sources[input.1]? = some s := by
    rw [hsources]
    exact h.known
  rw [h.stack] at hstack
  rcases hstack with hheld | ⟨hfailed, errors, hfailing⟩
  · exact .inr ⟨view, inputs, _, below, hheld, .holding, h.below,
      hpoised.returning hheld (by simp), htick, hstill, hknown⟩
  · have hslot : slot < o.slots.length := by
      obtain ⟨w, hw, hslot⟩ := hnamed
      obtain rfl := Option.some.inj (ho.symm.trans (World.getElem?_scene hw))
      exact hslot
    have hunloaded : (m.hear view slot event).world.Unloaded view := by
      refine ⟨_, hheard, View.all_modify_hear hslot ?_⟩
      cases event with
      | failed error => rfl
      | _ => contradiction
    exact .inr ⟨view, inputs, _, below, hfailing, .failing errors hunloaded, h.below,
      hpoised.returning hfailing (by simp), htick, hstill, hknown⟩

/-- A view that is being connected while its next input is registered. -/
theorem Joins.register {source : SourceId} {slot : Nat} {s : Source α}
    (h : m.Joins view inputs [] below) :
    ((m.withWorld (.registerAtSource source (.input view slot))).withWorld (.modifyView view
      fun v ↦ { v with inputs := v.inputs ++ [(source, s.listeners.next)] })).Joins view inputs []
        below := by
  obtain ⟨v, hv, hlive, hdisposed, -, hlisteners⟩ := h.unseen.exists_view
  let connected : View α β := { v with inputs := v.inputs ++ [(source, s.listeners.next)] }
  have hconnected : (World.modifyView view (fun v ↦
      { v with inputs := v.inputs ++ [(source, s.listeners.next)] })
        (World.registerAtSource source (.input view slot) m.world)).views[view]? =
      some connected := by
    simp [connected, World.modifyView, World.registerAtSource, World.modifySource, hv]
  refine ⟨h.stack, .nothing, h.below, h.returning, h.inTick, ?_, fun input hinput ↦ ?_⟩
  · exact h.unseen.of_outline (World.getElem?_scene hconnected) ⟨hlive, hdisposed, hlisteners⟩
      (World.Eases.trans (.of_views rfl) (.modifyView view (fun _ ↦ id) (fun _ ↦ id) fun _ ↦ id))
  · obtain ⟨other, hother⟩ := h.known input hinput
    simp only [withWorld, World.modifyView, World.registerAtSource, World.modifySource,
      List.getElem?_modify, hother]
    exact ⟨_, rfl⟩

/-- Some frames of the core go on the way to the next input. -/
theorem Joins.resume (answer : Answer α β) (hwired : m.Wired)
    (h : m.Joins view inputs above below) : (m.resume answer).Joining := by
  obtain ⟨v, hv, hlive, hdisposed, hlent, hlisteners⟩ := h.unseen.exists_view
  have hstack := h.stack
  cases h.above with
  | nothing =>
    cases inputs with
    | nil =>
      refine .inl ?_
      simp only [Machine.resume, hstack, List.nil_append]
      rw [connections_of_work (requestCompose_stack view _)]
      exact h.below
    | cons input rest =>
      obtain ⟨source, slot⟩ := input
      have hknown : ∀ input ∈ rest, ∃ s, m.world.sources[input.1]? = some s := fun input hinput ↦
        h.known input (List.mem_cons_of_mem _ hinput)
      have hrest : Machine.Joins view rest [] below { m with
          stack := .connecting view rest :: .closing .done :: .building view :: below } :=
        ⟨rfl, .nothing, h.below, h.returning, h.inTick, h.unseen, hknown⟩
      have hnamed := hwired.names_of_connecting hstack
      simp only [Machine.resume, hstack, List.nil_append, connect]
      split
      · exact .inr ⟨view, rest, [], below, rfl, .nothing, h.below, ⟨.done, rfl⟩, h.inTick, h.unseen,
          hknown⟩
      · rename_i s _
        have hregistered := @Joins.register α β _ view rest below source slot s hrest
        refine hregistered.hear s.current ?_
        obtain ⟨w, hw, hslot⟩ := hnamed
        refine ⟨{ w with inputs := w.inputs ++ [(source, s.listeners.next)] }, ?_, hslot⟩
        simp [withWorld, World.modifyView, World.registerAtSource, World.modifySource, hw]
  | holding =>
    have hkept : ({ m with
          stack := .connecting view inputs :: .closing .done :: .building view :: below } :
        Machine α β).release view = { m with
          stack := .connecting view inputs :: .closing .done :: .building view :: below } :=
      release_of_owned fun o _ _ ↦ .inr (by simp [Frame.holds])
    simp only [Machine.resume, hstack, List.cons_append, List.nil_append, hkept]
    exact .inr ⟨view, inputs, [], below, rfl, .nothing, h.below, ⟨answer, rfl⟩, h.inTick, h.unseen,
      h.known⟩
  | failing errors hunloaded =>
    cases errors with
    | nil =>
      have hundue : v.isDue = false := by
        obtain ⟨o, ho, hloaded⟩ := hunloaded
        obtain rfl := Option.some.inj ((World.getElem?_scene hv).symm.trans ho)
        rw [View.isDue, show v.allLoaded = false from hloaded, Bool.and_false]
      simp only [Machine.resume, hstack, List.cons_append, List.nil_append, composeIfDue, hv,
        hundue, Bool.false_eq_true, if_false]
      have hheld : Machine.Joins view inputs [.holding view] below { m with
          stack := .holding view :: .connecting view inputs :: .closing .done :: .building view ::
            below } :=
        ⟨rfl, .holding, h.below, h.returning, h.inTick, h.unseen, h.known⟩
      exact hheld.works hunloaded (works_settle view _) (eases_settle view _)
    | cons error errors =>
      have hnobody : m.world.viewTickets view = [] := by
        simp only [World.viewTickets, hv, Registry.tickets, hlisteners, List.map_nil]
      simp only [Machine.resume, hstack, List.cons_append, List.nil_append, hnobody]
      exact .inr ⟨view, inputs, _, below, rfl, .announcing (.failed error) errors hunloaded,
        h.below, ⟨.done, rfl⟩, h.inTick, h.unseen, h.known⟩
  | announcing event errors hunloaded =>
    simp only [Machine.resume, hstack, List.cons_append, List.nil_append]
    exact .inr ⟨view, inputs, _, below, rfl, .failing errors hunloaded, h.below, ⟨.done, rfl⟩,
      h.inTick, h.unseen, h.known⟩

/-! ### Every run -/

theorem joining_build (sources : List SourceId) (composer : Composer α β)
    (h : m.connections = []) : (m.build sources composer).Joining := by
  unfold build
  split
  case h_1 => exact .inl h
  case h_2 found hfound =>
    let new : View α β :=
      { label := labelOf (found.map (·.name)), composer, slots := found.map fun _ ↦ {} }
    have hnew : (m.world.views ++ [new])[m.world.views.length]? = some new :=
      List.getElem?_concat_length
    refine .inr ⟨m.world.views.length, sources.zipIdx, [], m.stack, rfl, .nothing, h, ⟨.done, rfl⟩,
      decide_eq_true (Nat.succ_pos _),
      ⟨⟨new.outline, World.getElem?_scene hnew, rfl, rfl, rfl⟩, ?_⟩, fun input hinput ↦ ?_⟩
    · intro v hv
      obtain rfl := Option.some.inj (hnew.symm.trans hv)
      rfl
    · have hmem : m.world.sources[input.1]? ∈ sources.map (m.world.sources[·]?) :=
        List.mem_map_of_mem (List.fst_mem_of_mem_zipIdx hinput)
      rw [mapM_eq_some_iff.mp hfound] at hmem
      obtain ⟨s, -, hs⟩ := List.mem_map.mp hmem
      exact ⟨s, hs.symm⟩

theorem joining_move (move : Move α β) (hwired : m.Wired) (h : m.Joining) :
    (m.move move).Joining := by
  cases move with
  | request request =>
    simp only [Machine.move, submit]
    cases hcontrol : m.control with
    | user heard =>
      rcases h with hnone | ⟨view, inputs, above, below, hjoins⟩
      · by_cases hbuild : ∃ sources composer, request = .build sources composer
        · obtain ⟨sources, composer, rfl⟩ := hbuild
          exact joining_build sources composer hnone
        · refine .inl ((connections_serve request m fun sources composer heq ↦ ?_).trans hnone)
          exact hbuild ⟨sources, composer, heq⟩
      · obtain ⟨answer, hreturning⟩ := hjoins.returning
        rw [hcontrol] at hreturning
        contradiction
    | returning answer | unwinding message => exact h
  | advance =>
    simp only [Machine.move, advance]
    cases hcontrol : m.control with
    | user heard => exact h
    | returning answer =>
      rcases h with hnone | ⟨view, inputs, above, below, hjoins⟩
      · rcases connections_resume answer m with hsame | ⟨_, _, hsome, -⟩ | ⟨_, _, _, _, hsome, -⟩
        · exact .inl (hsame.trans hnone)
        · rw [hnone] at hsome
          contradiction
        · rw [hnone] at hsome
          contradiction
      · exact hjoins.resume answer hwired
    | unwinding message =>
      rcases h with hnone | ⟨view, inputs, above, below, hjoins⟩
      · refine .inl (List.eq_nil_iff_forall_not_mem.mpr fun connection hconnection ↦ ?_)
        have hbefore := mem_connections_giveUp message hconnection
        rw [hnone] at hbefore
        contradiction
      · obtain ⟨answer, hreturning⟩ := hjoins.returning
        rw [hcontrol] at hreturning
        contradiction

/-- While a view is being connected, nobody but the core acts, after every run. -/
theorem joining_run (moves : List (Move α β)) : (run moves ({} : Machine α β)).Joining :=
  (@run_preserves α β (fun m ↦ m.Wired ∧ m.Joining) (fun _ move h ↦
    ⟨wired_move move h.1, joining_move move h.1 h.2⟩) {} ⟨.start, .inl rfl⟩ moves).2

/-- No view is half connected unless the core is at it. -/
theorem Joining.connections_eq_nil (h : m.Joining)
    (hcontrol : ∀ answer, m.control ≠ .returning answer) : m.connections = [] := by
  rcases h with hnone | ⟨view, inputs, above, below, hjoins⟩
  · exact hnone
  · obtain ⟨answer, hreturning⟩ := hjoins.returning
    exact absurd hreturning (hcontrol answer)

end Machine

end LiveRecord.Flow
