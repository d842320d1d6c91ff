import LiveRecord.Proofs.Flow.Registration
import LiveRecord.Proofs.Flow.Tickets

/-!
# Who is registered at sources and at views

The listeners of a source and those of a view are lists of one kind (`World.registry`). Tickets grow
in the order of registration (`Machine.ordered_registry_run`), and whoever holds a ticket keeps it or
loses it for good (`World.Changes.find?_registry`). A registration goes only for a reason of its own
(`Machine.leaves_of_loses`): its subscription is cancelled, its view is disposed of, the view whose
input it is lets go of all its inputs, or its callback raises when it is called for the first time.
-/

set_option autoImplicit false

namespace LiveRecord.Flow

variable {α β : Type}

namespace Registry

variable {κ κ' : Type}

/-- The same registrations, with the listeners written in another way. -/
def map (f : κ → κ') (registry : Registry κ) : Registry κ' where
  next := registry.next
  entries := registry.entries.map fun entry ↦ (entry.1, f entry.2)

variable (f : κ → κ') (registry : Registry κ)

@[simp] theorem tickets_map : (registry.map f).tickets = registry.tickets := by
  simp [tickets, map, Function.comp_def]

@[simp] theorem find?_map (ticket : Nat) :
    (registry.map f).find? ticket = (registry.find? ticket).map f := by
  simp only [find?, map, List.find?_map, Option.map_map]
  rfl

@[simp] theorem map_register (listener : κ) :
    (registry.register listener).map f = (registry.map f).register (f listener) := by
  simp [register, map]

@[simp] theorem map_remove (ticket : Nat) :
    (registry.remove ticket).map f = (registry.map f).remove ticket := by
  simp [remove, map, List.filter_map, Function.comp_def]

theorem map_removeAll (gone : List Nat) :
    (registry.removeAll gone).map f = (registry.map f).removeAll gone := by
  simp [removeAll, map, List.filter_map, Function.comp_def]

theorem Change.map {new : κ → Prop} {registry registry' : Registry κ}
    (h : registry.Change new registry') :
    (registry.map f).Change (fun _ ↦ True) (registry'.map f) := by
  cases h with
  | same => exact .same
  | register listener _ => exact map_register f registry listener ▸ .register (f listener) trivial
  | removeAll gone => exact map_removeAll f registry gone ▸ .removeAll gone
  | clear => exact .clear

theorem Change.any {new : κ → Prop} {registry registry' : Registry κ}
    (h : registry.Change new registry') : registry.Change (fun _ ↦ True) registry' := by
  cases h with
  | same => exact .same
  | register listener _ => exact .register listener trivial
  | removeAll gone => exact .removeAll gone
  | clear => exact .clear

theorem mem_tickets_remove {registry : Registry κ} {ticket other : Nat}
    (h : other ∈ registry.tickets) (hne : other ≠ ticket) :
    other ∈ (registry.remove ticket).tickets := by
  obtain ⟨entry, hentry, rfl⟩ := List.mem_map.mp h
  exact List.mem_map.mpr ⟨entry, List.mem_filter.mpr ⟨hentry, by simpa using hne⟩, rfl⟩

theorem find?_eq_none_of_notMem {registry : Registry κ} {ticket : Nat}
    (h : ticket ∉ registry.tickets) : registry.find? ticket = none :=
  Option.eq_none_iff_forall_ne_some.mpr fun _ hfound ↦ h (mem_tickets_of_find? hfound)

end Registry

namespace World

/-- Who is registered at a source or at a view. -/
def registry (target : Target) (world : World α β) : Registry Listener :=
  match target with
  | .source source => (world.sources[source]?.map (·.listeners)).getD {}
  | .view view => (world.views[view]?.map fun v ↦ v.listeners.map .callback).getD {}

/-- The registrations of the inputs of a view. -/
def inputsOf (view : ViewId) (world : World α β) : List (SourceId × Nat) :=
  (world.views[view]?.map (·.inputs)).getD []

variable {world world' world'' : World α β} {target : Target} {ticket : Nat} {view : ViewId}

theorem find?_registry_source (source : SourceId) (ticket : Nat) (world : World α β) :
    (world.registry (.source source)).find? ticket = world.sourceListener? source ticket := by
  simp only [registry, sourceListener?]
  cases world.sources[source]? <;> rfl

theorem find?_registry_view (view : ViewId) (ticket : Nat) (world : World α β) :
    (world.registry (.view view)).find? ticket =
      (world.viewListener? view ticket).map .callback := by
  simp only [registry, viewListener?]
  cases world.views[view]? with
  | none => rfl
  | some v => exact Registry.find?_map _ _ _

theorem tickets_registry_source (source : SourceId) (world : World α β) :
    (world.registry (.source source)).tickets = world.sourceTickets source := by
  simp only [registry, sourceTickets]
  cases world.sources[source]? <;> rfl

theorem tickets_registry_view (view : ViewId) (world : World α β) :
    (world.registry (.view view)).tickets = world.viewTickets view := by
  simp only [registry, viewTickets]
  cases world.views[view]? with
  | none => rfl
  | some v => exact Registry.tickets_map _ _

/-! ### What becomes of a registry in time -/

theorem Change.registry_view {new : Listener → Prop} (hchange : world.Change new world')
    (view : ViewId) :
    (world.registry (.view view)).Change (fun _ ↦ True) (world'.registry (.view view)) := by
  cases hchange with
  | addView label composer count =>
    simp only [World.registry, World.addView, List.getElem?_append]
    split
    · exact .same
    case isFalse hview =>
      rw [List.getElem?_eq_none (Nat.le_of_not_lt hview)]
      cases view - world.views.length <;> exact .same
  | view other f hf =>
    simp only [World.registry, modifyView, List.getElem?_modify]
    cases world.views[view]? with
    | none => exact .same
    | some v =>
      by_cases hother : other = view
      · simpa [hother] using (hf v).listeners.map Listener.callback
      · simpa [hother] using .same
  | unplug other hnone =>
    simp only [World.registry, modifyView, List.getElem?_modify]
    cases world.views[view]? with
    | none => exact .same
    | some v => by_cases hother : other = view <;> simpa [hother] using .same
  | closeTick =>
    simp only [World.registry, World.closeTick]
    split <;> exact .same
  | _ => exact .same

theorem Change.registry_source {new : Listener → Prop} (hchange : world.Change new world')
    (source : SourceId) :
    (world.registry (.source source)).Change (fun _ ↦ True) (world'.registry (.source source)) := by
  simp only [World.registry]
  cases hs : world.sources[source]? with
  | some s =>
    obtain ⟨s', hs', hlisteners⟩ := hchange.exists_source hs
    rw [hs']
    exact hlisteners.any
  | none =>
    cases hs' : world'.sources[source]? with
    | none => exact .same
    | some s' =>
      rcases hchange.listeners hs' with hnone | ⟨s, hbefore, -⟩
      · simpa [hnone] using .same
      · rw [hs] at hbefore
        contradiction

theorem Change.registry {new : Listener → Prop} (hchange : world.Change new world')
    (target : Target) :
    (world.registry target).Change (fun _ ↦ True) (world'.registry target) := by
  cases target with
  | source source => exact hchange.registry_source source
  | view view => exact hchange.registry_view view

/-- Whoever holds a ticket that was given out keeps it, or loses it for good. -/
theorem Changes.find?_registry {new : Listener → Prop} (hchanges : Changes new world world')
    (hgiven : ticket < (world.registry target).next) :
    ticket < (world'.registry target).next ∧
      ((world'.registry target).find? ticket = (world.registry target).find? ticket ∨
        (world'.registry target).find? ticket = none) := by
  induction hchanges with
  | refl => exact ⟨hgiven, .inl rfl⟩
  | tail _ hlast ih =>
    obtain ⟨hgiven', hfirst⟩ := ih
    obtain ⟨hgiven'', hnext⟩ := (hlast.registry target).find?_of_given hgiven'
    refine ⟨hgiven'', ?_⟩
    rcases hnext with hsame | hnone
    · rwa [hsame]
    · exact .inr hnone

end World

theorem Machine.ordered_registry_run (moves : List (Move α β)) (target : Target) :
    ((run moves ({} : Machine α β)).world.registry target).Ordered := by
  have hempty : (({} : Machine α β).world.registry target).Ordered := by
    cases target <;> exact Registry.ordered_empty
  refine @run_preserves α β (fun m ↦ (m.world.registry target).Ordered) (fun m move h ↦ ?_) {}
    hempty moves
  exact (changes_move move m).preserves (fun _ _ hordered hchange ↦
    (hchange.registry target).ordered hordered) h

/-! ### Changes that leave registrations alone -/

namespace World

variable {world world' world'' : World α β} {target : Target} {ticket : Nat} {view : ViewId}

theorem registry_of_scene (h : world'.scene = world.scene) (target : Target) :
    world'.registry target = world.registry target := by
  cases target with
  | source source =>
    simp only [registry, show world'.sources = world.sources from congrArg Scene.sources h]
  | view view =>
    have hview := congrArg (fun scene ↦
      (scene.views[view]?.map fun o ↦ o.listeners.map Listener.callback).getD {}) h
    simpa [scene, Function.comp_def, View.outline, registry] using hview

/-- Assumes: a change of a view that leaves its listeners alone. -/
theorem registry_modifyView (j : ViewId) (target : Target) (world : World α β)
    {f : View α β → View α β} (hf : ∀ v, (f v).listeners = v.listeners) :
    (world.modifyView j f).registry target = world.registry target := by
  cases target with
  | source source => rfl
  | view view =>
    simp only [registry, modifyView, List.getElem?_modify]
    cases world.views[view]? with
    | none => rfl
    | some v => by_cases hview : j = view <;> simp [hview, hf]

/-- Assumes: a change of a source that leaves its listeners alone. -/
theorem registry_modifySource (i : SourceId) (target : Target) (world : World α β)
    {f : Source α → Source α} (hf : ∀ s, (f s).listeners = s.listeners) :
    (world.modifySource i f).registry target = world.registry target := by
  cases target with
  | view view => rfl
  | source source =>
    simp only [registry, modifySource, List.getElem?_modify]
    cases world.sources[source]? with
    | none => rfl
    | some s => by_cases hsource : i = source <;> simp [hsource, hf]

theorem registry_addSource (name : String) (target : Target) (world : World α β) :
    (world.addSource name).registry target = world.registry target := by
  cases target with
  | view view => rfl
  | source source =>
    simp only [registry, addSource, List.getElem?_append]
    split
    · rfl
    case isFalse hsource =>
      rw [List.getElem?_eq_none (Nat.le_of_not_lt hsource)]
      cases source - world.sources.length <;> rfl

/-- Assumes: a new view that nobody hears yet. -/
theorem registry_addView {v : View α β} (hv : v.listeners = {}) (target : Target)
    (world : World α β) : (world.addView v).registry target = world.registry target := by
  cases target with
  | source source => rfl
  | view view =>
    simp only [registry, addView, List.getElem?_append]
    split
    · rfl
    case isFalse hview =>
      rw [List.getElem?_eq_none (Nat.le_of_not_lt hview)]
      cases view - world.views.length with
      | zero => simp [hv, Registry.map]
      | succ _ => rfl

theorem registry_unschedule (views : List ViewId) (target : Target) (world : World α β) :
    (world.unschedule views).registry target = world.registry target := by
  unfold unschedule
  induction views generalizing world with
  | nil => rfl
  | cons view rest ih =>
    rw [List.foldl_cons, ih]
    exact registry_modifyView view target world fun _ ↦ rfl

theorem registry_closeTick (target : Target) (world : World α β) :
    world.closeTick.2.registry target = world.registry target := by
  unfold closeTick
  dsimp only
  split <;> cases target <;> rfl

theorem registry_abandonTick (target : Target) (world : World α β) :
    world.abandonTick.registry target = world.registry target :=
  (registry_unschedule _ target _).trans (registry_closeTick target world)

/-- A registration is taken away, and no other one. -/
theorem registry_unregister (target : Target) (ticket : Nat) (other : Target)
    (world : World α β) :
    (world.unregister target ticket).registry other =
      if other = target then (world.registry other).remove ticket else world.registry other := by
  cases target with
  | source source =>
    cases other with
    | view view => rfl
    | source other =>
      simp only [registry, unregister, modifySource, List.getElem?_modify]
      cases world.sources[other]? with
      | none => simp [Registry.remove]
      | some s =>
        by_cases hother : other = source
        · simp [hother]
        · simp [hother, Ne.symm hother]
  | view view =>
    cases other with
    | source source => rfl
    | view other =>
      simp only [registry, unregister, modifyView, List.getElem?_modify]
      cases world.views[other]? with
      | none => simp [Registry.remove]
      | some v =>
        by_cases hother : other = view
        · simp [hother]
        · simp [hother, Ne.symm hother]

/-- Cancelling a subscription takes its registration away, and no other one. -/
theorem registry_cancel {handle : Nat} {h : Handle} (hhandle : world.handles[handle]? = some h)
    (target : Target) :
    (world.cancel handle).registry target =
      if h.isActive ∧ target = h.target then (world.registry target).remove h.ticket
      else world.registry target := by
  obtain ⟨other, ticket, state⟩ := h
  have hsame : ∀ w : World α β, (w.modifyHandle handle fun h ↦
      { h with state := .cancelled }).registry target = w.registry target := by
    intro w
    cases target <;> rfl
  cases state with
  | active =>
    simp only [cancel, hhandle]
    rw [hsame, registry_unregister]
    simp [Handle.isActive]
  | cancelled | detached => simp [cancel, hhandle, Handle.isActive]

/-- To dispose of a view takes all registrations at it away. -/
theorem tickets_registry_dispose {v : View α β} (hview : world.views[view]? = some v)
    (hdisposed : v.disposed = false) :
    ((world.dispose view).registry (.view view)).tickets = [] := by
  rw [tickets_registry_view, viewTickets]
  simp only [dispose, hview, hdisposed, Bool.false_eq_true, if_false, modifyView,
    List.getElem?_modify]
  cases (world.disconnect view).views[view]? with
  | none => rfl
  | some left => simp [Registry.clear, Registry.tickets]

/-! ### Registrations that go -/

/-- The view lets go of all its inputs, of which the registration is one. -/
def Unplugs (target : Target) (ticket : Nat) (world world' : World α β) : Prop :=
  ∃ view source, target = .source source ∧ (source, ticket) ∈ world.inputsOf view ∧
    world'.inputsOf view = []

/-- The registration is still there if it was, unless it was an input of a view that has let go of
its inputs. -/
def Spares (target : Target) (ticket : Nat) (world world' : World α β) : Prop :=
  ticket ∈ (world.registry target).tickets →
    ticket ∈ (world'.registry target).tickets ∨ Unplugs target ticket world world'

/-- Assumes: a change that leaves the registry alone. -/
theorem Spares.of_registry (h : world'.registry target = world.registry target) :
    Spares target ticket world world' :=
  fun hmem ↦ .inl (h ▸ hmem)

/-- Assumes: a step before that leaves the registration and the inputs of views alone. -/
theorem Spares.after (hkept : ticket ∈ (world.registry target).tickets →
      ticket ∈ (world'.registry target).tickets)
    (hinputs : ∀ view, world'.inputsOf view = world.inputsOf view)
    (h : Spares target ticket world' world'') : Spares target ticket world world'' := by
  intro hmem
  refine (h (hkept hmem)).imp_right ?_
  rintro ⟨view, source, htarget, hinput, hgone⟩
  exact ⟨view, source, htarget, hinputs view ▸ hinput, hgone⟩

theorem mem_registerAtSource (source : SourceId) (listener : Listener)
    (hmem : ticket ∈ (world.registry target).tickets) :
    ticket ∈ ((world.registerAtSource source listener).registry target).tickets := by
  cases target with
  | view view => exact hmem
  | source other =>
    simp only [registry, registerAtSource, modifySource, List.getElem?_modify] at hmem ⊢
    cases hs : world.sources[other]? with
    | none => simp [hs, Registry.tickets] at hmem
    | some s =>
      simp only [hs, Option.map_some, Option.getD_some] at hmem ⊢
      split
      · exact Registry.tickets_register listener s.listeners ▸ List.mem_append_left _ hmem
      · exact hmem

theorem mem_registerAtView (view : ViewId) (key : Nat)
    (hmem : ticket ∈ (world.registry target).tickets) :
    ticket ∈ ((world.registerAtView view key).registry target).tickets := by
  cases target with
  | source source => exact hmem
  | view other =>
    simp only [registry, registerAtView, modifyView, List.getElem?_modify] at hmem ⊢
    cases hv : world.views[other]? with
    | none => simp [hv, Registry.tickets] at hmem
    | some v =>
      simp only [hv, Option.map_some, Option.getD_some, Registry.tickets_map] at hmem ⊢
      by_cases hview : view = other
      · simpa [hview, Registry.tickets_register] using .inl hmem
      · simpa [hview] using hmem

/-- Assumes: it is another registration that is taken away. -/
theorem mem_unregister {other : Target} {otherTicket : Nat}
    (hmem : ticket ∈ (world.registry target).tickets)
    (hne : ¬(target = other ∧ ticket = otherTicket)) :
    ticket ∈ ((world.unregister other otherTicket).registry target).tickets := by
  rw [registry_unregister]
  split
  case isTrue htarget => exact Registry.mem_tickets_remove hmem fun h ↦ hne ⟨htarget, h⟩
  case isFalse => exact hmem

theorem mem_foldl_unregister (inputs : List (SourceId × Nat)) {world : World α β}
    (hmem : ticket ∈ (world.registry target).tickets)
    (hnot : ∀ source, target = .source source → (source, ticket) ∉ inputs) :
    ticket ∈ ((inputs.foldl (fun w input ↦ w.unregister (.source input.1) input.2)
      world).registry target).tickets := by
  induction inputs generalizing world with
  | nil => exact hmem
  | cons input rest ih =>
    refine ih (mem_unregister hmem ?_) fun source htarget hinput ↦
      hnot source htarget (List.mem_cons_of_mem _ hinput)
    rintro ⟨rfl, rfl⟩
    exact hnot input.1 rfl List.mem_cons_self

/-- Only the inputs of the view are taken away. Assumes: a view that has no inputs any more. -/
theorem spares_disconnect (view : ViewId) (hinputs : world'.inputsOf view = [])
    (hregistry : world'.registry target = (world.disconnect view).registry target) :
    Spares target ticket world world' := by
  intro hmem
  by_cases hinput : ∃ source, target = .source source ∧ (source, ticket) ∈ world.inputsOf view
  · obtain ⟨source, htarget, hinput⟩ := hinput
    exact .inr ⟨view, source, htarget, hinput, hinputs⟩
  · refine .inl ?_
    rw [hregistry, disconnect]
    cases hview : world.views[view]? with
    | none => exact hmem
    | some v =>
      dsimp only
      rw [registry_modifyView view target _ (by exact fun _ ↦ rfl)]
      refine mem_foldl_unregister v.inputs hmem fun source htarget hmember ↦ hinput ?_
      exact ⟨source, htarget, by simpa [inputsOf, hview] using hmember⟩

theorem inputsOf_modifyView_disconnect (view : ViewId) (world : World α β)
    {f : View α β → View α β} (hf : ∀ v, (f v).inputs = v.inputs) :
    ((world.disconnect view).modifyView view f).inputsOf view = [] := by
  unfold disconnect
  cases hview : world.views[view]? with
  | none => simp [inputsOf, modifyView, hview]
  | some v =>
    have hviews := views_foldl_unregister v.inputs world
    simp [inputsOf, modifyView, hviews, hview, hf]

/-- Disposing of a view takes away its inputs, and the callbacks that hear it. -/
theorem spares_dispose (view : ViewId) (htarget : target ≠ .view view) :
    Spares target ticket world (world.dispose view) := by
  unfold dispose
  cases hview : world.views[view]? with
  | none => exact .of_registry rfl
  | some v =>
    dsimp only
    split
    · exact .of_registry rfl
    · refine spares_disconnect view (inputsOf_modifyView_disconnect view world ?_) ?_
      · exact fun _ ↦ rfl
      · cases target with
        | source source => rfl
        | view other =>
          have hother : view ≠ other := fun h ↦ htarget (h ▸ rfl)
          simp [registry, modifyView, hother]

theorem spares_takeApart (view : ViewId) : Spares target ticket world (world.takeApart view) :=
  spares_disconnect view (inputsOf_modifyView_disconnect view world fun _ ↦ rfl)
    (registry_modifyView view target _ fun _ ↦ rfl)

theorem inputsOf_modifyView (j view : ViewId) (world : World α β) {f : View α β → View α β}
    (hf : ∀ v, (f v).inputs = v.inputs) :
    (world.modifyView j f).inputsOf view = world.inputsOf view := by
  simp only [inputsOf, modifyView, List.getElem?_modify]
  cases world.views[view]? with
  | none => rfl
  | some v => by_cases hview : j = view <;> simp [hview, hf]

@[simp] theorem inputsOf_strand (other : Target) (view : ViewId) (world : World α β) :
    (world.strand other).inputsOf view = world.inputsOf view := by
  cases other <;> rfl

@[simp] theorem inputsOf_cancel (handle : Nat) (view : ViewId) (world : World α β) :
    (world.cancel handle).inputsOf view = world.inputsOf view := by
  unfold cancel
  split
  case h_1 other ticket _ =>
    cases other with
    | source source => rfl
    | view other => exact inputsOf_modifyView other view world fun _ ↦ rfl
  case h_2 => rfl

theorem inputsOf_takeApart (other view : ViewId) (world : World α β) :
    (world.takeApart other).inputsOf view = world.inputsOf view ∨
      (world.takeApart other).inputsOf view = [] := by
  by_cases hview : other = view
  · exact .inr (hview ▸ inputsOf_modifyView_disconnect other world fun _ ↦ rfl)
  · refine .inl ?_
    unfold takeApart disconnect
    cases world.views[other]? with
    | none => simp [inputsOf, modifyView, hview]
    | some v => simp [inputsOf, modifyView, hview, views_foldl_unregister]

@[simp] theorem registry_strand (other target : Target) (world : World α β) :
    (world.strand other).registry target = world.registry target := by
  cases other <;> cases target <;> rfl

/-- The same handles, but that some of these which were active have come to that state. -/
def Marks (state : HandleState) (named : List Nat) (world world' : World α β) : Prop :=
  ∀ handle : Nat, world'.handles[handle]? = world.handles[handle]? ∨
    handle ∈ named ∧ ∃ h, world.handles[handle]? = some h ∧ h.isActive ∧
      world'.handles[handle]? = some { h with state }

theorem Marks.of_handles {state : HandleState} {named : List Nat}
    (h : world'.handles = world.handles) : Marks state named world world' :=
  fun _ ↦ .inl (h ▸ rfl)

theorem Marks.trans {named : List Nat} (hfirst : Marks .cancelled named world world')
    (hlast : Marks .cancelled named world' world'') : Marks .cancelled named world world'' := by
  intro handle
  rcases hfirst handle with hsame | ⟨hnamed, h, hhandle, hactive, hmarked⟩
  · exact hsame ▸ hlast handle
  · refine .inr ⟨hnamed, h, hhandle, hactive, ?_⟩
    rcases hlast handle with hkept | ⟨-, h', hhandle', hactive', -⟩
    · exact hkept.trans hmarked
    · obtain rfl := Option.some.inj (hmarked.symm.trans hhandle')
      simp [Handle.isActive] at hactive'

theorem marks_cancel {handle : Nat} {named : List Nat} (hnamed : handle ∈ named)
    (world : World α β) : Marks .cancelled named world (world.cancel handle) := by
  intro other
  unfold cancel
  split
  case h_1 hhandle =>
    rw [modifyHandle, List.getElem?_modify, handles_unregister]
    by_cases hother : handle = other
    · subst hother
      exact .inr ⟨hnamed, _, hhandle, rfl, by simp [hhandle]⟩
    · exact .inl (by simp [hother])
  case h_2 => exact .inl rfl

theorem Marks.of_not_active {state : HandleState} {named : List Nat} {handle : Nat} {h : Handle}
    (hmarks : Marks state named world world') (hhandle : world.handles[handle]? = some h)
    (hactive : h.isActive = false) : world'.handles[handle]? = some h := by
  rcases hmarks handle with hsame | ⟨-, own, hown, hactive', -⟩
  · exact hsame.trans hhandle
  · obtain rfl := Option.some.inj (hhandle.symm.trans hown)
    rw [hactive] at hactive'
    contradiction

/-- The registration is still there if it was, unless its own subscription was cancelled, which is one
of these, or it was an input of a view that has let go of its inputs. -/
structure Withdraws (handles : List Nat) (target : Target) (ticket : Nat)
    (world world' : World α β) : Prop where
  marks : Marks .cancelled handles world world'
  inputs : ∀ view, world'.inputsOf view = world.inputsOf view ∨ world'.inputsOf view = []
  spared : ticket ∈ (world.registry target).tickets →
    ticket ∈ (world'.registry target).tickets ∨
      (∃ handle ∈ handles, world.handles[handle]? = some { target, ticket } ∧
        world'.handles[handle]? = some { target, ticket, state := .cancelled }) ∨
      Unplugs target ticket world world'

namespace Withdraws

variable {handles : List Nat}

theorem refl (world : World α β) : Withdraws handles target ticket world world :=
  ⟨.of_handles rfl, fun _ ↦ .inl rfl, .inl⟩

/-- Assumes: a step in which some of the subscriptions are cancelled, views let go of their inputs or
keep them, and the registration is spared or its own subscription is cancelled. -/
theorem after (h : Withdraws handles target ticket world world')
    (hstep : Withdraws handles target ticket world' world'') :
    Withdraws handles target ticket world world'' where
  marks := h.marks.trans hstep.marks
  inputs view := by
    rcases hstep.inputs view with hsame | hgone
    · exact hsame ▸ h.inputs view
    · exact .inr hgone
  spared hmem := by
    rcases h.spared hmem with hthere | ⟨handle, hnamed, hactive, hcancelled⟩ |
      ⟨view, source, htarget, hinput, hgone⟩
    case inl =>
      refine (hstep.spared hthere).imp_right (.imp ?_ ?_)
      · rintro ⟨handle, hnamed, hactive, hcancelled⟩
        refine ⟨handle, hnamed, ?_, hcancelled⟩
        rcases h.marks handle with hsame | ⟨-, own, -, -, hmarked⟩
        · exact hsame ▸ hactive
        · exact absurd (hmarked.symm.trans hactive) (by simp)
      · rintro ⟨view, source, htarget, hinput, hgone⟩
        refine ⟨view, source, htarget, ?_, hgone⟩
        rcases h.inputs view with hsame | hnone
        · exact hsame ▸ hinput
        · rw [hnone] at hinput
          contradiction
    case inr.inl =>
      exact .inr (.inl ⟨handle, hnamed, hactive, hstep.marks.of_not_active hcancelled rfl⟩)
    case inr.inr =>
      exact .inr (.inr ⟨view, source, htarget, hinput, (hstep.inputs view).elim (·.trans hgone) id⟩)

/-- Assumes: nothing becomes of handles, inputs and registrations. -/
theorem keep (hhandles : world'.handles = world.handles)
    (hinputs : ∀ view, world'.inputsOf view = world.inputsOf view)
    (hregistry : world'.registry target = world.registry target) :
    Withdraws handles target ticket world world' where
  marks := .of_handles hhandles
  inputs view := .inl (hinputs view)
  spared hmem := .inl (hregistry ▸ hmem)

theorem cancel {handle : Nat} (hnamed : handle ∈ handles) (world : World α β) :
    Withdraws handles target ticket world (world.cancel handle) where
  marks := marks_cancel hnamed world
  inputs view := .inl (inputsOf_cancel handle view world)
  spared hmem := by
    by_cases hown : world.handles[handle]? = some { target, ticket }
    · refine .inr (.inl ⟨handle, hnamed, hown, ?_⟩)
      simp [World.cancel, hown, modifyHandle]
    · refine .inl ?_
      unfold World.cancel
      split
      case h_1 other otherTicket hhandle =>
        refine mem_unregister hmem ?_
        rintro ⟨rfl, rfl⟩
        exact hown hhandle
      case h_2 => exact hmem

theorem takeApart (view : ViewId) (world : World α β) :
    Withdraws handles target ticket world (world.takeApart view) where
  marks := .of_handles (handles_takeApart view world)
  inputs other := inputsOf_takeApart view other world
  spared hmem := (spares_takeApart view hmem).imp_right .inr

end Withdraws

end World

namespace Machine

variable {m m' : Machine α β} {target : Target} {ticket : Nat}

/-! ### The operations of the core -/

theorem registry_requestCompose (view : ViewId) (target : Target) (m : Machine α β) :
    (m.requestCompose view).world.registry target = m.world.registry target :=
  World.registry_of_scene (scene_requestCompose view m) target

theorem registry_flush (view : ViewId) (target : Target) (m : Machine α β) :
    (m.flush view).world.registry target = m.world.registry target :=
  World.registry_of_scene (works_flush view m).scene target

theorem registry_settle (view : ViewId) (target : Target) (m : Machine α β) :
    (m.settle view).world.registry target = m.world.registry target :=
  World.registry_of_scene (works_settle view m).scene target

theorem registry_becomeReady (view : ViewId) (value : β) (target : Target) (m : Machine α β) :
    (m.becomeReady view value).world.registry target = m.world.registry target :=
  World.registry_of_scene (becomeReady_spec view value m).1 target

theorem registry_composeIfDue (view : ViewId) (target : Target) (m : Machine α β) :
    (m.composeIfDue view).world.registry target = m.world.registry target :=
  World.registry_of_scene ((composeIfDue_spec view m).elim (·.scene) (·.2.1)) target

theorem registry_hear (view : ViewId) (slot : Nat) (event : Event α) (target : Target)
    (m : Machine α β) : (m.hear view slot event).world.registry target = m.world.registry target := by
  have habsorbed : ((m.push (.holding view)).withWorld
      (.modifyView view (.absorb slot event))).world.registry target = m.world.registry target :=
    World.registry_modifyView view target m.world (View.listeners_absorb slot event)
  have hhears := m.hears view slot event
  generalize m.hear view slot event = m' at hhears ⊢
  cases hhears with
  | deaf | lent => rfl
  | quiet => exact habsorbed
  | loaded => exact (registry_requestCompose view target _).trans habsorbed
  | failed => exact (registry_flush view target _).trans habsorbed

theorem registry_runDeferred (view : ViewId) (target : Target) (m : Machine α β) :
    (m.runDeferred view).world.registry target = m.world.registry target := by
  unfold runDeferred
  split
  · rfl
  · exact (registry_flush view target _).trans
      (World.registry_modifyView view target m.world fun _ ↦ rfl)

theorem registry_emit (source : SourceId) (event : Event α) (target : Target) (m : Machine α β) :
    (m.emit source event).world.registry target = m.world.registry target := by
  have hpublished : ((m.withWorld .openTick).withWorld
      (.modifySource source fun s ↦ { s with current := event })).world.registry target =
        m.world.registry target := by
    have hopened : m.world.openTick.registry target = m.world.registry target := by
      cases target <;> rfl
    exact Eq.trans (World.registry_modifySource source target m.world.openTick fun _ ↦ rfl) hopened
  unfold emit
  split
  · rfl
  · split
    · rfl
    · exact hpublished

theorem registry_feed (feed : Feed α) (target : Target) (m : Machine α β) :
    (m.feed feed).world.registry target = m.world.registry target := by
  unfold Machine.feed
  split
  · rfl
  · exact registry_emit _ _ target _

theorem registry_build (sources : List SourceId) (composer : Composer α β) (target : Target)
    (m : Machine α β) :
    (m.build sources composer).world.registry target = m.world.registry target := by
  unfold build
  split
  · rfl
  · refine (World.registry_addView rfl target _).trans ?_
    cases target <;> rfl

theorem spares_release (view : ViewId) (m : Machine α β) :
    World.Spares target ticket m.world (m.release view).world := by
  unfold release
  split
  · split
    · exact .of_registry rfl
    · exact World.spares_takeApart view
  · exact .of_registry rfl

theorem withdraws_dropView {handles : List Nat} (view : ViewId) (m : Machine α β) :
    World.Withdraws handles target ticket m.world (m.dropView view).world := by
  have hdropped : World.Withdraws handles target ticket m.world
      (m.withWorld (.modifyView view fun v ↦ { v with owned := false })).world :=
    .keep rfl (fun other ↦ World.inputsOf_modifyView view other m.world fun _ ↦ rfl)
      (World.registry_modifyView view target m.world fun _ ↦ rfl)
  unfold dropView release
  split
  · split
    · exact hdropped
    · exact hdropped.after (.takeApart view _)
  · exact hdropped

/-- What goes with a subscription are its own registration, those of subscriptions that its callback
owns, which are cancelled with it, and the inputs of views. -/
theorem withdraws_serve_cancel (handle : Nat) (owned : Belongings) (m : Machine α β) :
    World.Withdraws (handle :: owned.handles) target ticket m.world
      (m.serve (.cancel handle owned)).world := by
  have hhandles : (Belongings.subscription handle owned .nothing).handles =
      handle :: owned.handles := by simp [Belongings.handles]
  refine drop_induction_of_mem (motive := fun m' : Machine α β ↦
    World.Withdraws (handle :: owned.handles) target ticket m.world m'.world)
    (fun m' other hmem h ↦ h.after (.cancel (hhandles ▸ hmem) m'.world))
    (fun m' other h ↦ h.after ?_) (fun m' view h ↦ h.after (withdraws_dropView view m')) [] (.refl _)
  exact .keep (World.handles_strand other _) (fun view ↦ World.inputsOf_strand other view _)
    (World.registry_strand other target _)

theorem mem_subscribe (other : Target) (key : Nat)
    (hmem : ticket ∈ (m.world.registry target).tickets) :
    ticket ∈ ((m.subscribe other key).world.registry target).tickets := by
  have hsubscribes := m.subscribes other key
  generalize m.subscribe other key = m' at hsubscribes ⊢
  cases hsubscribes with
  | unknown => exact hmem
  | @source source => exact World.mem_registerAtSource source (.callback key) hmem
  | @silent view | @view view => exact World.mem_registerAtView view key hmem

theorem mem_connect (view : ViewId) (source : SourceId) (slot : Nat)
    (hmem : ticket ∈ (m.world.registry target).tickets) :
    ticket ∈ ((m.connect view source slot).world.registry target).tickets := by
  unfold connect
  split
  · exact hmem
  · rw [registry_hear]
    simp only [withWorld]
    rw [World.registry_modifyView view target _ (by exact fun _ ↦ rfl)]
    exact World.mem_registerAtSource source (.input view slot) hmem

/-! ### Why a registration goes -/

/-- The move takes the registration away. -/
def Loses (target : Target) (ticket : Nat) (m : Machine α β) (move : Move α β) : Prop :=
  ticket ∈ (m.world.registry target).tickets ∧
    ticket ∉ ((m.move move).world.registry target).tickets

instance (target : Target) (ticket : Nat) (m : Machine α β) (move : Move α β) :
    Decidable (m.Loses target ticket move) := by
  unfold Loses
  infer_instance

/-- A reason for a registration to go. -/
inductive Leaves (target : Target) (ticket : Nat) (m : Machine α β) : Move α β → Prop
  /-- Its subscription is cancelled, at its own request or with the callback that owns it. -/
  | cancelled {handle other : Nat} {owned : Belongings} (huser : m.hasUser)
      (hnamed : other ∈ handle :: owned.handles)
      (hactive : m.world.handles[other]? = some { target, ticket })
      (hcancelled : (m.move (.request (.cancel handle owned))).world.handles[other]? =
        some { target, ticket, state := .cancelled }) :
      Leaves target ticket m (.request (.cancel handle owned))
  /-- The view that it hears is disposed of. -/
  | cleared {view : ViewId} (huser : m.hasUser) (h : target = .view view) :
      Leaves target ticket m (.request (.dispose view))
  /-- The view whose input it is lets go of all its inputs. -/
  | unplugged {move : Move α β} (h : World.Unplugs target ticket m.world (m.move move).world) :
      Leaves target ticket m move
  /-- Its callback raised when it was called for the first time. -/
  | turnedAway {below : List (Frame α β)} (hunwinding : m.isUnwinding)
      (h : m.stack = .subscribing target ticket :: below) : Leaves target ticket m .advance

/-- Assumes: the move has spared the registration, unless it was that of an input. -/
theorem Leaves.of_spares {move : Move α β} (h : m.Loses target ticket move)
    (hspares : World.Spares target ticket m.world (m.move move).world) :
    m.Leaves target ticket move :=
  .unplugged ((hspares h.1).resolve_left h.2)

theorem leaves_request {request : Request α β} (huser : m.hasUser)
    (h : m.Loses target ticket (.request request)) : m.Leaves target ticket (.request request) := by
  have hmoved : m.move (.request request) = m.serve request := submit_eq_serve huser request
  have hnever (hkept : ticket ∈ ((m.serve request).world.registry target).tickets) :
      m.Leaves target ticket (.request request) := absurd (hmoved.symm ▸ hkept) h.2
  have hspared (hspares : World.Spares target ticket m.world (m.serve request).world) :
      m.Leaves target ticket (.request request) := .of_spares h (hmoved.symm ▸ hspares)
  cases request with
  | newSource name => exact hspared (.of_registry (World.registry_addSource name target m.world))
  | emit source event => exact hspared (.of_registry (registry_emit source event target m))
  | build sources composer => exact hspared (.of_registry (registry_build sources composer target m))
  | subscribe other key => exact hnever (mem_subscribe other key h.1)
  | cancel handle owned =>
    rcases (withdraws_serve_cancel handle owned m).spared h.1 with
      hkept | ⟨other, hnamed, hactive, hcancelled⟩ | hunplugs
    · exact hnever hkept
    · exact .cancelled huser hnamed hactive (hmoved.symm ▸ hcancelled)
    · exact .unplugged (hmoved.symm ▸ hunplugs)
  | detach handle => exact hspared (.of_registry (by cases target <;> rfl))
  | dispose view =>
    by_cases htarget : target = .view view
    · exact .cleared huser htarget
    · exact hspared (World.spares_dispose view htarget)
  | dropView view =>
    let dropped : Machine α β := m.withWorld (.modifyView view fun v ↦ { v with owned := false })
    have hregistry : dropped.world.registry target = m.world.registry target :=
      World.registry_modifyView view target m.world fun _ ↦ rfl
    refine hspared (.after (fun hmem ↦ hregistry ▸ hmem) (fun other ↦ ?_)
      (spares_release view dropped))
    exact World.inputsOf_modifyView view other m.world fun _ ↦ rfl
  | enterTick => exact hspared (.of_registry (by cases target <;> rfl))
  | leaveTick => exact hspared (.of_registry (World.registry_closeTick target m.world))
  | abandonTick => exact hspared (.of_registry (World.registry_abandonTick target m.world))
  | poll feed => exact hspared (.of_registry (registry_feed feed target m))
  | finish | compose value | raise message =>
    refine hspared (.of_registry ?_)
    simp only [serve]
    split <;> rfl

theorem spares_resume (answer : Answer α β) (m : Machine α β) :
    World.Spares target ticket m.world (m.resume answer).world := by
  -- what a composer worked on is given back
  have hreturned (view : ViewId) (below : List (Frame α β)) :
      (({ m with stack := below } : Machine α β).withWorld
        (.modifyView view fun v ↦ { v with lent := false })).world.registry target =
          m.world.registry target :=
    World.registry_modifyView view target m.world fun _ ↦ rfl
  have hadded (other : Target) (otherTicket : Nat) :
      (m.world.addHandle other otherTicket).registry target = m.world.registry target := by
    cases target <;> rfl
  have hresumes := m.resumes answer
  generalize m.resume answer = m' at hresumes ⊢
  cases hresumes with
  | rest | calling | drained | skipDelivery | callListener | delivered | skipAnnouncement | callViewer
  | announced | fail | fed => exact .of_registry rfl
  | closing => exact .of_registry (World.registry_closeTick target m.world)
  | drain => exact .of_registry (registry_runDeferred _ target _)
  | hear => exact .of_registry (registry_hear _ _ _ target _)
  | compose => exact .of_registry (registry_composeIfDue _ target _)
  | @composed view _ below =>
    exact .of_registry ((registry_becomeReady view _ target _).trans (hreturned view below))
  | @notComposed view below =>
    exact .of_registry ((registry_settle view target _).trans (hreturned view below))
  | settle => exact .of_registry (registry_settle _ target _)
  | @release view below => exact spares_release view { m with stack := below }
  | subscribed => exact .of_registry (hadded _ _)
  | @subscribedView view otherTicket below =>
    let added : Machine α β := ({ m with stack := below } : Machine α β).withWorld
      (.addHandle (.view view) otherTicket)
    have hkept (hmem : ticket ∈ (m.world.registry target).tickets) :
        ticket ∈ (added.world.registry target).tickets := hadded (.view view) otherTicket ▸ hmem
    exact .after hkept (fun _ ↦ rfl) (spares_release view added)
  | @connect view input => exact fun hmem ↦ .inl (mem_connect view input.1 input.2 hmem)
  | connected => exact .of_registry (registry_requestCompose _ target _)
  | built => exact .of_registry (World.registry_modifyView _ target m.world fun _ ↦ rfl)
  | feed => exact .of_registry (registry_feed _ target _)

/-- Assumes: a subscription on top that is given up is another one. -/
theorem spares_giveUp (message : String)
    (hother : ∀ below, m.stack ≠ .subscribing target ticket :: below) :
    World.Spares target ticket m.world (m.giveUp message).world := by
  have hkept {other : Target} {otherTicket : Nat} {below : List (Frame α β)}
      (hstack : m.stack = .subscribing other otherTicket :: below)
      (hmem : ticket ∈ (m.world.registry target).tickets) :
      ticket ∈ ((m.world.unregister other otherTicket).registry target).tickets := by
    refine World.mem_unregister hmem ?_
    rintro ⟨rfl, rfl⟩
    exact hother below hstack
  have hgivesUp := m.givesUp message
  generalize m.giveUp message = m' at hgivesUp ⊢
  cases hgivesUp with
  | rest | calling | pop => exact .of_registry rfl
  | closing => exact .of_registry (World.registry_abandonTick target m.world)
  | @draining views => exact .of_registry (World.registry_unschedule views target m.world)
  | composing => exact .of_registry (World.registry_modifyView _ target m.world fun _ ↦ rfl)
  | @holding view below | @building view below => exact spares_release view { m with stack := below }
  | subscribing hstack => exact fun hmem ↦ .inl (hkept hstack hmem)
  | @subscribingView view otherTicket below hstack =>
    let left : Machine α β := ({ m with stack := below } : Machine α β).withWorld
      (.unregister (.view view) otherTicket)
    have hleft (hmem : ticket ∈ (m.world.registry target).tickets) :
        ticket ∈ (left.world.registry target).tickets := hkept hstack hmem
    refine .after hleft (fun other ↦ ?_) (spares_release view left)
    exact World.inputsOf_modifyView view other m.world fun _ ↦ rfl

/-- A registration goes only for a reason of its own. -/
theorem leaves_of_loses {move : Move α β} (h : m.Loses target ticket move) :
    m.Leaves target ticket move := by
  have hstay (hsame : m.move move = m) : m.Leaves target ticket move :=
    absurd (hsame.symm ▸ h.1) h.2
  cases move with
  | request request =>
    by_cases huser : m.hasUser
    · exact leaves_request huser h
    · refine hstay ?_
      simp only [Machine.move, submit]
      cases hcontrol : m.control with
      | user heard => simp [hasUser, hcontrol] at huser
      | _ => rfl
  | advance =>
    cases hcontrol : m.control with
    | user heard => exact hstay (by simp only [Machine.move, advance, hcontrol])
    | returning answer =>
      refine .of_spares h ?_
      simp only [Machine.move, advance, hcontrol]
      exact spares_resume answer m
    | unwinding message =>
      by_cases hown : ∃ below, m.stack = .subscribing target ticket :: below
      · obtain ⟨below, hstack⟩ := hown
        exact .turnedAway (by simp [isUnwinding, hcontrol]) hstack
      · refine .of_spares h ?_
        simp only [Machine.move, advance, hcontrol]
        exact spares_giveUp message fun below hstack ↦ hown ⟨below, hstack⟩

end Machine

end LiveRecord.Flow
