import LiveRecord.Proofs.Flow.Scene
import LiveRecord.Proofs.Flow.Tickets
import LiveRecord.Proofs.Flow.Wiring

/-!
# Ids that have been given out

No handle, no view and no operation under way names a view that is not there or a ticket that was
not given out (`Machine.known_run`). So whatever is given out next is new to everybody.
-/

set_option autoImplicit false

namespace LiveRecord.Flow

variable {α β : Type}

namespace World

/-- The ticket that the target gives out next. -/
def nextTicket? (target : Target) (world : World α β) : Option Nat :=
  match target with
  | .source source => world.sources[source]?.map (·.listeners.next)
  | .view view => world.views[view]?.map (·.listeners.next)

/-- The target has given the ticket out. -/
def Issued (target : Target) (ticket : Nat) (world : World α β) : Prop :=
  ∃ next, world.nextTicket? target = some next ∧ ticket < next

theorem nextTicket?_modifyView (j : ViewId) {g : View α β → View α β}
    (hnext : ∀ v, (g v).listeners.next = v.listeners.next) (target : Target) (world : World α β) :
    (world.modifyView j g).nextTicket? target = world.nextTicket? target := by
  cases target with
  | source source => rfl
  | view view =>
    simp only [nextTicket?, modifyView, List.getElem?_modify]
    cases world.views[view]? with
    | none => rfl
    | some v =>
      by_cases hview : j = view
      · simp [hview, hnext]
      · simp [hview]

/-- Where a view of a changed world comes from. -/
theorem exists_of_mem_modifyView {world : World α β} {j : ViewId} {g : View α β → View α β}
    {v' : View α β} (hv' : v' ∈ (world.modifyView j g).views) :
    ∃ v ∈ world.views, v' = v ∨ v' = g v := by
  obtain ⟨k, hk⟩ := List.mem_iff_getElem?.mp hv'
  rw [modifyView, List.getElem?_modify] at hk
  obtain ⟨v, hv, rfl⟩ := Option.map_eq_some_iff.mp hk
  refine ⟨v, List.mem_of_getElem? hv, ?_⟩
  split
  · exact .inr rfl
  · exact .inl rfl

/-- Handles and views name no ticket that was not given out. -/
structure Known (world : World α β) : Prop where
  handles : ∀ handle ∈ world.handles, world.Issued handle.target handle.ticket
  inputs : ∀ v ∈ world.views, ∀ input ∈ v.inputs, world.Issued (.source input.1) input.2
  listeners : ∀ v ∈ world.views, ∀ ticket ∈ v.listeners.tickets, ticket < v.listeners.next

end World

/-- The answer names no handle and no view. -/
def Answer.isPlain : Answer α β → Bool
  | subscribed _ | built _ => false
  | _ => true

/-- The frame names no view that is not there, and no ticket that was not given out. An answer that
waits for the end of a tick names nothing at all. -/
def Frame.Known (world : World α β) : Frame α β → Prop
  | delivering source _ tickets => ∀ ticket ∈ tickets, world.Issued (.source source) ticket
  | announcing view _ tickets =>
    view < world.views.length ∧ ∀ ticket ∈ tickets, world.Issued (.view view) ticket
  | subscribing target ticket => world.Issued target ticket
  | failing view _ | composing view | settling view | holding view | connecting view _
  | building view => view < world.views.length
  | closing answer | draining _ answer => answer.isPlain
  | calling _ (some (target, ticket)) => world.Issued target ticket
  | calling _ none | feeding _ => True

namespace World

/-! ### Changes after which nothing more is named -/

/-- The second world names what the first one does, or less. -/
structure Sheds (world world' : World α β) : Prop where
  next : ∀ target, world'.nextTicket? target = world.nextTicket? target
  length : world'.views.length = world.views.length
  handles : ∀ handle' ∈ world'.handles, ∃ handle ∈ world.handles,
    handle'.target = handle.target ∧ handle'.ticket = handle.ticket
  views : ∀ v' ∈ world'.views, ∃ v ∈ world.views, v'.inputs ⊆ v.inputs ∧
    v'.listeners.tickets ⊆ v.listeners.tickets ∧ v'.listeners.next = v.listeners.next

namespace Sheds

variable {world world' world'' : World α β} {target : Target} {ticket : Nat}

theorem of_eq (hsources : world'.sources = world.sources) (hviews : world'.views = world.views)
    (hhandles : world'.handles = world.handles) : world.Sheds world' where
  next target := by cases target <;> simp only [nextTicket?, hsources, hviews]
  length := by rw [hviews]
  handles handle hhandle := ⟨handle, hhandles ▸ hhandle, rfl, rfl⟩
  views v hv := ⟨v, hviews ▸ hv, List.Subset.refl _, List.Subset.refl _, rfl⟩

theorem refl (world : World α β) : world.Sheds world := .of_eq rfl rfl rfl

theorem trans (hfirst : world.Sheds world') (hlast : world'.Sheds world'') :
    world.Sheds world'' where
  next target := (hlast.next target).trans (hfirst.next target)
  length := hlast.length.trans hfirst.length
  handles handle'' hhandle'' := by
    obtain ⟨handle', hhandle', htarget', hticket'⟩ := hlast.handles handle'' hhandle''
    obtain ⟨handle, hhandle, htarget, hticket⟩ := hfirst.handles handle' hhandle'
    exact ⟨handle, hhandle, htarget'.trans htarget, hticket'.trans hticket⟩
  views v'' hv'' := by
    obtain ⟨v', hv', hinputs', htickets', hnext'⟩ := hlast.views v'' hv''
    obtain ⟨v, hv, hinputs, htickets, hnext⟩ := hfirst.views v' hv'
    exact ⟨v, hv, fun _ hmem ↦ hinputs (hinputs' hmem), fun _ hmem ↦ htickets (htickets' hmem),
      hnext'.trans hnext⟩

theorem modifyView (j : ViewId) (world : World α β) {g : View α β → View α β}
    (hinputs : ∀ v, (g v).inputs ⊆ v.inputs)
    (htickets : ∀ v, (g v).listeners.tickets ⊆ v.listeners.tickets)
    (hnext : ∀ v, (g v).listeners.next = v.listeners.next) :
    world.Sheds (world.modifyView j g) where
  next target := nextTicket?_modifyView j hnext target world
  length := List.length_modify _ _ _
  handles handle hhandle := ⟨handle, hhandle, rfl, rfl⟩
  views v' hv' := by
    obtain ⟨v, hv, rfl | rfl⟩ := exists_of_mem_modifyView hv'
    · exact ⟨v', hv, List.Subset.refl _, List.Subset.refl _, rfl⟩
    · exact ⟨v, hv, hinputs v, htickets v, hnext v⟩

/-- Assumes: a change that has nothing to do with the inputs and the listeners of a view. -/
theorem modifyFlags (j : ViewId) (world : World α β) {g : View α β → View α β}
    (hinputs : ∀ v, (g v).inputs = v.inputs) (hlisteners : ∀ v, (g v).listeners = v.listeners) :
    world.Sheds (world.modifyView j g) :=
  .modifyView j world (fun v ↦ hinputs v ▸ List.Subset.refl _)
    (fun v ↦ hlisteners v ▸ List.Subset.refl _) fun v ↦ congrArg _ (hlisteners v)

theorem modifySource (i : SourceId) (world : World α β) {g : Source α → Source α}
    (hnext : ∀ s, (g s).listeners.next = s.listeners.next) :
    world.Sheds (world.modifySource i g) where
  next target := by
    cases target with
    | view view => rfl
    | source source =>
      simp only [nextTicket?, World.modifySource, List.getElem?_modify]
      cases world.sources[source]? with
      | none => rfl
      | some s =>
        by_cases hsource : i = source
        · simp [hsource, hnext]
        · simp [hsource]
  length := rfl
  handles handle hhandle := ⟨handle, hhandle, rfl, rfl⟩
  views v hv := ⟨v, hv, List.Subset.refl _, List.Subset.refl _, rfl⟩

theorem modifyHandle (handle : Nat) (world : World α β) {g : Handle → Handle}
    (htarget : ∀ h, (g h).target = h.target) (hticket : ∀ h, (g h).ticket = h.ticket) :
    world.Sheds (world.modifyHandle handle g) where
  next target := by cases target <;> rfl
  length := rfl
  handles handle' hhandle' := by
    obtain ⟨k, hk⟩ := List.mem_iff_getElem?.mp hhandle'
    rw [World.modifyHandle, List.getElem?_modify] at hk
    obtain ⟨h, hh, rfl⟩ := Option.map_eq_some_iff.mp hk
    refine ⟨h, List.mem_of_getElem? hh, ?_⟩
    split
    · exact ⟨htarget h, hticket h⟩
    · exact ⟨rfl, rfl⟩
  views v hv := ⟨v, hv, List.Subset.refl _, List.Subset.refl _, rfl⟩

theorem unregister (target : Target) (ticket : Nat) (world : World α β) :
    world.Sheds (world.unregister target ticket) := by
  cases target with
  | source source => exact .modifySource source world fun _ ↦ rfl
  | view view =>
    refine .modifyView view world (fun _ ↦ List.Subset.refl _) (fun v ↦ ?_) fun _ ↦ rfl
    exact List.map_subset _ List.filter_sublist.subset

theorem foldl_unregister (inputs : List (SourceId × Nat)) (world : World α β) :
    world.Sheds (inputs.foldl (fun w input ↦ w.unregister (.source input.1) input.2) world) := by
  induction inputs generalizing world with
  | nil => exact .refl world
  | cons input rest ih => exact (unregister _ _ world).trans (ih _)

theorem disconnect (j : ViewId) (world : World α β) : world.Sheds (world.disconnect j) := by
  unfold World.disconnect
  split
  · exact .refl world
  · refine (foldl_unregister _ world).trans (.modifyView j _ (fun _ ↦ List.nil_subset _) ?_ ?_)
    · exact fun _ ↦ List.Subset.refl _
    · exact fun _ ↦ rfl

theorem dispose (j : ViewId) (world : World α β) : world.Sheds (world.dispose j) := by
  unfold World.dispose
  split
  · exact .refl world
  · split
    · exact .refl world
    · refine (disconnect j world).trans (.modifyView j _ (fun _ ↦ List.Subset.refl _) ?_ ?_)
      · exact fun _ ↦ List.nil_subset _
      · exact fun _ ↦ rfl

theorem takeApart (j : ViewId) (world : World α β) : world.Sheds (world.takeApart j) :=
  (disconnect j world).trans (.modifyFlags j _ (fun _ ↦ rfl) fun _ ↦ rfl)

theorem cancel (handle : Nat) (world : World α β) : world.Sheds (world.cancel handle) := by
  unfold World.cancel
  split
  · exact (unregister _ _ world).trans (.modifyHandle handle _ (fun _ ↦ rfl) fun _ ↦ rfl)
  · exact .refl world

theorem detach (handle : Nat) (world : World α β) : world.Sheds (world.detach handle) := by
  refine .modifyHandle handle world (fun h ↦ ?_) fun h ↦ ?_ <;> split <;> rfl

theorem unschedule (views : List ViewId) (world : World α β) :
    world.Sheds (world.unschedule views) := by
  unfold World.unschedule
  induction views generalizing world with
  | nil => exact .refl world
  | cons view rest ih =>
    rw [List.foldl_cons]
    refine Sheds.trans ?_ (ih _)
    exact .modifyFlags view world (fun _ ↦ rfl) fun _ ↦ rfl

theorem closeTick (world : World α β) : world.Sheds world.closeTick.2 := by
  unfold World.closeTick
  dsimp only
  split <;> exact .of_eq rfl rfl rfl

theorem abandonTick (world : World α β) : world.Sheds world.abandonTick :=
  (closeTick world).trans (unschedule _ _)

/-- Assumes: nothing is seen of what happens to the world. -/
theorem of_scene (h : world'.scene = world.scene) : world.Sheds world' where
  next target := by
    cases target with
    | source source => rw [nextTicket?, show world'.sources = world.sources from
        congrArg Scene.sources h]; rfl
    | view view =>
      have hview := congrArg (fun scene ↦ scene.views[view]?.map (·.listeners.next)) h
      simpa [scene, Function.comp_def, View.outline, nextTicket?] using hview
  length := by simpa [scene] using congrArg (fun scene ↦ scene.views.length) h
  handles handle hhandle := by
    have hhandles : world'.handles = world.handles := congrArg Scene.handles h
    exact ⟨handle, hhandles ▸ hhandle, rfl, rfl⟩
  views v' hv' := by
    have hmem : v'.outline ∈ world.scene.views := h ▸ List.mem_map_of_mem hv'
    obtain ⟨v, hv, heq⟩ := List.mem_map.mp hmem
    have hlisteners : v'.listeners = v.listeners := (congrArg Outline.listeners heq).symm
    have hinputs : v'.inputs = v.inputs := (congrArg Outline.inputs heq).symm
    exact ⟨v, hv, hinputs ▸ List.Subset.refl _, hlisteners ▸ List.Subset.refl _,
      congrArg _ hlisteners⟩

theorem issued (h : world.Sheds world') (hissued : world.Issued target ticket) :
    world'.Issued target ticket := by
  obtain ⟨next, hnext, hticket⟩ := hissued
  exact ⟨next, (h.next target).trans hnext, hticket⟩

end Sheds

/-! ### Changes that give out ids -/

/-- The second world has given out what the first one has, or more. -/
structure Extends (world world' : World α β) : Prop where
  next : ∀ target next, world.nextTicket? target = some next →
    ∃ next', world'.nextTicket? target = some next' ∧ next ≤ next'
  length : world.views.length ≤ world'.views.length

theorem Sheds.toExtends {world world' : World α β} (h : world.Sheds world') :
    world.Extends world' where
  next target next hnext := ⟨next, (h.next target).trans hnext, Nat.le_refl _⟩
  length := Nat.le_of_eq h.length.symm

section Extends

variable {world world' : World α β} {target : Target} {ticket : Nat}

theorem Extends.issued (h : world.Extends world') (hissued : world.Issued target ticket) :
    world'.Issued target ticket := by
  obtain ⟨next, hnext, hticket⟩ := hissued
  obtain ⟨next', hnext', hle⟩ := h.next target next hnext
  exact ⟨next', hnext', Nat.lt_of_lt_of_le hticket hle⟩

theorem extends_addSource (name : String) (world : World α β) :
    world.Extends (world.addSource name) where
  next target next hnext := by
    refine ⟨next, ?_, Nat.le_refl _⟩
    cases target with
    | view view => exact hnext
    | source source =>
      obtain ⟨s, hs, rfl⟩ := Option.map_eq_some_iff.mp hnext
      rw [nextTicket?, World.addSource,
        List.getElem?_append_left (List.getElem?_eq_some_iff.mp hs).1, hs]
      rfl
  length := Nat.le_refl _

theorem extends_addView (v : View α β) (world : World α β) : world.Extends (world.addView v) where
  next target next hnext := by
    refine ⟨next, ?_, Nat.le_refl _⟩
    cases target with
    | source source => exact hnext
    | view view =>
      obtain ⟨v', hv', rfl⟩ := Option.map_eq_some_iff.mp hnext
      rw [nextTicket?, World.addView,
        List.getElem?_append_left (List.getElem?_eq_some_iff.mp hv').1, hv']
      rfl
  length := by simp [World.addView]

theorem extends_modifyView (j : ViewId) {g : View α β → View α β}
    (hnext : ∀ v, (g v).listeners.next = v.listeners.next) :
    world.Extends (world.modifyView j g) where
  next target next h := ⟨next, (nextTicket?_modifyView j hnext target world).trans h, Nat.le_refl _⟩
  length := Nat.le_of_eq (List.length_modify _ _ _).symm

theorem extends_registerAtSource (source : SourceId) (listener : Listener) (world : World α β) :
    world.Extends (world.registerAtSource source listener) where
  next target next hnext := by
    cases target with
    | view view => exact ⟨next, hnext, Nat.le_refl _⟩
    | source other =>
      obtain ⟨s, hs, rfl⟩ := Option.map_eq_some_iff.mp hnext
      simp only [nextTicket?, registerAtSource, World.modifySource, List.getElem?_modify, hs]
      by_cases hother : source = other
      · exact ⟨s.listeners.next + 1, by simp [hother, Registry.register], Nat.le_succ _⟩
      · exact ⟨s.listeners.next, by simp [hother], Nat.le_refl _⟩
  length := Nat.le_refl _

theorem extends_registerAtView (view : ViewId) (key : Nat) (world : World α β) :
    world.Extends (world.registerAtView view key) where
  next target next hnext := by
    cases target with
    | source source => exact ⟨next, hnext, Nat.le_refl _⟩
    | view other =>
      obtain ⟨v, hv, rfl⟩ := Option.map_eq_some_iff.mp hnext
      simp only [nextTicket?, registerAtView, World.modifyView, List.getElem?_modify, hv]
      by_cases hother : view = other
      · exact ⟨v.listeners.next + 1, by simp [hother, Registry.register], Nat.le_succ _⟩
      · exact ⟨v.listeners.next, by simp [hother], Nat.le_refl _⟩
  length := Nat.le_of_eq (List.length_modify _ _ _).symm

/-! ### Worlds that name nothing else -/

theorem Known.sheds (h : world.Known) (hsheds : world.Sheds world') : world'.Known where
  handles handle' hhandle' := by
    obtain ⟨handle, hhandle, htarget, hticket⟩ := hsheds.handles handle' hhandle'
    rw [htarget, hticket]
    exact hsheds.issued (h.handles handle hhandle)
  inputs v' hv' input hinput := by
    obtain ⟨v, hv, hinputs, -, -⟩ := hsheds.views v' hv'
    exact hsheds.issued (h.inputs v hv input (hinputs hinput))
  listeners v' hv' ticket hticket := by
    obtain ⟨v, hv, -, htickets, hnext⟩ := hsheds.views v' hv'
    rw [hnext]
    exact h.listeners v hv ticket (htickets hticket)

theorem Known.addSource (h : world.Known) (name : String) : (world.addSource name).Known where
  handles handle hhandle := (extends_addSource name world).issued (h.handles handle hhandle)
  inputs v hv input hinput := (extends_addSource name world).issued (h.inputs v hv input hinput)
  listeners := h.listeners

/-- Assumes: a new view that has no inputs and no listeners yet. -/
theorem Known.addView {v : View α β} (h : world.Known) (hinputs : v.inputs = [])
    (hlisteners : v.listeners = {}) : (world.addView v).Known where
  handles handle hhandle := (extends_addView v world).issued (h.handles handle hhandle)
  inputs v' hv' input hinput := by
    rcases List.mem_append.mp hv' with hold | hnew
    · exact (extends_addView v world).issued (h.inputs v' hold input hinput)
    · rw [List.mem_singleton.mp hnew, hinputs] at hinput
      exact absurd hinput List.not_mem_nil
  listeners v' hv' ticket hticket := by
    rcases List.mem_append.mp hv' with hold | hnew
    · exact h.listeners v' hold ticket hticket
    · rw [List.mem_singleton.mp hnew, hlisteners] at hticket
      exact absurd hticket List.not_mem_nil

theorem Known.addHandle (h : world.Known) (hissued : world.Issued target ticket) :
    (world.addHandle target ticket).Known where
  handles handle hhandle := by
    rcases List.mem_append.mp hhandle with hold | hnew
    · exact h.handles handle hold
    · rw [List.mem_singleton.mp hnew]
      exact hissued
  inputs := h.inputs
  listeners := h.listeners

theorem Known.registerAtSource (h : world.Known) (source : SourceId) (listener : Listener) :
    (world.registerAtSource source listener).Known where
  handles handle hhandle :=
    (extends_registerAtSource source listener world).issued (h.handles handle hhandle)
  inputs v hv input hinput :=
    (extends_registerAtSource source listener world).issued (h.inputs v hv input hinput)
  listeners := h.listeners

theorem Known.registerAtView (h : world.Known) (view : ViewId) (key : Nat) :
    (world.registerAtView view key).Known where
  handles handle hhandle :=
    (extends_registerAtView view key world).issued (h.handles handle hhandle)
  inputs v' hv' input hinput := by
    refine (extends_registerAtView view key world).issued ?_
    obtain ⟨v, hv, rfl | rfl⟩ := exists_of_mem_modifyView hv'
    · exact h.inputs _ hv input hinput
    · exact h.inputs v hv input hinput
  listeners v' hv' ticket hticket := by
    obtain ⟨v, hv, rfl | rfl⟩ := exists_of_mem_modifyView hv'
    · exact h.listeners _ hv ticket hticket
    · rw [Registry.tickets_register] at hticket
      rcases List.mem_append.mp hticket with hold | hnew
      · exact Nat.lt_succ_of_lt (h.listeners v hv ticket hold)
      · rw [List.mem_singleton.mp hnew]
        exact Nat.lt_succ_self _

/-- Assumes: a registration that there is. -/
theorem Known.addInput (h : world.Known) (view : ViewId) {source : SourceId}
    (hissued : world.Issued (.source source) ticket) :
    (world.modifyView view fun v ↦ { v with inputs := v.inputs ++ [(source, ticket)] }).Known where
  handles handle hhandle :=
    Extends.issued (extends_modifyView view fun _ ↦ rfl) (h.handles handle hhandle)
  inputs v' hv' input hinput := by
    show world.Issued (.source input.1) input.2
    obtain ⟨v, hv, rfl | rfl⟩ := exists_of_mem_modifyView hv'
    · exact h.inputs _ hv input hinput
    · rcases List.mem_append.mp hinput with hold | hnew
      · exact h.inputs v hv input hold
      · rw [List.mem_singleton.mp hnew]
        exact hissued
  listeners v' hv' ticket hticket := by
    obtain ⟨v, hv, rfl | rfl⟩ := exists_of_mem_modifyView hv'
    · exact h.listeners _ hv ticket hticket
    · exact h.listeners v hv ticket hticket

end Extends

end World

theorem Frame.Known.grow {world world' : World α β} {frame : Frame α β}
    (h : frame.Known world) (hextends : world.Extends world') : frame.Known world' := by
  cases frame with
  | delivering source event tickets => exact fun ticket hticket ↦ hextends.issued (h ticket hticket)
  | announcing view event tickets =>
    exact ⟨Nat.lt_of_lt_of_le h.1 hextends.length,
      fun ticket hticket ↦ hextends.issued (h.2 ticket hticket)⟩
  | subscribing target ticket => exact hextends.issued h
  | failing view _ | composing view | settling view | holding view | connecting view _
  | building view => exact Nat.lt_of_lt_of_le h hextends.length
  | closing _ | draining _ _ => exact h
  | calling call turn =>
    cases turn with
    | none => trivial
    | some turn => exact hextends.issued h
  | feeding _ => trivial

namespace Machine

variable {m m' : Machine α β} {j : ViewId}

/-! ### Machines that name nothing else -/

structure Known (m : Machine α β) : Prop where
  world : m.world.Known
  frames : ∀ frame ∈ m.stack, frame.Known m.world

namespace Known

/-- Assumes: a change after which nothing more is named, and new frames that name what there is. -/
theorem sheds (h : m.Known) (hsheds : m.world.Sheds m'.world)
    (hframes : ∀ frame ∈ m'.stack, frame ∈ m.stack ∨ frame.Known m'.world) : m'.Known where
  world := h.world.sheds hsheds
  frames frame hframe := (hframes frame hframe).elim
    (fun hold ↦ (h.frames frame hold).grow hsheds.toExtends) id

/-- Assumes: new frames only on top, which name what there is. -/
theorem grow (h : m.Known) (hworld : m'.world.Known) (hextends : m.world.Extends m'.world)
    (hframes : ∀ frame ∈ m'.stack, frame ∈ m.stack ∨ frame.Known m'.world) : m'.Known where
  world := hworld
  frames frame hframe := (hframes frame hframe).elim
    (fun hold ↦ (h.frames frame hold).grow hextends) id

theorem withWorld (h : m.Known) {g : World α β → World α β} (hsheds : m.world.Sheds (g m.world)) :
    (m.withWorld g).Known := h.sheds hsheds fun _ ↦ .inl

/-- Assumes: a change that has nothing to do with the inputs and the listeners of a view. -/
theorem modifyFlags (h : m.Known) (j : ViewId) {g : View α β → View α β}
    (hinputs : ∀ v, (g v).inputs = v.inputs) (hlisteners : ∀ v, (g v).listeners = v.listeners) :
    (m.withWorld (.modifyView j g)).Known := h.withWorld (.modifyFlags j _ hinputs hlisteners)

theorem push (h : m.Known) (frame : Frame α β) (hframe : frame.Known m.world) :
    (m.push frame).Known where
  world := h.world
  frames := List.forall_mem_cons.mpr ⟨hframe, h.frames⟩

theorem pop (h : m.Known) {frame : Frame α β} {below : List (Frame α β)}
    (hstack : m.stack = frame :: below) :
    { m with stack := below }.Known ∧ frame.Known m.world := by
  have hframes := h.frames
  rw [hstack] at hframes
  obtain ⟨hframe, hbelow⟩ := List.forall_mem_cons.mp hframes
  exact ⟨⟨h.world, hbelow⟩, hframe⟩

theorem returning (h : m.Known) (answer : Answer α β) : (m.returning answer).Known :=
  ⟨h.world, h.frames⟩

/-- Assumes: a ticket that was given out, if it is the turn of a registration. -/
theorem call (h : m.Known) (call : Call α β) (turn : Option (Target × Nat))
    (hturn : (Frame.calling call turn).Known m.world) : (m.call call turn).Known :=
  ⟨h.world, List.forall_mem_cons.mpr ⟨hturn, h.frames⟩⟩

/-! ### The operations of the core -/

theorem works (h : m.Known) (hworks : Works j m m') : m'.Known := by
  refine h.sheds (.of_scene hworks.scene) fun frame hframe ↦ ?_
  rcases hworks.stack with hstack | ⟨o, errors, hview, -, hstack⟩
  · exact .inl (hstack ▸ hframe)
  · rw [hstack] at hframe
    refine (List.mem_cons.mp hframe).symm.imp_right ?_
    rintro rfl
    obtain ⟨v, hv, -⟩ := World.exists_of_scene hview
    show j < m'.world.views.length
    rw [(World.Sheds.of_scene hworks.scene).length]
    exact (List.getElem?_eq_some_iff.mp hv).1

theorem requestCompose (h : m.Known) (j : ViewId) : (m.requestCompose j).Known := by
  unfold Machine.requestCompose
  split
  · exact h.returning _
  · split
    · exact h.works (works_flush j m)
    · split
      · exact h.returning _
      · exact (h.withWorld (.of_scene World.scene_schedule)).returning _

/-- Assumes: the view is there. -/
theorem becomeReady (h : m.Known) {v : View α β} (hview : m.world.views[j]? = some v) (value : β) :
    (m.becomeReady j value).Known := by
  have hready := h.modifyFlags j (g := View.becomeReady value) (fun _ ↦ rfl) fun _ ↦ rfl
  have hthere : j < (m.withWorld (.modifyView j (.becomeReady value))).world.views.length := by
    simpa [Machine.withWorld, World.modifyView] using (List.getElem?_eq_some_iff.mp hview).1
  refine ((hready.push (.settling j) hthere).push (.announcing j _ _)
    ⟨hthere, fun ticket hticket ↦ ?_⟩).returning _
  have hview' : (m.world.modifyView j (.becomeReady value)).views[j]? =
      some (v.becomeReady value) := by
    simp [World.modifyView, hview]
  have hnext : (m.withWorld (.modifyView j (.becomeReady value))).world.nextTicket? (.view j) =
      some v.listeners.next := by
    simp only [World.nextTicket?, Machine.withWorld, hview']
    rfl
  refine ⟨v.listeners.next, hnext, ?_⟩
  simp only [Machine.withWorld, World.viewTickets, hview'] at hticket
  exact h.world.listeners v (List.mem_of_getElem? hview) ticket hticket

theorem composeIfDue (h : m.Known) (j : ViewId) : (m.composeIfDue j).Known := by
  have hfresh := h.modifyFlags j (g := fun v ↦ { v with stale := false }) (fun _ ↦ rfl) fun _ ↦ rfl
  unfold Machine.composeIfDue
  split
  case h_1 => exact h.returning _
  case h_2 v hview =>
    have hview' : (m.withWorld (.modifyView j fun v ↦ { v with stale := false })).world.views[j]? =
        some { v with stale := false } := by
      simp [Machine.withWorld, World.modifyView, hview]
    split
    · dsimp only
      split
      · exact hfresh.works (works_settle j _)
      · exact hfresh.becomeReady hview' _
      · refine (Known.push ?_ (.composing j) ?_).call _ _ trivial
        · exact hfresh.modifyFlags j (fun _ ↦ rfl) fun _ ↦ rfl
        · simpa [Frame.Known, Machine.withWorld, World.modifyView] using
            (List.getElem?_eq_some_iff.mp hview).1
    · exact h.works (works_settle j m)

theorem hear (h : m.Known) (j : ViewId) (slot : Nat) (event : Event α) :
    (m.hear j slot event).Known := by
  have hheld {v : View α β} (hlive : m.world.liveView? j = some v) :
      (m.push (.holding j)).Known := by
    have hview : m.world.views[j]? = some v := (Option.filter_eq_some_iff.mp hlive).1
    exact h.push (.holding j) (List.getElem?_eq_some_iff.mp hview).1
  have habsorbed {v : View α β} (hlive : m.world.liveView? j = some v) :=
    (hheld hlive).modifyFlags j (View.inputs_absorb slot event) (View.listeners_absorb slot event)
  have hhears := m.hears j slot event
  generalize m.hear j slot event = m' at hhears ⊢
  cases hhears with
  | deaf => exact h.returning _
  | lent hlive => exact ⟨(hheld hlive).world, (hheld hlive).frames⟩
  | quiet hlive => exact (habsorbed hlive).returning _
  | loaded hlive => exact (habsorbed hlive).requestCompose j
  | failed hlive => exact (habsorbed hlive).works (works_flush j _)

theorem runDeferred (h : m.Known) (j : ViewId) : (m.runDeferred j).Known := by
  unfold Machine.runDeferred
  split
  case h_1 => exact h.returning _
  case h_2 v hlive =>
    have hview : m.world.views[j]? = some v := (Option.filter_eq_some_iff.mp hlive).1
    have hheld : (m.push (.holding j)).Known :=
      h.push (.holding j) (List.getElem?_eq_some_iff.mp hview).1
    refine Known.works ?_ (works_flush j _)
    exact hheld.modifyFlags j (fun _ ↦ rfl) fun _ ↦ rfl

theorem release (h : m.Known) (j : ViewId) : (m.release j).Known := by
  unfold Machine.release
  split
  · split
    · exact h
    · exact h.withWorld (.takeApart j _)
  · exact h

theorem dropView (h : m.Known) (j : ViewId) : (m.dropView j).Known :=
  (h.modifyFlags j (g := fun v ↦ { v with owned := false }) (fun _ ↦ rfl) fun _ ↦ rfl).release j

theorem refuse (h : m.Known) (target : Target) : (m.refuse target).Known :=
  h.sheds (.of_eq (by simp) (by simp) (by simp)) fun _ ↦ .inl

theorem closeTick (h : m.Known) {answer : Answer α β} (hplain : answer.isPlain) :
    (m.closeTick answer).Known := by
  have hclosed : ({ m with world := m.world.closeTick.2 } : Machine α β).Known :=
    h.sheds (.closeTick _) fun _ ↦ .inl
  exact (hclosed.push (.draining _ answer) hplain).returning _

/-- Assumes: listeners in order. -/
theorem emit (h : m.Known) (hordered : m.world.Ordered) (source : SourceId) (event : Event α) :
    (m.emit source event).Known := by
  unfold Machine.emit
  split
  case h_1 => exact h.returning _
  case h_2 s hs =>
    have hpublished : ((m.withWorld .openTick).withWorld
        (.modifySource source fun s ↦ { s with current := event })).Known :=
      (h.withWorld (g := World.openTick) (.of_eq rfl rfl rfl)).withWorld
        (.modifySource source _ fun _ ↦ rfl)
    have hs' : (m.world.openTick.modifySource source fun s ↦
        { s with current := event }).sources[source]? = some { s with current := event } := by
      simp [World.modifySource, World.openTick, hs]
    have hdelivering := (hpublished.push (.closing (.accepted true)) rfl).push
      (.delivering source event
        ((m.world.openTick.modifySource source fun s ↦ { s with current := event }).sourceTickets
          source)) fun ticket hticket ↦ by
        refine ⟨s.listeners.next, ?_, ?_⟩
        · simp [World.nextTicket?, Machine.push, Machine.withWorld, hs']
        · simp only [World.sourceTickets, hs'] at hticket
          obtain ⟨entry, hentry, rfl⟩ := List.mem_map.mp hticket
          exact (hordered source s hs).given entry hentry
    split
    · exact h.returning _
    · exact hdelivering.returning _

theorem feed (h : m.Known) (hordered : m.world.Ordered) (feed : Feed α) : (m.feed feed).Known := by
  unfold Machine.feed
  split
  · exact h.returning _
  · exact (h.push (.feeding _) trivial).emit hordered _ _

theorem issued_next {source : SourceId} {s : Source α} (hs : m.world.sources[source]? = some s)
    (listener : Listener) :
    (m.world.registerAtSource source listener).Issued (.source source) s.listeners.next :=
  ⟨s.listeners.next + 1, by
    simp [World.nextTicket?, World.registerAtSource, World.modifySource, hs, Registry.register],
    Nat.lt_succ_self _⟩

theorem connect (h : m.Known) (j : ViewId) (source : SourceId) (slot : Nat) :
    (m.connect j source slot).Known := by
  unfold Machine.connect
  split
  case h_1 => exact h.returning _
  case h_2 s hs =>
    have hregistered : (m.withWorld (.registerAtSource source (.input j slot))).Known :=
      h.grow (h.world.registerAtSource source _)
        (World.extends_registerAtSource source _ _) fun _ ↦ .inl
    have hplugged : ((m.withWorld (.registerAtSource source (.input j slot))).withWorld
        (.modifyView j fun v ↦
          { v with inputs := v.inputs ++ [(source, s.listeners.next)] })).Known := by
      have hissued := issued_next hs (.input j slot)
      exact hregistered.grow (hregistered.world.addInput j hissued)
        (World.extends_modifyView j fun _ ↦ rfl) fun _ ↦ .inl
    exact hplugged.hear j slot s.current

theorem build (h : m.Known) (sources : List SourceId) (composer : Composer α β) :
    (m.build sources composer).Known := by
  unfold Machine.build
  split
  case h_1 => exact h.returning _
  case h_2 found _ =>
    let new : View α β :=
      { label := labelOf (found.map (·.name)), composer, slots := found.map fun _ ↦ {} }
    have hopened : (m.withWorld .openTick).Known := h.withWorld (.of_eq rfl rfl rfl)
    have hadded : ((m.withWorld .openTick).withWorld (.addView new)).Known :=
      hopened.grow (hopened.world.addView (rfl : new.inputs = []) rfl)
        (World.extends_addView new _) fun _ ↦ .inl
    have hthere : m.world.views.length <
        ((m.withWorld .openTick).withWorld (.addView new)).world.views.length := by
      simp [Machine.withWorld, World.addView, World.openTick]
    exact (((hadded.push (.building _) hthere).push (.closing .done) rfl).push
      (.connecting _ _) hthere).returning _

theorem subscribe (h : m.Known) (target : Target) (key : Nat) :
    (m.subscribe target key).Known := by
  have hpushed {view : ViewId} {v : View α β} (hlive : m.world.liveView? view = some v) :
      ((m.withWorld (.registerAtView view key)).push
        (.subscribing (.view view) v.listeners.next)).Known := by
    have hview : m.world.views[view]? = some v := (Option.filter_eq_some_iff.mp hlive).1
    have hregistered : (m.withWorld (.registerAtView view key)).Known :=
      h.grow (h.world.registerAtView view key) (World.extends_registerAtView view key _)
        fun _ ↦ .inl
    have hissued : (m.world.registerAtView view key).Issued (.view view) v.listeners.next :=
      ⟨v.listeners.next + 1, by
        simp [World.nextTicket?, World.registerAtView, World.modifyView, hview,
          Registry.register], Nat.lt_succ_self _⟩
    exact hregistered.push (.subscribing (.view view) v.listeners.next) hissued
  have hsubscribes := m.subscribes target key
  generalize m.subscribe target key = m' at hsubscribes ⊢
  cases hsubscribes with
  | unknown => exact h.returning _
  | @source source s hs =>
    have hregistered : (m.withWorld (.registerAtSource source (.callback key))).Known :=
      h.grow (h.world.registerAtSource source _)
        (World.extends_registerAtSource source _ _) fun _ ↦ .inl
    exact (hregistered.push (.subscribing _ _) (issued_next hs _)).call _ _ trivial
  | silent hlive => exact (hpushed hlive).returning _
  | view hlive => exact (hpushed hlive).call _ _ trivial

theorem serve (h : m.Known) (hordered : m.world.Ordered) (request : Request α β) :
    (m.serve request).Known := by
  cases request with
  | newSource name =>
    have hadded : (m.withWorld (.addSource name)).Known :=
      h.grow (h.world.addSource name) (World.extends_addSource name _) fun _ ↦ .inl
    exact hadded.returning _
  | emit source event => exact h.emit hordered source event
  | build sources composer => exact h.build sources composer
  | subscribe target key => exact h.subscribe target key
  | cancel handle owned =>
    exact serve_cancel_induction (motive := Machine.Known)
      (fun _ handle h ↦ h.withWorld (.cancel handle _)) (fun _ target h ↦ h.refuse target)
      (fun _ view h ↦ h.dropView view) handle owned (h.returning _)
  | detach handle => exact (h.withWorld (.detach handle _)).returning _
  | dispose view => exact (h.withWorld (.dispose view _)).returning _
  | dropView view => exact (h.dropView view).returning _
  | enterTick => exact (h.withWorld (g := World.openTick) (.of_eq rfl rfl rfl)).returning _
  | leaveTick => exact h.closeTick rfl
  | abandonTick => exact (h.withWorld (.abandonTick _)).returning _
  | poll feed => exact h.feed hordered feed
  | finish | compose value | raise message =>
    exact serve_of_ends (motive := Machine.Known) rfl h
      fun call turn below control hstack _ ↦ ⟨(h.pop hstack).1.world, (h.pop hstack).1.frames⟩

/-- The state that a composer works on is given back. -/
theorem giveBack (h : m.Known) (j : ViewId) :
    (m.withWorld (.modifyView j fun v ↦ { v with lent := false })).Known :=
  h.modifyFlags j (fun _ ↦ rfl) fun _ ↦ rfl

theorem nextDelivery (h : m.Known) {source : SourceId} {event : Event α} {ticket : Nat}
    {tickets : List Nat} {below : List (Frame α β)}
    (hstack : m.stack = .delivering source event (ticket :: tickets) :: below) :
    ({ m with stack := .delivering source event tickets :: below } : Machine α β).Known := by
  obtain ⟨hbelow, hframe⟩ := h.pop hstack
  exact hbelow.push (.delivering source event tickets)
    fun other hother ↦ hframe other (List.mem_cons_of_mem _ hother)

theorem nextAnnouncement (h : m.Known) {view : ViewId} {event : ViewEvent β} {ticket : Nat}
    {tickets : List Nat} {below : List (Frame α β)}
    (hstack : m.stack = .announcing view event (ticket :: tickets) :: below) :
    ({ m with stack := .announcing view event tickets :: below } : Machine α β).Known := by
  obtain ⟨hbelow, hframe⟩ := h.pop hstack
  exact hbelow.push (.announcing view event tickets)
    ⟨hframe.1, fun other hother ↦ hframe.2 other (List.mem_cons_of_mem _ hother)⟩

/-- The handle names a registration that was given out. -/
theorem signs (h : m.Known) {target : Target} {ticket : Nat} {below : List (Frame α β)}
    (hstack : m.stack = .subscribing target ticket :: below) :
    (({ m with stack := below } : Machine α β).withWorld (.addHandle target ticket)).Known := by
  obtain ⟨hbelow, hframe⟩ := h.pop hstack
  exact hbelow.grow (hbelow.world.addHandle hframe)
    ⟨fun other next hnext ↦ ⟨next, by cases other <;> exact hnext, Nat.le_refl _⟩, Nat.le_refl _⟩
    fun _ ↦ .inl

theorem resume (h : m.Known) (hordered : m.world.Ordered) (answer : Answer α β) :
    (m.resume answer).Known := by
  have hresumes := m.resumes answer
  generalize m.resume answer = m' at hresumes ⊢
  cases hresumes with
  | rest | calling => exact ⟨h.world, h.frames⟩
  | closing hstack =>
    obtain ⟨hbelow, hframe⟩ := h.pop hstack
    exact hbelow.closeTick hframe
  | drained hstack | delivered hstack | announced hstack | fed hstack =>
    exact (h.pop hstack).1.returning _
  | @drain view views result below hstack =>
    obtain ⟨hbelow, hframe⟩ := h.pop hstack
    exact (hbelow.push (.draining views result) hframe).runDeferred view
  | skipDelivery hstack => exact (h.nextDelivery hstack).returning _
  | callListener hstack =>
    exact (h.nextDelivery hstack).call _ _ ((h.pop hstack).2 _ List.mem_cons_self)
  | hear hstack => exact (h.nextDelivery hstack).hear _ _ _
  | skipAnnouncement hstack => exact (h.nextAnnouncement hstack).returning _
  | callViewer hstack =>
    exact (h.nextAnnouncement hstack).call _ _ ((h.pop hstack).2.2 _ List.mem_cons_self)
  | @fail view error errors below hstack =>
    obtain ⟨hbelow, hframe⟩ := h.pop hstack
    refine ((hbelow.push (.failing view errors) hframe).push (.announcing view _ _)
      ⟨hframe, fun ticket hticket ↦ ?_⟩).returning _
    obtain ⟨v, hv⟩ : ∃ v, m.world.views[view]? = some v := ⟨_, List.getElem?_eq_getElem hframe⟩
    simp only [World.viewTickets, hv] at hticket
    exact ⟨v.listeners.next, by simp [World.nextTicket?, Machine.push, hv],
      h.world.listeners v (List.mem_of_getElem? hv) ticket hticket⟩
  | compose hstack => exact (h.pop hstack).1.composeIfDue _
  | @composed view value below hstack =>
    obtain ⟨hbelow, hframe⟩ := h.pop hstack
    obtain ⟨v, hv⟩ : ∃ v, m.world.views[view]? = some v := ⟨_, List.getElem?_eq_getElem hframe⟩
    refine (hbelow.giveBack view).becomeReady (v := { v with lent := false }) ?_ _
    simp [Machine.withWorld, World.modifyView, hv]
  | @notComposed view below hstack =>
    exact ((h.pop hstack).1.giveBack view).works (works_settle view _)
  | @settle view below hstack => exact (h.pop hstack).1.works (works_settle view _)
  | @release view below hstack => exact ((h.pop hstack).1.release view).returning _
  | subscribed hstack => exact (h.signs hstack).returning _
  | @subscribedView view ticket below hstack => exact ((h.signs hstack).release view).returning _
  | @connect view input inputs below hstack =>
    obtain ⟨hbelow, hframe⟩ := h.pop hstack
    exact (hbelow.push (.connecting view inputs) hframe).connect view input.1 input.2
  | @connected view below hstack => exact (h.pop hstack).1.requestCompose view
  | @built view below hstack =>
    refine Known.returning ?_ _
    exact (h.pop hstack).1.modifyFlags view (fun _ ↦ rfl) fun _ ↦ rfl
  | feed hstack => exact (h.pop hstack).1.feed hordered _

theorem giveUp (h : m.Known) (message : String) : (m.giveUp message).Known := by
  have hgivesUp := m.givesUp message
  generalize m.giveUp message = m' at hgivesUp ⊢
  cases hgivesUp with
  | rest | calling => exact ⟨h.world, h.frames⟩
  | closing hstack => exact (h.pop hstack).1.withWorld (.abandonTick _)
  | draining hstack => exact (h.pop hstack).1.withWorld (.unschedule _ _)
  | @composing view below hstack => exact (h.pop hstack).1.giveBack view
  | holding hstack | building hstack => exact (h.pop hstack).1.release _
  | subscribing hstack => exact (h.pop hstack).1.withWorld (.unregister _ _ _)
  | @subscribingView view ticket below hstack =>
    exact ((h.pop hstack).1.withWorld (.unregister (.view view) ticket _)).release view
  | pop hstack => exact (h.pop hstack).1

theorem move (h : m.Known) (hordered : m.world.Ordered) (move : Move α β) :
    (m.move move).Known :=
  move_of (motive := Machine.Known) move h (fun request _ _ ↦ h.serve hordered request)
    (fun answer _ _ ↦ h.resume hordered answer) (fun message _ _ ↦ h.giveUp message)

end Known

/-- Nothing names an id that was not given out, after every run. -/
theorem known_run (moves : List (Move α β)) : (run moves ({} : Machine α β)).Known := by
  have hall : (run moves ({} : Machine α β)).Known ∧
      (run moves ({} : Machine α β)).world.Ordered := by
    refine @run_preserves α β (fun m ↦ m.Known ∧ m.world.Ordered) (fun m move h ↦ ?_) {} ?_ moves
    · refine ⟨h.1.move h.2 move, ?_⟩
      exact (changes_move move m).preserves (fun _ _ hold hchange ↦ hchange.ordered hold) h.2
    · exact ⟨⟨⟨by simp, by simp, by simp⟩, by simp⟩, fun source s hs ↦ by simp at hs⟩
  exact hall.1

end Machine

end LiveRecord.Flow
