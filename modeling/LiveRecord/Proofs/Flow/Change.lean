import Mathlib.Logic.Relation
import LiveRecord.Proofs.Flow.Advance
import LiveRecord.Proofs.Flow.Slots

/-!
# What a move does to the world

Everything that a move does to sources and views is a sequence of the changes of `World.Change`
(`Machine.changes_move`), raises included. What every change preserves, every run preserves.
-/

set_option autoImplicit false

namespace LiveRecord.Flow

variable {α β : Type}

namespace Registry

variable {κ : Type} {new : κ → Prop} {registry registry' : Registry κ}

/-- Takes several registrations away. -/
def removeAll (gone : List Nat) (registry : Registry κ) : Registry κ :=
  { registry with entries := registry.entries.filter (·.1 ∉ gone) }

@[simp] theorem removeAll_nil (registry : Registry κ) : registry.removeAll [] = registry := by
  rw [removeAll, List.filter_eq_self.mpr (by simp)]

@[simp] theorem removeAll_singleton (ticket : Nat) (registry : Registry κ) :
    registry.removeAll [ticket] = registry.remove ticket := by
  rw [removeAll, remove]
  congr 2
  funext entry
  by_cases h : entry.1 = ticket <;> simp [h]

theorem removeAll_append (first last : List Nat) (registry : Registry κ) :
    registry.removeAll (first ++ last) = (registry.removeAll first).removeAll last := by
  simp only [removeAll, List.filter_filter]
  congr 2
  funext entry
  simp [Bool.and_comm]

theorem mem_tickets_of_removeAll {gone : List Nat} {ticket : Nat}
    (h : ticket ∈ (registry.removeAll gone).tickets) : ticket ∈ registry.tickets := by
  obtain ⟨entry, hentry, rfl⟩ := List.mem_map.mp h
  exact List.mem_map_of_mem (List.mem_filter.mp hentry).1

theorem find?_removeAll (gone : List Nat) {ticket : Nat} (registry : Registry κ) :
    (registry.removeAll gone).find? ticket = registry.find? ticket ∨
      (registry.removeAll gone).find? ticket = none := by
  simp only [find?, removeAll, List.find?_filter]
  by_cases hticket : ticket ∈ gone
  · right
    rw [Option.map_eq_none_iff, List.find?_eq_none]
    rintro entry - hentry
    obtain ⟨hleft, hfound⟩ := of_decide_eq_true hentry
    exact of_decide_eq_true hleft (eq_of_beq hfound ▸ hticket)
  · left
    congr 2
    funext entry
    by_cases hentry : entry.1 = ticket <;> simp_all

/-- What can happen to a list of listeners when only some listeners are new. -/
inductive Change (new : κ → Prop) (registry : Registry κ) : Registry κ → Prop
  | same : Change new registry registry
  | register (listener : κ) (h : new listener) : Change new registry (registry.register listener)
  | removeAll (gone : List Nat) : Change new registry (registry.removeAll gone)
  | clear : Change new registry registry.clear

theorem Change.remove (ticket : Nat) : registry.Change new (registry.remove ticket) :=
  removeAll_singleton ticket registry ▸ .removeAll [ticket]

theorem Change.mem {entry : Nat × κ} (h : registry.Change new registry')
    (hentry : entry ∈ registry'.entries) : entry ∈ registry.entries ∨ new entry.2 := by
  cases h with
  | same => exact .inl hentry
  | register listener hnew =>
    rcases List.mem_append.mp hentry with hold | hlast
    · exact .inl hold
    · rw [List.mem_singleton.mp hlast]
      exact .inr hnew
  | removeAll gone => exact .inl (List.mem_filter.mp hentry).1
  | clear => exact absurd hentry List.not_mem_nil

end Registry

/-- What can happen to a view that is there. -/
structure View.Change (v v' : View α β) : Prop where
  composer : v'.composer = v.composer
  slots : v'.slots.length = v.slots.length
  inputs : v.inputs ⊆ v'.inputs
  listeners : v.listeners.Change (fun _ ↦ True) v'.listeners

/-- What can happen to the world at once, when only some listeners of sources are new. -/
inductive World.Change (new : Listener → Prop) (world : World α β) : World α β → Prop
  | addSource (name : String) : Change new world (world.addSource name)
  | addView (label : String) (composer : Composer α β) (count : Nat) :
      Change new world (world.addView { label, composer, slots := List.replicate count {} })
  | publish (source : SourceId) (event : Event α) :
      Change new world (world.modifySource source fun s ↦ { s with current := event })
  | listen (source : SourceId) (f : Registry Listener → Registry Listener)
      (h : ∀ registry : Registry Listener, registry.Change new (f registry)) :
      Change new world (world.modifySource source fun s ↦ { s with listeners := f s.listeners })
  | view (view : ViewId) (f : View α β → View α β) (h : ∀ v : View α β, v.Change (f v)) :
      Change new world (world.modifyView view f)
  /-- A view forgets its inputs, none of which is registered any more. -/
  | unplug (view : ViewId)
      (h : ∀ (v : View α β) (source : SourceId) (s : Source α) (entry : Nat × Listener),
        world.views[view]? = some v → world.sources[source]? = some s →
          entry ∈ s.listeners.entries → (source, entry.1) ∉ v.inputs) :
      Change new world (world.modifyView view fun v ↦ { v with inputs := [] })
  | handles (handles : List Handle) : Change new world { world with handles }
  | stranded (stranded : List SourceId) : Change new world { world with stranded }
  | openTick : Change new world world.openTick
  | closeTick : Change new world world.closeTick.2
  | defer (view : ViewId) (h : world.inTick) :
      Change new world { world with deferred := world.deferred ++ [view] }

namespace World

variable {new : Listener → Prop}

/-- What can happen to the world in time. -/
def Changes (new : Listener → Prop) : World α β → World α β → Prop :=
  Relation.ReflTransGen (Change new)

namespace Changes

variable {world world' world'' : World α β}

theorem refl (world : World α β) : Changes new world world := Relation.ReflTransGen.refl

theorem trans (hfirst : Changes new world world') (hlast : Changes new world' world'') :
    Changes new world world'' := Relation.ReflTransGen.trans hfirst hlast

theorem of_change (h : world.Change new world') : Changes new world world' :=
  Relation.ReflTransGen.single h

/-- Assumes: a change of a view that leaves its composer, its slots and its listeners alone, and
keeps its inputs. -/
theorem view (view : ViewId) {f : View α β → View α β} (hcomposer : ∀ v, (f v).composer = v.composer)
    (hslots : ∀ v, (f v).slots.length = v.slots.length) (hinputs : ∀ v, v.inputs ⊆ (f v).inputs)
    (hlisteners : ∀ v, (f v).listeners = v.listeners) :
    Changes new world (world.modifyView view f) := by
  refine of_change (.view view f fun v ↦ ⟨hcomposer v, hslots v, hinputs v, ?_⟩)
  rw [hlisteners v]
  exact .same

/-- What every change preserves holds in the end. -/
theorem preserves {property : World α β → Prop}
    (hchange : ∀ world world', property world → world.Change new world' → property world')
    (h : Changes new world world') (hstart : property world) : property world' := by
  induction h with
  | refl => exact hstart
  | tail _ hlast ih => exact hchange _ _ ih hlast

end Changes

/-- The listeners that a source has after a change. -/
theorem Change.listeners {world world' : World α β} {source : SourceId} {s' : Source α}
    (hchange : world.Change new world') (hsource : world'.sources[source]? = some s') :
    s'.listeners = {} ∨
      ∃ s, world.sources[source]? = some s ∧ s.listeners.Change new s'.listeners := by
  cases hchange with
  | addSource name =>
    simp only [World.addSource, List.getElem?_append] at hsource
    split at hsource
    · exact .inr ⟨s', hsource, .same⟩
    · rw [List.mem_singleton.mp (List.mem_of_getElem? hsource)]
      exact .inl rfl
  | publish other event =>
    simp only [modifySource, List.getElem?_modify] at hsource
    obtain ⟨s, hs, rfl⟩ := Option.map_eq_some_iff.mp hsource
    refine .inr ⟨s, hs, ?_⟩
    split <;> exact .same
  | listen other f hf =>
    simp only [modifySource, List.getElem?_modify] at hsource
    obtain ⟨s, hs, rfl⟩ := Option.map_eq_some_iff.mp hsource
    refine .inr ⟨s, hs, ?_⟩
    split
    · exact hf s.listeners
    · exact .same
  | closeTick =>
    refine .inr ⟨s', ?_, .same⟩
    simp only [World.closeTick] at hsource
    split at hsource <;> exact hsource
  | _ => exact .inr ⟨s', hsource, .same⟩

theorem changes_unregister (target : Target) (ticket : Nat) (world : World α β) :
    Changes new world (world.unregister target ticket) := by
  cases target with
  | source source => exact .of_change (.listen source _ fun _ ↦ .remove ticket)
  | view view =>
    exact .of_change (.view view _ fun v ↦ ⟨rfl, rfl, List.Subset.refl _, .remove ticket⟩)

theorem views_foldl_unregister (inputs : List (SourceId × Nat)) (world : World α β) :
    (inputs.foldl (fun w input ↦ w.unregister (.source input.1) input.2) world).views =
      world.views := by
  induction inputs generalizing world with
  | nil => rfl
  | cons input rest ih => exact ih _

@[simp] theorem handles_unregister (target : Target) (ticket : Nat) (world : World α β) :
    (world.unregister target ticket).handles = world.handles := by
  cases target <;> rfl

theorem handles_foldl_unregister (inputs : List (SourceId × Nat)) (world : World α β) :
    (inputs.foldl (fun w input ↦ w.unregister (.source input.1) input.2) world).handles =
      world.handles := by
  induction inputs generalizing world with
  | nil => rfl
  | cons input rest ih => exact ih _

theorem handles_disconnect (view : ViewId) (world : World α β) :
    (world.disconnect view).handles = world.handles := by
  unfold disconnect
  split
  · rfl
  · exact handles_foldl_unregister _ world

theorem handles_dispose (view : ViewId) (world : World α β) :
    (world.dispose view).handles = world.handles := by
  unfold dispose
  split
  · rfl
  · split
    · rfl
    · exact handles_disconnect view world

theorem handles_takeApart (view : ViewId) (world : World α β) :
    (world.takeApart view).handles = world.handles :=
  handles_disconnect view world

theorem exists_of_unregister {source other : SourceId} {ticket : Nat} {world : World α β}
    {s' : Source α} (h : (world.unregister (.source other) ticket).sources[source]? = some s') :
    ∃ s, world.sources[source]? = some s ∧ ∀ entry ∈ s'.listeners.entries,
      entry ∈ s.listeners.entries ∧ (other = source → entry.1 ≠ ticket) := by
  simp only [unregister, modifySource, List.getElem?_modify] at h
  obtain ⟨s, hs, rfl⟩ := Option.map_eq_some_iff.mp h
  refine ⟨s, hs, fun entry hentry ↦ ?_⟩
  by_cases hother : other = source
  · rw [if_pos hother] at hentry
    obtain ⟨hold, hticket⟩ := List.mem_filter.mp hentry
    exact ⟨hold, fun _ ↦ by simpa using hticket⟩
  · rw [if_neg hother] at hentry
    exact ⟨hentry, fun h ↦ absurd h hother⟩

/-- When these registrations have been taken away, none of them is left. -/
theorem notMem_of_foldl_unregister (inputs : List (SourceId × Nat)) {source : SourceId}
    {world : World α β} {s' : Source α} (h : (inputs.foldl (fun w input ↦
      w.unregister (.source input.1) input.2) world).sources[source]? = some s') :
    ∃ s, world.sources[source]? = some s ∧ ∀ entry ∈ s'.listeners.entries,
      entry ∈ s.listeners.entries ∧ (source, entry.1) ∉ inputs := by
  induction inputs generalizing world with
  | nil => exact ⟨s', h, fun entry hentry ↦ ⟨hentry, List.not_mem_nil⟩⟩
  | cons input rest ih =>
    obtain ⟨s₁, hs₁, hrest⟩ := ih h
    obtain ⟨s, hs, hfirst⟩ := exists_of_unregister hs₁
    refine ⟨s, hs, fun entry hentry ↦ ?_⟩
    obtain ⟨hentry₁, hnotRest⟩ := hrest entry hentry
    obtain ⟨hold, hticket⟩ := hfirst entry hentry₁
    refine ⟨hold, fun hmem ↦ ?_⟩
    rcases List.mem_cons.mp hmem with heq | hmem
    · obtain ⟨hsource, hentryTicket⟩ := Prod.mk.inj heq
      exact hticket hsource.symm hentryTicket
    · exact hnotRest hmem

theorem changes_foldl_unregister (inputs : List (SourceId × Nat)) (world : World α β) :
    Changes new world
      (inputs.foldl (fun w input ↦ w.unregister (.source input.1) input.2) world) := by
  induction inputs generalizing world with
  | nil => exact .refl world
  | cons input rest ih => exact (changes_unregister _ _ world).trans (ih _)

theorem changes_disconnect (view : ViewId) (world : World α β) :
    Changes new world (world.disconnect view) := by
  unfold disconnect
  cases hview : world.views[view]? with
  | none => exact .refl world
  | some v =>
    refine (changes_foldl_unregister v.inputs world).trans (.of_change (.unplug view ?_))
    intro v' source s entry hv' hs hentry hinput
    rw [views_foldl_unregister, hview] at hv'
    obtain rfl := Option.some.inj hv'
    obtain ⟨before, -, hnone⟩ := notMem_of_foldl_unregister _ hs
    exact (hnone entry hentry).2 hinput

theorem changes_dispose (view : ViewId) (world : World α β) :
    Changes new world (world.dispose view) := by
  unfold dispose
  split
  · exact .refl world
  · split
    · exact .refl world
    · refine (changes_disconnect view world).trans (.of_change (.view view _ fun v ↦ ?_))
      exact ⟨rfl, rfl, List.Subset.refl _, .clear⟩

theorem changes_takeApart (view : ViewId) (world : World α β) :
    Changes new world (world.takeApart view) := by
  refine (changes_disconnect view world).trans ?_
  exact .view view (fun _ ↦ rfl) (fun _ ↦ rfl) (fun _ ↦ List.Subset.refl _) (fun _ ↦ rfl)

theorem changes_unschedule (views : List ViewId) (world : World α β) :
    Changes new world (world.unschedule views) := by
  unfold unschedule
  induction views generalizing world with
  | nil => exact .refl world
  | cons view rest ih =>
    rw [List.foldl_cons]
    refine Changes.trans ?_ (ih _)
    exact .view view (fun _ ↦ rfl) (fun _ ↦ rfl) (fun _ ↦ List.Subset.refl _) (fun _ ↦ rfl)

theorem changes_abandonTick (world : World α β) : Changes new world world.abandonTick :=
  (Changes.of_change .closeTick).trans (changes_unschedule _ _)

theorem changes_cancel (handle : Nat) (world : World α β) :
    Changes new world (world.cancel handle) := by
  unfold cancel
  split
  · exact (changes_unregister _ _ world).trans (.of_change (.handles _))
  · exact .refl world

end World

namespace Machine

open World (Changes)

variable {new : Listener → Prop} {m m' m'' : Machine α β}

theorem changes_modifyFlags (view : ViewId) {f : View α β → View α β}
    (hcomposer : ∀ v, (f v).composer = v.composer) (hslots : ∀ v, (f v).slots = v.slots)
    (hinputs : ∀ v, (f v).inputs = v.inputs) (hlisteners : ∀ v, (f v).listeners = v.listeners) :
    Changes new m.world (m.withWorld (.modifyView view f)).world :=
  .view view hcomposer (fun v ↦ congrArg List.length (hslots v)) (fun v ↦ (hinputs v).symm ▸
    List.Subset.refl _) hlisteners

theorem changes_workOff (view : ViewId) (m : Machine α β) :
    Changes new m.world (m.workOff view).world := by
  unfold workOff
  split
  · exact .refl _
  · split <;> exact changes_modifyFlags view (fun _ ↦ rfl) (fun _ ↦ rfl) (fun _ ↦ rfl) (fun _ ↦ rfl)

theorem changes_flush (view : ViewId) (m : Machine α β) :
    Changes new m.world (m.flush view).world := by
  unfold flush
  split
  · exact .refl _
  · split
    · exact changes_modifyFlags view (fun _ ↦ rfl) (fun _ ↦ rfl) (fun _ ↦ rfl) (fun _ ↦ rfl)
    · refine Changes.trans ?_ (changes_workOff view _)
      exact changes_modifyFlags view (fun _ ↦ rfl) (fun _ ↦ rfl) (fun _ ↦ rfl) (fun _ ↦ rfl)

theorem changes_settle (view : ViewId) (m : Machine α β) :
    Changes new m.world (m.settle view).world := by
  unfold settle
  split
  · exact .refl _
  · split
    · exact changes_workOff view m
    · exact changes_modifyFlags view (fun _ ↦ rfl) (fun _ ↦ rfl) (fun _ ↦ rfl) (fun _ ↦ rfl)

theorem changes_requestCompose (view : ViewId) (m : Machine α β) :
    Changes new m.world (m.requestCompose view).world := by
  unfold requestCompose
  split
  · exact .refl _
  · split
    case isTrue => exact changes_flush view m
    case isFalse htick =>
      split
      · exact .refl _
      · refine (Changes.of_change (.defer view (by simpa using htick))).trans ?_
        exact .view view (fun _ ↦ rfl) (fun _ ↦ rfl) (fun _ ↦ List.Subset.refl _) (fun _ ↦ rfl)

theorem changes_becomeReady (view : ViewId) (value : β) (m : Machine α β) :
    Changes new m.world (m.becomeReady view value).world :=
  changes_modifyFlags view (fun _ ↦ rfl) (fun _ ↦ rfl) (fun _ ↦ rfl) (fun _ ↦ rfl)

theorem changes_composeIfDue (view : ViewId) (m : Machine α β) :
    Changes new m.world (m.composeIfDue view).world := by
  have hfresh : Changes new m.world
      (m.withWorld (.modifyView view fun v ↦ { v with stale := false })).world :=
    changes_modifyFlags view (fun _ ↦ rfl) (fun _ ↦ rfl) (fun _ ↦ rfl) (fun _ ↦ rfl)
  unfold composeIfDue
  split
  · exact .refl _
  · split
    · split
      · exact hfresh.trans (changes_settle view _)
      · exact hfresh.trans (changes_becomeReady view _ _)
      · refine hfresh.trans ?_
        exact changes_modifyFlags view (fun _ ↦ rfl) (fun _ ↦ rfl) (fun _ ↦ rfl) (fun _ ↦ rfl)
    · exact changes_settle view m

theorem changes_hear (view : ViewId) (slot : Nat) (event : Event α) (m : Machine α β) :
    Changes new m.world (m.hear view slot event).world := by
  have habsorbed : Changes new m.world
      ((m.push (.holding view)).withWorld (.modifyView view (.absorb slot event))).world :=
    .view view (View.composer_absorb slot event) (View.length_slots_absorb slot event)
      (fun v ↦ (View.inputs_absorb slot event v).symm ▸ List.Subset.refl _)
      (View.listeners_absorb slot event)
  have hhears := m.hears view slot event
  generalize m.hear view slot event = m' at hhears ⊢
  cases hhears with
  | deaf | lent => exact .refl _
  | quiet => exact habsorbed
  | loaded => exact habsorbed.trans (changes_requestCompose view _)
  | failed => exact habsorbed.trans (changes_flush view _)

theorem changes_runDeferred (view : ViewId) (m : Machine α β) :
    Changes new m.world (m.runDeferred view).world := by
  unfold runDeferred
  split
  · exact .refl _
  · refine Changes.trans ?_ (changes_flush view _)
    exact changes_modifyFlags view (fun _ ↦ rfl) (fun _ ↦ rfl) (fun _ ↦ rfl) (fun _ ↦ rfl)

theorem handles_release (view : ViewId) (m : Machine α β) :
    (m.release view).world.handles = m.world.handles := by
  unfold release
  split
  · split
    · rfl
    · exact World.handles_takeApart view m.world
  · rfl

theorem changes_release (view : ViewId) (m : Machine α β) :
    Changes new m.world (m.release view).world := by
  unfold release
  split
  · split
    · exact .refl _
    · exact World.changes_takeApart view _
  · exact .refl _

theorem changes_dropView (view : ViewId) (m : Machine α β) :
    Changes new m.world (m.dropView view).world := by
  refine Changes.trans ?_ (changes_release view _)
  exact changes_modifyFlags view (fun _ ↦ rfl) (fun _ ↦ rfl) (fun _ ↦ rfl) (fun _ ↦ rfl)

theorem changes_refuse (target : Target) (m : Machine α β) :
    Changes new m.world (m.refuse target).world := by
  cases target with
  | source source => exact .of_change (.stranded _)
  | view view => exact .refl _

theorem changes_drop (locked : List Target) (owned : Belongings) (m : Machine α β) :
    Changes new m.world (m.drop locked owned).world :=
  drop_induction (motive := fun m' ↦ Changes new m.world m'.world)
    (fun _ handle h ↦ h.trans (World.changes_cancel handle _))
    (fun _ target h ↦ h.trans (changes_refuse target _))
    (fun _ view h ↦ h.trans (changes_dropView view _)) locked owned (.refl _)

theorem changes_closeTick (answer : Answer α β) (m : Machine α β) :
    Changes new m.world (m.closeTick answer).world :=
  .of_change .closeTick

theorem changes_emit (source : SourceId) (event : Event α) (m : Machine α β) :
    Changes new m.world (m.emit source event).world := by
  unfold emit
  split
  · exact .refl _
  · split
    · exact .refl _
    · exact (Changes.of_change .openTick).trans (.of_change (.publish source _))

theorem changes_feed (feed : Feed α) (m : Machine α β) :
    Changes new m.world (m.feed feed).world := by
  unfold Machine.feed
  split
  case h_1 => exact .refl _
  case h_2 event rest _ => exact changes_emit feed.source event (m.push (.feeding rest))

/-- Assumes: the input of the view may listen. -/
theorem changes_connect (view : ViewId) (source : SourceId) (slot : Nat) (m : Machine α β)
    (hnew : new (.input view slot)) : Changes new m.world (m.connect view source slot).world := by
  unfold connect
  cases m.world.sources[source]? with
  | none => exact .refl _
  | some s =>
    have hlisten : Changes new m.world (m.world.registerAtSource source (.input view slot)) :=
      .of_change (.listen source (·.register (.input view slot)) fun _ ↦ .register _ hnew)
    refine (hlisten.trans ?_).trans (changes_hear view slot s.current _)
    exact .view view (fun _ ↦ rfl) (fun _ ↦ rfl) (fun v ↦ List.subset_append_left _ _) (fun _ ↦ rfl)

theorem changes_build (sources : List SourceId) (composer : Composer α β) (m : Machine α β) :
    Changes new m.world (m.build sources composer).world := by
  unfold build
  split
  · exact .refl _
  · rename_i found _
    refine (Changes.of_change .openTick).trans (.of_change ?_)
    rw [List.map_const']
    exact .addView _ composer found.length

/-- Assumes: every callback may listen. -/
theorem changes_subscribe (target : Target) (key : Nat) (m : Machine α β)
    (hnew : ∀ key, new (.callback key)) :
    Changes new m.world (m.subscribe target key).world := by
  have hsubscribes := m.subscribes target key
  generalize m.subscribe target key = m' at hsubscribes ⊢
  cases hsubscribes with
  | unknown => exact .refl _
  | @source source =>
    exact .of_change (.listen source (·.register (.callback key)) fun _ ↦ .register _ (hnew key))
  | @silent view | @view view =>
    exact .of_change (.view view _ fun v ↦ ⟨rfl, rfl, List.Subset.refl _, .register key trivial⟩)

theorem changes_serve (request : Request α β) (m : Machine α β)
    (hnew : ∀ key, new (.callback key)) : Changes new m.world (m.serve request).world := by
  cases request with
  | newSource name => exact .of_change (.addSource name)
  | emit source event => exact changes_emit source event m
  | build sources composer => exact changes_build sources composer m
  | subscribe target key => exact changes_subscribe target key m hnew
  | cancel handle owned =>
    exact changes_drop [] (.subscription handle owned .nothing) (m.returning .done)
  | detach handle => exact .of_change (.handles _)
  | dispose view => exact World.changes_dispose view _
  | dropView view => exact changes_dropView view m
  | enterTick => exact .of_change .openTick
  | leaveTick => exact changes_closeTick _ m
  | abandonTick => exact World.changes_abandonTick _
  | poll feed => exact changes_feed feed m
  | finish | compose value | raise message =>
    simp only [serve]
    split <;> exact .refl _

/-- The listeners of sources that the next move can bring: callbacks, and the next input of a view
that is being built. -/
def MayListen (m : Machine α β) : Listener → Prop
  | .callback _ => True
  | .input view slot =>
    ∃ source inputs stack, m.stack = .connecting view ((source, slot) :: inputs) :: stack

theorem changes_resume (answer : Answer α β) (m : Machine α β) :
    Changes m.MayListen m.world (m.resume answer).world := by
  -- what a composer worked on is given back
  let returned (view : ViewId) (below : List (Frame α β)) : Machine α β :=
    { m with stack := below }.withWorld (.modifyView view fun v ↦ { v with lent := false })
  have hreturned (view : ViewId) (below : List (Frame α β)) :
      Changes m.MayListen m.world (returned view below).world :=
    .view view (fun _ ↦ rfl) (fun _ ↦ rfl) (fun _ ↦ List.Subset.refl _) (fun _ ↦ rfl)
  have hresumes := m.resumes answer
  generalize m.resume answer = m' at hresumes ⊢
  cases hresumes with
  | rest | calling | drained | skipDelivery | callListener | delivered | skipAnnouncement | callViewer
  | announced | fail | fed => exact .refl _
  | @closing result below => exact changes_closeTick result { m with stack := below }
  | @drain view views result below =>
    exact changes_runDeferred view { m with stack := .draining views result :: below }
  | @hear source event ticket tickets view slot below =>
    exact changes_hear view slot event { m with stack := .delivering source event tickets :: below }
  | @compose view below => exact changes_composeIfDue view { m with stack := below }
  | @composed view value below =>
    exact (hreturned view below).trans (changes_becomeReady view value (returned view below))
  | @notComposed view below =>
    exact (hreturned view below).trans (changes_settle view (returned view below))
  | @settle view below => exact changes_settle view { m with stack := below }
  | @release view below => exact changes_release view { m with stack := below }
  | subscribed => exact .of_change (.handles _)
  | @subscribedView view ticket below =>
    have hhandle : Changes m.MayListen m.world (m.world.addHandle (.view view) ticket) :=
      .of_change (.handles _)
    exact hhandle.trans (changes_release view
      ({ m with stack := below }.withWorld (.addHandle (.view view) ticket)))
  | @connect view input inputs below hstack =>
    exact changes_connect view input.1 input.2 { m with stack := .connecting view inputs :: below }
      ⟨_, _, _, hstack⟩
  | @connected view below => exact changes_requestCompose view { m with stack := below }
  | @built view =>
    exact .view view (fun _ ↦ rfl) (fun _ ↦ rfl) (fun _ ↦ List.Subset.refl _) (fun _ ↦ rfl)
  | @feed rest rest' below => exact changes_feed rest' { m with stack := below }

theorem changes_giveUp (message : String) (m : Machine α β) :
    Changes m.MayListen m.world (m.giveUp message).world := by
  have hgivesUp := m.givesUp message
  generalize m.giveUp message = m' at hgivesUp ⊢
  cases hgivesUp with
  | rest | calling | pop => exact .refl _
  | closing => exact World.changes_abandonTick m.world
  | @draining views => exact World.changes_unschedule views m.world
  | composing =>
    exact .view _ (fun _ ↦ rfl) (fun _ ↦ rfl) (fun _ ↦ List.Subset.refl _) (fun _ ↦ rfl)
  | @holding view below | @building view below => exact changes_release view { m with stack := below }
  | @subscribing source ticket => exact World.changes_unregister (.source source) ticket m.world
  | @subscribingView view ticket below =>
    have hgone : Changes m.MayListen m.world (m.world.unregister (.view view) ticket) :=
      World.changes_unregister (.view view) ticket m.world
    exact hgone.trans (changes_release view
      ({ m with stack := below }.withWorld (.unregister (.view view) ticket)))

/-- Everything that a move does to the world is a sequence of changes. -/
theorem changes_move (move : Move α β) (m : Machine α β) :
    Changes m.MayListen m.world (m.move move).world :=
  move_of (motive := fun m' ↦ Changes m.MayListen m.world m'.world) move (.refl _)
    (fun request _ _ ↦ changes_serve request m fun _ ↦ trivial)
    (fun answer _ _ ↦ changes_resume answer m) (fun message _ _ ↦ changes_giveUp message m)

end Machine

end LiveRecord.Flow
