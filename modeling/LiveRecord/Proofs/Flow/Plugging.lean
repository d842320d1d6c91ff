import LiveRecord.Proofs.Flow.Scene
import LiveRecord.Proofs.Flow.Step
import LiveRecord.Proofs.Flow.Tickets

/-!
# Inputs and their registrations

A view says under which tickets its inputs are registered, and the sources say the same
(`Scene.Plugged`). No ticket that a subscription got is ever that of an input (`Scene.Foreign`), so
no subscription that is cancelled takes an input from a view.
-/

set_option autoImplicit false

namespace LiveRecord.Flow

variable {α β : Type}

/-- A view when one of its inputs has been registered and has heard the current event. -/
def Outline.plug (source : SourceId) (slot ticket : Nat) (event : Event α) (o : Outline α) :
    Outline α :=
  Outline.hear slot event { o with inputs := o.inputs ++ [(source, ticket)] }

namespace Scene

variable {scene scene' : Scene α} {i j : ViewId} {source other : SourceId} {ticket : Nat}
  {o o' : Outline α}

/-- Where an input of a view says that it is registered. -/
def input? (j : ViewId) (slot : Nat) (scene : Scene α) : Option (SourceId × Nat) :=
  scene.views[j]?.bind (·.inputs[slot]?)

/-- The ticket has been given out, and not to an input of a view. -/
structure Foreign (source : SourceId) (ticket : Nat) (scene : Scene α) : Prop where
  given : ∃ s, scene.sources[source]? = some s ∧ ticket < s.listeners.next
  listener : ∀ j slot, scene.listener? source ticket ≠ some (.input j slot)

/-- Sources and views agree on who is registered where, and only views that are there and were not
disposed of have inputs. -/
structure Plugged (scene : Scene α) : Prop where
  wired : ∀ source ticket j slot, scene.listener? source ticket = some (.input j slot) ↔
    scene.input? j slot = some (source, ticket)
  there : ∀ (j : ViewId) (o : Outline α), scene.views[j]? = some o → o.inputs ≠ [] →
    o.live ∧ o.disposed = false
  room : ∀ (j : ViewId) (o : Outline α), scene.views[j]? = some o →
    o.inputs.length ≤ o.slots.length

theorem input?_eq_some_iff {slot : Nat} {input : SourceId × Nat} :
    scene.input? j slot = some input ↔
      ∃ o, scene.views[j]? = some o ∧ o.inputs[slot]? = some input :=
  Option.bind_eq_some_iff

theorem input?_of_view (h : scene.views[j]? = some o) (slot : Nat) :
    scene.input? j slot = o.inputs[slot]? := by
  rw [input?, h]
  rfl

theorem Plugged.start : Plugged ({} : Scene α) where
  wired := by simp [listener?, input?]
  there := by simp
  room := by simp

/-- Assumes: nothing changes but what inputs show, who listens to views and who has them. -/
theorem Plugged.congr (h : scene.Plugged)
    (hlistener : ∀ source ticket, scene'.listener? source ticket = scene.listener? source ticket)
    (hviews : ∀ (j : ViewId) (o' : Outline α), scene'.views[j]? = some o' →
      ∃ o, scene.views[j]? = some o ∧ o'.inputs = o.inputs ∧ o'.slots.length = o.slots.length ∧
        o'.live = o.live ∧ o'.disposed = o.disposed)
    (hinput : ∀ j slot, scene'.input? j slot = scene.input? j slot) : scene'.Plugged where
  wired source ticket j slot := by
    rw [hlistener, hinput]
    exact h.wired source ticket j slot
  there j o' ho' hinputs := by
    obtain ⟨o, ho, hsame, -, hlive, hdisposed⟩ := hviews j o' ho'
    rw [hlive, hdisposed]
    exact h.there j o ho (hsame ▸ hinputs)
  room j o' ho' := by
    obtain ⟨o, ho, hsame, hlength, -⟩ := hviews j o' ho'
    rw [hsame, hlength]
    exact h.room j o ho

/-- Assumes: a change of a view that keeps its inputs. -/
theorem input?_modifyView {f : Outline α → Outline α} (hinputs : ∀ o, (f o).inputs = o.inputs)
    (slot : Nat) : (scene.modifyView j f).input? i slot = scene.input? i slot := by
  by_cases hj : j = i
  · subst hj
    cases ho : scene.views[j]? with
    | none => simp [input?, Scene.modifyView, ho]
    | some o => rw [input?_of_view (getElem?_modifyView_self f ho), input?_of_view ho, hinputs]
  · rw [input?, input?, getElem?_modifyView_of_ne f hj]

/-- Assumes: a change of a view that keeps its inputs and whether it is there. -/
theorem Plugged.modifyView {f : Outline α → Outline α} (h : scene.Plugged)
    (hinputs : ∀ o, (f o).inputs = o.inputs) (hslots : ∀ o, (f o).slots.length = o.slots.length)
    (hlive : ∀ o, (f o).live = o.live) (hdisposed : ∀ o, (f o).disposed = o.disposed) :
    (scene.modifyView j f).Plugged := by
  refine h.congr (fun _ _ ↦ rfl) ?_ fun k slot ↦ input?_modifyView hinputs slot
  intro k o' ho'
  obtain ⟨o, ho, ⟨-, rfl⟩ | ⟨-, rfl⟩⟩ := exists_of_modifyView ho'
  · exact ⟨o, ho, hinputs o, hslots o, hlive o, hdisposed o⟩
  · exact ⟨_, ho, rfl, rfl, rfl, rfl⟩

/-- Assumes: a change that keeps the sources and the views. -/
theorem Plugged.of_eq (h : scene.Plugged) (hsources : scene'.sources = scene.sources)
    (hviews : scene'.views = scene.views) : scene'.Plugged where
  wired source ticket j slot := by
    rw [listener?, input?, hsources, hviews]
    exact h.wired source ticket j slot
  there := hviews ▸ h.there
  room := hviews ▸ h.room

/-! ### Registrations -/

def modifySource (source : SourceId) (f : Source α → Source α) (scene : Scene α) : Scene α :=
  { scene with sources := scene.sources.modify source f }

theorem listener?_modifySource_self {s : Source α} (f : Source α → Source α)
    (h : scene.sources[source]? = some s) :
    (scene.modifySource source f).listener? source ticket = (f s).listeners.find? ticket := by
  simp [listener?, modifySource, h]

theorem listener?_modifySource_of_ne (f : Source α → Source α) (hne : source ≠ other) :
    (scene.modifySource source f).listener? other ticket = scene.listener? other ticket := by
  simp [listener?, modifySource, hne]

theorem listener?_of_source {s : Source α} (h : scene.sources[source]? = some s) :
    scene.listener? source ticket = s.listeners.find? ticket := by
  rw [listener?, h]
  rfl

theorem current_modifySource {f : Source α → Source α}
    (h : ∀ s, (f s).current = s.current) :
    (scene.modifySource source f).current other = scene.current other := by
  simp only [current, modifySource, List.getElem?_modify]
  cases scene.sources[other]? with
  | none => rfl
  | some s =>
    by_cases hother : source = other
    · simp [hother, h]
    · simp [hother]

theorem current_modifySource_of_ne (f : Source α → Source α) (hne : source ≠ other) :
    (scene.modifySource source f).current other = scene.current other := by
  simp [current, modifySource, hne]

/-- A change of the source that its listeners do not see. -/
theorem listener?_modifySource {f : Source α → Source α}
    (h : ∀ s, (f s).listeners = s.listeners) :
    (scene.modifySource source f).listener? other ticket = scene.listener? other ticket := by
  by_cases hother : source = other
  · subst hother
    cases hs : scene.sources[source]? with
    | none => simp [listener?, modifySource, hs]
    | some s => rw [listener?_modifySource_self f hs, h, listener?_of_source hs]
  · exact listener?_modifySource_of_ne f hother

/-- The next ticket of a source is still to be given out. Assumes: listeners in order. -/
theorem listener?_next {s : Source α} (hs : scene.sources[source]? = some s)
    (hordered : s.listeners.Ordered) : scene.listener? source s.listeners.next = none := by
  rw [listener?_of_source hs, Registry.find?, Option.map_eq_none_iff, List.find?_eq_none]
  intro entry hentry heq
  exact absurd (beq_iff_eq.mp heq) (Nat.ne_of_lt (hordered.given entry hentry))

theorem find?_register_next {κ : Type} {registry : Registry κ} (hordered : registry.Ordered)
    (listener : κ) : (registry.register listener).find? registry.next = some listener :=
  (hordered.register listener).find?_of_mem
    (List.mem_append_right _ (List.mem_singleton_self (registry.next, listener)))

/-- What becomes of the registrations at a source when one is new. Assumes: listeners in order. -/
theorem listener?_register {s : Source α} (listener : Listener)
    (hs : scene.sources[source]? = some s) (hordered : s.listeners.Ordered) :
    (scene.modifySource source fun s ↦
        { s with listeners := s.listeners.register listener }).listener? other ticket =
      if other = source ∧ ticket = s.listeners.next then some listener
      else scene.listener? other ticket := by
  by_cases hother : source = other
  · subst hother
    rw [listener?_modifySource_self _ hs]
    by_cases hticket : ticket = s.listeners.next
    · rw [if_pos ⟨rfl, hticket⟩, hticket]
      exact find?_register_next hordered listener
    · rw [if_neg fun h ↦ hticket h.2, listener?_of_source hs]
      exact Registry.find?_register_of_ne hticket listener
  · rw [if_neg fun h ↦ hother h.1.symm]
    exact listener?_modifySource_of_ne _ hother

/-- A callback is registered at a source. Assumes: listeners in order. -/
theorem Plugged.registerCallback {s : Source α} (h : scene.Plugged) (key : Nat)
    (hs : scene.sources[source]? = some s) (hordered : s.listeners.Ordered) :
    (scene.modifySource source fun s ↦
      { s with listeners := s.listeners.register (.callback key) }).Plugged where
  wired other ticket j slot := by
    rw [listener?_register _ hs hordered]
    split
    case isTrue hnew =>
      obtain ⟨rfl, rfl⟩ := hnew
      -- nobody had that ticket before
      have hnone := h.wired other s.listeners.next j slot
      rw [listener?_next hs hordered] at hnone
      simpa [input?, modifySource] using hnone
    case isFalse => exact h.wired other ticket j slot
  there := h.there
  room := h.room

/-- What becomes of the inputs of views when one has one more. -/
theorem input?_addInput (input : SourceId × Nat) (hview : scene.views[j]? = some o)
    (k : ViewId) (slot : Nat) :
    (scene.modifyView j fun o ↦ { o with inputs := o.inputs ++ [input] }).input? k slot =
      if k = j ∧ slot = o.inputs.length then some input else scene.input? k slot := by
  by_cases hk : j = k
  · subst hk
    rw [input?_of_view (getElem?_modifyView_self _ hview), input?_of_view hview]
    show (o.inputs ++ [input])[slot]? = _
    by_cases hslot : slot = o.inputs.length
    · rw [if_pos ⟨rfl, hslot⟩, hslot, List.getElem?_concat_length]
    · rw [if_neg fun hnew ↦ hslot hnew.2]
      by_cases hold : slot < o.inputs.length
      · rw [List.getElem?_append_left hold]
      · rw [List.getElem?_eq_none (by simp; omega), List.getElem?_eq_none (by omega)]
  · rw [if_neg fun hnew ↦ hk hnew.1.symm, input?, input?, getElem?_modifyView_of_ne _ hk]

/-- Sources and views go on to agree when there is one more input on both sides. -/
theorem Plugged.wired_addInput {n new k slot : Nat} (h : scene.Plugged)
    (hnoListener : scene.listener? source new = none) (hnoInput : scene.input? j n = none)
    (hlistener : scene'.listener? other ticket =
      if other = source ∧ ticket = new then some (.input j n) else scene.listener? other ticket)
    (hinput : scene'.input? k slot =
      if k = j ∧ slot = n then some (source, new) else scene.input? k slot) :
    scene'.listener? other ticket = some (.input k slot) ↔
      scene'.input? k slot = some (other, ticket) := by
  rw [hlistener, hinput]
  by_cases hticket : other = source ∧ ticket = new
  · obtain ⟨rfl, rfl⟩ := hticket
    rw [if_pos ⟨rfl, rfl⟩]
    by_cases hk : k = j ∧ slot = n
    · obtain ⟨rfl, rfl⟩ := hk
      simp
    · rw [if_neg hk, ← h.wired, hnoListener]
      constructor
      · intro heq
        obtain ⟨rfl, rfl⟩ := Listener.input.inj (Option.some.inj heq)
        exact absurd ⟨rfl, rfl⟩ hk
      · exact fun heq ↦ absurd heq (by simp)
  · rw [if_neg hticket]
    by_cases hk : k = j ∧ slot = n
    · obtain ⟨rfl, rfl⟩ := hk
      rw [if_pos ⟨rfl, rfl⟩, h.wired, hnoInput]
      constructor
      · exact fun heq ↦ absurd heq (by simp)
      · intro heq
        obtain ⟨rfl, rfl⟩ := Prod.mk.inj (Option.some.inj heq)
        exact absurd ⟨rfl, rfl⟩ hticket
    · rw [if_neg hk]
      exact h.wired other ticket k slot

/-- The next input of a view is registered. Assumes: listeners in order, and a view that is there
and has room for it. -/
theorem Plugged.connect {s : Source α} (h : scene.Plugged) (hs : scene.sources[source]? = some s)
    (hordered : s.listeners.Ordered) (hview : scene.views[j]? = some o) (hlive : o.live)
    (hdisposed : o.disposed = false) (hroom : o.inputs.length < o.slots.length) :
    ((scene.modifySource source fun s ↦
        { s with listeners := s.listeners.register (.input j o.inputs.length) }).modifyView j
      fun o ↦ { o with inputs := o.inputs ++ [(source, s.listeners.next)] }).Plugged := by
  let plug : Outline α → Outline α := fun o ↦
    { o with inputs := o.inputs ++ [(source, s.listeners.next)] }
  let registered : Scene α := scene.modifySource source fun s ↦
    { s with listeners := s.listeners.register (.input j o.inputs.length) }
  have hplugged : (registered.modifyView j plug).views[j]? = some (plug o) :=
    @getElem?_modifyView_self α registered j o plug hview
  have hothers {k : ViewId} (hk : j ≠ k) :
      (registered.modifyView j plug).views[k]? = scene.views[k]? :=
    @getElem?_modifyView_of_ne α registered k j plug hk
  constructor
  case wired =>
    intro other ticket k slot
    refine h.wired_addInput (listener?_next hs hordered) ?_
      (listener?_register _ hs hordered) (@input?_addInput α registered j o _ hview k slot)
    rw [input?_of_view hview, List.getElem?_eq_none (Nat.le_refl _)]
  case there =>
    intro k o' ho' hinputs
    by_cases hk : j = k
    · subst hk
      obtain rfl := Option.some.inj (hplugged.symm.trans ho')
      exact ⟨hlive, hdisposed⟩
    · exact h.there k o' ((hothers hk).symm.trans ho') hinputs
  case room =>
    intro k o' ho'
    by_cases hk : j = k
    · subst hk
      obtain rfl := Option.some.inj (hplugged.symm.trans ho')
      show (o.inputs ++ [_]).length ≤ o.slots.length
      rw [List.length_append]
      exact hroom
    · exact h.room k o' ((hothers hk).symm.trans ho')

/-- The scene when an input of a view has been registered at its source and has heard the current
event. -/
def plug (j : ViewId) (source : SourceId) (slot ticket : Nat) (event : Event α) (scene : Scene α) :
    Scene α :=
  ((scene.modifySource source fun s ↦
      { s with listeners := s.listeners.register (.input j slot) }).modifyView j
    fun o ↦ { o with inputs := o.inputs ++ [(source, ticket)] }).modifyView j (·.hear slot event)

section Plug

variable {slot : Nat} {event : Event α}

theorem getElem?_plug_self (h : scene.views[j]? = some o) :
    (scene.plug j source slot ticket event).views[j]? = some (o.plug source slot ticket event) :=
  getElem?_modifyView_self _ (getElem?_modifyView_self _ h)

theorem exists_of_plug (h : (scene.plug j source slot ticket event).views[i]? = some o') :
    ∃ o, scene.views[i]? = some o ∧
      (j = i ∧ o' = o.plug source slot ticket event ∨ j ≠ i ∧ o' = o) := by
  obtain ⟨o₁, ho₁, hheard⟩ := exists_of_modifyView h
  obtain ⟨o, ho, hplugged⟩ := exists_of_modifyView ho₁
  refine ⟨o, ho, ?_⟩
  rcases hheard with ⟨hj, rfl⟩ | ⟨hj, rfl⟩
  · rcases hplugged with ⟨-, rfl⟩ | ⟨hne, -⟩
    · exact .inl ⟨hj, rfl⟩
    · exact absurd hj hne
  · rcases hplugged with ⟨hi, -⟩ | ⟨-, rfl⟩
    · exact absurd hi hj
    · exact .inr ⟨hj, rfl⟩

theorem current_plug :
    (scene.plug j source slot ticket event).current other = scene.current other :=
  @current_modifySource α scene source other _ fun _ ↦ rfl

/-- Assumes: listeners in order, and a view that is there and has room for the input. -/
theorem Plugged.plug {s : Source α} (h : scene.Plugged) (hs : scene.sources[source]? = some s)
    (hordered : s.listeners.Ordered) (hview : scene.views[j]? = some o) (hlive : o.live)
    (hdisposed : o.disposed = false) (hroom : o.inputs.length < o.slots.length) :
    (scene.plug j source o.inputs.length s.listeners.next event).Plugged := by
  have hconnected := h.connect hs hordered hview hlive hdisposed hroom
  exact hconnected.modifyView (fun _ ↦ rfl) (fun o ↦ List.length_modify _ o.slots _) (fun _ ↦ rfl)
    fun _ ↦ rfl

end Plug

/-- A registration is taken away that is not that of an input. -/
theorem Plugged.unregister (h : scene.Plugged) (hforeign : scene.Foreign source ticket) :
    (scene.modifySource source fun s ↦
      { s with listeners := s.listeners.remove ticket }).Plugged where
  wired other ticket' j slot := by
    have hsame : scene.input? j slot = some (other, ticket') ↔
        scene.listener? other ticket' = some (.input j slot) := (h.wired other ticket' j slot).symm
    show _ ↔ scene.input? j slot = _
    rw [hsame]
    obtain ⟨⟨s, hs, -⟩, hnot⟩ := hforeign
    by_cases hother : source = other
    · subst hother
      rw [listener?_modifySource_self _ hs]
      by_cases hticket : ticket' = ticket
      · subst hticket
        rw [Registry.find?_remove_self]
        exact ⟨fun heq ↦ by contradiction, fun heq ↦ absurd heq (hnot j slot)⟩
      · rw [Registry.find?_remove_of_ne hticket, listener?_of_source hs]
    · rw [listener?_modifySource_of_ne _ hother]
  there := h.there
  room := h.room

/-- A view loses all its inputs. -/
theorem Plugged.retire {f : Outline α → Outline α} (h : scene.Plugged)
    (hview : scene.views[j]? = some o) (hinputs : (f o).inputs = [])
    (hlistener : ∀ source ticket, scene'.listener? source ticket =
      if (source, ticket) ∈ o.inputs then none else scene.listener? source ticket)
    (hviews : scene'.views = scene.views.modify j f) : scene'.Plugged := by
  have hself : scene'.views[j]? = some (f o) := by
    rw [hviews]
    exact getElem?_modifyView_self f hview
  have hothers {k : ViewId} (hk : j ≠ k) : scene'.views[k]? = scene.views[k]? := by
    rw [hviews]
    exact getElem?_modifyView_of_ne f hk
  constructor
  case wired =>
    intro source ticket k slot
    rw [hlistener]
    by_cases hk : j = k
    · subst hk
      rw [input?_of_view hself, hinputs]
      constructor
      · intro heq
        by_cases hmem : (source, ticket) ∈ o.inputs
        · rw [if_pos hmem] at heq
          contradiction
        · rw [if_neg hmem, h.wired, input?_of_view hview] at heq
          exact absurd (List.mem_of_getElem? heq) hmem
      · exact fun heq ↦ by contradiction
    · have hinput : scene'.input? k slot = scene.input? k slot := by rw [input?, input?, hothers hk]
      rw [hinput, ← h.wired]
      by_cases hmem : (source, ticket) ∈ o.inputs
      · obtain ⟨other, hother⟩ := List.mem_iff_getElem?.mp hmem
        have howner :=
          (h.wired source ticket j other).mpr ((input?_of_view hview other).trans hother)
        rw [if_pos hmem, howner]
        constructor
        · exact fun heq ↦ by contradiction
        · intro heq
          exact absurd (Listener.input.inj (Option.some.inj heq)).1 hk
      · rw [if_neg hmem]
  case there =>
    intro k o' ho' hsome
    by_cases hk : j = k
    · subst hk
      obtain rfl := Option.some.inj (hself.symm.trans ho')
      exact absurd hinputs hsome
    · exact h.there k o' ((hothers hk).symm.trans ho') hsome
  case room =>
    intro k o' ho'
    by_cases hk : j = k
    · subst hk
      obtain rfl := Option.some.inj (hself.symm.trans ho')
      rw [hinputs]
      exact Nat.zero_le _
    · exact h.room k o' ((hothers hk).symm.trans ho')

/-- A view is new, and has no inputs yet. -/
theorem Plugged.addView (h : scene.Plugged) (hinputs : o.inputs = [])
    (hsources : scene'.sources = scene.sources) (hviews : scene'.views = scene.views ++ [o]) :
    scene'.Plugged := by
  have hold {k : ViewId} {o' : Outline α} (ho' : scene'.views[k]? = some o') :
      scene.views[k]? = some o' ∨ o' = o := by
    rw [hviews, List.getElem?_append] at ho'
    split at ho'
    · exact .inl ho'
    · exact .inr (List.mem_singleton.mp (List.mem_of_getElem? ho'))
  have hinput : ∀ k slot, scene'.input? k slot = scene.input? k slot := by
    intro k slot
    rw [input?, input?, hviews, List.getElem?_append]
    split
    case isTrue => rfl
    case isFalse hk =>
      rw [List.getElem?_eq_none (Nat.le_of_not_lt hk)]
      cases hnew : [o][k - scene.views.length]? with
      | none => rfl
      | some o' =>
        rw [List.mem_singleton.mp (List.mem_of_getElem? hnew)]
        simp [hinputs]
  constructor
  case wired =>
    intro source ticket k slot
    rw [hinput, listener?, hsources]
    exact h.wired source ticket k slot
  case there =>
    intro k o' ho' hsome
    rcases hold ho' with hview | rfl
    · exact h.there k o' hview hsome
    · exact absurd hinputs hsome
  case room =>
    intro k o' ho'
    rcases hold ho' with hview | rfl
    · exact h.room k o' hview
    · rw [hinputs]
      exact Nat.zero_le _

end Scene

/-! ### What becomes of tickets and of views in time -/

/-- A ticket that has been given out keeps its listener or loses it. -/
theorem Registry.Change.find?_of_given {κ : Type} {new : κ → Prop} {registry registry' : Registry κ}
    {ticket : Nat} (h : registry.Change new registry') (hgiven : ticket < registry.next) :
    ticket < registry'.next ∧
      (registry'.find? ticket = registry.find? ticket ∨ registry'.find? ticket = none) := by
  cases h with
  | same => exact ⟨hgiven, .inl rfl⟩
  | register listener _ =>
    refine ⟨Nat.lt_succ_of_lt hgiven, .inl ?_⟩
    exact Registry.find?_register_of_ne (Nat.ne_of_lt hgiven) listener
  | removeAll gone => exact ⟨hgiven, registry.find?_removeAll gone⟩
  | clear => exact ⟨hgiven, .inr (Registry.find?_clear ticket registry)⟩

namespace World

variable {new : Listener → Prop} {world world' : World α β} {source : SourceId} {ticket : Nat}

/-- The ticket of the source has been given out. -/
def Given (source : SourceId) (ticket : Nat) (world : World α β) : Prop :=
  ∃ s, world.sources[source]? = some s ∧ ticket < s.listeners.next

/-- A source stays, and only its list of listeners and its event can change. -/
theorem Change.exists_source {s : Source α} (hchange : world.Change new world')
    (hs : world.sources[source]? = some s) :
    ∃ s', world'.sources[source]? = some s' ∧ s.listeners.Change new s'.listeners := by
  cases hchange with
  | addSource name =>
    refine ⟨s, ?_, .same⟩
    rw [World.addSource, List.getElem?_append_left (List.getElem?_eq_some_iff.mp hs).1]
    exact hs
  | publish other event =>
    by_cases hother : other = source
    · exact ⟨{ s with current := event }, by simp [modifySource, hother, hs], .same⟩
    · exact ⟨s, (List.getElem?_modify_ne _ world.sources hother).trans hs, .same⟩
  | listen other f hf =>
    by_cases hother : other = source
    · exact ⟨{ s with listeners := f s.listeners }, by simp [modifySource, hother, hs], hf s.listeners⟩
    · exact ⟨s, (List.getElem?_modify_ne _ world.sources hother).trans hs, .same⟩
  | closeTick =>
    refine ⟨s, ?_, .same⟩
    unfold World.closeTick
    dsimp only
    split <;> exact hs
  | _ => exact ⟨s, hs, .same⟩

/-- A ticket that has been given out keeps its listener or loses it for good. -/
theorem Change.given (hchange : world.Change new world') (h : world.Given source ticket) :
    world'.Given source ticket ∧
      (world'.sourceListener? source ticket = world.sourceListener? source ticket ∨
        world'.sourceListener? source ticket = none) := by
  obtain ⟨s, hs, hticket⟩ := h
  obtain ⟨s', hs', hlisteners⟩ := hchange.exists_source hs
  obtain ⟨hticket', hfind⟩ := hlisteners.find?_of_given hticket
  refine ⟨⟨s', hs', hticket'⟩, ?_⟩
  rw [sourceListener?, hs', sourceListener?, hs]
  exact hfind

theorem Changes.given (hchanges : Changes new world world') (h : world.Given source ticket) :
    world'.Given source ticket ∧
      (world'.sourceListener? source ticket = world.sourceListener? source ticket ∨
        world'.sourceListener? source ticket = none) := by
  induction hchanges with
  | refl => exact ⟨h, .inl rfl⟩
  | tail _ hlast ih =>
    obtain ⟨hgiven, hfirst⟩ := ih
    obtain ⟨hgiven', hnext⟩ := hlast.given hgiven
    refine ⟨hgiven', ?_⟩
    rcases hnext with hsame | hnone
    · rwa [hsame]
    · exact .inr hnone

theorem Change.foreign (hchange : world.Change new world') (h : world.scene.Foreign source ticket) :
    world'.scene.Foreign source ticket := by
  obtain ⟨hgiven, hlistener⟩ := hchange.given h.given
  refine ⟨hgiven, fun j slot hinput ↦ ?_⟩
  rcases hlistener with hsame | hnone
  · exact h.listener j slot (hsame.symm.trans hinput)
  · exact absurd (hnone.symm.trans hinput) (by simp)

theorem foreign_changes (hchanges : Changes new world world')
    (h : world.scene.Foreign source ticket) : world'.scene.Foreign source ticket :=
  hchanges.preserves (fun _ _ hforeign hchange ↦ hchange.foreign hforeign) h

end World

/-- No move gives a ticket of a subscription to an input. -/
theorem Machine.foreign_move {m : Machine α β} {source : SourceId} {ticket : Nat}
    (move : Move α β) (h : m.world.scene.Foreign source ticket) :
    (m.move move).world.scene.Foreign source ticket :=
  World.foreign_changes (changes_move move m) h

/-! ### Sources and views that stand still -/

/-- The view keeps its inputs and what they show, or has lost all of them. -/
structure Outline.Retires (o o' : Outline α) : Prop where
  live : o'.live → o.live ∧ (o.owned → o'.owned)
  disposed : o'.disposed = false → o.disposed = false
  inputs : o'.inputs = o.inputs ∧ o'.slots = o.slots ∨ o'.inputs = [] ∧ (o'.live → o'.disposed)

theorem Outline.Retires.refl (o : Outline α) : o.Retires o :=
  ⟨fun h ↦ ⟨h, id⟩, id, .inl ⟨rfl, rfl⟩⟩

/-- Nothing is emitted, and no view is new. -/
structure Scene.Retires (scene scene' : Scene α) : Prop where
  plugged : scene'.Plugged
  current : ∀ source, scene'.current source = scene.current source
  views : ∀ (j : ViewId) (o' : Outline α), scene'.views[j]? = some o' →
    ∃ o, scene.views[j]? = some o ∧ o.Retires o'

namespace Scene.Retires

variable {scene scene' : Scene α} {j : ViewId} {source : SourceId} {o : Outline α}

/-- Assumes: a change that keeps the sources and the views. -/
theorem of_eq (h : scene.Plugged) (hsources : scene'.sources = scene.sources)
    (hviews : scene'.views = scene.views) : scene.Retires scene' where
  plugged := h.of_eq hsources hviews
  current source := by rw [Scene.current, hsources, Scene.current]
  views j o' ho' := ⟨o', hviews ▸ ho', .refl o'⟩

/-- Assumes: a change of the listeners of a source. -/
theorem modifySource {f : Source α → Source α} (hplugged : (scene.modifySource source f).Plugged)
    (hcurrent : ∀ s, (f s).current = s.current) :
    scene.Retires (scene.modifySource source f) where
  plugged := hplugged
  current _ := Scene.current_modifySource hcurrent
  views _ o' ho' := ⟨o', ho', .refl o'⟩

/-- Assumes: a change of the listeners of a view. -/
theorem modifyView {f : Outline α → Outline α} (h : scene.Plugged)
    (hinputs : ∀ o, (f o).inputs = o.inputs) (hslots : ∀ o, (f o).slots = o.slots)
    (hlive : ∀ o, (f o).live = o.live) (hdisposed : ∀ o, (f o).disposed = o.disposed)
    (howned : ∀ o, (f o).owned = o.owned) : scene.Retires (scene.modifyView j f) where
  plugged := h.modifyView hinputs (fun o ↦ congrArg _ (hslots o)) hlive hdisposed
  current _ := rfl
  views k o' ho' := by
    obtain ⟨o, ho, ⟨-, rfl⟩ | ⟨-, rfl⟩⟩ := Scene.exists_of_modifyView ho'
    · refine ⟨o, ho, ⟨fun hl ↦ ⟨hlive o ▸ hl, fun hown ↦ (howned o).symm ▸ hown⟩, ?_, ?_⟩⟩
      · exact fun hd ↦ hdisposed o ▸ hd
      · exact .inl ⟨hinputs o, hslots o⟩
    · exact ⟨_, ho, .refl _⟩

/-- A view loses all its inputs, and is disposed of or taken apart. -/
theorem retire {f : Outline α → Outline α} (h : scene.Plugged) (hview : scene.views[j]? = some o)
    (hinputs : (f o).inputs = [])
    (hgone : (f o).disposed ∧ (f o).owned = o.owned ∧ (f o).live = o.live ∨ (f o).live = false)
    (hdisposed : (f o).disposed = false → o.disposed = false)
    (hlistener : ∀ source ticket, scene'.listener? source ticket =
      if (source, ticket) ∈ o.inputs then none else scene.listener? source ticket)
    (hcurrent : ∀ source, scene'.current source = scene.current source)
    (hviews : scene'.views = scene.views.modify j f) : scene.Retires scene' where
  plugged := h.retire hview hinputs hlistener hviews
  current := hcurrent
  views k o' ho' := by
    rw [hviews] at ho'
    obtain ⟨o₀, ho₀, ⟨rfl, rfl⟩ | ⟨-, rfl⟩⟩ := @Scene.exists_of_modifyView α scene k j f o' ho'
    · obtain rfl := Option.some.inj (ho₀.symm.trans hview)
      refine ⟨o₀, ho₀, ⟨fun hl ↦ ?_, hdisposed, .inr ⟨hinputs, fun hl ↦ ?_⟩⟩⟩
      · rcases hgone with ⟨-, howned, hlive⟩ | hdead
        · exact ⟨hlive ▸ hl, fun hown ↦ howned ▸ hown⟩
        · rw [hdead] at hl
          contradiction
      · rcases hgone with ⟨hd, -⟩ | hdead
        · exact hd
        · rw [hdead] at hl
          contradiction
    · exact ⟨_, ho₀, .refl _⟩

end Scene.Retires

namespace World

variable {world : World α β} {source : SourceId} {ticket : Nat} {j : ViewId}

theorem listener?_unregister (source other : SourceId) (ticket ticket' : Nat)
    (world : World α β) :
    (world.unregister (.source source) ticket).scene.listener? other ticket' =
      if (other, ticket') = (source, ticket) then none
      else world.scene.listener? other ticket' := by
  show (world.scene.modifySource source _).listener? other ticket' = _
  by_cases hother : source = other
  · subst hother
    cases hs : world.scene.sources[source]? with
    | none => simp [Scene.listener?, Scene.modifySource, hs]
    | some s =>
      rw [Scene.listener?_modifySource_self _ hs, Scene.listener?_of_source hs]
      by_cases hticket : ticket' = ticket
      · rw [if_pos (by rw [hticket]), hticket]
        exact Registry.find?_remove_self ticket s.listeners
      · rw [if_neg fun heq ↦ hticket (Prod.mk.inj heq).2]
        exact Registry.find?_remove_of_ne hticket s.listeners
  · rw [if_neg fun heq ↦ hother (Prod.mk.inj heq).1.symm]
    exact Scene.listener?_modifySource_of_ne _ hother

theorem listener?_foldl_unregister (inputs : List (SourceId × Nat)) (world : World α β)
    (source : SourceId) (ticket : Nat) :
    (inputs.foldl (fun w input ↦ w.unregister (.source input.1) input.2) world).scene.listener?
        source ticket =
      if (source, ticket) ∈ inputs then none else world.scene.listener? source ticket := by
  induction inputs generalizing world with
  | nil => rfl
  | cons input rest ih =>
    rw [List.foldl_cons, ih, listener?_unregister]
    by_cases hrest : (source, ticket) ∈ rest
    · rw [if_pos hrest, if_pos (List.mem_cons_of_mem _ hrest)]
    · rw [if_neg hrest]
      by_cases hfirst : (source, ticket) = input
      · rw [if_pos hfirst, if_pos (hfirst ▸ List.mem_cons_self)]
      · rw [if_neg hfirst, if_neg fun hmem ↦ (List.mem_cons.mp hmem).elim hfirst hrest]

theorem current_foldl_unregister (inputs : List (SourceId × Nat)) (world : World α β)
    (source : SourceId) :
    (inputs.foldl (fun w input ↦ w.unregister (.source input.1) input.2) world).scene.current
        source = world.scene.current source := by
  induction inputs generalizing world with
  | nil => rfl
  | cons input rest ih =>
    rw [List.foldl_cons, ih]
    exact @Scene.current_modifySource α world.scene input.1 source _ fun _ ↦ rfl

/-- A view that is disconnected, and disposed of or taken apart. -/
theorem retires_disconnect {v : View α β} {f : View α β → View α β} {g : Outline α → Outline α}
    (h : world.scene.Plugged) (hview : world.views[j]? = some v)
    (hf : ∀ v, (f v).outline = g v.outline) (hinputs : ∀ o, (g o).inputs = o.inputs)
    (hgone : ∀ o, (g o).disposed ∧ (g o).owned = o.owned ∧ (g o).live = o.live ∨
      (g o).live = false)
    (hdisposed : ∀ o, (g o).disposed = false → o.disposed = false) :
    world.scene.Retires ((world.disconnect j).modifyView j f).scene := by
  have hdisconnected : (world.disconnect j).modifyView j f =
      (v.inputs.foldl (fun w input ↦ w.unregister (.source input.1) input.2) world).modifyView j
        fun v ↦ f { v with inputs := [] } := by
    simp only [disconnect, hview, World.modifyView, List.modify_modify_eq]
    rfl
  let base : World α β :=
    v.inputs.foldl (fun w input ↦ w.unregister (.source input.1) input.2) world
  have hbase : base.scene.views = world.scene.views :=
    congrArg (List.map _) (views_foldl_unregister v.inputs world)
  rw [hdisconnected]
  have hscene : (base.modifyView j fun v ↦ f { v with inputs := [] }).scene =
      base.scene.modifyView j fun o ↦ g { o with inputs := [] } :=
    scene_modifyView fun v ↦ hf { v with inputs := [] }
  rw [hscene]
  refine .retire (f := fun o ↦ g { o with inputs := [] }) h (getElem?_scene hview) (hinputs _)
    (hgone _) (hdisposed _) ?_ ?_ ?_
  · exact fun source ticket ↦ listener?_foldl_unregister v.inputs world source ticket
  · exact fun source ↦ current_foldl_unregister v.inputs world source
  · rw [← hbase]
    rfl

theorem retires_dispose (h : world.scene.Plugged) (j : ViewId) :
    world.scene.Retires (world.dispose j).scene := by
  unfold dispose
  split
  case h_1 => exact .of_eq h rfl rfl
  case h_2 v hview =>
    split
    · exact .of_eq h rfl rfl
    · exact retires_disconnect h hview
        (g := fun o ↦ { o with disposed := true, listeners := o.listeners.clear })
        (fun _ ↦ rfl) (fun _ ↦ rfl) (fun _ ↦ .inl ⟨rfl, rfl, rfl⟩) (fun _ hd ↦ by contradiction)

/-- Assumes: a registration that is not that of an input. -/
theorem retires_unregister (h : world.scene.Plugged) {target : Target}
    (hforeign : ∀ source, target = .source source → world.scene.Foreign source ticket) :
    world.scene.Retires (world.unregister target ticket).scene := by
  cases target with
  | source source => exact .modifySource (h.unregister (hforeign source rfl)) fun _ ↦ rfl
  | view view =>
    have hscene : (world.unregister (.view view) ticket).scene =
        world.scene.modifyView view fun o ↦ { o with listeners := o.listeners.remove ticket } :=
      scene_modifyView fun _ ↦ rfl
    rw [hscene]
    exact .modifyView h (fun _ ↦ rfl) (fun _ ↦ rfl) (fun _ ↦ rfl) (fun _ ↦ rfl) (fun _ ↦ rfl)

/-- The tickets of subscriptions are not those of inputs. -/
def Handled (world : World α β) : Prop :=
  ∀ handle ∈ world.handles, ∀ source, handle.target = .source source →
    world.scene.Foreign source handle.ticket

theorem retires_cancel (h : world.scene.Plugged) (hhandled : world.Handled) (handle : Nat) :
    world.scene.Retires (world.cancel handle).scene := by
  unfold cancel
  split
  case h_1 target ticket hhandle =>
    have hunregistered : world.scene.Retires (world.unregister target ticket).scene :=
      retires_unregister h fun source htarget ↦
        hhandled _ (List.mem_of_getElem? hhandle) source htarget
    exact ⟨hunregistered.plugged.of_eq rfl rfl, hunregistered.current, hunregistered.views⟩
  case h_2 => exact .of_eq h rfl rfl

end World

namespace Machine

variable {m : Machine α β}

/-- A view is dropped. Assumes: no operation is under way. -/
theorem retires_dropView (h : m.world.scene.Plugged) (hstack : m.stack = []) (j : ViewId) :
    m.world.scene.Retires (m.dropView j).world.scene := by
  let dropped : Machine α β := m.withWorld (.modifyView j fun v ↦ { v with owned := false })
  have hdropped : dropped.world.scene =
      m.world.scene.modifyView j fun o ↦ { o with owned := false } :=
    World.scene_modifyView fun _ ↦ rfl
  have hplugged : dropped.world.scene.Plugged := by
    rw [hdropped]
    exact h.modifyView (fun _ ↦ rfl) (fun _ ↦ rfl) (fun _ ↦ rfl) (fun _ ↦ rfl)
  -- nobody asks for the owner of a view that is not live
  have hgone : ∀ scene', dropped.world.scene.Retires scene' →
      (∀ o', scene'.views[j]? = some o' → o'.live = false) → m.world.scene.Retires scene' := by
    intro scene' hretires hdead
    refine ⟨hretires.plugged, fun source ↦ ?_, fun k o' ho' ↦ ?_⟩
    · rw [hretires.current, hdropped]
      rfl
    · obtain ⟨o₁, ho₁, hlive, hdisposed, hinputs⟩ := hretires.views k o' ho'
      rw [hdropped] at ho₁
      obtain ⟨o, ho, ⟨rfl, rfl⟩ | ⟨-, rfl⟩⟩ := Scene.exists_of_modifyView ho₁
      · exact ⟨o, ho, fun hl ↦ absurd (hdead o' ho') (by simp [hl]), hdisposed, hinputs⟩
      · exact ⟨_, ho, hlive, hdisposed, hinputs⟩
  show m.world.scene.Retires (dropped.release j).world.scene
  unfold release
  split
  case h_1 v hfound =>
    obtain ⟨hview, -⟩ := Option.filter_eq_some_iff.mp hfound
    have hunowned : v.owned = false := by
      simp only [dropped, withWorld, World.modifyView, List.getElem?_modify_eq] at hview
      obtain ⟨v₀, -, rfl⟩ := Option.map_eq_some_iff.mp hview
      rfl
    have hunheld : dropped.stack = [] := hstack
    rw [if_neg (by simp [hunowned, hunheld])]
    refine hgone _ ?_ fun o' ho' ↦ ?_
    · exact World.retires_disconnect hplugged hview (g := fun o ↦ { o with live := false })
        (fun _ ↦ rfl) (fun _ ↦ rfl) (fun _ ↦ .inr rfl) (fun _ ↦ id)
    · obtain ⟨v', hv', rfl⟩ := World.exists_of_scene ho'
      simp only [withWorld, World.takeApart, World.modifyView, List.getElem?_modify_eq] at hv'
      obtain ⟨v₀, -, rfl⟩ := Option.map_eq_some_iff.mp hv'
      rfl
  case h_2 hfound =>
    refine hgone _ (.of_eq hplugged rfl rfl) fun o' ho' ↦ ?_
    obtain ⟨v', hv', rfl⟩ := World.exists_of_scene ho'
    rw [World.liveView?, hv', Option.filter_eq_none_iff] at hfound
    exact (Bool.not_eq_true _).mp (hfound v' rfl)

end Machine

end LiveRecord.Flow
