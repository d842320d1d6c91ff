import LiveRecord.Proofs.Flow.Situation
import LiveRecord.Proofs.Flow.Wiring

/-!
# The steps of one view

Everything that a move can do to one view while nothing raises is one of the steps of
`Situation.Step`, together with what is seen of the view meanwhile (`Machine.steps_move`). What the
steps preserve, every run preserves (`Machine.situation_invariant`).
-/

set_option autoImplicit false

namespace LiveRecord.Flow

variable {α β : Type}

namespace Situation

/-- What a view hears of an event, and what is seen of that. -/
inductive Hearing (slot : Nat) (event : Event α) (s : Situation α β) :
    List (ViewNotice α β) → Situation α β → Prop
  /-- Nobody has the view any more, or its values are lent. -/
  | deaf : Hearing slot event s [] s
  | heard (inTick : Bool) (hslot : slot < s.view.slots.length) (hlive : s.view.live)
      (hlent : (s.view.lent && event.isLoaded) = false) :
      Hearing slot event s (if s.view.disposed then [] else [.delivered slot event])
        (s.hear inTick slot event)

/-- A view as it is built: its inputs are still to be connected. -/
def Fresh (s : Situation α β) : Prop :=
  ∃ label composer count inputs,
    s.view = { label, composer, slots := List.replicate count {} } ∧ s.tasks = [.connecting inputs]

/-- Nothing changes but who has the view, where its inputs are registered, and who of its listeners
is left. -/
def Kept (s s' : Situation α β) : Prop :=
  ∃ (gone : List Nat) (inputs : List (SourceId × Nat)) (owned live : Bool),
    (live → s.view.live) ∧
      s' = s.modify fun v ↦ { v with listeners := v.listeners.removeAll gone, inputs, owned, live }

/-- Nobody who listens goes. Assumes: a view that is gone stays so. -/
theorem Kept.modify (s : Situation α β) (inputs : List (SourceId × Nat)) (owned live : Bool)
    (hlive : live → s.view.live) : Kept s (s.modify fun v ↦ { v with inputs, owned, live }) :=
  ⟨[], inputs, owned, live, hlive, by simp⟩

theorem Kept.refl (s : Situation α β) : Kept s s :=
  .modify s s.view.inputs s.view.owned s.view.live id

theorem Kept.trans {s s' s'' : Situation α β} (hfirst : Kept s s') (hlast : Kept s' s'') :
    Kept s s'' := by
  obtain ⟨first, _, _, _, hlive, rfl⟩ := hfirst
  obtain ⟨last, inputs, owned, live, hlive', rfl⟩ := hlast
  refine ⟨first ++ last, inputs, owned, live, fun h ↦ hlive (hlive' h), ?_⟩
  simp only [Situation.modify, Registry.removeAll_append]

/-- What one move can do to a view, while nothing raises. -/
inductive Step (s : Situation α β) : List (ViewNotice α β) → Situation α β → Prop
  | keep {s' : Situation α β} (h : Kept s s') : Step s [] s'
  | register (key : Nat) :
      Step s (s.view.status.event?.toList.map (.heard s.view.listeners.next))
        (s.modify fun v ↦ { v with listeners := v.listeners.register key })
  | dispose :
      Step s [] (s.modify fun v ↦
        { v with inputs := [], disposed := true, listeners := v.listeners.clear, failures := [] })
  | hear (slot : Nat) (event : Event α) {seen : List (ViewNotice α β)} {s' : Situation α β}
      (h : Hearing slot event s seen s') : Step s seen s'
  | connect (input : SourceId × Nat) {inputs : List (SourceId × Nat)} {tasks : List (Task α β)}
      (htasks : s.tasks = .connecting (input :: inputs) :: tasks)
      (registered : List (SourceId × Nat)) (event : Event α) {seen : List (ViewNotice α β)}
      {s' : Situation α β}
      (h : Hearing input.2 event
        ({ s with tasks := .connecting inputs :: tasks }.modify fun v ↦
          { v with inputs := registered }) seen s') : Step s seen s'
  | connected (inTick : Bool) {tasks : List (Task α β)} (htasks : s.tasks = .connecting [] :: tasks) :
      Step s [] ({ s with tasks }.requestCompose inTick)
  | run {jobs : Nat} (hjobs : s.jobs = jobs + 1) (hlive : s.view.live) :
      Step s [] ({ s with jobs }.modify fun v ↦ { v with scheduled := false }).flush
  | skip {jobs : Nat} (hjobs : s.jobs = jobs + 1) (hlive : s.view.live = false) :
      Step s [] { s with jobs }
  | fail {error : SourceError} {errors : List SourceError} {tasks : List (Task α β)}
      (htasks : s.tasks = .failing (error :: errors) :: tasks) :
      Step s [] { s with
        tasks := .announcing (.failed error) s.view.listeners.tickets :: .failing errors :: tasks }
  | announce {event : ViewEvent β} {ticket : Nat} {tickets : List Nat} {tasks : List (Task α β)}
      (htasks : s.tasks = .announcing event (ticket :: tickets) :: tasks) :
      Step s ((s.view.listeners.find? ticket).toList.map fun _ ↦ .heard ticket event)
        { s with tasks := .announcing event tickets :: tasks }
  | announced {event : ViewEvent β} {tasks : List (Task α β)}
      (htasks : s.tasks = .announcing event [] :: tasks) : Step s [] { s with tasks }
  | compose {tasks : List (Task α β)} (htasks : s.tasks = .failing [] :: tasks) :
      Step s s.composeNotices { s with tasks }.composeIfDue
  | composed {tasks : List (Task α β)} (htasks : s.tasks = .composing :: tasks) (value : β) :
      Step s [.composed value s.view.failures]
        (({ s with tasks }.modify fun v ↦ { v with lent := false }).becomeReady value)
  | settle {tasks : List (Task α β)} (htasks : s.tasks = .settling :: tasks) :
      Step s [] { s with tasks }.settle

end Situation

namespace World

/-! ### Registrations with sources -/

theorem deferred_foldl_unregister (inputs : List (SourceId × Nat)) (world : World α β) :
    (inputs.foldl (fun w input ↦ w.unregister (.source input.1) input.2) world).deferred =
      world.deferred := by
  induction inputs generalizing world with
  | nil => rfl
  | cons input rest ih => exact ih _

end World

namespace Machine

/-! ### What the notices of a move say of one view -/

variable {i j : ViewId} {m m' : Machine α β} {s : Situation α β}

@[simp] theorem historyOf_emitNotices (source : SourceId) (event : Event α) :
    historyOf i (m.emitNotices source event) = [] := by
  unfold emitNotices
  split
  · rfl
  · split <;> rfl

@[simp] theorem historyOf_feedNotices (feed : Feed α) : historyOf i (m.feedNotices feed) = [] := by
  unfold feedNotices
  split
  · rfl
  · exact historyOf_emitNotices _ _

theorem liveView?_of_situation (h : m.situation i = some s) :
    m.world.liveView? i = if s.view.live then some s.view else none := by
  simp [World.liveView?, view_of_situation h, Option.filter_some]

theorem historyOf_hearNotices_of_ne (slot : Nat) (event : Event α) (hne : j ≠ i) :
    historyOf i (m.hearNotices j slot event) = [] := by
  unfold hearNotices
  split
  · rfl
  · split
    · rfl
    · simp [historyOf, Notice.of?, hne]

theorem historyOf_hearNotices (slot : Nat) (event : Event α) (h : m.situation i = some s) :
    historyOf i (m.hearNotices i slot event) = s.hearNotices slot event := by
  simp only [hearNotices, liveView?_of_situation h, Situation.hearNotices]
  cases s.view.live with
  | false => rfl
  | true =>
    simp only [if_true, Bool.not_true, Bool.false_or]
    cases s.view.disposed || s.view.lent && event.isLoaded <;> simp [historyOf, Notice.of?]

theorem historyOf_composeNotices_of_ne (hne : j ≠ i) : historyOf i (m.composeNotices j) = [] := by
  unfold composeNotices
  split
  · rfl
  · split
    · split <;> simp [historyOf, Notice.of?, hne]
    · rfl

theorem historyOf_composeNotices (h : m.situation i = some s) :
    historyOf i (m.composeNotices i) = s.composeNotices := by
  simp only [composeNotices, view_of_situation h, Situation.composeNotices]
  split
  · split <;> simp [historyOf, Notice.of?, *]
  · rfl

/-- At rest there is nothing to do for a view, though compositions may be put off. -/
theorem AtRest.situation {v : View α β} (h : m.AtRest) (hview : m.world.views[i]? = some v) :
    m.situation i = some { view := v, tasks := [], jobs := m.jobs i } := by
  rw [situation_eq_some_iff]
  simp [outlook, hview, Machine.tasks, h.1]

/-! ### Moves take steps -/

/-- There is no view of that id yet, and nothing to do for it. -/
def Unborn (i : ViewId) (m : Machine α β) : Prop := m.world.views[i]? = none ∧ m.tasks i = []

/-- The view takes a turn, if there is one, and this is what is seen of it. -/
structure Takes (turn : Situation α β → List (ViewNotice α β) → Situation α β → Prop) (i : ViewId)
    (m : Machine α β) (seen : List (ViewNotice α β)) (m' : Machine α β) : Prop where
  of_some : ∀ s, m.situation i = some s → ∃ s', m'.situation i = some s' ∧ turn s seen s'
  of_none : m.Unborn i → seen = [] ∧ m'.Unborn i

/-- The view takes a turn, or comes into being with nothing but its inputs to connect. -/
def Turns (turn : Situation α β → List (ViewNotice α β) → Situation α β → Prop) (i : ViewId)
    (m : Machine α β) (seen : List (ViewNotice α β)) (m' : Machine α β) : Prop :=
  Takes turn i m seen m' ∨ (m.Unborn i ∧ seen = [] ∧ ∃ s, m'.situation i = some s ∧ s.Fresh)

/-- The view takes a step, if there is one. -/
abbrev Steps (i : ViewId) (m : Machine α β) (seen : List (ViewNotice α β)) (m' : Machine α β) :
    Prop :=
  Takes Situation.Step i m seen m'

/-- The view, if there is one, keeps all but its owner, listeners and the registrations of its
inputs. -/
structure Keeps (i : ViewId) (m m' : Machine α β) : Prop where
  of_some : ∀ s, m.situation i = some s → ∃ s', m'.situation i = some s' ∧ s.Kept s'
  of_none : m.Unborn i → m'.Unborn i

theorem Unborn.congr (h : m'.outlook i = m.outlook i) (hunborn : m.Unborn i) : m'.Unborn i := by
  simp only [outlook, Prod.mk.injEq] at h
  exact ⟨h.1.trans hunborn.1, h.2.1.trans hunborn.2⟩

theorem Keeps.of_outlook (h : m'.outlook i = m.outlook i) : Keeps i m m' where
  of_some s hs := ⟨s, (situation_congr h).trans hs, .refl s⟩
  of_none := .congr h

theorem Keeps.trans {m'' : Machine α β} (hfirst : Keeps i m m') (hlast : Keeps i m' m'') :
    Keeps i m m'' where
  of_some s hs := by
    obtain ⟨s', hs', hkept⟩ := hfirst.of_some s hs
    obtain ⟨s'', hs'', hkept'⟩ := hlast.of_some s' hs'
    exact ⟨s'', hs'', hkept.trans hkept'⟩
  of_none h := hlast.of_none (hfirst.of_none h)

theorem Keeps.steps (h : Keeps i m m') : Steps i m [] m' where
  of_some s hs := by
    obtain ⟨s', hs', hkept⟩ := h.of_some s hs
    exact ⟨s', hs', .keep hkept⟩
  of_none hunborn := ⟨rfl, h.of_none hunborn⟩

theorem Steps.of_outlook (h : m'.outlook i = m.outlook i) : Steps i m [] m' :=
  (Keeps.of_outlook h).steps

section Takes

variable {turn turn' : Situation α β → List (ViewNotice α β) → Situation α β → Prop}

/-- Assumes: the view is left alone at first. -/
theorem Takes.after {m'' : Machine α β} {seen : List (ViewNotice α β)}
    (hfirst : m'.outlook i = m.outlook i) (hlast : Takes turn i m' seen m'') :
    Takes turn i m seen m'' where
  of_some s hs := hlast.of_some s ((situation_congr hfirst).trans hs)
  of_none h := hlast.of_none (h.congr hfirst)

/-- Assumes: the view is left alone at last. -/
theorem Takes.before {m'' : Machine α β} {seen : List (ViewNotice α β)}
    (hfirst : Takes turn i m seen m') (hlast : m''.outlook i = m'.outlook i) :
    Takes turn i m seen m'' where
  of_some s hs := by
    obtain ⟨s', hs', hstep⟩ := hfirst.of_some s hs
    exact ⟨s', (situation_congr hlast).trans hs', hstep⟩
  of_none h := ⟨(hfirst.of_none h).1, (hfirst.of_none h).2.congr hlast⟩

theorem Takes.imp {seen : List (ViewNotice α β)} (h : Takes turn i m seen m')
    (himp : ∀ s s', turn s seen s' → turn' s seen s') : Takes turn' i m seen m' where
  of_some s hs := by
    obtain ⟨s', hs', hturn⟩ := h.of_some s hs
    exact ⟨s', hs', himp s s' hturn⟩
  of_none := h.of_none

end Takes

/-! #### Steps of the core -/

theorem hearing_hear {slot : Nat} (event : Event α) (h : m.situation i = some s)
    (hslot : slot < s.view.slots.length) :
    ∃ s', (m.hear i slot event).situation i = some s' ∧
      s.Hearing slot event (s.hearNotices slot event) s' := by
  have hfound := liveView?_of_situation h
  cases hlive : s.view.live with
  | false =>
    have hgone : m.world.liveView? i = none := by simpa [hlive] using hfound
    simp only [hear, hgone, Situation.hearNotices, hlive]
    exact ⟨s, h, .deaf⟩
  | true =>
    simp only [hlive, if_true] at hfound
    cases hlent : s.view.lent && event.isLoaded with
    | true =>
      have hseen : s.hearNotices slot event = [] := by simp [Situation.hearNotices, hlive, hlent]
      simp only [hear, hfound, hlent, hseen]
      exact ⟨s, (situation_congr (outlook_push rfl rfl)).trans h, .deaf⟩
    | false =>
      refine ⟨_, situation_hear slot event h hlive hlent, ?_⟩
      have hseen : s.hearNotices slot event =
          if s.view.disposed then [] else [.delivered slot event] := by
        simp [Situation.hearNotices, hlive, hlent]
      rw [hseen]
      exact .heard _ hslot hlive hlent

theorem slot_of_names {slot : Nat} (h : m.situation i = some s)
    (hnamed : m.world.Names (.input i slot)) : slot < s.view.slots.length := by
  obtain ⟨v, hv, hslot⟩ := hnamed
  rwa [Option.some.inj (hv.symm.trans (view_of_situation h))] at hslot

/-- Assumes: the view has that input. -/
theorem steps_hear {slot : Nat} (event : Event α) (hnamed : m.world.Names (.input j slot)) :
    Steps i m (historyOf i (m.hearNotices j slot event)) (m.hear j slot event) := by
  by_cases hij : j = i
  · subst hij
    constructor
    case of_some =>
      intro s hs
      obtain ⟨s', hs', hheard⟩ := hearing_hear event hs (slot_of_names hs hnamed)
      rw [historyOf_hearNotices slot event hs]
      exact ⟨s', hs', .hear slot event hheard⟩
    case of_none =>
      intro hunborn
      have hgone : m.world.liveView? j = none := by simp [World.liveView?, hunborn.1]
      simp only [hearNotices, hear, hgone]
      exact ⟨rfl, hunborn⟩
  · rw [historyOf_hearNotices_of_ne slot event hij]
    exact .of_outlook (outlook_hear slot event hij)

theorem outlook_modifyView_of_none (f : View α β → View α β) (h : m.world.views[i]? = none) :
    (m.withWorld (.modifyView i f)).outlook i = m.outlook i := by
  simp [outlook, tasks, jobs, withWorld, World.modifyView, h]

theorem keeps_modifyView {f : View α β → View α β} (h : ∀ s : Situation α β, s.Kept (s.modify f)) :
    Keeps i m (m.withWorld (.modifyView j f)) := by
  by_cases hij : j = i
  · subst hij
    constructor
    case of_some => exact fun s hs ↦ ⟨s.modify f, situation_modifyView f hs, h s⟩
    case of_none => exact fun hunborn ↦ hunborn.congr (outlook_modifyView_of_none f hunborn.1)
  · exact .of_outlook (outlook_modifyView f hij)

theorem outlook_registerAtSource (source : SourceId) (listener : Listener) :
    (m.withWorld (.registerAtSource source listener)).outlook i = m.outlook i :=
  outlook_withWorld rfl rfl

/-- What becomes of the inputs of a view that is there. -/
theorem withWorld_disconnect {v : View α β} (hview : m.world.views[j]? = some v) :
    m.withWorld (.disconnect j) =
      (m.withWorld fun w ↦
        v.inputs.foldl (fun w input ↦ w.unregister (.source input.1) input.2) w).withWorld
          (.modifyView j fun v ↦ { v with inputs := [] }) := by
  simp only [withWorld, World.disconnect, hview]

theorem keeps_disconnect : Keeps i m (m.withWorld (.disconnect j)) := by
  cases hview : m.world.views[j]? with
  | none =>
    have hsame : m.withWorld (.disconnect j) = m := by simp only [withWorld, World.disconnect, hview]
    rw [hsame]
    exact .of_outlook rfl
  | some v =>
    rw [withWorld_disconnect hview]
    refine (Keeps.of_outlook (outlook_withWorld (World.views_foldl_unregister _ _)
      (World.deferred_foldl_unregister _ _))).trans (keeps_modifyView fun s ↦ ?_)
    exact .modify s [] s.view.owned s.view.live id

theorem situation_disconnect (h : m.situation i = some s) :
    (m.withWorld (.disconnect i)).situation i = some (s.modify fun v ↦ { v with inputs := [] }) := by
  rw [withWorld_disconnect (view_of_situation h)]
  refine situation_modifyView _ ((situation_congr ?_).trans h)
  exact outlook_withWorld (World.views_foldl_unregister _ _) (World.deferred_foldl_unregister _ _)

theorem outlook_disconnect (hne : j ≠ i) :
    (m.withWorld (.disconnect j)).outlook i = m.outlook i := by
  cases hview : m.world.views[j]? with
  | none => simp only [withWorld, World.disconnect, hview]
  | some v =>
    rw [withWorld_disconnect hview, outlook_modifyView _ hne]
    exact outlook_withWorld (World.views_foldl_unregister _ _) (World.deferred_foldl_unregister _ _)

theorem keeps_release : Keeps i m (m.release j) := by
  have htaken : Keeps i m (m.withWorld (.takeApart j)) :=
    keeps_disconnect.trans (keeps_modifyView fun s ↦
      .modify s s.view.inputs s.view.owned false (by simp))
  unfold release
  split
  · split
    · exact .of_outlook rfl
    · exact htaken
  · exact .of_outlook rfl

/-- What becomes of a view that is disposed of for the first time. -/
theorem withWorld_dispose {v : View α β} (hview : m.world.views[j]? = some v)
    (hdisposed : v.disposed = false) :
    m.withWorld (.dispose j) =
      (m.withWorld (.disconnect j)).withWorld (.modifyView j fun v ↦
        { v with disposed := true, listeners := v.listeners.clear, failures := [] }) := by
  simp [withWorld, World.dispose, hview, hdisposed]

theorem situation_dispose (h : m.situation i = some s) (hdisposed : s.view.disposed = false) :
    (m.withWorld (.dispose i)).situation i = some (s.modify fun v ↦
      { v with inputs := [], disposed := true, listeners := v.listeners.clear, failures := [] }) := by
  rw [withWorld_dispose (view_of_situation h) hdisposed]
  exact situation_modifyView _ (situation_disconnect h)

theorem steps_dispose : Steps i m [] (m.withWorld (.dispose j)) := by
  have hsame : m.world.dispose j = m.world → Steps i m [] (m.withWorld (.dispose j)) := fun h ↦
    .of_outlook (outlook_withWorld (congrArg _ h) (congrArg _ h))
  cases hview : m.world.views[j]? with
  | none => exact hsame (by simp only [World.dispose, hview])
  | some v =>
    cases hdisposed : v.disposed with
    | true => exact hsame (by simp only [World.dispose, hview, hdisposed, if_true])
    | false =>
      by_cases hij : j = i
      · subst hij
        constructor
        case of_some =>
          intro s hs
          obtain rfl := Option.some.inj (hview.symm.trans (view_of_situation hs))
          exact ⟨_, situation_dispose hs hdisposed, .dispose⟩
        case of_none =>
          intro hunborn
          rw [hunborn.1] at hview
          contradiction
      · rw [withWorld_dispose hview hdisposed]
        exact .of_outlook ((outlook_modifyView _ hij).trans (outlook_disconnect hij))

theorem keeps_unregister (target : Target) (ticket : Nat) :
    Keeps i m (m.withWorld (.unregister target ticket)) := by
  cases target with
  | source source => exact .of_outlook rfl
  | view view =>
    exact keeps_modifyView fun s ↦
      ⟨[ticket], s.view.inputs, s.view.owned, s.view.live, id, by simp [Situation.modify]⟩

theorem keeps_cancel (handle : Nat) : Keeps i m (m.withWorld (.cancel handle)) := by
  have hworld : m.world.cancel handle = m.world ∨ ∃ target ticket f,
      m.world.cancel handle = (m.world.unregister target ticket).modifyHandle handle f := by
    unfold World.cancel
    split
    · exact .inr ⟨_, _, _, rfl⟩
    · exact .inl rfl
  rcases hworld with hsame | ⟨target, ticket, f, hcancelled⟩
  · exact .of_outlook (outlook_withWorld (congrArg _ hsame) (congrArg _ hsame))
  · have hsplit : m.withWorld (.cancel handle) =
        (m.withWorld (.unregister target ticket)).withWorld (.modifyHandle handle f) := by
      simp only [withWorld, hcancelled]
    rw [hsplit]
    exact (keeps_unregister target ticket).trans (.of_outlook (outlook_withWorld rfl rfl))

/-- The compositions that a closing tick hands over go on waiting. -/
theorem outlook_closeTick (answer : Answer α β) :
    (m.closeTick answer).outlook i = m.outlook i := by
  simp only [closeTick, World.closeTick, outlook_returning]
  split <;> simp [outlook, tasks, jobs, push, Frame.task?, Frame.jobs]

theorem outlook_emit (source : SourceId) (event : Event α) :
    (m.emit source event).outlook i = m.outlook i := by
  unfold emit
  split
  · rfl
  · split
    · rfl
    · rw [outlook_returning, outlook_push rfl rfl, outlook_push rfl rfl]
      rfl

theorem outlook_feed (feed : Feed α) : (m.feed feed).outlook i = m.outlook i := by
  unfold Machine.feed
  split
  · rfl
  · rw [outlook_emit, outlook_push rfl rfl]

theorem keeps_dropView : Keeps i m (m.dropView j) := by
  refine (keeps_modifyView fun s ↦ ?_).trans keeps_release
  exact .modify s s.view.inputs false s.view.live id

theorem keeps_refuse (target : Target) : Keeps i m (m.refuse target) :=
  .of_outlook (outlook_withWorld (World.views_strand target m.world)
    (World.deferred_strand target m.world))

/-- What goes with callbacks are listeners, owners and inputs. -/
theorem keeps_serve_cancel (handle : Nat) (owned : Belongings) :
    Keeps i m (m.serve (.cancel handle owned)) :=
  serve_cancel_induction (motive := Keeps i m) (fun _ handle h ↦ h.trans (keeps_cancel handle))
    (fun _ target h ↦ h.trans (keeps_refuse target)) (fun _ _ h ↦ h.trans keeps_dropView) handle
    owned (.of_outlook rfl)

/-- Assumes: the view is live. -/
theorem situation_subscribe (key : Nat) (h : m.situation i = some s) (hlive : s.view.live) :
    (m.subscribe (.view i) key).situation i =
      some (s.modify fun v ↦ { v with listeners := v.listeners.register key }) := by
  have hfound : m.world.liveView? i = some s.view := by
    rw [liveView?_of_situation h, if_pos hlive]
  have hregistered : ((m.withWorld (.registerAtView i key)).push
      (.subscribing (.view i) s.view.listeners.next)).situation i =
        some (s.modify fun v ↦ { v with listeners := v.listeners.register key }) :=
    (situation_congr (outlook_push rfl rfl)).trans (situation_modifyView _ h)
  simp only [subscribe, hfound]
  split
  · exact hregistered
  · exact (situation_congr (outlook_call _ _)).trans hregistered

/-- Assumes: the view is live. -/
theorem historyOf_subscribe (key : Nat) (h : m.situation i = some s) (hlive : s.view.live) :
    historyOf i (m.requestNotices (.subscribe (.view i) key)) =
      s.view.status.event?.toList.map (.heard s.view.listeners.next) := by
  simp only [requestNotices, liveView?_of_situation h, if_pos hlive]
  cases s.view.status.event? <;> simp [historyOf, Notice.of?]

theorem outlook_subscribe_of_ne (key : Nat) (hne : j ≠ i) :
    (m.subscribe (.view j) key).outlook i = m.outlook i := by
  have hregistered (ticket : Nat) : ((m.withWorld (.registerAtView j key)).push
      (.subscribing (.view j) ticket)).outlook i = m.outlook i :=
    (outlook_push rfl rfl).trans (outlook_modifyView _ hne)
  have hsubscribes := m.subscribes (.view j) key
  generalize m.subscribe (.view j) key = m' at hsubscribes ⊢
  cases hsubscribes with
  | unknown => rfl
  | silent => exact hregistered _
  | view => exact (outlook_call _ _).trans (hregistered _)

theorem historyOf_subscribe_of_ne (key : Nat) (hne : j ≠ i) :
    historyOf i (m.requestNotices (.subscribe (.view j) key)) = [] := by
  simp only [requestNotices]
  split
  · rfl
  · rename_i v _
    cases v.status.event? <;> simp [historyOf, Notice.of?, hne]

theorem steps_subscribe (target : Target) (key : Nat) :
    Steps i m (historyOf i (m.requestNotices (.subscribe target key))) (m.subscribe target key) := by
  cases target with
  | source source =>
    simp only [subscribe]
    split
    · exact .of_outlook rfl
    · refine .of_outlook ?_
      rw [outlook_call, outlook_push rfl rfl]
      rfl
  | view view =>
    by_cases hij : view = i
    · subst hij
      constructor
      case of_some =>
        intro s hs
        cases hlive : s.view.live with
        | true =>
          rw [historyOf_subscribe key hs hlive]
          exact ⟨_, situation_subscribe key hs hlive, .register key⟩
        | false =>
          have hgone : m.world.liveView? view = none := by
            rw [liveView?_of_situation hs, hlive]
            rfl
          simp only [subscribe, requestNotices, hgone]
          exact ⟨s, hs, .keep (.refl s)⟩
      case of_none =>
        intro hunborn
        have hgone : m.world.liveView? view = none := by simp [World.liveView?, hunborn.1]
        simp only [subscribe, requestNotices, hgone]
        exact ⟨rfl, hunborn⟩
    · rw [historyOf_subscribe_of_ne key hij]
      exact .of_outlook (outlook_subscribe_of_ne key hij)

theorem steps_build (sources : List SourceId) (composer : Composer α β)
    (h : m.world.views.length ≠ i) : Steps i m [] (m.build sources composer) := by
  unfold build
  split
  · exact .of_outlook rfl
  · refine .of_outlook ?_
    rw [outlook_returning, outlook_push (by simp [Frame.task?, h]) rfl, outlook_push rfl rfl,
      outlook_push rfl rfl]
    have hkept (new : View α β) : (m.world.views ++ [new])[i]? = m.world.views[i]? := by
      rw [List.getElem?_append]
      split
      · rfl
      · rw [List.getElem?_eq_none (by simp; omega), List.getElem?_eq_none (by omega)]
    simp [outlook, tasks, jobs, withWorld, World.openTick, World.addView, hkept]

/-- A view comes into being with nothing but its inputs to connect. -/
theorem fresh_build (sources : List SourceId) (composer : Composer α β) (hunborn : m.Unborn i)
    (h : m.world.views.length = i) :
    (m.build sources composer).Unborn i ∨
      ∃ s, (m.build sources composer).situation i = some s ∧ s.Fresh := by
  cases hfound : sources.mapM fun source ↦ m.world.sources[source]? with
  | none =>
    simp only [build, hfound]
    exact .inl hunborn
  | some found =>
    let new : View α β :=
      { label := labelOf (found.map (·.name)), composer, slots := found.map fun _ ↦ {} }
    have hborn : ((m.withWorld .openTick).withWorld (.addView new)).situation i =
        some { view := new, tasks := [], jobs := m.jobs i } := by
      rw [situation_eq_some_iff]
      simp only [outlook, Prod.mk.injEq]
      refine ⟨?_, hunborn.2, rfl⟩
      simp [withWorld, World.openTick, World.addView, ← h]
    have hclosing : ((((m.withWorld .openTick).withWorld (.addView new)).push
        (.building i)).push (.closing .done)).situation i =
          some { view := new, tasks := [], jobs := m.jobs i } :=
      (situation_congr (outlook_push rfl rfl)).trans
        ((situation_congr (outlook_push rfl rfl)).trans hborn)
    simp only [build, hfound, h]
    refine .inr ⟨_, situation_push hclosing (if_pos rfl) rfl, labelOf (found.map (·.name)),
      composer, found.length, sources.zipIdx, ?_, rfl⟩
    simp [Situation.push, new, List.map_const']

/-! #### Every move -/

theorem steps_serve (request : Request α β) (hcalm : request ≠ .abandonTick)
    (hbuild : ∀ sources composer, request ≠ .build sources composer) :
    Steps i m (historyOf i (m.requestNotices request)) (m.serve request) := by
  cases request with
  | newSource name => exact .of_outlook rfl
  | emit source event =>
    rw [requestNotices, historyOf_emitNotices]
    exact .of_outlook (outlook_emit source event)
  | build sources composer => exact absurd rfl (hbuild sources composer)
  | subscribe target key => exact steps_subscribe target key
  | cancel handle owned => exact (keeps_serve_cancel handle owned).steps
  | detach handle => exact .of_outlook rfl
  | dispose view => exact steps_dispose.before rfl
  | dropView view => exact keeps_dropView.steps.before rfl
  | enterTick => exact .of_outlook rfl
  | leaveTick => exact .of_outlook (outlook_closeTick _)
  | abandonTick => exact absurd rfl hcalm
  | poll feed =>
    rw [requestNotices, historyOf_feedNotices]
    exact .of_outlook (outlook_feed feed)
  | finish | compose value | raise message =>
    refine .of_outlook ?_
    exact serve_of_ends (motive := fun m' ↦ m'.outlook i = m.outlook i) rfl rfl
      fun call turn below control hstack _ ↦ outlook_pop hstack rfl rfl

/-- Assumes: a frame on top that is at work for the view, and a step that begins with its task. -/
theorem steps_pop {frame : Frame α β} {task : Task α β} {stack : List (Frame α β)}
    {seen : List (ViewNotice α β)} (hstack : m.stack = frame :: stack)
    (htask : frame.task? i = some task) (hjobs : frame.jobs i = 0)
    (h : ∀ s tasks, m.situation i = some s → s.tasks = task :: tasks →
      { m with stack }.situation i = some { s with tasks } →
        ∃ s', m'.situation i = some s' ∧ s.Step seen s') : Steps i m seen m' where
  of_some s hs := by
    obtain ⟨tasks, htasks, hpopped⟩ := situation_pop hs hstack htask hjobs
    exact h s tasks hs htasks hpopped
  of_none hunborn := by
    have htasks := hunborn.2
    simp [tasks, hstack, htask] at htasks

/-- Assumes: a frame on top that is at work for another view. -/
theorem outlook_replace {frame frame' : Frame α β} {stack : List (Frame α β)}
    (hstack : m.stack = frame :: stack) (htask : frame.task? i = none) (hjobs : frame.jobs i = 0)
    (htask' : frame'.task? i = none) (hjobs' : frame'.jobs i = 0) :
    { m with stack := frame' :: stack }.outlook i = m.outlook i :=
  (outlook_push htask' hjobs' : ({ m with stack }.push frame').outlook i = _).trans
    (outlook_pop hstack htask hjobs)

theorem steps_announcing {event : ViewEvent β} {tickets : List Nat} {stack : List (Frame α β)}
    (answer : Answer α β) (hstack : m.stack = .announcing j event tickets :: stack) :
    Steps i m (historyOf i (m.resumeNotices answer)) (m.resume answer) := by
  cases tickets with
  | nil =>
    simp only [resume, resumeNotices, hstack]
    by_cases hij : j = i
    · subst hij
      exact steps_pop hstack (if_pos rfl) rfl fun s tasks hs htasks hpopped ↦
        ⟨_, hpopped, .announced htasks⟩
    · exact .of_outlook (outlook_pop hstack (if_neg hij) rfl)
  | cons ticket tickets =>
    simp only [resume, resumeNotices, hstack]
    by_cases hij : j = i
    · subst hij
      refine steps_pop hstack (if_pos rfl) rfl fun s tasks hs htasks hpopped ↦ ?_
      have hrest : { m with stack := .announcing j event tickets :: stack }.situation j =
          some { s with tasks := .announcing event tickets :: tasks } :=
        situation_push hpopped (if_pos rfl) rfl
      have hstep := Situation.Step.announce htasks
      have hlistener : m.world.viewListener? j ticket = s.view.listeners.find? ticket := by
        simp only [World.viewListener?, view_of_situation hs, Option.bind_some]
      rw [← hlistener] at hstep
      cases hfound : m.world.viewListener? j ticket with
      | none =>
        rw [hfound] at hstep
        exact ⟨_, hrest, hstep⟩
      | some key =>
        rw [hfound] at hstep
        refine ⟨_, (situation_congr (outlook_call _ _)).trans hrest, ?_⟩
        simpa [historyOf, Notice.of?] using hstep
    · have hrest : { m with stack := .announcing j event tickets :: stack }.outlook i =
          m.outlook i := outlook_replace hstack (if_neg hij) rfl (if_neg hij) rfl
      cases m.world.viewListener? j ticket with
      | none => exact .of_outlook hrest
      | some key =>
        have hseen : historyOf i [(.ofView j (.heard ticket event) : Notice α β)] = [] := by
          simp [historyOf, Notice.of?, hij]
        rw [hseen]
        exact .of_outlook ((outlook_call _ _).trans hrest)

theorem steps_failing {errors : List SourceError} {stack : List (Frame α β)}
    (answer : Answer α β) (hstack : m.stack = .failing j errors :: stack) :
    Steps i m (historyOf i (m.resumeNotices answer)) (m.resume answer) := by
  cases errors with
  | nil =>
    simp only [resume, resumeNotices, hstack]
    by_cases hij : j = i
    · subst hij
      refine steps_pop hstack (if_pos rfl) rfl fun s tasks hs htasks hpopped ↦ ?_
      rw [historyOf_composeNotices hs]
      exact ⟨_, situation_composeIfDue hpopped, .compose htasks⟩
    · rw [historyOf_composeNotices_of_ne hij]
      refine .of_outlook ?_
      rw [outlook_composeIfDue hij, outlook_pop hstack (if_neg hij) rfl]
  | cons error errors =>
    simp only [resume, resumeNotices, hstack]
    by_cases hij : j = i
    · subst hij
      refine steps_pop hstack (if_pos rfl) rfl fun s tasks hs htasks hpopped ↦ ?_
      have hrest : { m with stack := .failing j errors :: stack }.situation j =
          some { s with tasks := .failing errors :: tasks } :=
        situation_push hpopped (if_pos rfl) rfl
      rw [viewTickets_eq hrest]
      exact ⟨_, situation_push hrest (if_pos rfl) rfl, .fail htasks⟩
    · refine .of_outlook ?_
      rw [outlook_returning, outlook_push (by simp [Frame.task?, hij]) rfl]
      exact outlook_replace hstack (if_neg hij) rfl (if_neg hij) rfl

/-- Assumes: a value came out of the composing callback. -/
theorem steps_composing {stack : List (Frame α β)} (value : β)
    (hstack : m.stack = .composing j :: stack) :
    Steps i m (historyOf i (m.resumeNotices (.composed value))) (m.resume (.composed value)) := by
  simp only [resume, resumeNotices, hstack]
  by_cases hij : j = i
  · subst hij
    refine steps_pop hstack (if_pos rfl) rfl fun s tasks hs htasks hpopped ↦ ?_
    refine ⟨_, situation_becomeReady value (situation_modifyView _ hpopped), ?_⟩
    simpa [view_of_situation hs, historyOf, Notice.of?] using Situation.Step.composed htasks value
  · have hready := (outlook_becomeReady value hij).trans
      ((outlook_modifyView (fun v ↦ { v with lent := false }) hij).trans
        (outlook_pop hstack (if_neg hij) rfl))
    cases m.world.views[j]? with
    | none => exact .of_outlook hready
    | some v =>
      have hseen : historyOf i [(.ofView j (.composed value v.failures) : Notice α β)] = [] := by
        simp [historyOf, Notice.of?, hij]
      rw [hseen]
      exact .of_outlook hready

theorem steps_settling {stack : List (Frame α β)} (answer : Answer α β)
    (hstack : m.stack = .settling j :: stack) :
    Steps i m (historyOf i (m.resumeNotices answer)) (m.resume answer) := by
  simp only [resume, resumeNotices, hstack]
  by_cases hij : j = i
  · subst hij
    exact steps_pop hstack (if_pos rfl) rfl fun s tasks hs htasks hpopped ↦
      ⟨_, situation_settle hpopped, .settle htasks⟩
  · refine .of_outlook ((outlook_settle hij).trans ?_)
    exact outlook_pop hstack (if_neg hij) rfl

theorem steps_connecting {inputs : List (SourceId × Nat)} {stack : List (Frame α β)}
    (answer : Answer α β) (hwired : m.Wired) (hstack : m.stack = .connecting j inputs :: stack) :
    Steps i m (historyOf i (m.resumeNotices answer)) (m.resume answer) := by
  cases inputs with
  | nil =>
    simp only [resume, resumeNotices, hstack]
    by_cases hij : j = i
    · subst hij
      exact steps_pop hstack (if_pos rfl) rfl fun s tasks hs htasks hpopped ↦
        ⟨_, situation_requestCompose hpopped, .connected _ htasks⟩
    · refine .of_outlook ((outlook_requestCompose hij).trans ?_)
      exact outlook_pop hstack (if_neg hij) rfl
  | cons input inputs =>
    obtain ⟨source, slot⟩ := input
    simp only [resume, resumeNotices, hstack, connect]
    by_cases hij : j = i
    · subst hij
      refine steps_pop hstack (if_pos rfl) rfl fun s tasks hs htasks hpopped ↦ ?_
      have hrest : { m with stack := .connecting j inputs :: stack }.situation j =
          some { s with tasks := .connecting inputs :: tasks } :=
        situation_push hpopped (if_pos rfl) rfl
      have hslot : slot < s.view.slots.length :=
        slot_of_names hs (hwired.names_of_connecting hstack)
      cases hsource : m.world.sources[source]? with
      | none =>
        exact ⟨_, hrest, .connect (source, slot) htasks s.view.inputs .pending .deaf⟩
      | some src =>
        have hconnected := situation_modifyView
          (fun v ↦ { v with inputs := v.inputs ++ [(source, src.listeners.next)] })
          ((situation_congr (outlook_registerAtSource source (.input j slot))).trans hrest)
        obtain ⟨s', hs', hheard⟩ := hearing_hear src.current hconnected hslot
        refine ⟨s', hs', ?_⟩
        rw [historyOf_hearNotices slot src.current hs]
        exact .connect (source, slot) htasks _ src.current hheard
    · have hrest : { m with stack := .connecting j inputs :: stack }.outlook i =
          m.outlook i := outlook_replace hstack (if_neg hij) rfl (if_neg hij) rfl
      cases m.world.sources[source]? with
      | none => exact .of_outlook hrest
      | some src =>
        rw [historyOf_hearNotices_of_ne slot src.current hij]
        refine .of_outlook ((outlook_hear slot src.current hij).trans ?_)
        exact (outlook_modifyView _ hij).trans
          ((outlook_registerAtSource source (.input j slot)).trans hrest)

theorem steps_draining {views : List ViewId} {stack : List (Frame α β)}
    (answer answer' : Answer α β) (hstack : m.stack = .draining views answer' :: stack) :
    Steps i m (historyOf i (m.resumeNotices answer)) (m.resume answer) := by
  cases views with
  | nil =>
    simp only [resume, resumeNotices, hstack]
    exact .of_outlook (outlook_pop hstack rfl rfl)
  | cons view views =>
    simp only [resume, resumeNotices, hstack, runDeferred]
    by_cases hij : view = i
    · subst hij
      refine ⟨fun s hs ↦ ?_, fun hunborn ↦ ?_⟩
      case refine_2 =>
        have hgone : World.liveView? view
            { m with stack := .draining views answer' :: stack }.world = none := by
          simp [World.liveView?, hunborn.1]
        rw [hgone]
        have htasks := hunborn.2
        rw [tasks, hstack] at htasks
        exact ⟨rfl, hunborn.1, htasks⟩
      obtain ⟨jobs, hjobs, hrest⟩ : ∃ jobs, s.jobs = jobs + 1 ∧
          { m with stack := .draining views answer' :: stack }.situation view =
            some { s with jobs } := by
        have ho := situation_eq_some_iff.mp hs
        simp only [outlook, Prod.mk.injEq, tasks, hstack, List.filterMap_cons, Frame.task?] at ho
        have hcount := ho.2.2
        rw [Machine.jobs, hstack, List.map_cons, List.sum_cons] at hcount
        change _ + ((view :: views).count view + _) = s.jobs at hcount
        rw [List.count_cons_self] at hcount
        refine ⟨m.world.deferred.count view + (views.count view + (stack.map (·.jobs view)).sum),
          by omega, situation_eq_some_iff.mpr ?_⟩
        simp only [outlook, Prod.mk.injEq, tasks, List.filterMap_cons, Frame.task?]
        exact ⟨ho.1, ho.2.1, rfl⟩
      rw [liveView?_of_situation hrest]
      cases hlive : s.view.live with
      | false => exact ⟨_, hrest, .skip hjobs hlive⟩
      | true =>
        have hheld : ({ m with stack := .draining views answer' :: stack }.push
            (.holding view)).situation view = some { s with jobs } :=
          (situation_congr (outlook_push rfl rfl)).trans hrest
        exact ⟨_, situation_flush (situation_modifyView _ hheld), .run hjobs hlive⟩
    · have hrest : { m with stack := .draining views answer' :: stack }.outlook i = m.outlook i := by
        simp [outlook, tasks, jobs, hstack, Frame.task?, Frame.jobs, hij]
      refine .of_outlook ?_
      split
      · exact hrest
      · exact (outlook_flush hij).trans ((outlook_modifyView _ hij).trans
          ((outlook_push rfl rfl).trans hrest))

theorem steps_delivering {source : SourceId} {event : Event α} {tickets : List Nat}
    {stack : List (Frame α β)} (answer : Answer α β) (hwired : m.Wired)
    (hstack : m.stack = .delivering source event tickets :: stack) :
    Steps i m (historyOf i (m.resumeNotices answer)) (m.resume answer) := by
  cases tickets with
  | nil =>
    simp only [resume, resumeNotices, hstack]
    exact .of_outlook (outlook_pop hstack rfl rfl)
  | cons ticket tickets =>
    have hrest : { m with stack := .delivering source event tickets :: stack }.outlook i =
        m.outlook i := outlook_replace hstack rfl rfl rfl rfl
    simp only [resume, resumeNotices, hstack]
    cases hlistener : m.world.sourceListener? source ticket with
    | none => exact .of_outlook hrest
    | some listener =>
      cases listener with
      | callback key => exact .of_outlook ((outlook_call _ _).trans hrest)
      | input view slot =>
        have hnamed : World.Names { m with stack := .delivering source event tickets :: stack }.world
            (.input view slot) := hwired.names_of_sourceListener? hlistener
        exact (steps_hear event hnamed).after hrest

/-- Assumes: the frame on top gets the value that it waits for. -/
theorem steps_resume (answer : Answer α β) (hattended : m.ComposersAttended)
    (hwired : m.Wired) (hcontrol : m.control = .returning answer) :
    Steps i m (historyOf i (m.resumeNotices answer)) (m.resume answer) := by
  cases hstack : m.stack with
  | nil =>
    simp only [resume, resumeNotices, hstack]
    exact .of_outlook rfl
  | cons frame stack =>
    cases frame with
    | calling call turn =>
      simp only [resume, resumeNotices, hstack]
      exact .of_outlook rfl
    | closing answer' =>
      simp only [resume, resumeNotices, hstack]
      exact .of_outlook ((outlook_closeTick _).trans (outlook_pop hstack rfl rfl))
    | draining views answer' => exact steps_draining answer answer' hstack
    | delivering source event tickets => exact steps_delivering answer hwired hstack
    | announcing view event tickets => exact steps_announcing answer hstack
    | failing view errors => exact steps_failing answer hstack
    | composing view =>
      -- only the value of the composing callback gets to this frame
      rcases hattended with hattended | ⟨_, _, _, _, hvalue⟩
      · rw [hstack] at hattended
        cases hattended with
        | cons hframe _ => exact absurd rfl (hframe view)
      · cases answer with
        | composed value => exact steps_composing value hstack
        | _ => simp [bringsValue, hcontrol] at hvalue
    | settling view => exact steps_settling answer hstack
    | holding view =>
      simp only [resume, resumeNotices, hstack]
      have hpopped : { m with stack }.outlook i = m.outlook i := outlook_pop hstack rfl rfl
      exact ((Keeps.of_outlook hpopped).trans keeps_release).steps.before rfl
    | subscribing target ticket =>
      simp only [resume, resumeNotices, hstack]
      have hhandle : ({ m with stack }.withWorld (.addHandle target ticket)).outlook i =
          m.outlook i := (outlook_withWorld rfl rfl).trans (outlook_pop hstack rfl rfl)
      cases target with
      | source source => exact .of_outlook hhandle
      | view view => exact ((Keeps.of_outlook hhandle).trans keeps_release).steps.before rfl
    | connecting view inputs => exact steps_connecting answer hwired hstack
    | building view =>
      simp only [resume, resumeNotices, hstack]
      have hpopped : { m with stack }.outlook i = m.outlook i := outlook_pop hstack rfl rfl
      have howned : Keeps i { m with stack } ({ m with stack }.withWorld
          (.modifyView view fun v ↦ { v with owned := true })) :=
        keeps_modifyView fun s ↦ .modify s s.view.inputs true s.view.live id
      exact ((Keeps.of_outlook hpopped).trans howned).steps.before rfl
    | feeding rest =>
      have hpopped : { m with stack }.outlook i = m.outlook i := outlook_pop hstack rfl rfl
      have hseen : historyOf i (m.resumeNotices answer) = [] := by
        simp only [resumeNotices, hstack]
        split
        · split
          · rfl
          · exact historyOf_feedNotices _
        · exact historyOf_feedNotices _
      have hfed : (m.resume answer).outlook i = m.outlook i := by
        simp only [resume, hstack]
        split
        · split
          · exact hpopped
          · exact (outlook_feed _).trans hpopped
        · exact (outlook_feed _).trans hpopped
      rw [hseen]
      exact .of_outlook hfed

/-- What the steps of views rest on. It holds from the start of every run in which nothing raises. -/
structure Sound (m : Machine α β) : Prop where
  attended : m.ComposersAttended
  wired : m.Wired
  calm : m.isUnwinding = false

theorem Sound.start : Sound ({} : Machine α β) := ⟨.start, .start, rfl⟩

theorem Sound.move {move : Move α β} (h : m.Sound) (hcalm : m.RaiseFree move) :
    (m.move move).Sound :=
  ⟨composersAttended_move move h.attended, wired_move move h.wired, hcalm.2⟩

theorem Sound.run {moves : List (Move α β)} (h : m.Sound) (hcalm : Along RaiseFree moves m) :
    (m.run moves).Sound :=
  @Along.invariant α β RaiseFree (fun m _ ↦ m.Sound) m h
    (fun _ _ _ hsound hmove ↦ hsound.move hmove) moves hcalm

/-- Assumes: a request that abandons no tick. -/
theorem steps_request (request : Request α β) (hcalm : request ≠ .abandonTick) :
    Turns Situation.Step i m (historyOf i (m.notices (.request request)))
      (m.move (.request request)) := by
  simp only [Machine.move, submit, notices]
  cases m.control with
  | returning answer => exact .inl (Steps.of_outlook rfl)
  | unwinding message => exact .inl (Steps.of_outlook rfl)
  | user heard =>
    by_cases hbuild : ∃ sources composer, request = .build sources composer
    · obtain ⟨sources, composer, rfl⟩ := hbuild
      by_cases hnew : m.world.views.length = i
      · by_cases hunborn : m.Unborn i
        · rcases fresh_build sources composer hunborn hnew with hstill | hborn
          · refine .inl ⟨fun s hs ↦ ?_, fun _ ↦ ⟨rfl, hstill⟩⟩
            rw [situation, hunborn.1] at hs
            contradiction
          · exact .inr ⟨hunborn, rfl, hborn⟩
        · refine .inl ⟨fun s hs ↦ ?_, fun h ↦ absurd h hunborn⟩
          rw [situation, List.getElem?_eq_none (by omega)] at hs
          contradiction
      · exact .inl (steps_build sources composer hnew)
    · left
      exact steps_serve request hcalm fun sources composer h ↦ hbuild ⟨sources, composer, h⟩

/-- A move in which nothing raises is a step of every view that there is, and views come into
being with nothing but their inputs to connect. -/
theorem steps_move (move : Move α β) (hsound : m.Sound) (hcalm : m.RaiseFree move) :
    Turns Situation.Step i m (historyOf i (m.notices move)) (m.move move) := by
  cases move with
  | advance =>
    left
    simp only [Machine.move, advance, notices]
    cases hc : m.control with
    | user heard => exact Steps.of_outlook rfl
    | returning answer => exact steps_resume answer hsound.attended hsound.wired hc
    | unwinding message => exact absurd hsound.calm (by simp [isUnwinding, hc])
  | request request =>
    refine steps_request request ?_
    rintro rfl
    exact absurd hcalm.1 (by simp [Move.abandons])

/-! ### What holds of every view after every run -/

section Turns

variable {turn : Situation α β → List (ViewNotice α β) → Situation α β → Prop}
  {allowed : Machine α β → Move α β → Prop} {good : Machine α β → Prop}
  {property : Situation α β → List (ViewNotice α β) → Prop} {moves : List (Move α β)}

/-- What every turn of a view preserves, every run preserves from where it holds. It may speak of
what was seen of the view. -/
theorem turns_run
    (hmove : ∀ m move, good m → allowed m move →
      good (m.move move) ∧ Turns turn i m (historyOf i (m.notices move)) (m.move move))
    (hturn : ∀ s past seen s', property s past → turn s seen s' → property s' (past ++ seen))
    (hgood : good m) (hallowed : Along allowed moves m) (h : m.situation i = some s)
    {past : List (ViewNotice α β)} (hstart : property s past) :
    ∃ s', (m.run moves).situation i = some s' ∧
      property s' (past ++ historyOf i (m.history moves)) := by
  induction moves generalizing m s past with
  | nil => exact ⟨s, h, by simpa [history] using hstart⟩
  | cons move rest ih =>
    obtain ⟨hnext, hturns⟩ := hmove m move hgood hallowed.1
    rcases hturns with htakes | ⟨hunborn, -⟩
    · obtain ⟨next, hnext', hturned⟩ := htakes.of_some s h
      have hrest := ih hnext hallowed.2 hnext' (hturn s past _ next hstart hturned)
      rwa [List.append_assoc, ← historyOf_append] at hrest
    · rw [situation, hunborn.1] at h
      contradiction

/-- What holds of every view that comes into being, and is preserved by every turn of a view, holds
of every view after every run. -/
theorem turns_invariant
    (hmove : ∀ m move, good m → allowed m move →
      good (m.move move) ∧ Turns turn i m (historyOf i (m.notices move)) (m.move move))
    (hturn : ∀ s past seen s', property s past → turn s seen s' → property s' (past ++ seen))
    (hfresh : ∀ s, s.Fresh → property s []) (hgood : good m) (hunborn : m.Unborn i)
    (hallowed : Along allowed moves m) (h : (m.run moves).situation i = some s) :
    property s (historyOf i (m.history moves)) := by
  induction moves generalizing m with
  | nil =>
    rw [run_nil, situation, hunborn.1] at h
    contradiction
  | cons move rest ih =>
    obtain ⟨hnext, hturns⟩ := hmove m move hgood hallowed.1
    rw [history, historyOf_append]
    rcases hturns with htakes | ⟨-, hseen, new, hnew, hfirst⟩
    · obtain ⟨hseen, hstill⟩ := htakes.of_none hunborn
      rw [hseen]
      exact ih hnext hstill hallowed.2 h
    · obtain ⟨s', hs', hholds⟩ := turns_run hmove hturn hnext hallowed.2 hnew (hfresh new hfirst)
      rw [run_cons, hs'] at h
      rw [hseen]
      exact Option.some.inj h ▸ hholds

end Turns

/-- What every step of a view preserves, every run in which nothing raises preserves from where it
holds. -/
theorem Sound.situation_run {property : Situation α β → List (ViewNotice α β) → Prop}
    (hstep : ∀ s past seen s', property s past → s.Step seen s' → property s' (past ++ seen))
    (hsound : m.Sound) {moves : List (Move α β)} (hcalm : Along RaiseFree moves m)
    (h : m.situation i = some s) {past : List (ViewNotice α β)} (hstart : property s past) :
    ∃ s', (m.run moves).situation i = some s' ∧
      property s' (past ++ historyOf i (m.history moves)) :=
  turns_run (fun _ move hs hc ↦ ⟨hs.move hc, steps_move move hs hc⟩) hstep hsound hcalm h hstart

/-- What holds of every view that comes into being, and is preserved by every step of a view, holds
of every view after every run in which nothing raises. -/
theorem situation_invariant {property : Situation α β → List (ViewNotice α β) → Prop}
    (hfresh : ∀ s, s.Fresh → property s [])
    (hstep : ∀ s past seen s', property s past → s.Step seen s' → property s' (past ++ seen))
    {moves : List (Move α β)} (hcalm : Along RaiseFree moves {})
    (h : (run moves {}).situation i = some s) : property s (historyOf i (history moves {})) :=
  turns_invariant (fun _ move hs hc ↦ ⟨hs.move hc, steps_move move hs hc⟩) hstep hfresh .start
    ⟨rfl, rfl⟩ hcalm h

end Machine

end LiveRecord.Flow
