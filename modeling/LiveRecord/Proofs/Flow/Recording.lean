import LiveRecord.Proofs.Flow.Run
import LiveRecord.Proofs.Flow.Slots

/-!
# Runs in which callbacks only record

A user that only records ends every callback at once, and composes by a function of the values. The
core then goes on alone, and what it does for a view is a function of the view: a view that goes
through its news becomes `View.flushed` and announces `View.flushTold` (`Machine.tells_flush`), and
inside ticks an input that hears an event leaves `World.takeIn` (`Machine.tells_hear`).
-/

set_option autoImplicit false

namespace LiveRecord.Flow

variable {α β : Type}

/-- What a composer makes of values when its callback computes `answers`. -/
def Composer.apply (answers : Nat → List α → β) : Composer α β → List α → β
  | direct compose => compose
  | callback key => answers key

namespace View

variable (answers : Nat → List α → β)

/-- The value that is composed next, if one is due. -/
def dueValue? (view : View α β) : Option β :=
  if view.isDue then view.cachedValues?.map (view.composer.apply answers) else none

/-- The view once its failures have been announced and a value that was due has been composed. -/
def composed (view : View α β) : View α β :=
  let idle := { view with stale := view.stale && !view.allLoaded, composing := false }
  match view.dueValue? answers with
  | none => idle
  | some value => idle.becomeReady value

/-- The view once it has gone through its news. -/
def flushed (view : View α β) : View α β :=
  if view.composing then { view with dirty := true }
  else if view.disposed then { view with dirty := false }
  else { view with dirty := false, failures := [] }.composed answers

/-- What a view announces when it goes through its news. -/
def flushTold (view : View α β) : List (ViewEvent β) :=
  if view.composing || view.disposed then []
  else view.failures.map .failed ++ (view.dueValue? answers).toList.map .ready

/-- The view once an input has heard an event inside a tick. -/
def takeIn (slot : Nat) (event : Event α) (view : View α β) : View α β :=
  let heard := view.absorb slot event
  if view.disposed then heard
  else
    match event with
    | .pending => heard
    | .loaded _ => { heard with scheduled := true }
    | .failed _ => heard.flushed answers

/-- What a view announces when an input hears an event inside a tick. -/
def takeInTold (slot : Nat) (event : Event α) (view : View α β) : List (ViewEvent β) :=
  if view.disposed then []
  else
    match event with
    | .failed _ => (view.absorb slot event).flushTold answers
    | _ => []

section TakeIn

variable {view : View α β} (slot : Nat)

theorem takeIn_of_disposed (event : Event α) (h : view.disposed) :
    view.takeIn answers slot event = view.absorb slot event ∧
      view.takeInTold answers slot event = [] := by
  simp [takeIn, takeInTold, h]

theorem takeIn_pending (h : view.disposed = false) :
    view.takeIn answers slot .pending = view.absorb slot .pending ∧
      view.takeInTold answers slot .pending = [] := by
  simp [takeIn, takeInTold, h]

theorem takeIn_loaded (value : α) (h : view.disposed = false) :
    view.takeIn answers slot (.loaded value) =
        { view.absorb slot (.loaded value) with scheduled := true } ∧
      view.takeInTold answers slot (.loaded value) = [] := by
  simp [takeIn, takeInTold, h]

theorem takeIn_failed (error : SourceError) (h : view.disposed = false) :
    view.takeIn answers slot (.failed error) =
        (view.absorb slot (.failed error)).flushed answers ∧
      view.takeInTold answers slot (.failed error) =
        (view.absorb slot (.failed error)).flushTold answers := by
  simp [takeIn, takeInTold, h]

theorem takeIn_cases (event : Event α) :
    view.takeIn answers slot event = view.absorb slot event ∨
      view.takeIn answers slot event = { view.absorb slot event with scheduled := true } ∨
      view.takeIn answers slot event = (view.absorb slot event).flushed answers := by
  cases hdisposed : view.disposed with
  | true => exact .inl (takeIn_of_disposed answers slot event hdisposed).1
  | false =>
    cases event with
    | pending => exact .inl (takeIn_pending answers slot hdisposed).1
    | loaded value => exact .inr (.inl (takeIn_loaded answers slot value hdisposed).1)
    | failed error => exact .inr (.inr (takeIn_failed answers slot error hdisposed).1)

end TakeIn

variable {answers}

theorem lent_flushed (view : View α β) : (view.flushed answers).lent = view.lent := by
  unfold flushed composed
  split
  · rfl
  · split
    · rfl
    · dsimp only
      split <;> rfl

theorem live_flushed (view : View α β) : (view.flushed answers).live = view.live := by
  unfold flushed composed
  split
  · rfl
  · split
    · rfl
    · dsimp only
      split <;> rfl

theorem owned_flushed (view : View α β) : (view.flushed answers).owned = view.owned := by
  unfold flushed composed
  split
  · rfl
  · split
    · rfl
    · dsimp only
      split <;> rfl

theorem scheduled_flushed (view : View α β) :
    (view.flushed answers).scheduled = view.scheduled := by
  unfold flushed composed
  split
  · rfl
  · split
    · rfl
    · dsimp only
      split <;> rfl

theorem scheduled_takeIn {view : View α β} (slot : Nat) (event : Event α)
    (h : view.disposed = false) :
    (view.takeIn answers slot event).scheduled = (view.scheduled || event.isLoaded) := by
  cases event with
  | pending =>
    rw [(takeIn_pending answers slot h).1, absorb_pending h]
    exact (Bool.or_false _).symm
  | loaded value =>
    rw [(takeIn_loaded answers slot value h).1]
    exact (Bool.or_true _).symm
  | failed error =>
    rw [(takeIn_failed answers slot error h).1, scheduled_flushed, absorb_failed error h]
    exact (Bool.or_false _).symm

theorem lent_takeIn (slot : Nat) (event : Event α) (view : View α β) :
    (view.takeIn answers slot event).lent = view.lent := by
  rcases takeIn_cases answers slot event with heq | heq | heq
  · rw [heq, lent_absorb]
  · rw [heq]
    exact lent_absorb slot event view
  · rw [heq, lent_flushed, lent_absorb]

theorem live_takeIn (slot : Nat) (event : Event α) (view : View α β) :
    (view.takeIn answers slot event).live = view.live := by
  rcases takeIn_cases answers slot event with heq | heq | heq
  · rw [heq, live_absorb]
  · rw [heq]
    exact live_absorb slot event view
  · rw [heq, live_flushed, live_absorb]

theorem owned_takeIn (slot : Nat) (event : Event α) (view : View α β) :
    (view.takeIn answers slot event).owned = view.owned := by
  rcases takeIn_cases answers slot event with heq | heq | heq
  · rw [heq, owned_absorb]
  · rw [heq]
    exact owned_absorb slot event view
  · rw [heq, owned_flushed, owned_absorb]

end View

namespace World

variable (answers : Nat → List α → β)

def setView (view : ViewId) (v : View α β) : World α β → World α β :=
  modifyView view fun _ ↦ v

/-- The world once an input of a view has heard an event inside a tick. -/
def takeIn (view : ViewId) (slot : Nat) (event : Event α) (world : World α β) : World α β :=
  match world.liveView? view with
  | none => world
  | some v =>
    let heard := world.setView view (v.takeIn answers slot event)
    if event.isLoaded && !v.disposed && !v.scheduled then
      { heard with deferred := world.deferred ++ [view] }
    else heard

/-- The world once a view that was put off has composed. -/
def catchUp (view : ViewId) (world : World α β) : World α β :=
  match world.liveView? view with
  | none => world
  | some v => world.setView view ({ v with scheduled := false }.flushed answers)

/-- No view lends its values, and every view that is live is owned or held by a frame. -/
def Calm (stack : List (Frame α β)) (world : World α β) : Prop :=
  ∀ (j : ViewId) (v : View α β), world.views[j]? = some v →
    v.lent = false ∧ (v.live → v.owned ∨ stack.any (·.holds j))

section SetView

variable {world : World α β} {i j : ViewId} {v : View α β}

theorem liveView?_eq (hview : world.views[j]? = some v) (hlive : v.live) :
    world.liveView? j = some v := by
  rw [liveView?, hview, Option.filter_some, if_pos hlive]

theorem setView_of_view (hview : world.views[j]? = some v) : world.setView j v = world := by
  rw [setView, modifyView]
  congr 1
  refine List.ext_getElem? fun k ↦ ?_
  rw [List.getElem?_modify]
  by_cases hk : j = k
  · subst hk
    simp [hview]
  · simp [hk]

@[simp] theorem modifyView_setView (f : View α β → View α β) :
    (world.setView j v).modifyView j f = world.setView j (f v) := by
  simp only [setView, modifyView, List.modify_modify_eq]
  rfl

theorem getElem?_setView_self (hj : j < world.views.length) :
    (world.setView j v).views[j]? = some v := by
  simp [setView, modifyView, hj]

theorem getElem?_setView_of_ne (hne : j ≠ i) :
    (world.setView j v).views[i]? = world.views[i]? := by
  simp [setView, modifyView, hne]

theorem viewTickets_setView (hj : j < world.views.length) :
    (world.setView j v).viewTickets j = v.listeners.tickets := by
  rw [viewTickets, getElem?_setView_self hj]

theorem inTick_openTick (world : World α β) : world.openTick.inTick := by
  rw [inTick, decide_eq_true_iff]
  exact Nat.succ_pos world.depth

theorem Calm.setView {stack : List (Frame α β)} {v' : View α β} (h : world.Calm stack)
    (hview : world.views[j]? = some v) (hlent : v'.lent = v.lent) (hlive : v'.live = v.live)
    (howned : v'.owned = v.owned) : (world.setView j v').Calm stack := by
  intro k u hu
  by_cases hk : j = k
  · subst hk
    rw [getElem?_setView_self (List.getElem?_eq_some_iff.mp hview).1] at hu
    obtain rfl := Option.some.inj hu
    rw [hlent, hlive, howned]
    exact h j v hview
  · rw [getElem?_setView_of_ne hk] at hu
    exact h k u hu

theorem Calm.modifyView {stack : List (Frame α β)} {f : View α β → View α β}
    (h : world.Calm stack) (hlent : ∀ v, (f v).lent = v.lent) (hlive : ∀ v, (f v).live = v.live)
    (howned : ∀ v, (f v).owned = v.owned) : (world.modifyView j f).Calm stack := by
  intro k u hu
  rw [World.modifyView, List.getElem?_modify] at hu
  obtain ⟨v, hview, rfl⟩ := Option.map_eq_some_iff.mp hu
  by_cases hk : j = k
  · rw [if_pos hk, hlent, hlive, howned]
    exact h k v hview
  · rw [if_neg hk]
    exact h k v hview

theorem Calm.push {stack : List (Frame α β)} (frame : Frame α β) (h : world.Calm stack) :
    world.Calm (frame :: stack) := by
  intro j v hview
  refine (h j v hview).imp_right fun hheld hlive ↦ (hheld hlive).imp_right fun hany ↦ ?_
  rw [List.any_cons, hany, Bool.or_true]

/-- Assumes: the frame on top holds no view. -/
theorem Calm.pop {stack : List (Frame α β)} {frame : Frame α β} (h : world.Calm (frame :: stack))
    (hholds : ∀ j, frame.holds j = false) : world.Calm stack := by
  intro j v hview
  refine (h j v hview).imp_right fun hheld hlive ↦ (hheld hlive).imp_right fun hany ↦ ?_
  rwa [List.any_cons, hholds, Bool.false_or] at hany

variable {answers : Nat → List α → β} {stack : List (Frame α β)}

theorem Calm.takeIn (h : world.Calm stack) (slot : Nat) (event : Event α) :
    (world.takeIn answers j slot event).Calm stack := by
  unfold World.takeIn
  split
  case h_1 => exact h
  case h_2 v hfound =>
    obtain ⟨hview, -⟩ := Option.filter_eq_some_iff.mp hfound
    have hset : (world.setView j (v.takeIn answers slot event)).Calm stack := by
      apply h.setView hview
      · exact View.lent_takeIn slot event v
      · exact View.live_takeIn slot event v
      · exact View.owned_takeIn slot event v
    dsimp only
    split
    · exact hset
    · exact hset

theorem Calm.catchUp (h : world.Calm stack) : (world.catchUp answers j).Calm stack := by
  unfold World.catchUp
  split
  case h_1 => exact h
  case h_2 v hfound =>
    obtain ⟨hview, -⟩ := Option.filter_eq_some_iff.mp hfound
    apply h.setView hview
    · rw [View.lent_flushed]
    · rw [View.live_flushed]
    · rw [View.owned_flushed]

theorem sources_takeIn (slot : Nat) (event : Event α) :
    (world.takeIn answers j slot event).sources = world.sources := by
  unfold World.takeIn
  split
  · rfl
  · dsimp only
    split <;> rfl

theorem depth_takeIn (slot : Nat) (event : Event α) :
    (world.takeIn answers j slot event).depth = world.depth := by
  unfold World.takeIn
  split
  · rfl
  · dsimp only
    split <;> rfl

theorem deferred_takeIn (slot : Nat) (event : Event α) :
    world.deferred ⊆ (world.takeIn answers j slot event).deferred := by
  unfold World.takeIn
  split
  · exact List.Subset.refl _
  · dsimp only
    split
    · exact List.subset_append_left _ _
    · exact List.Subset.refl _

/-- A view that begins to wait is put on the list. -/
theorem mem_deferred_takeIn (slot : Nat) (event : Event α) (hview : world.views[j]? = some v)
    (hlive : v.live) (hdisposed : v.disposed = false)
    (hscheduled : (v.takeIn answers slot event).scheduled) :
    v.scheduled ∨ j ∈ (world.takeIn answers j slot event).deferred := by
  rw [View.scheduled_takeIn slot event hdisposed, Bool.or_eq_true] at hscheduled
  cases hs : v.scheduled with
  | true => exact .inl rfl
  | false =>
    have hloaded := hscheduled.resolve_left (by simp [hs])
    right
    simp only [World.takeIn, liveView?_eq hview hlive, hloaded, hdisposed, hs]
    exact List.mem_append_right _ List.mem_cons_self

theorem views_takeIn_of_ne (slot : Nat) (event : Event α) (hne : j ≠ i) :
    (world.takeIn answers j slot event).views[i]? = world.views[i]? := by
  unfold World.takeIn
  split
  · rfl
  · dsimp only
    split <;> exact getElem?_setView_of_ne hne

theorem views_takeIn_self (slot : Nat) (event : Event α) (hview : world.views[j]? = some v)
    (hlive : v.live) :
    (world.takeIn answers j slot event).views[j]? = some (v.takeIn answers slot event) := by
  obtain ⟨hj, -⟩ := List.getElem?_eq_some_iff.mp hview
  simp only [World.takeIn, liveView?_eq hview hlive]
  split <;> exact getElem?_setView_self hj

theorem sources_catchUp : (world.catchUp answers j).sources = world.sources := by
  unfold World.catchUp
  split <;> rfl

theorem depth_catchUp : (world.catchUp answers j).depth = world.depth := by
  unfold World.catchUp
  split <;> rfl

theorem deferred_catchUp : (world.catchUp answers j).deferred = world.deferred := by
  unfold World.catchUp
  split <;> rfl

theorem views_catchUp_of_ne (hne : j ≠ i) :
    (world.catchUp answers j).views[i]? = world.views[i]? := by
  unfold World.catchUp
  split
  · rfl
  · exact getElem?_setView_of_ne hne

theorem views_catchUp_self (hview : world.views[j]? = some v) (hlive : v.live) :
    (world.catchUp answers j).views[j]? = some ({ v with scheduled := false }.flushed answers) := by
  obtain ⟨hj, -⟩ := List.getElem?_eq_some_iff.mp hview
  simp only [World.catchUp, liveView?_eq hview hlive]
  exact getElem?_setView_self hj

theorem schedule_setView :
    (world.setView j v).schedule j =
      { world.setView j { v with scheduled := true } with deferred := world.deferred ++ [j] } := by
  rw [← modifyView_setView fun v ↦ { v with scheduled := true }]
  rfl

end SetView

end World

namespace Machine

/-! ### Playing on -/

/-- What a user that only records does: it ends a callback at once, and composes by a function. -/
def reply (answers : Nat → List α → β) (m : Machine α β) : Move α β :=
  match m.control with
  | .user (.called (.compose key inputs)) => .request (.compose (answers key inputs))
  | .user (.called _) => .request .finish
  | _ => .advance

/-- The move is that of a user that only records, or a step of the core. -/
def Records (answers : Nat → List α → β) (m : Machine α β) (move : Move α β) : Prop :=
  move = m.reply answers

/-- While a user only records, the machine gets on to another one, and meanwhile the listener of a
view hears these events. -/
def Tells (answers : Nat → List α → β) (view : ViewId) (ticket : Nat) (m : Machine α β)
    (events : List (ViewEvent β)) (m' : Machine α β) : Prop :=
  ∃ moves, Along (Records answers) moves m ∧ m.run moves = m' ∧
    ViewNotice.heardBy ticket (historyOf view (m.history moves)) = events

/-- What the listener hears when the events are announced to listeners of a view. -/
def toldTo (view : ViewId) (ticket : Nat) (other : ViewId) (tickets : List Nat)
    (events : List (ViewEvent β)) : List (ViewEvent β) :=
  if other = view then events.flatMap (List.replicate (tickets.count ticket)) else []

section Tells

variable {answers : Nat → List α → β} {i j : ViewId} {ticket : Nat} {m m' m'' : Machine α β}
  {first events later : List (ViewEvent β)} {world : World α β} {stack : List (Frame α β)}
  {control : Control α β} {answer : Answer α β}

theorem Tells.refl (m : Machine α β) : Tells answers i ticket m [] m :=
  ⟨[], trivial, rfl, rfl⟩

theorem Tells.trans (hfirst : Tells answers i ticket m first m')
    (hlast : Tells answers i ticket m' later m'') :
    Tells answers i ticket m (first ++ later) m'' := by
  obtain ⟨moves, hmoves, rfl, rfl⟩ := hfirst
  obtain ⟨rest, hrest, rfl, rfl⟩ := hlast
  refine ⟨moves ++ rest, along_append.mpr ⟨hmoves, hrest⟩, run_append moves rest m, ?_⟩
  rw [history_append, historyOf_append, ViewNotice.heardBy_append]

/-- One move of a user that only records. -/
theorem Tells.next (hmove : m.move (m.reply answers) = m')
    (hheard : ViewNotice.heardBy ticket (historyOf i (m.notices (m.reply answers))) = events) :
    Tells answers i ticket m events m' := by
  refine ⟨[m.reply answers], ⟨rfl, trivial⟩, hmove, ?_⟩
  rw [history, history, List.append_nil]
  exact hheard

/-- One step of the core. -/
theorem Tells.resume (hmove : (⟨world, stack, .returning answer⟩ : Machine α β).resume answer = m')
    (hheard : ViewNotice.heardBy ticket (historyOf i
      ((⟨world, stack, .returning answer⟩ : Machine α β).resumeNotices answer)) = events) :
    Tells answers i ticket ⟨world, stack, .returning answer⟩ events m' :=
  .next hmove hheard

/-- Assumes: a listener is called in none of the notices. -/
theorem heardBy_eq_nil {notices : List (Notice α β)}
    (h : ∀ other t event, .ofView other (.heard t event) ∉ notices) :
    ViewNotice.heardBy ticket (historyOf i notices) = [] := by
  rw [ViewNotice.heardBy, List.filterMap_eq_nil_iff]
  intro notice hnotice
  cases notice with
  | heard t event =>
    obtain ⟨seen, hseen, hof⟩ := List.mem_filterMap.mp hnotice
    cases seen with
    | accepted source event => contradiction
    | ofView other notice =>
      by_cases hother : other = i
      · rw [Notice.of?, if_pos hother] at hof
        rw [Option.some.inj hof] at hseen
        exact absurd hseen (h other t event)
      · rw [Notice.of?, if_neg hother] at hof
        contradiction
  | _ => rfl

/-- A callback that records ends at once. -/
theorem tells_call {call : Call α β} {turn : Option (Target × Nat)}
    (hcall : ∀ key inputs, call ≠ .compose key inputs) :
    Tells answers i ticket ((⟨world, stack, control⟩ : Machine α β).call call turn) []
      ⟨world, stack, .returning .done⟩ := by
  cases call with
  | compose key inputs => exact absurd rfl (hcall key inputs)
  | _ => exact .next rfl rfl

/-- A composing callback answers at once. -/
theorem tells_compose (key : Nat) (inputs : List α) :
    Tells answers i ticket ((⟨world, stack, control⟩ : Machine α β).call (.compose key inputs)) []
      ⟨world, stack, .returning (.composed (answers key inputs))⟩ :=
  .next rfl rfl

theorem toldTo_nil (tickets : List Nat) :
    toldTo i ticket j tickets ([] : List (ViewEvent β)) = [] := by
  rw [toldTo]
  split <;> rfl

/-- Nobody hears what is announced to no listeners. -/
theorem toldTo_nobody (events : List (ViewEvent β)) : toldTo i ticket j [] events = [] := by
  rw [toldTo]
  split
  · simp
  · rfl

theorem toldTo_self (events : List (ViewEvent β)) : toldTo i ticket i [ticket] events = events := by
  rw [toldTo, if_pos rfl, List.count_singleton_self]
  exact List.flatMap_singleton' events

theorem toldTo_append (tickets : List Nat) :
    toldTo i ticket j tickets (first ++ later) =
      toldTo i ticket j tickets first ++ toldTo i ticket j tickets later := by
  unfold toldTo
  split
  · exact List.flatMap_append
  · rfl

/-- An event is announced to all these listeners. -/
theorem tells_announcing {tickets : List Nat} (event : ViewEvent β)
    (htickets : ∀ t ∈ tickets, (world.viewListener? j t).isSome) :
    Tells answers i ticket ⟨world, .announcing j event tickets :: stack, .returning answer⟩
      (toldTo i ticket j tickets [event]) ⟨world, stack, .returning .done⟩ := by
  induction tickets generalizing answer with
  | nil =>
    have hnone : toldTo i ticket j [] [event] = [] := by simp [toldTo]
    rw [hnone]
    exact .resume rfl rfl
  | cons t tickets ih =>
    obtain ⟨key, hkey⟩ := Option.isSome_iff_exists.mp (htickets t List.mem_cons_self)
    have hcall : Tells answers i ticket
        ⟨world, .announcing j event (t :: tickets) :: stack, .returning answer⟩
        (ViewNotice.heardBy ticket (historyOf i [(.ofView j (.heard t event) : Notice α β)]))
        ((⟨world, .announcing j event tickets :: stack, .returning answer⟩ : Machine α β).call
          (.viewEvent key event) (some (.view j, t))) := by
      apply Tells.resume
      · simp only [Machine.resume, hkey]
      · simp only [resumeNotices, hkey]
    have hrest : Tells answers i ticket
        ⟨world, .announcing j event tickets :: stack, .returning .done⟩
        (toldTo i ticket j tickets [event]) ⟨world, stack, .returning .done⟩ :=
      ih fun t' ht' ↦ htickets t' (List.mem_cons_of_mem t ht')
    have hall := (hcall.trans (tells_call (by simp))).trans hrest
    have hheard : toldTo i ticket j (t :: tickets) [event] =
        ViewNotice.heardBy ticket (historyOf i [(.ofView j (.heard t event) : Notice α β)]) ++ [] ++
          toldTo i ticket j tickets [event] := by
      by_cases hj : j = i
      · by_cases ht : t = ticket
        · simp [toldTo, historyOf, Notice.of?, ViewNotice.heardBy, hj, ht, List.replicate_succ]
        · simp [toldTo, historyOf, Notice.of?, ViewNotice.heardBy, hj, ht]
      · simp [toldTo, historyOf, Notice.of?, ViewNotice.heardBy, hj]
    rw [hheard]
    exact hall

theorem viewListener?_isSome {t : Nat} (ht : t ∈ world.viewTickets j) :
    (world.viewListener? j t).isSome := by
  rw [World.viewTickets] at ht
  rw [World.viewListener?]
  cases hview : world.views[j]? with
  | none =>
    rw [hview] at ht
    exact absurd ht List.not_mem_nil
  | some v =>
    rw [hview] at ht
    exact Registry.find?_isSome_of_mem_tickets ht

/-- All failures are announced, one after the other. -/
theorem tells_failing (errors : List SourceError) :
    ∃ last, Tells answers i ticket ⟨world, .failing j errors :: stack, .returning answer⟩
      (toldTo i ticket j (world.viewTickets j) (errors.map .failed))
      ⟨world, .failing j [] :: stack, .returning last⟩ := by
  induction errors generalizing answer with
  | nil =>
    refine ⟨answer, ?_⟩
    rw [List.map_nil, toldTo_nil]
    exact .refl _
  | cons error errors ih =>
    obtain ⟨last, hrest⟩ := ih
    have hfirst : Tells answers i ticket
        ⟨world, .failing j (error :: errors) :: stack, .returning answer⟩ []
        ⟨world, .announcing j (.failed error) (world.viewTickets j) :: .failing j errors :: stack,
          .returning .done⟩ :=
      .resume rfl rfl
    have hall := (hfirst.trans (tells_announcing _ fun t ht ↦ viewListener?_isSome ht)).trans hrest
    rw [List.nil_append, ← toldTo_append] at hall
    exact ⟨last, hall⟩

/-! ### What a view does with its news -/

variable {v : View α β}

theorem withWorld_setView (f : View α β → View α β) :
    (⟨world.setView j v, stack, control⟩ : Machine α β).withWorld (.modifyView j f) =
      ⟨world.setView j (f v), stack, control⟩ := by
  rw [← World.modifyView_setView f]
  rfl

/-- Assumes: no news arrived while the view was at work. -/
theorem settle_setView (hj : j < world.views.length) (hdirty : v.dirty = false) :
    (⟨world.setView j v, stack, control⟩ : Machine α β).settle j =
      ⟨world.setView j { v with composing := false }, stack, .returning .done⟩ := by
  simp only [settle, World.getElem?_setView_self hj]
  rw [if_neg (by simp [hdirty]), withWorld_setView]
  rfl

/-- Assumes: no news arrived while the view was at work. -/
theorem tells_becomeReady (value : β) (hj : j < world.views.length) (hdirty : v.dirty = false) :
    Tells answers i ticket ((⟨world.setView j v, stack, control⟩ : Machine α β).becomeReady j value)
      (toldTo i ticket j v.listeners.tickets [.ready value])
      ⟨world.setView j ({ v with composing := false }.becomeReady value), stack,
        .returning .done⟩ := by
  let ready := world.setView j (v.becomeReady value)
  have htickets : ready.viewTickets j = v.listeners.tickets := World.viewTickets_setView hj
  have hstart : (⟨world.setView j v, stack, control⟩ : Machine α β).becomeReady j value =
      ⟨ready, .announcing j (.ready value) v.listeners.tickets :: .settling j :: stack,
        .returning .done⟩ := by
    rw [becomeReady, withWorld_setView, ← htickets]
    rfl
  have hannounced : Tells answers i ticket
      ⟨ready, .announcing j (.ready value) v.listeners.tickets :: .settling j :: stack,
        .returning .done⟩
      (toldTo i ticket j v.listeners.tickets [.ready value])
      ⟨ready, .settling j :: stack, .returning .done⟩ :=
    tells_announcing _ fun t ht ↦ viewListener?_isSome (htickets ▸ ht)
  have hsettled : Tells answers i ticket ⟨ready, .settling j :: stack, .returning .done⟩ []
      ⟨world.setView j ({ v with composing := false }.becomeReady value), stack,
        .returning .done⟩ := by
    refine .resume ?_ rfl
    exact settle_setView hj hdirty
  rw [hstart, ← List.append_nil (toldTo i ticket j v.listeners.tickets [.ready value])]
  exact hannounced.trans hsettled

/-- The last step of a view that goes through its news: a value is composed if one is due. Assumes:
no news arrived while the view was at work, and its values are not lent. -/
theorem tells_composeIfDue (hj : j < world.views.length) (hdirty : v.dirty = false)
    (hlent : v.lent = false) :
    Tells answers i ticket ((⟨world.setView j v, stack, control⟩ : Machine α β).composeIfDue j)
      (toldTo i ticket j v.listeners.tickets ((v.dueValue? answers).toList.map .ready))
      ⟨world.setView j (v.composed answers), stack, .returning .done⟩ := by
  by_cases hdue : v.isDue
  · have hstale : (v.stale && !v.allLoaded) = false := by
      rw [View.isDue, Bool.and_eq_true] at hdue
      simp [hdue.2]
    cases hvalues : v.cachedValues? with
    | none =>
      have hstart : (⟨world.setView j v, stack, control⟩ : Machine α β).composeIfDue j =
          (⟨world.setView j { v with stale := false }, stack, control⟩ : Machine α β).settle j := by
        simp only [composeIfDue, World.getElem?_setView_self hj, withWorld_setView, hdue, hvalues,
          if_true]
      have hvalue : v.dueValue? answers = none := by simp [View.dueValue?, hvalues]
      have hcomposed : v.composed answers = { v with stale := false, composing := false } := by
        simp only [View.composed, hvalue, hstale]
      rw [hstart, hvalue, hcomposed, Option.toList_none, List.map_nil, toldTo_nil,
        settle_setView (v := { v with stale := false }) hj hdirty]
      exact .refl _
    | some inputs =>
      have hvalue : v.dueValue? answers = some (v.composer.apply answers inputs) := by
        simp [View.dueValue?, hdue, hvalues]
      have hcomposed : v.composed answers =
          { v with stale := false, composing := false }.becomeReady
            (v.composer.apply answers inputs) := by
        simp only [View.composed, hvalue, hstale]
      rw [hvalue, hcomposed]
      have hcomposers : (∃ compose, v.composer = .direct compose) ∨
          ∃ key, v.composer = .callback key := by
        cases v.composer <;> simp
      obtain ⟨compose, hcomposer⟩ | ⟨key, hcomposer⟩ := hcomposers
      · have happly : v.composer.apply answers inputs = compose inputs := by
          rw [hcomposer]
          rfl
        have hstart : (⟨world.setView j v, stack, control⟩ : Machine α β).composeIfDue j =
            (⟨world.setView j { v with stale := false }, stack, control⟩ :
              Machine α β).becomeReady j (compose inputs) := by
          simp only [composeIfDue, World.getElem?_setView_self hj, withWorld_setView, hdue, hvalues,
            hcomposer, if_true]
        rw [hstart, happly]
        exact tells_becomeReady (v := { v with stale := false }) _ hj hdirty
      · have happly : v.composer.apply answers inputs = answers key inputs := by
          rw [hcomposer]
          rfl
        have hstart : (⟨world.setView j v, stack, control⟩ : Machine α β).composeIfDue j =
            (⟨world.setView j { v with stale := false, lent := true }, .composing j :: stack,
              control⟩ : Machine α β).call (.compose key inputs) := by
          simp only [composeIfDue, World.getElem?_setView_self hj, withWorld_setView, hdue, hvalues,
            hcomposer, if_true]
          rfl
        have hback : { v with stale := false, lent := false } = { v with stale := false } := by
          rw [← hlent]
        have hanswered : Tells answers i ticket
            ⟨world.setView j { v with stale := false, lent := true }, .composing j :: stack,
              .returning (.composed (answers key inputs))⟩ []
            ((⟨world.setView j { v with stale := false }, stack,
              .returning (.composed (answers key inputs))⟩ : Machine α β).becomeReady j
                (answers key inputs)) := by
          refine .resume ?_ (heardBy_eq_nil ?_)
          · simp only [Machine.resume, withWorld_setView]
            rw [hback]
          · simp [resumeNotices, World.getElem?_setView_self hj]
        rw [hstart, happly]
        exact ((tells_compose key inputs).trans hanswered).trans
          (tells_becomeReady (v := { v with stale := false }) _ hj hdirty)
  · have hstale : (v.stale && !v.allLoaded) = v.stale := by
      rw [View.isDue, Bool.and_eq_true, not_and] at hdue
      cases hs : v.stale <;> simp_all
    have hvalue : v.dueValue? answers = none := by simp [View.dueValue?, hdue]
    have hcomposed : v.composed answers = { v with composing := false } := by
      simp only [View.composed, hvalue, hstale]
    have hstart : (⟨world.setView j v, stack, control⟩ : Machine α β).composeIfDue j =
        (⟨world.setView j v, stack, control⟩ : Machine α β).settle j := by
      simp only [composeIfDue, World.getElem?_setView_self hj, hdue, Bool.false_eq_true, if_false]
    rw [hstart, hvalue, hcomposed, settle_setView hj hdirty, Option.toList_none, List.map_nil,
      toldTo_nil]
    exact .refl _

theorem composeNotices_quiet (other : ViewId) (t : Nat) (event : ViewEvent β) (m : Machine α β) :
    .ofView other (.heard t event) ∉ m.composeNotices j := by
  unfold composeNotices
  split
  · simp
  · split
    · split <;> simp
    · simp

/-- A view goes through its news. Assumes: its values are not lent. -/
theorem tells_flush (hj : j < world.views.length) (hlent : v.lent = false) :
    Tells answers i ticket ((⟨world.setView j v, stack, control⟩ : Machine α β).flush j)
      (toldTo i ticket j v.listeners.tickets (v.flushTold answers))
      ⟨world.setView j (v.flushed answers), stack, .returning .done⟩ := by
  by_cases hcomposing : v.composing
  · have htold : v.flushTold answers = [] := by simp [View.flushTold, hcomposing]
    have hstart : (⟨world.setView j v, stack, control⟩ : Machine α β).flush j =
        ⟨world.setView j { v with dirty := true }, stack, .returning .done⟩ := by
      simp only [flush, World.getElem?_setView_self hj, if_pos hcomposing, withWorld_setView]
      rfl
    rw [hstart, htold, toldTo_nil, View.flushed, if_pos hcomposing]
    exact .refl _
  · by_cases hdisposed : v.disposed
    · have htold : v.flushTold answers = [] := by simp [View.flushTold, hdisposed]
      have hstart : (⟨world.setView j v, stack, control⟩ : Machine α β).flush j =
          ⟨world.setView j { v with dirty := false }, stack, .returning .done⟩ := by
        have hidle : { v with dirty := false, composing := false } = { v with dirty := false } := by
          rw [← Bool.eq_false_iff.mpr hcomposing]
        simp only [flush, World.getElem?_setView_self hj, if_neg hcomposing, withWorld_setView,
          workOff, if_pos hdisposed]
        rw [hidle]
        rfl
      rw [hstart, htold, toldTo_nil, View.flushed, if_neg hcomposing, if_pos hdisposed]
      exact .refl _
    · let news : View α β := { v with composing := true, dirty := false, failures := [] }
      have htickets : (world.setView j news).viewTickets j = v.listeners.tickets :=
        World.viewTickets_setView hj
      have htold : v.flushTold answers =
          v.failures.map .failed ++ (v.dueValue? answers).toList.map .ready := by
        simp [View.flushTold, hcomposing, hdisposed]
      have hstart : (⟨world.setView j v, stack, control⟩ : Machine α β).flush j =
          ⟨world.setView j news, .failing j v.failures :: stack, .returning .done⟩ := by
        simp only [flush, World.getElem?_setView_self hj, if_neg hcomposing, withWorld_setView,
          workOff, if_neg hdisposed]
        rfl
      obtain ⟨last, hfailures⟩ : ∃ last, Tells answers i ticket
          ⟨world.setView j news, .failing j v.failures :: stack, .returning .done⟩
          (toldTo i ticket j ((world.setView j news).viewTickets j) (v.failures.map .failed))
          ⟨world.setView j news, .failing j [] :: stack, .returning last⟩ :=
        tells_failing v.failures
      have hturn : Tells answers i ticket
          ⟨world.setView j news, .failing j [] :: stack, .returning last⟩ []
          ((⟨world.setView j news, stack, .returning last⟩ : Machine α β).composeIfDue j) :=
        .resume rfl (heardBy_eq_nil fun other t event ↦ composeNotices_quiet other t event _)
      rw [htickets] at hfailures
      rw [hstart, htold, toldTo_append, View.flushed, if_neg hcomposing, if_neg hdisposed]
      exact hfailures.trans (hturn.trans (tells_composeIfDue (v := news) hj rfl hlent))

/-! ### What the core does with the views of others -/

/-- A view that is owned or held stays when it is let go. -/
theorem release_eq (hcalm : world.Calm stack) :
    (⟨world, stack, control⟩ : Machine α β).release j = ⟨world, stack, control⟩ := by
  unfold release
  split
  case h_1 v hfound =>
    obtain ⟨hview, hlive⟩ := Option.filter_eq_some_iff.mp hfound
    rw [if_pos]
    rw [Bool.or_eq_true]
    exact (hcalm j v hview).2 hlive
  case h_2 => rfl

theorem tells_holding (hcalm : world.Calm stack) :
    Tells answers i ticket ⟨world, .holding j :: stack, .returning answer⟩ []
      ⟨world, stack, .returning answer⟩ := by
  refine .resume ?_ rfl
  simp only [Machine.resume, release_eq hcalm]
  rfl

/-- Inside a tick, an input of a view hears an event. -/
theorem tells_hear (slot : Nat) (event : Event α) (hcalm : world.Calm stack)
    (htick : world.inTick) (hview : world.views[j]? = some v) (hlive : v.live) :
    Tells answers i ticket ((⟨world, stack, control⟩ : Machine α β).hear j slot event)
      (toldTo i ticket j v.listeners.tickets (v.takeInTold answers slot event))
      ⟨world.takeIn answers j slot event, stack, .returning .done⟩ := by
  obtain ⟨hj, -⟩ := List.getElem?_eq_some_iff.mp hview
  have hlent : v.lent = false := (hcalm j v hview).1
  let heard := world.setView j (v.absorb slot event)
  have hset : world.setView j v = world := World.setView_of_view hview
  have hstart : (⟨world.setView j v, stack, control⟩ : Machine α β).hear j slot event =
      if v.disposed then ⟨heard, .holding j :: stack, .returning .done⟩
      else
        match event with
        | .pending => ⟨heard, .holding j :: stack, .returning .done⟩
        | .loaded _ => (⟨heard, .holding j :: stack, control⟩ : Machine α β).requestCompose j
        | .failed _ => (⟨heard, .holding j :: stack, control⟩ : Machine α β).flush j := by
    have hfound : (world.setView j v).liveView? j = some v :=
      World.liveView?_eq (World.getElem?_setView_self hj) hlive
    simp only [hear, hfound, hlent, Bool.false_and]
    rw [if_neg (by simp)]
    simp only [push, withWorld_setView]
    rfl
  rw [hset] at hstart
  rw [hstart, ← List.append_nil (toldTo _ _ _ _ _)]
  refine Tells.trans ?_ (tells_holding (j := j) (hcalm.takeIn slot event))
  simp only [World.takeIn, World.liveView?_eq hview hlive]
  cases hdisposed : v.disposed with
  | true =>
    obtain ⟨htakeIn, htold⟩ := View.takeIn_of_disposed answers slot event hdisposed
    rw [htold, toldTo_nil, htakeIn, if_pos rfl, if_neg (by simp)]
    exact .refl _
  | false =>
    rw [if_neg (by simp)]
    cases event with
    | pending =>
      obtain ⟨htakeIn, htold⟩ := View.takeIn_pending answers slot hdisposed
      rw [htold, toldTo_nil, htakeIn, if_neg (by simp [Event.isLoaded, Event.value?])]
      exact .refl _
    | loaded value =>
      obtain ⟨htakeIn, htold⟩ := View.takeIn_loaded answers slot value hdisposed
      have hscheduled : (v.absorb slot (.loaded value)).scheduled = v.scheduled := by
        rw [View.absorb_loaded value hdisposed]
      have hrequested : (⟨heard, .holding j :: stack, control⟩ : Machine α β).requestCompose j =
          if v.scheduled then ⟨heard, .holding j :: stack, .returning .done⟩
          else ⟨heard.schedule j, .holding j :: stack, .returning .done⟩ := by
        have hin : heard.inTick = true := htick
        simp only [requestCompose, heard, World.getElem?_setView_self hj, hscheduled]
        rw [if_neg (by simpa [heard] using hin)]
        rfl
      rw [htold, toldTo_nil, htakeIn]
      show Tells answers i ticket ((⟨heard, .holding j :: stack, control⟩ :
        Machine α β).requestCompose j) [] _
      rw [hrequested]
      cases hs : v.scheduled with
      | true =>
        have hsame : { v.absorb slot (.loaded value) with scheduled := true } =
            v.absorb slot (.loaded value) := by
          rw [← hs, ← hscheduled]
        rw [hsame, if_pos rfl, if_neg (by simp)]
        exact .refl _
      | false =>
        rw [if_neg (by simp), if_pos (by simp [Event.isLoaded, Event.value?])]
        rw [World.schedule_setView]
        exact .refl _
    | failed error =>
      obtain ⟨htakeIn, htold⟩ := View.takeIn_failed answers slot error hdisposed
      rw [htold, htakeIn, if_neg (by simp [Event.isLoaded, Event.value?])]
      rw [← View.listeners_absorb slot (.failed error) v]
      exact tells_flush hj (by rw [View.lent_absorb, hlent])

/-- Inside a tick, an input of another view hears an event. -/
theorem tells_hear_of_ne (slot : Nat) (event : Event α) (hcalm : world.Calm stack)
    (htick : world.inTick) (hne : j ≠ i) :
    Tells answers i ticket ((⟨world, stack, control⟩ : Machine α β).hear j slot event) []
      ⟨world.takeIn answers j slot event, stack, .returning .done⟩ := by
  cases hfound : world.liveView? j with
  | none =>
    simp only [hear, World.takeIn, hfound]
    exact .refl _
  | some v =>
    obtain ⟨hview, hlive⟩ := Option.filter_eq_some_iff.mp hfound
    have hheard : Tells answers i ticket
        ((⟨world, stack, control⟩ : Machine α β).hear j slot event)
        (toldTo i ticket j v.listeners.tickets (v.takeInTold answers slot event))
        ⟨world.takeIn answers j slot event, stack, .returning .done⟩ :=
      tells_hear slot event hcalm htick hview hlive
    rwa [toldTo, if_neg hne] at hheard

/-- A view that was put off composes. -/
theorem tells_runDeferred (hcalm : world.Calm stack) (hview : world.views[j]? = some v)
    (hlive : v.live) :
    Tells answers i ticket ((⟨world, stack, control⟩ : Machine α β).runDeferred j)
      (toldTo i ticket j v.listeners.tickets ({ v with scheduled := false }.flushTold answers))
      ⟨world.catchUp answers j, stack, .returning .done⟩ := by
  obtain ⟨hj, -⟩ := List.getElem?_eq_some_iff.mp hview
  have hset : world.setView j v = world := World.setView_of_view hview
  have hstart : (⟨world.setView j v, stack, control⟩ : Machine α β).runDeferred j =
      (⟨world.setView j { v with scheduled := false }, .holding j :: stack, control⟩ :
        Machine α β).flush j := by
    have hfound : (world.setView j v).liveView? j = some v :=
      World.liveView?_eq (World.getElem?_setView_self hj) hlive
    simp only [runDeferred, hfound, push, withWorld_setView]
  have hcatchUp : world.catchUp answers j =
      world.setView j ({ v with scheduled := false }.flushed answers) := by
    rw [World.catchUp, World.liveView?_eq hview hlive]
  rw [hset] at hstart
  rw [hstart, ← List.append_nil (toldTo _ _ _ _ _)]
  refine Tells.trans ?_ (tells_holding (j := j) hcalm.catchUp)
  rw [hcatchUp]
  exact tells_flush (v := { v with scheduled := false }) hj (hcalm j v hview).1

/-- Another view that was put off composes. -/
theorem tells_runDeferred_of_ne (hcalm : world.Calm stack) (hne : j ≠ i) :
    Tells answers i ticket ((⟨world, stack, control⟩ : Machine α β).runDeferred j) []
      ⟨world.catchUp answers j, stack, .returning .done⟩ := by
  cases hfound : world.liveView? j with
  | none =>
    simp only [runDeferred, World.catchUp, hfound]
    exact .refl _
  | some v =>
    obtain ⟨hview, hlive⟩ := Option.filter_eq_some_iff.mp hfound
    have hcaughtUp : Tells answers i ticket
        ((⟨world, stack, control⟩ : Machine α β).runDeferred j)
        (toldTo i ticket j v.listeners.tickets ({ v with scheduled := false }.flushTold answers))
        ⟨world.catchUp answers j, stack, .returning .done⟩ :=
      tells_runDeferred hcalm hview hlive
    rwa [toldTo, if_neg hne] at hcaughtUp

end Tells

end Machine

end LiveRecord.Flow
