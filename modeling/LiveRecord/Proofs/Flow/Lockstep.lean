import Mathlib.Data.List.Forall2
import LiveRecord.Proofs.Flow.Footprint
import LiveRecord.Proofs.Flow.Restacking

/-!
# Machines in lockstep

The machine with an observer does what the machine without it does, under the ids that things have
there, as long as it is not the observer's turn (`Footprint.Follows.move`).
-/

set_option autoImplicit false

namespace LiveRecord.Flow

variable {α β : Type}

namespace Footprint

variable (f : Footprint)

/-! ### What the user says and hears -/

def answer : Answer α β → Answer α β
  | .subscribed handle => .subscribed (f.handles.skip handle)
  | .built view => .built (f.views.skip view)
  | answer => answer

def heard : Heard α β → Heard α β
  | .answered answer => .answered (f.answer answer)
  | heard => heard

def control : Control α β → Control α β
  | .user heard => .user (f.heard heard)
  | .returning answer => .returning (f.answer answer)
  | .unwinding message => .unwinding message

def request : Request α β → Request α β
  | .subscribe target key => .subscribe (f.target target) key
  | .cancel handle owned => .cancel (f.handles.skip handle) (f.belongings owned)
  | .detach handle => .detach (f.handles.skip handle)
  | .dispose view => .dispose (f.views.skip view)
  | .dropView view => .dropView (f.views.skip view)
  | request => request

def move : Move α β → Move α β
  | .request request => .request (f.request request)
  | .advance => .advance

def viewNotice (view : ViewId) : ViewNotice α β → ViewNotice α β
  | .heard ticket event => .heard (f.ticket (.view view) ticket) event
  | notice => notice

def notice : Notice α β → Notice α β
  | .accepted source event => .accepted source event
  | .ofView view notice => .ofView (f.views.skip view) (f.viewNotice view notice)

/-! ### Frames and machines -/

/-- The second frame is the first one under its ids, but for what it has to do for an observer. -/
inductive Carries (f : Footprint) : Frame α β → Frame α β → Prop
  | calling (call : Call α β) (turn : Option (Target × Nat)) :
      Carries f (.calling call turn) (.calling call (turn.map f.turn))
  | closing (answer : Answer α β) : Carries f (.closing answer) (.closing (f.answer answer))
  | draining {views views' : List ViewId} (answer : Answer α β) (h : f.views.Hosts views views') :
      Carries f (.draining views answer) (.draining views' (f.answer answer))
  | delivering (source : SourceId) (event : Event α) {tickets tickets' : List Nat}
      (h : (f.tickets (.source source)).Hosts tickets tickets') :
      Carries f (.delivering source event tickets) (.delivering source event tickets')
  | announcing (view : ViewId) (event : ViewEvent β) {tickets tickets' : List Nat}
      (h : (f.tickets (.view (f.views.skip view))).Hosts tickets tickets') :
      Carries f (.announcing view event tickets) (.announcing (f.views.skip view) event tickets')
  | failing (view : ViewId) (errors : List SourceError) :
      Carries f (.failing view errors) (.failing (f.views.skip view) errors)
  | composing (view : ViewId) : Carries f (.composing view) (.composing (f.views.skip view))
  | settling (view : ViewId) : Carries f (.settling view) (.settling (f.views.skip view))
  | holding (view : ViewId) : Carries f (.holding view) (.holding (f.views.skip view))
  | subscribing (target : Target) (ticket : Nat) :
      Carries f (.subscribing target ticket)
        (.subscribing (f.target target) (f.ticket target ticket))
  | connecting (view : ViewId) (inputs : List (SourceId × Nat)) :
      Carries f (.connecting view inputs) (.connecting (f.views.skip view) inputs)
  | building (view : ViewId) : Carries f (.building view) (.building (f.views.skip view))
  | feeding (feed : Feed α) : Carries f (.feeding feed) (.feeding feed)

/-- The second machine has the world and the stack of the first one, but for what an observer has
brought. -/
structure Mirrors (o : Observer α β) (f : Footprint) (m m' : Machine α β) : Prop where
  world : f.Hosts o m.world m'.world
  stack : List.Forall₂ f.Carries m.stack m'.stack

/-- The second machine is where the first one is. -/
structure Agrees (o : Observer α β) (f : Footprint) (m m' : Machine α β) : Prop
    extends f.Mirrors o m m' where
  control : m'.control = f.control m.control

variable {f} {o : Observer α β} {m m' : Machine α β}

theorem holds_of_carries {frame frame' : Frame α β} (h : f.Carries frame frame') (j : ViewId) :
    frame'.holds (f.views.skip j) = frame.holds j := by
  have hsame (i : ViewId) : (f.views.skip i == f.views.skip j) = (i == j) :=
    f.views.skip_injective.beq_eq
  cases h with
  | holding view | building view => exact hsame view
  | subscribing target ticket =>
    cases target with
    | source source => rfl
    | view view => exact hsame view
  | _ => rfl

theorem keeps_of_carries {frame frame' : Frame α β} (h : f.Carries frame frame')
    (target : Target) (ticket : Nat) :
    frame'.keeps (f.target target) (f.ticket target ticket) = frame.keeps target ticket := by
  have hpass (other : Target) {tickets tickets' : List Nat}
      (htickets : (f.tickets (f.target other)).Hosts tickets tickets') :
      (f.target target == f.target other && tickets'.contains (f.ticket target ticket)) =
        (target == other && tickets.contains ticket) := by
    rw [f.target_injective.beq_eq]
    by_cases hother : target = other
    · subst hother
      rw [Footprint.ticket, htickets.contains]
    · rw [beq_false_of_ne hother, Bool.false_and, Bool.false_and]
  cases h with
  | calling call turn =>
    cases turn with
    | none => rfl
    | some turn =>
      show (some (f.turn turn) == some (f.turn (target, ticket))) = (some turn == _)
      rw [Option.some_beq_some, Option.some_beq_some, f.turn_injective.beq_eq]
  | delivering source event htickets => exact hpass (.source source) htickets
  | announcing view event htickets => exact hpass (.view view) htickets
  | _ => rfl

theorem any_keeps_of_carries {stack stack' : List (Frame α β)}
    (h : List.Forall₂ f.Carries stack stack') (target : Target) (ticket : Nat) :
    stack'.any (·.keeps (f.target target) (f.ticket target ticket)) =
      stack.any (·.keeps target ticket) := by
  induction h with
  | nil => rfl
  | cons hframe _ ih => rw [List.any_cons, List.any_cons, keeps_of_carries hframe, ih]

theorem any_holds_of_carries {stack stack' : List (Frame α β)}
    (h : List.Forall₂ f.Carries stack stack') (j : ViewId) :
    stack'.any (·.holds (f.views.skip j)) = stack.any (·.holds j) := by
  induction h with
  | nil => rfl
  | cons hframe _ ih => rw [List.any_cons, List.any_cons, holds_of_carries hframe, ih]

theorem contains_target (f : Footprint) (targets : List Target) (target : Target) :
    (targets.map f.target).contains (f.target target) = targets.contains target := by
  rw [Bool.eq_iff_iff, List.contains_iff_mem, List.contains_iff_mem,
    List.mem_map_of_injective f.target_injective]

namespace Mirrors

theorem withWorld (h : f.Mirrors o m m') {g g' : World α β → World α β}
    (hworld : f.Hosts o (g m.world) (g' m'.world)) :
    f.Mirrors o (m.withWorld g) (m'.withWorld g') := ⟨hworld, h.stack⟩

/-- Assumes: a change that has nothing to do with the inputs and the listeners of a view. -/
theorem modifyFlags (h : f.Mirrors o m m') (j : ViewId) {g : View α β → View α β}
    (hview : ∀ v listeners, g (f.view v listeners) = f.view (g v) listeners)
    (hlisteners : ∀ v, (g v).listeners = v.listeners) :
    f.Mirrors o (m.withWorld (.modifyView j g)) (m'.withWorld (.modifyView (f.views.skip j) g)) :=
  h.withWorld (h.world.modifyFlags j hview hlisteners)

theorem push (h : f.Mirrors o m m') {frame frame' : Frame α β} (hframe : f.Carries frame frame') :
    f.Mirrors o (m.push frame) (m'.push frame') := ⟨h.world, .cons hframe h.stack⟩

theorem pop (h : f.Mirrors o m m') {frame : Frame α β} {below : List (Frame α β)}
    (hstack : m.stack = frame :: below) :
    ∃ frame' below', m'.stack = frame' :: below' ∧ f.Carries frame frame' ∧
      f.Mirrors o { m with stack := below } { m' with stack := below' } := by
  have hboth := h.stack
  rw [hstack, List.forall₂_cons_left_iff] at hboth
  obtain ⟨frame', below', hframe, hbelow, hstack'⟩ := hboth
  exact ⟨frame', below', hstack', hframe, h.world, hbelow⟩

theorem release (h : f.Mirrors o m m') (j : ViewId) :
    f.Mirrors o (m.release j) (m'.release (f.views.skip j)) := by
  unfold Machine.release
  rcases h.world.liveView? j with ⟨hv, hv'⟩ | ⟨v, listeners, hv, hv', -⟩
  · simp only [hv, hv']
    exact h
  · simp only [hv, hv', Footprint.view, any_holds_of_carries h.stack]
    split
    · exact h
    · exact h.withWorld (h.world.takeApart j)

theorem dropView (h : f.Mirrors o m m') (j : ViewId) :
    f.Mirrors o (m.dropView j) (m'.dropView (f.views.skip j)) :=
  release (h.modifyFlags j (g := fun v ↦ { v with owned := false }) (fun _ _ ↦ rfl) fun _ ↦ rfl) j

theorem frees (h : f.Mirrors o m m') (target : Target) (ticket : Nat) :
    m'.frees (f.target target) (f.ticket target ticket) = m.frees target ticket := by
  rw [Machine.frees, h.world.lists, any_keeps_of_carries h.stack, Machine.frees]

theorem letsGo (h : f.Mirrors o m m') (j : ViewId) :
    m'.letsGo (f.views.skip j) = m.letsGo j := by
  rw [Machine.letsGo, any_holds_of_carries h.stack, Machine.letsGo]
  rcases h.world.liveView? j with ⟨hv, hv'⟩ | ⟨v, listeners, hv, hv', -⟩
  · rw [hv, hv']
  · rw [hv, hv']
    rfl

theorem inputsIn (h : f.Mirrors o m m') (locked : List Target) (j : ViewId) :
    m'.inputsIn (locked.map f.target) (f.views.skip j) = (m.inputsIn locked j).map f.target := by
  unfold Machine.inputsIn
  rcases h.world.view? j with ⟨hv, hv'⟩ | ⟨v, listeners, hv, hv', -⟩
  · simp only [hv, hv', List.map_nil]
  · simp only [hv, hv', Footprint.view, List.map_map, List.filter_map, Function.comp_def]
    congr 1
    refine List.filter_congr fun input _ ↦ ?_
    exact contains_target f locked (.source input.1)

end Mirrors

namespace Agrees

theorem returning (h : f.Mirrors o m m') (answer : Answer α β) :
    f.Agrees o (m.returning answer) (m'.returning (f.answer answer)) :=
  ⟨⟨h.world, h.stack⟩, rfl⟩

theorem done (h : f.Mirrors o m m') : f.Agrees o (m.returning .done) (m'.returning .done) :=
  returning h .done

theorem tell (h : f.Mirrors o m m') (heard : Heard α β) :
    f.Agrees o (m.tell heard) (m'.tell (f.heard heard)) :=
  ⟨⟨h.world, h.stack⟩, rfl⟩

theorem call (h : f.Mirrors o m m') (call : Call α β) (turn : Option (Target × Nat)) :
    f.Agrees o (m.call call turn) (m'.call call (turn.map f.turn)) :=
  tell (h.push (.calling call turn)) (.called call)

theorem unwind (h : f.Mirrors o m m') (message : String) :
    f.Agrees o (m.unwind message) (m'.unwind message) :=
  ⟨⟨h.world, h.stack⟩, rfl⟩

/-! ### The operations of the core -/

theorem workOff (h : f.Mirrors o m m') (j : ViewId) :
    f.Agrees o (m.workOff j) (m'.workOff (f.views.skip j)) := by
  unfold Machine.workOff
  rcases h.world.view? j with ⟨hv, hv'⟩ | ⟨v, listeners, hv, hv', -⟩
  · simp only [hv, hv']
    exact done h
  · simp only [hv, hv', Footprint.view]
    split
    · exact done (h.modifyFlags j (fun _ _ ↦ rfl) fun _ ↦ rfl)
    · refine done (.push ?_ (.failing j v.failures))
      exact h.modifyFlags j (fun _ _ ↦ rfl) fun _ ↦ rfl

theorem flush (h : f.Mirrors o m m') (j : ViewId) :
    f.Agrees o (m.flush j) (m'.flush (f.views.skip j)) := by
  unfold Machine.flush
  rcases h.world.view? j with ⟨hv, hv'⟩ | ⟨v, listeners, hv, hv', -⟩
  · simp only [hv, hv']
    exact done h
  · simp only [hv, hv', Footprint.view]
    split
    · exact done (h.modifyFlags j (fun _ _ ↦ rfl) fun _ ↦ rfl)
    · refine workOff ?_ j
      exact h.modifyFlags j (fun _ _ ↦ rfl) fun _ ↦ rfl

theorem settle (h : f.Mirrors o m m') (j : ViewId) :
    f.Agrees o (m.settle j) (m'.settle (f.views.skip j)) := by
  unfold Machine.settle
  rcases h.world.view? j with ⟨hv, hv'⟩ | ⟨v, listeners, hv, hv', -⟩
  · simp only [hv, hv']
    exact done h
  · simp only [hv, hv', Footprint.view]
    split
    · exact workOff h j
    · exact done (h.modifyFlags j (fun _ _ ↦ rfl) fun _ ↦ rfl)

theorem requestCompose (h : f.Mirrors o m m') (j : ViewId) :
    f.Agrees o (m.requestCompose j) (m'.requestCompose (f.views.skip j)) := by
  unfold Machine.requestCompose
  rcases h.world.view? j with ⟨hv, hv'⟩ | ⟨v, listeners, hv, hv', -⟩
  · simp only [hv, hv']
    exact done h
  · have htick : m'.world.inTick = m.world.inTick := congrArg (decide <| 0 < ·) h.world.depth
    simp only [hv, hv', Footprint.view, htick]
    split
    · exact flush h j
    · split
      · exact done h
      · exact done (h.withWorld (h.world.schedule j))

theorem becomeReady (h : f.Mirrors o m m') (j : ViewId) (value : β) :
    f.Agrees o (m.becomeReady j value) (m'.becomeReady (f.views.skip j) value) := by
  have hready : f.Mirrors o (m.withWorld (.modifyView j (.becomeReady value)))
      (m'.withWorld (.modifyView (f.views.skip j) (.becomeReady value))) :=
    h.modifyFlags j (fun _ _ ↦ rfl) fun _ ↦ rfl
  exact done ((hready.push (.settling j)).push (.announcing j _ (hready.world.viewTickets j)))

theorem composeIfDue (h : f.Mirrors o m m') (j : ViewId) :
    f.Agrees o (m.composeIfDue j) (m'.composeIfDue (f.views.skip j)) := by
  unfold Machine.composeIfDue
  rcases h.world.view? j with ⟨hv, hv'⟩ | ⟨v, listeners, hv, hv', -⟩
  · simp only [hv, hv']
    exact done h
  · have hdue : (f.view v listeners).isDue = v.isDue := rfl
    have hvalues : (f.view v listeners).cachedValues? = v.cachedValues? := rfl
    have hcomposer : (f.view v listeners).composer = v.composer := rfl
    have hfresh : f.Mirrors o (m.withWorld (.modifyView j fun v ↦ { v with stale := false }))
        (m'.withWorld (.modifyView (f.views.skip j) fun v ↦ { v with stale := false })) :=
      h.modifyFlags j (fun _ _ ↦ rfl) fun _ ↦ rfl
    simp only [hv, hv', hdue, hvalues, hcomposer]
    split
    · cases v.cachedValues? with
      | none => exact settle hfresh j
      | some inputs =>
        cases v.composer with
        | direct compose => exact becomeReady hfresh j _
        | callback key =>
          refine call (.push ?_ (.composing j)) _ none
          exact hfresh.modifyFlags j (fun _ _ ↦ rfl) fun _ ↦ rfl
    · exact settle h j

theorem hear (h : f.Mirrors o m m') (j : ViewId) (slot : Nat) (event : Event α) :
    f.Agrees o (m.hear j slot event) (m'.hear (f.views.skip j) slot event) := by
  unfold Machine.hear
  rcases h.world.liveView? j with ⟨hv, hv'⟩ | ⟨v, listeners, hv, hv', -⟩
  · simp only [hv, hv']
    exact done h
  · have hheld := h.push (.holding j)
    have habsorbed := hheld.withWorld (hheld.world.absorb j slot event)
    simp only [hv, hv', Footprint.view]
    split
    · exact unwind hheld _
    · split
      · exact done habsorbed
      · cases event with
        | pending => exact done habsorbed
        | loaded value => exact requestCompose habsorbed j
        | failed error => exact flush habsorbed j

theorem runDeferred (h : f.Mirrors o m m') (j : ViewId) :
    f.Agrees o (m.runDeferred j) (m'.runDeferred (f.views.skip j)) := by
  unfold Machine.runDeferred
  rcases h.world.liveView? j with ⟨hv, hv'⟩ | ⟨v, listeners, hv, hv', -⟩
  · simp only [hv, hv']
    exact done h
  · simp only [hv, hv']
    refine flush ?_ j
    exact (h.push (.holding j)).modifyFlags j (fun _ _ ↦ rfl) fun _ ↦ rfl

theorem closeTick (h : f.Mirrors o m m') (answer : Answer α β) :
    f.Agrees o (m.closeTick answer) (m'.closeTick (f.answer answer)) := by
  obtain ⟨hviews, hworld⟩ := h.world.closeTick
  exact ⟨⟨hworld, .cons (.draining answer hviews) h.stack⟩, rfl⟩

theorem emit (h : f.Mirrors o m m') (i : SourceId) (event : Event α) :
    f.Agrees o (m.emit i event) (m'.emit i event) := by
  unfold Machine.emit
  rcases h.world.source? i with ⟨hs, hs'⟩ | ⟨s, listeners, hs, hs', -⟩
  · simp only [hs, hs']
    exact returning h .unknown
  · simp only [hs, hs']
    let publish : World α β → World α β := .modifySource i fun s ↦ { s with current := event }
    have hopen := h.withWorld h.world.openTick
    have hpublished : f.Mirrors o ((m.withWorld .openTick).withWorld publish)
        ((m'.withWorld .openTick).withWorld publish) :=
      hopen.withWorld (hopen.world.modifySource i fun _ _ hlisteners ↦ ⟨_, rfl, hlisteners⟩)
    split
    · exact returning h (.accepted false)
    · exact done ((hpublished.push (.closing (.accepted true))).push
        (.delivering i _ (hpublished.world.sourceTickets i)))

theorem connect (h : f.Mirrors o m m') (j : ViewId) (i : SourceId) (slot : Nat) :
    f.Agrees o (m.connect j i slot) (m'.connect (f.views.skip j) i slot) := by
  unfold Machine.connect
  rcases h.world.source? i with ⟨hs, hs'⟩ | ⟨s, listeners, hs, hs', hlisteners⟩
  · simp only [hs, hs']
    exact done h
  · simp only [hs, hs', hlisteners.next]
    have hregistered := h.withWorld (h.world.registerAtSource i (.input j slot))
    refine hear (hregistered.withWorld (hregistered.world.modifyView j ?_)) j slot s.current
    intro v listeners' hlisteners'
    refine ⟨listeners', ?_, hlisteners'⟩
    simp [Footprint.view, Footprint.input, Footprint.ticket, Footprint.target]

theorem build (h : f.Mirrors o m m') (sources : List SourceId) (composer : Composer α β) :
    f.Agrees o (m.build sources composer) (m'.build sources composer) := by
  have hnames := h.world.names_mapM sources
  unfold Machine.build
  cases hfound : sources.mapM fun source ↦ m.world.sources[source]? with
  | none =>
    rw [hfound, Option.map_none, Option.map_eq_none_iff] at hnames
    simp only [hnames]
    exact returning h .unknown
  | some found =>
    rw [hfound, Option.map_some, Option.map_eq_some_iff] at hnames
    obtain ⟨found', hfound', hsame⟩ := hnames
    have hlength : found'.length = found.length := by simpa using congrArg List.length hsame
    simp only [hfound', hsame, h.world.views.length, List.map_const', hlength]
    have hopen := h.withWorld h.world.openTick
    let new : View α β :=
      { label := labelOf (found.map (·.name)), composer, slots := List.replicate found.length {} }
    have hadded := hopen.withWorld (hopen.world.addView (rfl : new.inputs = []) rfl)
    exact done (((hadded.push (.building m.world.views.length)).push (.closing .done)).push
      (.connecting m.world.views.length sources.zipIdx))

theorem subscribe (h : f.Mirrors o m m') (target : Target) (key : Nat) :
    f.Agrees o (m.subscribe target key) (m'.subscribe (f.target target) key) := by
  cases target with
  | source i =>
    simp only [Machine.subscribe, Footprint.target]
    rcases h.world.source? i with ⟨hs, hs'⟩ | ⟨s, listeners, hs, hs', hlisteners⟩
    · simp only [hs, hs']
      exact returning h .unknown
    · simp only [hs, hs', hlisteners.next]
      have hregistered := h.withWorld (h.world.registerAtSource i (.callback key))
      exact call (hregistered.push (.subscribing (.source i) s.listeners.next)) _ none
  | view j =>
    simp only [Machine.subscribe, Footprint.target]
    rcases h.world.liveView? j with ⟨hv, hv'⟩ | ⟨v, listeners, hv, hv', -, -, hlisteners⟩
    · simp only [hv, hv']
      exact returning h .unknown
    · have hregistered := h.withWorld (h.world.registerAtView j key)
      have hpushed := hregistered.push (.subscribing (.view j) v.listeners.next)
      simp only [hv, hv', Footprint.view, hlisteners.next]
      cases v.status.event? with
      | none => exact done hpushed
      | some event => exact call hpushed _ none

theorem feed (h : f.Mirrors o m m') (feed : Feed α) : f.Agrees o (m.feed feed) (m'.feed feed) := by
  unfold Machine.feed
  cases feed.next with
  | stop progress => exact returning h (.polled progress)
  | emit event rest => exact emit (h.push (.feeding rest)) feed.source event

theorem release (h : f.Agrees o m m') (j : ViewId) :
    f.Agrees o (m.release j) (m'.release (f.views.skip j)) where
  toMirrors := h.toMirrors.release j
  control := by rw [Machine.control_release, Machine.control_release, h.control]

/-! ### What goes with a callback -/

theorem withWorld (h : f.Agrees o m m') {g g' : World α β → World α β}
    (hworld : f.Hosts o (g m.world) (g' m'.world)) :
    f.Agrees o (m.withWorld g) (m'.withWorld g') := ⟨h.toMirrors.withWorld hworld, h.control⟩

theorem dropView (h : f.Agrees o m m') (j : ViewId) :
    f.Agrees o (m.dropView j) (m'.dropView (f.views.skip j)) where
  toMirrors := h.toMirrors.dropView j
  control := by rw [Machine.dropView_control, Machine.dropView_control, h.control]

theorem refuse (h : f.Mirrors o m m') (target : Target) :
    f.Agrees o (m.refuse target) (m'.refuse (f.target target)) :=
  unwind (h.withWorld (h.world.strand target)) _

theorem foldl_refuse (h : f.Agrees o m m') (targets : List Target) :
    f.Agrees o (targets.foldl (fun m target ↦ m.refuse target) m)
      ((targets.map f.target).foldl (fun m target ↦ m.refuse target) m') := by
  induction targets generalizing m m' with
  | nil => exact h
  | cons target rest ih => exact ih (refuse h.toMirrors target)

theorem drop (h : f.Agrees o m m') (locked : List Target) (owned : Belongings) :
    f.Agrees o (m.drop locked owned) (m'.drop (locked.map f.target) (f.belongings owned)) := by
  induction owned generalizing locked m m' with
  | nothing => exact h
  | subscription handle owned rest ihowned ihrest =>
    have hleft := h.withWorld (h.world.cancel handle)
    simp only [Machine.drop, Footprint.belongings]
    refine ihrest ?_ locked
    cases hhandle : m.world.handles[handle]? with
    | none =>
      rw [h.world.handles.get_none hhandle]
      exact hleft
    | some found =>
      obtain ⟨_, hfound', rfl⟩ := h.world.handles.get handle found hhandle
      rw [hfound']
      obtain ⟨target, ticket, state⟩ := found
      cases state with
      | cancelled | detached => exact hleft
      | active =>
        simp only [Footprint.handle, contains_target, h.toMirrors.frees]
        split
        · exact refuse hleft.toMirrors target
        · split
          · exact ihowned hleft (target :: locked)
          · exact hleft
  | view view composer listeners rest ihcomposer ihlisteners ihrest =>
    have hleft := ihcomposer h locked
    have hunlocked : (locked.map f.target).filter (· != .view (f.views.skip view)) =
        (locked.filter (· != .view view)).map f.target := by
      rw [List.filter_map]
      congr 1
      refine List.filter_congr fun target _ ↦ ?_
      exact congrArg (!·) (f.target_injective.beq_eq (b := .view view))
    simp only [Machine.drop, Footprint.belongings, h.toMirrors.letsGo, hleft.toMirrors.inputsIn,
      hunlocked]
    refine ihrest ?_ locked
    split
    · exact ihlisteners (foldl_refuse (hleft.dropView view) _) _
    · exact h.dropView view

end Agrees

/-- What is asked of both machines alike is done in both, unless it asks for nothing. -/
theorem Mirrors.serve (h : f.Mirrors o m m') (request : Request α β) :
    f.Agrees o (m.serve request) (m'.serve (f.request request)) ∨
      m.serve request = m ∧ m'.serve (f.request request) = m' := by
  cases request with
  | newSource name =>
    have hadded := h.withWorld (h.world.addSource name)
    have hcreated := Agrees.returning hadded (.created m.world.sources.length)
    have hlength : m'.world.sources.length = m.world.sources.length := by
      rw [h.world.sources.length, Gap.skip_empty]
    simp only [Machine.serve, Footprint.request, Machine.newSource, hlength]
    exact .inl hcreated
  | emit source event => exact .inl (.emit h source event)
  | build sources composer => exact .inl (.build h sources composer)
  | subscribe target key => exact .inl (.subscribe h target key)
  | cancel handle owned =>
    exact .inl (Agrees.drop (.done h) [] (.subscription handle owned .nothing))
  | detach handle => exact .inl (.done (h.withWorld (h.world.detach handle)))
  | dispose view => exact .inl (.done (h.withWorld (h.world.dispose view)))
  | dropView view => exact .inl (.done (h.dropView view))
  | enterTick => exact .inl (.done (h.withWorld h.world.openTick))
  | leaveTick => exact .inl (.closeTick h .done)
  | abandonTick => exact .inl (.done (h.withWorld h.world.abandonTick))
  | poll feed => exact .inl (.feed h feed)
  | finish | compose value | raise message =>
    cases hstack : m.stack with
    | nil =>
      have hstack' : m'.stack = [] := List.forall₂_nil_left_iff.mp (hstack ▸ h.stack)
      exact .inr ⟨by simp only [Machine.serve, hstack], by
        simp only [Machine.serve, Footprint.request, hstack']⟩
    | cons frame below =>
      obtain ⟨frame', below', hstack', hframe, hbelow⟩ := h.pop hstack
      have hended : ∀ control, f.Agrees o { m with stack := below, control }
          { m' with stack := below', control := f.control control } := fun control ↦
        ⟨⟨hbelow.world, hbelow.stack⟩, rfl⟩
      cases hframe with
      | calling call turn =>
        cases call <;>
          first
          | exact .inl (by
              simp only [Machine.serve, Footprint.request, hstack, hstack']
              exact hended _)
          | exact .inr ⟨by simp only [Machine.serve, hstack], by
              simp only [Machine.serve, Footprint.request, hstack']⟩
      | _ =>
        exact .inr ⟨by simp only [Machine.serve, hstack], by
          simp only [Machine.serve, Footprint.request, hstack']⟩

/-! ### Steps of the core -/

/-- It is not the observer's turn: the frame on top does not go on with one of its ids. -/
def Poised (f : Footprint) : List (Frame α β) → Prop
  | .draining (view :: _) _ :: _ => f.views.has view = false
  | .delivering source _ (ticket :: _) :: _ => (f.tickets (.source source)).has ticket = false
  | .announcing view _ (ticket :: _) :: _ => (f.tickets (.view view)).has ticket = false
  | _ => True

end Footprint

/-- The frame goes through a list, whatever the frame above it answers. -/
def Frame.iterates : Frame α β → Bool
  | draining _ _ | delivering _ _ _ | announcing _ _ _ => true
  | _ => false

namespace Footprint

variable {f : Footprint} {o : Observer α β} {m m' : Machine α β}

/-- The answers on the way are the same, or nobody asks for them. -/
def Answers (f : Footprint) (stack : List (Frame α β)) (answer answer' : Answer α β) : Prop :=
  answer' = f.answer answer ∨ ∃ frame below, stack = frame :: below ∧ frame.iterates

theorem Answers.eq {frame : Frame α β} {below : List (Frame α β)} {answer answer' : Answer α β}
    (h : f.Answers (frame :: below) answer answer') (hframe : frame.iterates = false) :
    answer' = f.answer answer := by
  rcases h with heq | ⟨top, rest, hstack, htop⟩
  · exact heq
  · obtain ⟨rfl, rfl⟩ := List.cons.inj hstack
    rw [hframe] at htop
    contradiction

/-! #### One frame at a time -/

section Frames

variable {below below' : List (Frame α β)} {answer answer' : Answer α β}

/-- Assumes: it is not the turn of a view of the observer. -/
theorem Mirrors.resume_draining {views views' : List ViewId} {result : Answer α β}
    (hbelow : f.Mirrors o { m with stack := below } { m' with stack := below' })
    (hstack : m.stack = .draining views result :: below)
    (hstack' : m'.stack = .draining views' (f.answer result) :: below')
    (hviews : f.views.Hosts views views') (hpoised : f.Poised m'.stack) :
    f.Agrees o (m.resume answer) (m'.resume answer') := by
  rw [hstack'] at hpoised
  cases views' with
  | nil =>
    obtain rfl := hviews.eq_nil
    simp only [Machine.resume, hstack, hstack']
    exact .returning hbelow result
  | cons view' rest' =>
    obtain ⟨view, rest, rfl, rfl, hrest⟩ := hviews.of_cons hpoised
    simp only [Machine.resume, hstack, hstack']
    exact .runDeferred (hbelow.push (.draining result hrest)) view

/-- Assumes: it is not the turn of a ticket of the observer. -/
theorem Mirrors.resume_delivering {source : SourceId} {event : Event α} {tickets tickets' : List Nat}
    (h : f.Mirrors o m m')
    (hbelow : f.Mirrors o { m with stack := below } { m' with stack := below' })
    (hstack : m.stack = .delivering source event tickets :: below)
    (hstack' : m'.stack = .delivering source event tickets' :: below')
    (htickets : (f.tickets (.source source)).Hosts tickets tickets') (hpoised : f.Poised m'.stack) :
    f.Agrees o (m.resume answer) (m'.resume answer') := by
  rw [hstack'] at hpoised
  cases tickets' with
  | nil =>
    obtain rfl := htickets.eq_nil
    simp only [Machine.resume, hstack, hstack']
    exact .done hbelow
  | cons ticket' rest' =>
    obtain ⟨ticket, rest, rfl, rfl, hrest⟩ := htickets.of_cons hpoised
    have hnext : f.Mirrors o { m with stack := .delivering source event rest :: below }
        { m' with stack := .delivering source event rest' :: below' } :=
      hbelow.push (.delivering source event hrest)
    have hlistener := h.world.sourceListener? source ticket
    simp only [Footprint.ticket, Footprint.target] at hlistener
    simp only [Machine.resume, hstack, hstack', hlistener]
    cases m.world.sourceListener? source ticket with
    | none => exact .done hnext
    | some listener =>
      cases listener with
      | callback key => exact .call hnext _ (some (.source source, ticket))
      | input view slot => exact .hear hnext view slot event

/-- Assumes: it is not the turn of a ticket of the observer. -/
theorem Mirrors.resume_announcing {view : ViewId} {event : ViewEvent β} {tickets tickets' : List Nat}
    (h : f.Mirrors o m m')
    (hbelow : f.Mirrors o { m with stack := below } { m' with stack := below' })
    (hstack : m.stack = .announcing view event tickets :: below)
    (hstack' : m'.stack = .announcing (f.views.skip view) event tickets' :: below')
    (htickets : (f.tickets (.view (f.views.skip view))).Hosts tickets tickets')
    (hpoised : f.Poised m'.stack) : f.Agrees o (m.resume answer) (m'.resume answer') := by
  rw [hstack'] at hpoised
  cases tickets' with
  | nil =>
    obtain rfl := htickets.eq_nil
    simp only [Machine.resume, hstack, hstack']
    exact .done hbelow
  | cons ticket' rest' =>
    obtain ⟨ticket, rest, rfl, rfl, hrest⟩ := htickets.of_cons hpoised
    have hnext : f.Mirrors o { m with stack := .announcing view event rest :: below }
        { m' with stack := .announcing (f.views.skip view) event rest' :: below' } :=
      hbelow.push (.announcing view event hrest)
    have hlistener := h.world.viewListener? view ticket
    simp only [Footprint.ticket, Footprint.target] at hlistener
    simp only [Machine.resume, hstack, hstack', hlistener]
    cases m.world.viewListener? view ticket with
    | none => exact .done hnext
    | some key => exact .call hnext _ (some (.view view, ticket))

theorem Mirrors.resume_failing {view : ViewId} {errors : List SourceError} (h : f.Mirrors o m m')
    (hbelow : f.Mirrors o { m with stack := below } { m' with stack := below' })
    (hstack : m.stack = .failing view errors :: below)
    (hstack' : m'.stack = .failing (f.views.skip view) errors :: below') :
    f.Agrees o (m.resume answer) (m'.resume answer') := by
  cases errors with
  | nil =>
    simp only [Machine.resume, hstack, hstack']
    exact .composeIfDue hbelow view
  | cons error errors =>
    simp only [Machine.resume, hstack, hstack']
    exact .done ((hbelow.push (.failing view errors)).push
      (.announcing view _ (h.world.viewTickets view)))

theorem Mirrors.resume_composing {view : ViewId}
    (hbelow : f.Mirrors o { m with stack := below } { m' with stack := below' })
    (hstack : m.stack = .composing view :: below)
    (hstack' : m'.stack = .composing (f.views.skip view) :: below') :
    f.Agrees o (m.resume answer) (m'.resume (f.answer answer)) := by
  have hreturned : f.Mirrors o
      ({ m with stack := below }.withWorld (.modifyView view fun v ↦ { v with lent := false }))
      ({ m' with stack := below' }.withWorld
        (.modifyView (f.views.skip view) fun v ↦ { v with lent := false })) :=
    hbelow.modifyFlags view (fun _ _ ↦ rfl) fun _ ↦ rfl
  simp only [Machine.resume, hstack, hstack']
  cases answer with
  | composed value => exact .becomeReady hreturned view value
  | _ => exact .settle hreturned view

theorem Mirrors.resume_subscribing {target : Target} {ticket : Nat} (h : f.Mirrors o m m')
    (hbelow : f.Mirrors o { m with stack := below } { m' with stack := below' })
    (hstack : m.stack = .subscribing target ticket :: below)
    (hstack' : m'.stack =
      .subscribing (f.target target) (f.ticket target ticket) :: below') :
    f.Agrees o (m.resume answer) (m'.resume answer') := by
  have hadded := hbelow.withWorld (h.world.addHandle target ticket)
  have hlength := h.world.handles.length
  simp only [Machine.resume, hstack, hstack', hlength]
  cases target with
  | source source => exact .returning hadded (.subscribed m.world.handles.length)
  | view view => exact .returning (hadded.release view) (.subscribed m.world.handles.length)

theorem Mirrors.resume_connecting {view : ViewId} {inputs : List (SourceId × Nat)}
    (hbelow : f.Mirrors o { m with stack := below } { m' with stack := below' })
    (hstack : m.stack = .connecting view inputs :: below)
    (hstack' : m'.stack = .connecting (f.views.skip view) inputs :: below') :
    f.Agrees o (m.resume answer) (m'.resume answer') := by
  cases inputs with
  | nil =>
    simp only [Machine.resume, hstack, hstack']
    exact .requestCompose hbelow view
  | cons input inputs =>
    simp only [Machine.resume, hstack, hstack']
    exact .connect (hbelow.push (.connecting view inputs)) view input.1 input.2

theorem Mirrors.resume_feeding {rest : Feed α}
    (hbelow : f.Mirrors o { m with stack := below } { m' with stack := below' })
    (hstack : m.stack = .feeding rest :: below) (hstack' : m'.stack = .feeding rest :: below') :
    f.Agrees o (m.resume answer) (m'.resume (f.answer answer)) := by
  simp only [Machine.resume, hstack, hstack']
  cases answer with
  | accepted accepted =>
    simp only [Footprint.answer]
    cases rest.note accepted with
    | inl result => exact .returning hbelow (.polled (.finished result))
    | inr rest => exact .feed hbelow rest
  | _ => exact .feed hbelow rest

end Frames

/-- A frame that is on top of both machines goes on. Assumes: it is not the observer's turn. -/
theorem Mirrors.resume (h : f.Mirrors o m m') {answer answer' : Answer α β}
    (hanswer : f.Answers m.stack answer answer') (hpoised : f.Poised m'.stack) :
    f.Agrees o (m.resume answer) (m'.resume answer') := by
  cases hstack : m.stack with
  | nil =>
    have hstack' : m'.stack = [] := List.forall₂_nil_left_iff.mp (hstack ▸ h.stack)
    rw [hstack] at hanswer
    obtain rfl : answer' = f.answer answer := hanswer.resolve_right (by simp)
    simp only [Machine.resume, hstack, hstack']
    exact .tell h (.answered answer)
  | cons frame below =>
    obtain ⟨frame', below', hstack', hframe, hbelow⟩ := h.pop hstack
    rw [hstack] at hanswer
    cases hframe with
    | calling call turn =>
      obtain rfl := hanswer.eq rfl
      simp only [Machine.resume, hstack, hstack']
      exact .tell h (.answered answer)
    | closing result =>
      simp only [Machine.resume, hstack, hstack']
      exact .closeTick hbelow result
    | draining result hviews => exact hbelow.resume_draining hstack hstack' hviews hpoised
    | delivering source event htickets =>
      exact h.resume_delivering hbelow hstack hstack' htickets hpoised
    | announcing view event htickets =>
      exact h.resume_announcing hbelow hstack hstack' htickets hpoised
    | failing view errors => exact h.resume_failing hbelow hstack hstack'
    | composing view =>
      obtain rfl := hanswer.eq rfl
      exact hbelow.resume_composing hstack hstack'
    | settling view =>
      simp only [Machine.resume, hstack, hstack']
      exact .settle hbelow view
    | holding view =>
      obtain rfl := hanswer.eq rfl
      simp only [Machine.resume, hstack, hstack']
      exact .returning (hbelow.release view) answer
    | subscribing target ticket => exact h.resume_subscribing hbelow hstack hstack'
    | connecting view inputs => exact hbelow.resume_connecting hstack hstack'
    | building view =>
      simp only [Machine.resume, hstack, hstack']
      refine .returning ?_ (.built view)
      exact hbelow.modifyFlags view (fun _ _ ↦ rfl) fun _ ↦ rfl
    | feeding rest =>
      obtain rfl := hanswer.eq rfl
      exact hbelow.resume_feeding hstack hstack'

/-! #### Giving up -/

theorem Agrees.giveUp (h : f.Agrees o m m') (message : String) :
    f.Agrees o (m.giveUp message) (m'.giveUp message) := by
  have hcontrol' : m'.control = f.control m.control := h.control
  cases hstack : m.stack with
  | nil =>
    have hstack' : m'.stack = [] := List.forall₂_nil_left_iff.mp (hstack ▸ h.stack)
    simp only [Machine.giveUp, hstack, hstack']
    exact .tell h.toMirrors (.raised message)
  | cons frame below =>
    obtain ⟨frame', below', hstack', hframe, hbelow⟩ := h.toMirrors.pop hstack
    cases hframe with
    | calling call turn =>
      simp only [Machine.giveUp, hstack, hstack']
      exact .tell h.toMirrors (.raised message)
    | closing answer =>
      simp only [Machine.giveUp, hstack, hstack']
      exact ⟨hbelow.withWorld h.world.abandonTick, hcontrol'⟩
    | draining answer hviews =>
      simp only [Machine.giveUp, hstack, hstack']
      exact ⟨hbelow.withWorld (h.world.unschedule hviews), hcontrol'⟩
    | composing view =>
      simp only [Machine.giveUp, hstack, hstack']
      exact ⟨hbelow.modifyFlags view (fun _ _ ↦ rfl) fun _ ↦ rfl, hcontrol'⟩
    | holding view | building view =>
      simp only [Machine.giveUp, hstack, hstack']
      exact .release ⟨hbelow, hcontrol'⟩ view
    | subscribing target ticket =>
      have hgone := hbelow.withWorld (h.world.unregister target ticket)
      simp only [Machine.giveUp, hstack, hstack']
      cases target with
      | source source => exact ⟨hgone, hcontrol'⟩
      | view view => exact .release ⟨hgone, hcontrol'⟩ view
    | delivering _ _ _ | announcing _ _ _ | failing _ _ | settling _ | connecting _ _ | feeding _ =>
      simp only [Machine.giveUp, hstack, hstack']
      exact ⟨hbelow, hcontrol'⟩

/-! ### What is seen of both machines -/

namespace Mirrors

variable (h : f.Mirrors o m m')

include h

theorem hearNotices (j : ViewId) (slot : Nat) (event : Event α) :
    m'.hearNotices (f.views.skip j) slot event = (m.hearNotices j slot event).map f.notice := by
  unfold Machine.hearNotices
  rcases h.world.liveView? j with ⟨hv, hv'⟩ | ⟨v, listeners, hv, hv', -⟩
  · simp only [hv, hv', List.map_nil]
  · simp only [hv, hv', Footprint.view]
    split <;> rfl

theorem emitNotices (i : SourceId) (event : Event α) :
    m'.emitNotices i event = (m.emitNotices i event).map f.notice := by
  unfold Machine.emitNotices
  rcases h.world.source? i with ⟨hs, hs'⟩ | ⟨s, listeners, hs, hs', -⟩
  · simp only [hs, hs', List.map_nil]
  · simp only [hs, hs']
    split <;> rfl

theorem feedNotices (feed : Feed α) :
    m'.feedNotices feed = (m.feedNotices feed).map f.notice := by
  unfold Machine.feedNotices
  cases feed.next with
  | stop progress => rfl
  | emit event rest => exact h.emitNotices feed.source event

theorem composeNotices (j : ViewId) :
    m'.composeNotices (f.views.skip j) = (m.composeNotices j).map f.notice := by
  unfold Machine.composeNotices
  rcases h.world.view? j with ⟨hv, hv'⟩ | ⟨v, listeners, hv, hv', -⟩
  · simp only [hv, hv', List.map_nil]
  · have hdue : (f.view v listeners).isDue = v.isDue := rfl
    have hvalues : (f.view v listeners).cachedValues? = v.cachedValues? := rfl
    have hcomposer : (f.view v listeners).composer = v.composer := rfl
    have hfailures : (f.view v listeners).failures = v.failures := rfl
    simp only [hv, hv', hdue, hvalues, hcomposer, hfailures]
    split
    · cases v.cachedValues? with
      | none => rfl
      | some inputs => cases v.composer <;> rfl
    · rfl

theorem requestNotices (request : Request α β) :
    m'.requestNotices (f.request request) = (m.requestNotices request).map f.notice := by
  cases request with
  | emit source event => exact h.emitNotices source event
  | poll feed => exact h.feedNotices feed
  | subscribe target key =>
    cases target with
    | source source => rfl
    | view j =>
      simp only [Machine.requestNotices, Footprint.request, Footprint.target]
      rcases h.world.liveView? j with ⟨hv, hv'⟩ | ⟨v, listeners, hv, hv', -, -, hlisteners⟩
      · simp only [hv, hv', List.map_nil]
      · simp only [hv, hv', Footprint.view, hlisteners.next]
        cases v.status.event? <;> rfl
  | _ => rfl

/-- Assumes: it is not the observer's turn. -/
theorem resumeNotices {answer answer' : Answer α β} (hanswer : f.Answers m.stack answer answer')
    (hpoised : f.Poised m'.stack) :
    m'.resumeNotices answer' = (m.resumeNotices answer).map f.notice := by
  cases hstack : m.stack with
  | nil =>
    have hstack' : m'.stack = [] := List.forall₂_nil_left_iff.mp (hstack ▸ h.stack)
    simp only [Machine.resumeNotices, hstack, hstack', List.map_nil]
  | cons frame below =>
    obtain ⟨frame', below', hstack', hframe, -⟩ := h.pop hstack
    rw [hstack] at hanswer
    rw [hstack'] at hpoised
    cases hframe with
    | @delivering source event tickets tickets' htickets =>
      cases tickets' with
      | nil =>
        obtain rfl := htickets.eq_nil
        simp only [Machine.resumeNotices, hstack, hstack', List.map_nil]
      | cons ticket' rest' =>
        obtain ⟨ticket, rest, rfl, rfl, -⟩ := htickets.of_cons hpoised
        have hlistener := h.world.sourceListener? source ticket
        simp only [Footprint.ticket, Footprint.target] at hlistener
        simp only [Machine.resumeNotices, hstack, hstack', hlistener]
        rcases m.world.sourceListener? source ticket with _ | ⟨key⟩ | ⟨view, slot⟩
        · rfl
        · rfl
        · exact h.hearNotices view slot event
    | @announcing view event tickets tickets' htickets =>
      cases tickets' with
      | nil =>
        obtain rfl := htickets.eq_nil
        simp only [Machine.resumeNotices, hstack, hstack', List.map_nil]
      | cons ticket' rest' =>
        obtain ⟨ticket, rest, rfl, rfl, -⟩ := htickets.of_cons hpoised
        have hlistener := h.world.viewListener? view ticket
        simp only [Footprint.ticket, Footprint.target] at hlistener
        simp only [Machine.resumeNotices, hstack, hstack', hlistener]
        cases m.world.viewListener? view ticket <;> rfl
    | failing view errors =>
      cases errors with
      | nil =>
        simp only [Machine.resumeNotices, hstack, hstack']
        exact h.composeNotices view
      | cons error errors => simp only [Machine.resumeNotices, hstack, hstack', List.map_nil]
    | composing view =>
      obtain rfl := hanswer.eq rfl
      simp only [Machine.resumeNotices, hstack, hstack']
      rcases h.world.view? view with ⟨hv, hv'⟩ | ⟨v, listeners, hv, hv', -⟩
      · simp only [hv, hv']
        cases answer <;> rfl
      · simp only [hv, hv']
        cases answer <;> rfl
    | connecting view inputs =>
      cases inputs with
      | nil => simp only [Machine.resumeNotices, hstack, hstack', List.map_nil]
      | cons input inputs =>
        simp only [Machine.resumeNotices, hstack, hstack']
        rcases h.world.source? input.1 with ⟨hs, hs'⟩ | ⟨s, listeners, hs, hs', -⟩
        · simp only [hs, hs', List.map_nil]
        · simp only [hs, hs']
          exact h.hearNotices view input.2 s.current
    | feeding rest =>
      obtain rfl := hanswer.eq rfl
      simp only [Machine.resumeNotices, hstack, hstack']
      cases answer with
      | accepted accepted =>
        simp only [Footprint.answer]
        cases rest.note accepted with
        | inl result => rfl
        | inr rest => exact h.feedNotices rest
      | _ => exact h.feedNotices rest
    | _ => simp only [Machine.resumeNotices, hstack, hstack', List.map_nil]

end Mirrors

/-! ### Moves -/

/-- The same is under way in both machines. Where the user has control, what it heard last may
differ, and so may an answer on the way through a list, where nobody asks for it. -/
inductive Attuned (f : Footprint) (m m' : Machine α β) : Prop
  | same (h : m'.control = f.control m.control)
  | user {heard heard' : Heard α β} (h : m.control = .user heard) (h' : m'.control = .user heard')
  | passing {answer answer' : Answer α β} (h : m.control = .returning answer)
      (h' : m'.control = .returning answer') (hpass : f.Answers m.stack answer answer')

/-- The second machine follows the first one. -/
structure Follows (o : Observer α β) (f : Footprint) (m m' : Machine α β) : Prop
    extends f.Mirrors o m m' where
  attuned : f.Attuned m m'

theorem Agrees.toFollows (h : f.Agrees o m m') : f.Follows o m m' :=
  ⟨h.toMirrors, .same h.control⟩

namespace Follows

theorem hasUser (h : f.Follows o m m') {heard : Heard α β} (hcontrol : m.control = .user heard) :
    ∃ heard', m'.control = .user heard' := by
  cases h.attuned with
  | same hsame => exact ⟨f.heard heard, by rw [hsame, hcontrol]; rfl⟩
  | user _ h' => exact ⟨_, h'⟩
  | passing hreturning =>
    rw [hcontrol] at hreturning
    contradiction

theorem returning (h : f.Follows o m m') {answer : Answer α β}
    (hcontrol : m.control = .returning answer) :
    ∃ answer', m'.control = .returning answer' ∧ f.Answers m.stack answer answer' := by
  cases h.attuned with
  | same hsame => exact ⟨f.answer answer, by rw [hsame, hcontrol]; rfl, .inl rfl⟩
  | user huser =>
    rw [hcontrol] at huser
    contradiction
  | passing hreturning h' hpass =>
    rw [hcontrol] at hreturning
    obtain rfl := Control.returning.inj hreturning
    exact ⟨_, h', hpass⟩

theorem unwinding (h : f.Follows o m m') {message : String}
    (hcontrol : m.control = .unwinding message) :
    m'.control = .unwinding message ∧ f.Agrees o m m' := by
  cases h.attuned with
  | same hsame => exact ⟨by rw [hsame, hcontrol]; rfl, h.toMirrors, hsame⟩
  | user huser =>
    rw [hcontrol] at huser
    contradiction
  | passing hreturning =>
    rw [hcontrol] at hreturning
    contradiction

/-- A move of the machine without the observer is one of the machine with it, unless it is none in
either. Assumes: it is not the observer's turn. -/
theorem move (h : f.Follows o m m')
    (hpoised : ∀ answer, m.control = .returning answer → f.Poised m'.stack) (move : Move α β) :
    f.Agrees o (m.move move) (m'.move (f.move move)) ∨
      m.move move = m ∧ m'.move (f.move move) = m' := by
  cases hcontrol : m.control with
  | user heard =>
    obtain ⟨heard', hcontrol'⟩ := h.hasUser hcontrol
    cases move with
    | request request =>
      simp only [Machine.move, Footprint.move, Machine.submit, hcontrol, hcontrol']
      exact h.toMirrors.serve request
    | advance =>
      simp only [Machine.move, Footprint.move, Machine.advance, hcontrol, hcontrol']
      exact .inr ⟨trivial, trivial⟩
  | returning answer =>
    obtain ⟨answer', hcontrol', hanswers⟩ := h.returning hcontrol
    cases move with
    | request request =>
      simp only [Machine.move, Footprint.move, Machine.submit, hcontrol, hcontrol']
      exact .inr ⟨trivial, trivial⟩
    | advance =>
      simp only [Machine.move, Footprint.move, Machine.advance, hcontrol, hcontrol']
      exact .inl (h.toMirrors.resume hanswers (hpoised answer hcontrol))
  | unwinding message =>
    obtain ⟨hcontrol', hagrees⟩ := h.unwinding hcontrol
    cases move with
    | request request =>
      simp only [Machine.move, Footprint.move, Machine.submit, hcontrol, hcontrol']
      exact .inr ⟨trivial, trivial⟩
    | advance =>
      simp only [Machine.move, Footprint.move, Machine.advance, hcontrol, hcontrol']
      exact .inl (hagrees.giveUp message)

/-- What is seen of a move is seen of it in both machines. Assumes: it is not the observer's
turn. -/
theorem notices (h : f.Follows o m m')
    (hpoised : ∀ answer, m.control = .returning answer → f.Poised m'.stack) (move : Move α β) :
    m'.notices (f.move move) = (m.notices move).map f.notice := by
  cases hcontrol : m.control with
  | user heard =>
    obtain ⟨heard', hcontrol'⟩ := h.hasUser hcontrol
    cases move with
    | request request =>
      simp only [Machine.notices, Footprint.move, hcontrol, hcontrol']
      exact h.toMirrors.requestNotices request
    | advance => simp only [Machine.notices, Footprint.move, hcontrol, hcontrol', List.map_nil]
  | returning answer =>
    obtain ⟨answer', hcontrol', hanswers⟩ := h.returning hcontrol
    cases move with
    | request request =>
      simp only [Machine.notices, Footprint.move, hcontrol, hcontrol', List.map_nil]
    | advance =>
      simp only [Machine.notices, Footprint.move, hcontrol, hcontrol']
      exact h.toMirrors.resumeNotices hanswers (hpoised answer hcontrol)
  | unwinding message =>
    obtain ⟨hcontrol', -⟩ := h.unwinding hcontrol
    cases move with
    | request request | advance =>
      simp only [Machine.notices, Footprint.move, hcontrol, hcontrol', List.map_nil]

end Follows

end Footprint

end LiveRecord.Flow
