import LiveRecord.Proofs.Flow.Lending
import LiveRecord.Proofs.Flow.Subscription

/-!
# Whom a source counts

A source counts its subscriptions that were neither cancelled nor turned away, and the inputs that it
feeds, of views that are there and not disposed of (`Machine.listenerCount_of_run`). It goes on to
count two kinds of registrations that nobody has any more: the inputs of a view that was dropped
while it was at work, until the view has finished, and what was left behind in its list where the
core raised.
-/

set_option autoImplicit false

namespace LiveRecord.Flow

variable {α β : Type}

/-- The handle is at the source, in that state. -/
def Handle.isAt (source : SourceId) (state : HandleState) (handle : Handle) : Bool :=
  handle.target == .source source && handle.state == state

/-- The frame hands over a subscription at the source, when the first callback is done. -/
def Frame.introduces (source : SourceId) : Frame α β → Bool
  | subscribing target _ => target == .source source
  | _ => false

/-- The frame hands over the view, when it is built. -/
def Frame.builds (view : ViewId) : Frame α β → Bool
  | building other => other == view
  | _ => false

/-- The number of inputs that a source feeds, of those of these views that are there and not
disposed of. -/
def World.inputsAt (source : SourceId) (among : ViewId → Bool) (world : World α β) : Nat :=
  ((world.views.zipIdx.filter fun (v, view) ↦ v.live && !v.disposed && among view).map
    fun (v, _) ↦ v.inputs.countP (·.1 == source)).sum

/-- Nobody has the view: its owner has dropped it, and it is not being built. -/
def Machine.dropped (m : Machine α β) (view : ViewId) : Bool :=
  m.world.views[view]?.any (!·.owned) && !m.stack.any (·.builds view)

/-- The subscriptions at a source that were neither cancelled nor turned away, whether they have an
owner, are detached or still call for the first time, and its inputs of views that somebody has and
that were not disposed of. -/
def Machine.held (source : SourceId) (m : Machine α β) : Nat :=
  m.world.handles.countP (·.isAt source .active) + m.world.handles.countP (·.isAt source .detached) +
    m.stack.countP (·.introduces source) + m.world.inputsAt source (fun view ↦ !m.dropped view)

section Count

variable {source : SourceId}

theorem length_ticketsAt_handles (handles : List Handle) :
    (ticketsAt source (handles.flatMap (·.registrations))).length =
      handles.countP (·.isAt source .active) + handles.countP (·.isAt source .detached) := by
  induction handles with
  | nil => rfl
  | cons handle rest ih =>
    obtain ⟨target, ticket, state⟩ := handle
    rw [List.flatMap_cons, ticketsAt_append, List.length_append, ih, List.countP_cons,
      List.countP_cons]
    by_cases htarget : target = .source source
    · cases state <;> simp [Handle.registrations, Handle.isAt, ticketsAt, htarget]
      all_goals omega
    · cases state <;> simp [Handle.registrations, Handle.isAt, ticketsAt, htarget]

theorem length_ticketsAt_frames (stack : List (Frame α β)) :
    (ticketsAt source ((stack.filter (·.writes)).flatMap (·.registrations))).length =
      stack.countP (·.introduces source) := by
  induction stack with
  | nil => rfl
  | cons frame rest ih =>
    rw [List.countP_cons, ← ih]
    cases frame with
    | subscribing target ticket =>
      rw [List.filter_cons_of_pos (by rfl), List.flatMap_cons, ticketsAt_append, List.length_append]
      by_cases htarget : target = .source source
      · simp [Frame.registrations, Frame.introduces, ticketsAt, htarget, Nat.add_comm]
      · simp [Frame.registrations, Frame.introduces, ticketsAt, htarget]
    | connecting view inputs =>
      rw [List.filter_cons_of_pos (by rfl), List.flatMap_cons, ticketsAt_append, List.length_append]
      simp [Frame.registrations, Frame.introduces, ticketsAt]
    | _ => rfl

/-- Assumes: views that are gone have no inputs. -/
theorem length_ticketsAt_views {views : List (View α β)}
    (h : ∀ v ∈ views, v.intake.hears = false → v.inputs = []) :
    (ticketsAt source ((views.map (·.intake)).flatMap (·.registrations))).length =
      ((views.filter fun v ↦ v.live && !v.disposed).map fun v ↦
        v.inputs.countP (·.1 == source)).sum := by
  induction views with
  | nil => rfl
  | cons v rest ih =>
    have hinputs : (ticketsAt source v.intake.registrations).length =
        v.inputs.countP (·.1 == source) := by
      simp only [ticketsAt, Intake.registrations, List.filterMap_map,
        List.length_filterMap_eq_countP]
      refine List.countP_congr fun input _ ↦ ?_
      by_cases hinput : input.1 = source <;> simp [hinput]
    rw [List.map_cons, List.flatMap_cons, ticketsAt_append, List.length_append, hinputs,
      ih fun other hother ↦ h other (List.mem_cons_of_mem _ hother)]
    by_cases hhears : v.live && !v.disposed
    · rw [List.filter_cons_of_pos (by simpa using hhears), List.map_cons, List.sum_cons]
    · have hgone : v.intake.hears = false := Bool.not_eq_true _ ▸ hhears
      rw [List.filter_cons_of_neg (by simpa using hhears), h v List.mem_cons_self hgone]
      simp

/-- A sum over part of a list, by whether something more holds. -/
theorem sum_filter_and {ι : Type} (list : List ι) (part more : ι → Bool) (f : ι → Nat) :
    ((list.filter part).map f).sum =
      ((list.filter fun i ↦ part i && !more i).map f).sum +
        ((list.filter fun i ↦ part i && more i).map f).sum := by
  induction list with
  | nil => rfl
  | cons head tail ih =>
    cases hpart : part head with
    | false => simpa [hpart] using ih
    | true =>
      cases hmore : more head <;> simp [hpart, hmore, ih]
      all_goals omega

/-- The views are those among these and the others. -/
theorem World.sum_inputs (among : ViewId → Bool) (world : World α β) :
    ((world.views.filter fun v ↦ v.live && !v.disposed).map fun v ↦
        v.inputs.countP (·.1 == source)).sum =
      world.inputsAt source (fun view ↦ !among view) + world.inputsAt source among := by
  have hviews : (world.views.filter fun v ↦ v.live && !v.disposed).map
        (fun v ↦ v.inputs.countP (·.1 == source)) =
      (world.views.zipIdx.filter fun (v, _) ↦ v.live && !v.disposed).map
        fun (v, _) ↦ v.inputs.countP (·.1 == source) := by
    conv_lhs => rw [← List.zipIdx_map_fst 0 world.views, List.filter_map, List.map_map]
    rfl
  rw [hviews]
  exact sum_filter_and _ _ (fun entry : View α β × ViewId ↦ among entry.2) _

end Count

namespace Machine

/-- Of the registrations at a source, all that somebody can give back, and what was left behind. -/
theorem listenerCount_eq (source : SourceId) (moves : List (Move α β)) :
    let m := run moves ({} : Machine α β)
    m.world.listenerCount source =
      m.held source + (m.world.inputsAt source m.dropped + m.world.stranded.count source) := by
  intro m
  have hkept : m.books.Kept _ := kept_run moves
  have hlength : (m.world.sourceTickets source).length =
      (ticketsAt source m.books.registrations).length := (hkept.balanced.agree source).length_eq
  have hcleared : ∀ v ∈ m.world.views, v.intake.hears = false → v.inputs = [] := by
    intro v hv hgone
    obtain ⟨view, hview⟩ := List.mem_iff_getElem?.mp hv
    exact hkept.cleared view v.intake (by simp [books, World.books, hview]) hgone
  rw [Books.registrations, ticketsAt_append, ticketsAt_append, List.length_append,
    List.length_append] at hlength
  have hhandles := @length_ticketsAt_handles source m.world.handles
  have hframes := @length_ticketsAt_frames α β source m.stack
  have hviews := (@length_ticketsAt_views α β source _ hcleared).trans
    (m.world.sum_inputs m.dropped)
  simp only [World.listenerCount, held, books, World.books] at hlength hhandles hframes hviews ⊢
  omega

/-! ### What is left behind -/

section Stuck

variable {m : Machine α β}

theorem stranded_of_scene {world world' : World α β} (h : world'.scene = world.scene) :
    world'.stranded = world.stranded := congrArg Scene.stranded h

theorem stranded_closeTick (world : World α β) : world.closeTick.2.stranded = world.stranded := by
  unfold World.closeTick
  dsimp only
  split <;> rfl

theorem stranded_unschedule (views : List ViewId) (world : World α β) :
    (world.unschedule views).stranded = world.stranded := by
  unfold World.unschedule
  induction views generalizing world with
  | nil => rfl
  | cons view rest ih => exact ih _

theorem stranded_flush (view : ViewId) (m : Machine α β) :
    (m.flush view).world.stranded = m.world.stranded := stranded_of_scene (works_flush view m).scene

theorem stranded_settle (view : ViewId) (m : Machine α β) :
    (m.settle view).world.stranded = m.world.stranded := stranded_of_scene (works_settle view m).scene

theorem stranded_requestCompose (view : ViewId) (m : Machine α β) :
    (m.requestCompose view).world.stranded = m.world.stranded :=
  stranded_of_scene (scene_requestCompose view m)

theorem stranded_becomeReady (view : ViewId) (value : β) (m : Machine α β) :
    (m.becomeReady view value).world.stranded = m.world.stranded :=
  stranded_of_scene (becomeReady_spec view value m).1

theorem stranded_composeIfDue (view : ViewId) (m : Machine α β) :
    (m.composeIfDue view).world.stranded = m.world.stranded :=
  stranded_of_scene ((composeIfDue_spec view m).elim (·.scene) (·.2.1))

theorem stranded_hear (view : ViewId) (slot : Nat) (event : Event α) (m : Machine α β) :
    (m.hear view slot event).world.stranded = m.world.stranded := by
  have hhears := m.hears view slot event
  generalize m.hear view slot event = m' at hhears ⊢
  cases hhears with
  | deaf | lent | quiet => rfl
  | loaded => exact stranded_requestCompose view _
  | failed => exact stranded_flush view _

theorem stranded_emit (source : SourceId) (event : Event α) (m : Machine α β) :
    (m.emit source event).world.stranded = m.world.stranded := by
  unfold emit
  split
  · rfl
  · split <;> rfl

theorem stranded_feed (feed : Feed α) (m : Machine α β) :
    (m.feed feed).world.stranded = m.world.stranded := by
  unfold Machine.feed
  split
  · rfl
  · exact stranded_emit _ _ _

theorem stranded_resume (answer : Answer α β) (m : Machine α β) :
    (m.resume answer).world.stranded = m.world.stranded := by
  have hresumes := m.resumes answer
  generalize m.resume answer = m' at hresumes ⊢
  cases hresumes with
  | rest | calling | drained | skipDelivery | callListener | delivered | skipAnnouncement
  | callViewer | announced | fail | subscribed | built | fed => rfl
  | closing => exact stranded_closeTick m.world
  | drain =>
    unfold runDeferred
    split
    · rfl
    · exact stranded_flush _ _
  | hear => exact stranded_hear _ _ _ _
  | compose => exact stranded_composeIfDue _ _
  | composed => exact stranded_becomeReady _ _ _
  | notComposed | settle => exact stranded_settle _ _
  | release | subscribedView => exact stranded_release _ _
  | connect =>
    unfold connect
    split
    · rfl
    · exact stranded_hear _ _ _ _
  | connected => exact stranded_requestCompose _ _
  | feed => exact stranded_feed _ _

theorem stranded_giveUp (message : String) (m : Machine α β) :
    (m.giveUp message).world.stranded = m.world.stranded := by
  have hgivesUp := m.givesUp message
  generalize m.giveUp message = m' at hgivesUp ⊢
  cases hgivesUp with
  | rest | calling | composing | pop => rfl
  | closing => exact (stranded_unschedule _ _).trans (stranded_closeTick m.world)
  | draining => exact stranded_unschedule _ m.world
  | holding | building => exact stranded_release _ _
  | subscribing => exact World.stranded_unregister _ _ m.world
  | subscribingView => exact (stranded_release _ _).trans (World.stranded_unregister _ _ m.world)

/-- Something is left behind only where a subscription is cancelled whose callback owns something that
is registered in a list that is lent. -/
theorem stranded_move {move : Move α β} (hcalm : ∀ handle owned,
      move = .request (.cancel handle owned) → ¬m.Entangles handle owned) :
    (m.move move).world.stranded = m.world.stranded := by
  refine move_of (motive := fun m' ↦ m'.world.stranded = m.world.stranded) move rfl
    (fun request hmove huser ↦ ?_) (fun answer _ _ ↦ stranded_resume answer m)
    (fun message _ _ ↦ stranded_giveUp message m)
  cases request with
  | cancel handle owned =>
    have hnever : ¬(m.serve (.cancel handle owned)).isUnwinding := fun hunwinding ↦
      hcalm handle owned hmove ⟨huser, isUnwinding_serve_cancel_iff.mp hunwinding⟩
    exact stranded_serve_cancel (by simpa using hnever)
  | newSource name | detach handle | enterTick => rfl
  | emit source event => exact stranded_emit source event m
  | poll feed => exact stranded_feed feed m
  | build sources composer =>
    simp only [serve, build]
    split <;> rfl
  | subscribe target key =>
    have hsubscribes := m.subscribes target key
    show (m.subscribe target key).world.stranded = m.world.stranded
    generalize m.subscribe target key = m' at hsubscribes ⊢
    cases hsubscribes <;> rfl
  | dispose view => exact World.stranded_dispose view m.world
  | dropView view => exact stranded_dropView view m
  | leaveTick => exact stranded_closeTick m.world
  | abandonTick => exact (stranded_unschedule _ _).trans (stranded_closeTick m.world)
  | finish | compose value | raise message =>
    exact serve_of_ends (motive := fun m' ↦ m'.world.stranded = m.world.stranded) rfl rfl
      fun _ _ _ _ _ _ ↦ rfl

/-- Nothing is left behind in a run in which nothing that is owned is entangled. -/
theorem stranded_run {moves : List (Move α β)}
    (hcalm : ∀ before handle owned, before ++ [.request (.cancel handle owned)] <+: moves →
      ¬(run before ({} : Machine α β)).Entangles handle owned) :
    (run moves ({} : Machine α β)).world.stranded = [] := by
  induction moves using List.reverseRecOn with
  | nil => rfl
  | append_singleton earlier last ih =>
    rw [run_append earlier [last]]
    refine (stranded_move fun handle owned hlast ↦ ?_).trans (ih fun before handle owned hstart ↦ ?_)
    · exact hcalm earlier handle owned (hlast ▸ List.prefix_rfl)
    · exact hcalm before handle owned (hstart.trans (List.prefix_append earlier [last]))

end Stuck

/-- The inputs of a view that is there are those that it was built with, but for the ones that the
core is still about to connect. -/
theorem inputs_of_run (moves : List (Move α β)) {view : ViewId} {v : View α β}
    (hv : (run moves ({} : Machine α β)).world.views[view]? = some v) (hlive : v.live)
    (hdisposed : v.disposed = false) :
    ∃ sources, (({} : Machine α β).built moves)[view]? = some sources ∧
      v.inputs.map (·.1) <+: sources ∧
        ((run moves ({} : Machine α β)).hasUser → v.inputs.map (·.1) = sources) := by
  have hintended := (kept_run moves).intended.inputs view v.intake
    (by simp [books, World.books, hv])
    (by simp [View.intake, Outline.intake, View.outline, hlive, hdisposed])
  refine ⟨_, hintended, List.prefix_append _ _, fun huser ↦ ?_⟩
  obtain ⟨heard, hcontrol⟩ := exists_heard huser
  have hnone := (joining_run moves).connections_eq_nil (by simp [hcontrol])
  have hleft : (run moves ({} : Machine α β)).books.leftFor view = [] := by
    refine List.flatMap_eq_nil_iff.mpr fun frame hframe ↦ ?_
    cases frame with
    | connecting other inputs =>
      have hconnection : (other, inputs) ∈ (run moves ({} : Machine α β)).connections :=
        List.mem_filterMap.mpr ⟨_, (List.mem_filter.mp hframe).1, rfl⟩
      rw [hnone] at hconnection
      contradiction
    | _ => rfl
  rw [hleft, List.map_nil, List.append_nil]
  rfl

/-- A view that was dropped and is still there is at work. -/
theorem holds_of_dropped (moves : List (Move α β)) {view : ViewId} {v : View α β}
    (hv : (run moves ({} : Machine α β)).world.views[view]? = some v) (hlive : v.live)
    (hdropped : (run moves ({} : Machine α β)).dropped view) :
    (run moves ({} : Machine α β)).stack.any (·.holds view) := by
  refine ((manned_run moves).held view v hv hlive).resolve_left ?_
  simp only [dropped, hv, Option.any_some, Bool.and_eq_true] at hdropped
  simpa using hdropped.1

/-! ### The count -/

/-- A source with all kinds of subscriptions and views. One subscription is cancelled twice, one is
detached, one is turned away because its first callback raises, and one is cancelled whose callback
owns the next one, which stays behind. Of four views that the source feeds, one is disposed of, one
is dropped, and one is dropped by a callback that it has called, and that subscribes anew. -/
def allSorts : List (Move Nat (List Nat)) :=
  Move.script 30 [.newSource "a", .subscribe (.source 0) 1, .finish, .subscribe (.source 0) 2,
    .finish, .detach 1, .subscribe (.source 0) 3, .raise "", .subscribe (.source 0) 4, .finish,
    .cancel 2, .cancel 2, .subscribe (.source 0) 5, .finish, .subscribe (.source 0) 6, .finish,
    .cancel 3 (.subscription 4 .nothing .nothing), .build [0, 0] (.direct id),
    .build [0] (.direct id), .dispose 1, .build [0] (.direct id), .dropView 2,
    .build [0] (.direct id), .subscribe (.view 3) 7, .emit 0 (.loaded 1), .finish, .finish,
    .dropView 3, .subscribe (.source 0) 8]

/-- A view is dropped by a callback that it has called. -/
def droppedAtWork : List (Move Nat (List Nat)) :=
  Move.script 12 [.newSource "a", .build [0] (.direct id), .subscribe (.view 0) 1,
    .emit 0 (.loaded 1), .dropView 0]

end Machine

end LiveRecord.Flow
