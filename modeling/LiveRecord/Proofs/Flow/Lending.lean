import LiveRecord.Proofs.Flow.Balance
import LiveRecord.Proofs.Flow.Cancellation
import LiveRecord.Proofs.Flow.Restacking
import LiveRecord.Proofs.Flow.Unwinding

/-!
# Values and lists that are lent

A callback that composes works with the values of its view, and meanwhile no loaded event can be
taken in for that view. After every run the values of a view are lent exactly while a callback
composes with them (`Machine.lent_iff_composing`). A list of listeners is lent while a listener is
taken out of it, and what the callback of that listener owns is dropped meanwhile. So the core raises
by itself where it brings a loaded value to a view whose composing callback is at work
(`Machine.Intrudes`), or cancels a subscription whose callback owns something that is registered in
a list that is lent (`Machine.Entangles`), and nowhere else (`Machine.raises_by_itself_iff`).
-/

set_option autoImplicit false

namespace LiveRecord.Flow

variable {α β : Type}

/-- The user raises. -/
def Move.raises : Move α β → Bool
  | request (.raise _) => true
  | _ => false

namespace Situation

variable {s s' : Situation α β} {seen : List (ViewNotice α β)} {slot : Nat} {event : Event α}

/-- The values are lent once for the composing callback that is at work, and never otherwise. -/
structure Lends (s : Situation α β) : Prop where
  attended : s.Guarded ∨ s.Stuck
  composers : Task.composers s.tasks = s.view.lent.toNat

/-- Nothing is lent, and nothing given back. -/
structure LentAlike (s s' : Situation α β) : Prop where
  lent : s'.view.lent = s.view.lent
  composers : Task.composers s'.tasks = Task.composers s.tasks

theorem LentAlike.refl (s : Situation α β) : s.LentAlike s := ⟨rfl, rfl⟩

theorem LentAlike.trans {s'' : Situation α β} (hfirst : s.LentAlike s') (hlast : s'.LentAlike s'') :
    s.LentAlike s'' :=
  ⟨hlast.lent.trans hfirst.lent, hlast.composers.trans hfirst.composers⟩

theorem Steady.lentAlike (h : s.Steady s') : s.LentAlike s' := ⟨h.lent, h.composers⟩

theorem LentAlike.pop {task : Task α β} {tasks : List (Task α β)} (htasks : s.tasks = task :: tasks)
    (hcomposing : task ≠ .composing) : s.LentAlike { s with tasks } := by
  refine ⟨rfl, ?_⟩
  rw [htasks]
  cases task with
  | composing => exact absurd rfl hcomposing
  | _ => rfl

/-- Whoever goes through the news on top of the stack is the only one. -/
theorem Lends.composers_below {task : Task α β} {tasks : List (Task α β)} (h : s.Lends)
    (htasks : s.tasks = task :: tasks) (hworks : task.works) : Task.composers tasks = 0 := by
  rcases h.attended with hguarded | hstuck
  · exact composers_of_workers (hguarded.toStaffed.alone htasks hworks).2
  · have hidle := (hstuck.pop htasks).1
    rw [hworks] at hidle
    contradiction

theorem Hearing.lentAlike (h : s.Hearing slot event seen s') : s.LentAlike s' := by
  cases h with
  | deaf => exact .refl s
  | heard inTick hslot hlive hlent =>
    have habsorbed : s.LentAlike (s.modify (.absorb slot event)) :=
      ⟨View.lent_absorb slot event s.view, rfl⟩
    unfold Situation.hear
    split
    · exact habsorbed
    · cases event with
      | pending => exact habsorbed
      | loaded value => exact habsorbed.trans (takesOn_requestCompose inTick _).steady.lentAlike
      | failed error => exact habsorbed.trans (takesOn_flush _).steady.lentAlike

theorem composers_composeIfDue (hlent : s.view.lent = false) (hnone : Task.composers s.tasks = 0) :
    Task.composers s.composeIfDue.tasks = s.composeIfDue.view.lent.toNat := by
  have hsettled (s : Situation α β) (hlent : s.view.lent = false)
      (hnone : Task.composers s.tasks = 0) :
      Task.composers s.settle.tasks = s.settle.view.lent.toNat := by
    rw [(takesOn_settle s).steady.composers, (takesOn_settle s).steady.lent, hlent, hnone]
    rfl
  unfold Situation.composeIfDue
  split
  · dsimp only
    split
    · exact hsettled _ hlent hnone
    · exact hnone.trans (congrArg Bool.toNat hlent).symm
    · rw [push, Task.composers, List.countP_cons]
      exact congrArg (· + 1) hnone
  · exact hsettled s hlent hnone

theorem composers_of_step (h : s.Lends) (hstep : s.Step seen s') :
    Task.composers s'.tasks = s'.view.lent.toNat := by
  have hkept {s' : Situation α β} (halike : s.LentAlike s') :
      Task.composers s'.tasks = s'.view.lent.toNat := by
    rw [halike.composers, halike.lent, h.composers]
  cases hstep with
  | keep hkeep =>
    obtain ⟨gone, inputs, owned, live, -, rfl⟩ := hkeep
    exact hkept ⟨rfl, rfl⟩
  | register key | dispose | skip hjobs hlive => exact hkept ⟨rfl, rfl⟩
  | hear slot event hheard => exact hkept hheard.lentAlike
  | @connect input inputs tasks htasks registered event _ _ hheard =>
    have hpopped : s.LentAlike ({ s with tasks := .connecting inputs :: tasks }.modify fun v ↦
        { v with inputs := registered }) := ⟨rfl, by rw [htasks]; rfl⟩
    exact hkept (hpopped.trans hheard.lentAlike)
  | connected inTick htasks =>
    have hpopped := LentAlike.pop htasks (by simp)
    exact hkept (hpopped.trans (takesOn_requestCompose inTick _).steady.lentAlike)
  | @run jobs hjobs hlive =>
    have hstarted : s.LentAlike
        ({ s with jobs }.modify fun v ↦ { v with scheduled := false }) := ⟨rfl, rfl⟩
    exact hkept (hstarted.trans (takesOn_flush _).steady.lentAlike)
  | fail htasks | announce htasks => exact hkept ⟨rfl, by rw [htasks]; rfl⟩
  | announced htasks => exact hkept (LentAlike.pop htasks (by simp))
  | settle htasks =>
    have hpopped := LentAlike.pop htasks (by simp)
    exact hkept (hpopped.trans (takesOn_settle _).steady.lentAlike)
  | compose htasks =>
    have hnone := h.composers_below htasks rfl
    have hlent : 0 = s.view.lent.toNat := by
      rw [← h.composers, ← (LentAlike.pop htasks (by simp)).composers]
      exact hnone.symm
    exact composers_composeIfDue (Bool.toNat_eq_zero.mp hlent.symm) hnone
  | composed htasks value =>
    have hnone := h.composers_below htasks rfl
    exact hnone

theorem composers_of_shed {spared : Prop} (h : s.Lends) (hshed : s.Shed spared s') :
    Task.composers s'.tasks = s'.view.lent.toNat := by
  cases hshed with
  | giveUp htasks hcomposing hspared =>
    exact (LentAlike.pop htasks hcomposing).composers.trans h.composers
  | takeBack htasks hspared => exact h.composers_below htasks rfl
  | unschedule hjobs hdropped => exact h.composers

theorem Lends.act {spared : Prop} (h : s.Lends) (hact : s.Act spared seen s') : s'.Lends where
  attended := by
    rcases h.attended with hguarded | hstuck
    · exact (hguarded.turn hact.turn).imp_right And.right
    · exact .inr (hstuck.turn hact.turn).1
  composers := by
    cases hact with
    | step hstep => exact composers_of_step h hstep
    | shed hshed => exact composers_of_shed h hshed

theorem Fresh.lends (h : s.Fresh) : s.Lends where
  attended := .inl h.accounted.guarded
  composers := by
    obtain ⟨label, composer, count, inputs, hview, htasks⟩ := h
    rw [hview, htasks]
    rfl

end Situation

/-- The callback is right above every frame that waits for it. -/
theorem Attended.exists_infix {view : ViewId} {stack : List (Frame α β)} (h : Attended stack)
    (hmem : .composing view ∈ stack) :
    ∃ key inputs, [.calling (.compose key inputs) none, .composing view] <:+: stack := by
  induction h with
  | nil => simp at hmem
  | cons hframe hstack ih =>
    obtain ⟨key, inputs, hwithin⟩ := ih ((List.mem_cons.mp hmem).resolve_left (hframe view).symm)
    exact ⟨key, inputs, hwithin.trans (List.suffix_cons _ _).isInfix⟩
  | @call key inputs other stack hstack ih =>
    rcases List.mem_cons.mp ((List.mem_cons.mp hmem).resolve_left (by simp)) with heq | hbelow
    · cases heq
      exact ⟨key, inputs, (List.prefix_append [_, _] stack).isInfix⟩
    · obtain ⟨key', inputs', hwithin⟩ := ih hbelow
      exact ⟨key', inputs', hwithin.trans (List.suffix_append [_, _] stack).isInfix⟩

namespace Machine

variable {m : Machine α β} {view : ViewId} {moves : List (Move α β)}

/-- The values of a view are lent exactly while a callback composes with them. -/
theorem lent_iff_composing {v : View α β} (hview : (run moves {}).world.views[view]? = some v) :
    v.lent ↔ .composing view ∈ (run moves ({} : Machine α β)).stack := by
  refine ⟨(manned_run moves).lent view v hview, fun hcomposing ↦ ?_⟩
  have hlends : Situation.Lends (α := α) (β := β) _ :=
    act_invariant (fun s hfresh ↦ hfresh.lends) (fun s seen s' hs hact ↦ hs.act hact)
      (situation_of_view hview)
  have htask : Task.composing ∈ (run moves ({} : Machine α β)).tasks view :=
    List.mem_filterMap.mpr ⟨_, hcomposing, by simp [Frame.task?]⟩
  have hsome : 0 < Task.composers ((run moves ({} : Machine α β)).tasks view) :=
    List.countP_pos_iff.mpr ⟨_, htask, rfl⟩
  cases hlent : v.lent with
  | true => rfl
  | false =>
    have hnone := hlends.composers
    simp only [hlent, Bool.toNat_false] at hnone
    omega

/-! ### Where the core raises -/

/-- The core is about to bring a loaded value to a view whose composing callback is at work. -/
structure Intrudes (m : Machine α β) : Prop where
  returning : ∃ answer, m.control = .returning answer
  delivering : ∃ source value ticket tickets below view slot key inputs,
    m.stack = .delivering source (.loaded value) (ticket :: tickets) :: below ∧
    m.world.sourceListener? source ticket = some (.input view slot) ∧
    [.calling (.compose key inputs) none, .composing view] <:+: below

/-- A subscription is about to be cancelled, and its callback goes with its registration and owns
something that is registered in a list from which a listener is taken out meanwhile. -/
structure Entangles (handle : Nat) (owned : Belongings) (m : Machine α β) : Prop where
  user : m.hasUser
  clashes : ∃ target ticket, m.world.handles[handle]? = some { target, ticket } ∧
    m.frees target ticket ∧ Clashes [target] owned ((m.withWorld (.cancel handle)).returning .done)

/-! #### What goes well -/

theorem poised_requestCompose (view : ViewId) (m : Machine α β) :
    (m.requestCompose view).Poised := by
  unfold requestCompose
  split
  · trivial
  · split
    · exact (works_flush view m).poised
    · split <;> trivial

/-- An input hears an event unless it is loaded and the values are lent. -/
theorem isUnwinding_hear {slot : Nat} {event : Event α} :
    (m.hear view slot event).isUnwinding ↔
      ∃ v, m.world.liveView? view = some v ∧ v.lent ∧ event.isLoaded := by
  have hnone {v : View α β} (hview : m.world.liveView? view = some v)
      (hkept : v.lent → event.isLoaded = false) :
      ¬∃ v, m.world.liveView? view = some v ∧ v.lent ∧ event.isLoaded := by
    rintro ⟨v', hv', hlent, hloaded⟩
    obtain rfl := Option.some.inj (hview.symm.trans hv')
    exact absurd hloaded (by simp [hkept hlent])
  have hhears := m.hears view slot event
  generalize m.hear view slot event = m' at hhears ⊢
  cases hhears with
  | deaf hgone => simp [returning, isUnwinding, hgone]
  | lent hview hlent hloaded => exact iff_of_true rfl ⟨_, hview, hlent, hloaded⟩
  | quiet hview hkept => exact iff_of_false (by simp [returning, isUnwinding]) (hnone hview hkept)
  | loaded hview hlent =>
    refine iff_of_false ?_ (hnone hview fun h ↦ absurd h (by simp [hlent]))
    rw [(poised_requestCompose view _).isUnwinding]
    exact Bool.false_ne_true
  | failed hview hdisposed hevent =>
    refine iff_of_false ?_ (hnone hview fun _ ↦ by rw [hevent]; rfl)
    rw [(works_flush view _).poised.isUnwinding]
    exact Bool.false_ne_true

theorem calm_feed (feed : Feed α) (m : Machine α β) : (m.feed feed).isUnwinding = false := by
  unfold Machine.feed
  split
  · rfl
  · exact (emit_spec _ _ _).1.isUnwinding

/-- Assumes: the request is none to raise and none to cancel. -/
theorem calm_serve {request : Request α β} (hraise : ∀ message, request ≠ .raise message)
    (hcancel : ∀ handle owned, request ≠ .cancel handle owned) (h : m.isUnwinding = false) :
    (m.serve request).isUnwinding = false := by
  cases request with
  | emit source event => exact (emit_spec source event m).1.isUnwinding
  | poll feed => exact calm_feed feed m
  | build sources composer =>
    simp only [serve, build]
    split <;> rfl
  | subscribe target key =>
    have hsubscribes := m.subscribes target key
    show (m.subscribe target key).isUnwinding = false
    generalize m.subscribe target key = m' at hsubscribes ⊢
    cases hsubscribes <;> rfl
  | finish | compose value =>
    simp only [serve]
    split <;> first | rfl | exact h
  | cancel handle owned => exact absurd rfl (hcancel handle owned)
  | raise message => exact absurd rfl (hraise message)
  | _ => rfl

/-- The values of a view are lent to nobody while it is connected. -/
theorem Joining.lent_of_connecting {inputs : List (SourceId × Nat)} {below : List (Frame α β)}
    {v : View α β} (h : m.Joining) (hstack : m.stack = .connecting view inputs :: below)
    (hview : m.world.views[view]? = some v) : v.lent = false := by
  rcases h with hnone | ⟨view', inputs', above', below', hjoins⟩
  · rw [connections, hstack] at hnone
    contradiction
  · have heq := hstack.symm.trans hjoins.stack
    have habove := hjoins.above
    cases habove with
    | nothing =>
      obtain ⟨⟨rfl, -⟩, -⟩ : (view = view' ∧ inputs = inputs') ∧ _ := by simpa using heq
      exact hjoins.unseen.lent v hview
    | _ => simp at heq

theorem calm_connect {source : SourceId} {slot : Nat}
    (hlent : ∀ v, m.world.views[view]? = some v → v.lent = false) :
    (m.connect view source slot).isUnwinding = false := by
  unfold connect
  split
  · rfl
  · rw [← Bool.not_eq_true, isUnwinding_hear]
    rintro ⟨v', hv', hlent', -⟩
    obtain ⟨hview', -⟩ := Option.filter_eq_some_iff.mp hv'
    simp only [withWorld, World.modifyView, World.registerAtSource, World.modifySource,
      List.getElem?_modify_eq] at hview'
    obtain ⟨v, hview, rfl⟩ := Option.map_eq_some_iff.mp hview'
    rw [hlent v hview] at hlent'
    contradiction

/-- The core raises by itself only where a view hears a loaded value while its values are lent. -/
theorem exists_of_isUnwinding_resume {answer : Answer α β} (hjoining : m.Joining)
    (h : (m.resume answer).isUnwinding) :
    ∃ source value ticket tickets below view slot v,
      m.stack = .delivering source (.loaded value) (ticket :: tickets) :: below ∧
      m.world.sourceListener? source ticket = some (.input view slot) ∧
      m.world.liveView? view = some v ∧ v.lent := by
  have hcalm {m' : Machine α β} (hpoised : m'.Poised) (h : m'.isUnwinding) : False := by
    rw [hpoised.isUnwinding] at h
    contradiction
  have hresumes := m.resumes answer
  generalize m.resume answer = m' at hresumes h
  cases hresumes with
  | @hear source event ticket tickets view slot below hstack hlistener =>
    obtain ⟨v, hv, hlent, hloaded⟩ := isUnwinding_hear.mp h
    cases event with
    | loaded value =>
      exact ⟨source, value, ticket, tickets, below, view, slot, v, hstack, hlistener, hv, hlent⟩
    | _ => contradiction
  | drain =>
    unfold runDeferred at h
    split at h
    · contradiction
    · exact (hcalm (works_flush _ _).poised h).elim
  | compose => exact (hcalm ((composeIfDue_spec _ _).elim (·.poised) (·.2.2.1)) h).elim
  | notComposed | settle => exact (hcalm (works_settle _ _).poised h).elim
  | connected => exact (hcalm (poised_requestCompose _ _) h).elim
  | @connect view input inputs below hstack =>
    have hcalm : (connect view input.1 input.2 { m with
        stack := .connecting view inputs :: below }).isUnwinding = false :=
      calm_connect fun v ↦ hjoining.lent_of_connecting hstack
    rw [hcalm] at h
    contradiction
  | feed => simp [calm_feed] at h
  | rest | calling | closing | drained | skipDelivery | callListener | delivered | skipAnnouncement
  | callViewer | announced | fail | composed | release | subscribed | subscribedView | built
  | fed => contradiction

/-- Whoever is still registered with a source is there to hear it. -/
theorem exists_liveView_of_listener {source : SourceId} {ticket slot : Nat}
    (h : (run moves ({} : Machine α β)).world.sourceListener? source ticket =
      some (.input view slot)) :
    ∃ v, (run moves ({} : Machine α β)).world.liveView? view = some v := by
  obtain ⟨s, hs, hfound⟩ := Option.bind_eq_some_iff.mp h
  obtain ⟨entry, hentry, hlistener⟩ := Option.map_eq_some_iff.mp hfound
  obtain ⟨v, hv, hrecorded⟩ :=
    recorded_run moves source s hs entry (List.mem_of_find?_eq_some hentry) view slot hlistener
  refine ⟨v, ?_⟩
  rw [World.liveView?, hv, Option.filter_some, if_pos]
  by_contra hgone
  have hintake : (run moves ({} : Machine α β)).books.intakes[view]? = some v.intake := by
    simp [books, World.books, hv]
  have hinputs : v.inputs = [] := (kept_run moves).cleared view v.intake hintake <| by
    simp [View.intake, Outline.intake, View.outline, hgone]
  rw [hinputs] at hrecorded
  exact List.not_mem_nil hrecorded

/-- A step of the core raises exactly if it brings a loaded value to a view whose composing callback
is at work. Assumes: nothing is being given up. -/
theorem isUnwinding_advance_iff (hcalm : (run moves ({} : Machine α β)).isUnwinding = false) :
    ((run moves ({} : Machine α β)).move .advance).isUnwinding ↔
      (run moves ({} : Machine α β)).Intrudes := by
  constructor
  case mp =>
    intro hunwinding
    simp only [Machine.move, advance] at hunwinding
    split at hunwinding
    · rw [hcalm] at hunwinding
      contradiction
    case h_2 answer hcontrol =>
      obtain
        ⟨source, value, ticket, tickets, below, view, slot, v, hstack, hlistener, hv, hlent⟩ :=
        exists_of_isUnwinding_resume (joining_run moves) hunwinding
      obtain ⟨hview, -⟩ := Option.filter_eq_some_iff.mp hv
      have hcomposing := (lent_iff_composing hview).mp hlent
      have hattended := (Grounded.start.run moves).attended.tail hstack (by simp)
      rw [hstack, List.mem_cons] at hcomposing
      obtain ⟨key, inputs, hwithin⟩ := hattended.exists_infix (hcomposing.resolve_left (by simp))
      exact ⟨⟨answer, hcontrol⟩, source, value, ticket, tickets, below, view, slot, key, inputs,
        hstack, hlistener, hwithin⟩
    case h_3 message hcontrol => simp [isUnwinding, hcontrol] at hcalm
  case mpr =>
    rintro ⟨⟨answer, hcontrol⟩, source, value, ticket, tickets, below, view, slot, key, inputs,
      hstack, hlistener, hwithin⟩
    obtain ⟨v, hv⟩ := exists_liveView_of_listener hlistener
    have hcomposing : .composing view ∈ (run moves ({} : Machine α β)).stack :=
      hstack ▸ List.mem_cons_of_mem _ (hwithin.subset (by simp))
    have hlent := (lent_iff_composing (Option.filter_eq_some_iff.mp hv).1).mpr hcomposing
    simp only [Machine.move, advance, hcontrol, resume, hstack, hlistener]
    exact isUnwinding_hear.mpr ⟨v, hv, hlent, rfl⟩

/-- A request raises exactly if it is one to cancel a subscription whose callback goes and owns
something that is registered where it goes. Assumes: nothing is being given up, and the user does
not raise. -/
theorem isUnwinding_request_iff {request : Request α β} (hcalm : m.isUnwinding = false)
    (hraises : (Move.request request).raises = false) :
    (m.move (.request request)).isUnwinding ↔
      ∃ handle owned, request = .cancel handle owned ∧ m.Entangles handle owned := by
  constructor
  case mp =>
    intro hunwinding
    simp only [Machine.move, submit] at hunwinding
    split at hunwinding
    case h_1 heard hcontrol =>
      by_cases hcancel : ∀ handle owned, request ≠ .cancel handle owned
      · have hraise : ∀ message, request ≠ .raise message := by
          rintro message rfl
          contradiction
        rw [calm_serve hraise hcancel hcalm] at hunwinding
        contradiction
      · push Not at hcancel
        obtain ⟨handle, owned, rfl⟩ := hcancel
        have huser : m.hasUser := by simp [hasUser, hcontrol]
        exact ⟨handle, owned, rfl, huser, isUnwinding_serve_cancel_iff.mp hunwinding⟩
    case h_2 =>
      rw [hcalm] at hunwinding
      contradiction
  case mpr =>
    rintro ⟨handle, owned, rfl, huser, hclashes⟩
    rw [Machine.move, submit_eq_serve huser]
    exact isUnwinding_serve_cancel_iff.mpr hclashes

/-- Assumes: nothing is being given up, and the user does not raise. -/
theorem isUnwinding_move_iff {move : Move α β}
    (hcalm : (run moves ({} : Machine α β)).isUnwinding = false)
    (hraises : move.raises = false) :
    ((run moves ({} : Machine α β)).move move).isUnwinding ↔
      move = .advance ∧ (run moves ({} : Machine α β)).Intrudes ∨
        ∃ handle owned, move = .request (.cancel handle owned) ∧
          (run moves ({} : Machine α β)).Entangles handle owned := by
  cases move with
  | request request =>
    rw [isUnwinding_request_iff hcalm hraises]
    simp
  | advance =>
    rw [isUnwinding_advance_iff hcalm]
    simp

/-- While the callback of a view composes, a value is loaded into one of the sources of the view. -/
def loadedWhileComposing : List (Move Nat (List Nat)) :=
  Move.script 20 [.newSource "a", .newSource "b", .build [0, 1] (.callback 0), .emit 1 (.loaded 10),
    .emit 0 (.loaded 1), .emit 0 (.loaded 2)]

/-- Two callbacks hear a source, and the first one, whose subscription is cancelled, owns the
subscription of the second one. -/
def outerOwnsInner : List (Move Nat (List Nat)) :=
  Move.script 4 [.newSource "a", .subscribe (.source 0) 1, .finish, .subscribe (.source 0) 2,
    .finish, .cancel 0 (.subscription 1 .nothing .nothing)]

end Machine

end LiveRecord.Flow
