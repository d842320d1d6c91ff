import LiveRecord.Proofs.Flow.Slots
import LiveRecord.Proofs.Flow.Stack

/-!
# Who keeps a view

A view that has not been taken apart is owned or held by an operation under way, and its values are
lent only while a composing callback is at work (`Machine.manned_run`). So at rest, every view that
is live is owned, and no values are lent.
-/

set_option autoImplicit false

namespace LiveRecord.Flow

variable {α β : Type}

namespace World

/-- Every view that is live is owned or held by a frame, and its values are lent to a frame only. -/
structure Manned (stack : List (Frame α β)) (world : World α β) : Prop where
  lent : ∀ (j : ViewId) (v : View α β), world.views[j]? = some v → v.lent → .composing j ∈ stack
  held : ∀ (j : ViewId) (v : View α β), world.views[j]? = some v → v.live →
    v.owned ∨ stack.any (·.holds j)

/-- No view is new, live again, lent or without its owner. -/
def Eases (world world' : World α β) : Prop :=
  ∀ (j : ViewId) (v' : View α β), world'.views[j]? = some v' → ∃ v, world.views[j]? = some v ∧
    (v'.lent → v.lent) ∧ (v'.live → v.live) ∧ (v.owned → v'.owned)

variable {world world' world'' : World α β} {stack stack' : List (Frame α β)}

theorem Eases.of_views (h : world'.views = world.views) : world.Eases world' :=
  fun _ v' hv' ↦ ⟨v', h ▸ hv', id, id, id⟩

theorem Eases.refl (world : World α β) : world.Eases world := .of_views rfl

theorem Eases.trans (hfirst : world.Eases world') (hlast : world'.Eases world'') :
    world.Eases world'' := by
  intro j v'' hv''
  obtain ⟨v', hv', hlent', hlive', howned'⟩ := hlast j v'' hv''
  obtain ⟨v, hv, hlent, hlive, howned⟩ := hfirst j v' hv'
  exact ⟨v, hv, hlent ∘ hlent', hlive ∘ hlive', howned' ∘ howned⟩

theorem Eases.modifyView (j : ViewId) {f : View α β → View α β}
    (hlent : ∀ v, (f v).lent → v.lent) (hlive : ∀ v, (f v).live → v.live)
    (howned : ∀ v, v.owned → (f v).owned) : world.Eases (world.modifyView j f) := by
  intro k v' hv'
  simp only [World.modifyView, List.getElem?_modify] at hv'
  obtain ⟨v, hv, rfl⟩ := Option.map_eq_some_iff.mp hv'
  refine ⟨v, hv, ?_⟩
  split
  · exact ⟨hlent v, hlive v, howned v⟩
  · exact ⟨id, id, id⟩

theorem Manned.eases (h : world.Manned stack) (hworld : world.Eases world')
    (hstack : stack ⊆ stack') : world'.Manned stack' where
  lent j v' hv' hlent := by
    obtain ⟨v, hv, hlent', -⟩ := hworld j v' hv'
    exact hstack (h.lent j v hv (hlent' hlent))
  held j v' hv' hlive := by
    obtain ⟨v, hv, -, hlive', howned⟩ := hworld j v' hv'
    refine (h.held j v hv (hlive' hlive)).imp howned fun hheld ↦ ?_
    obtain ⟨frame, hframe, hholds⟩ := List.any_eq_true.mp hheld
    exact List.any_eq_true.mpr ⟨frame, hstack hframe, hholds⟩

/-- Assumes: the frame on top keeps no view. -/
theorem Manned.tail {frame : Frame α β} (h : world.Manned (frame :: stack))
    (hcomposing : ∀ j, frame ≠ .composing j) (hholds : ∀ j, frame.holds j = false) :
    world.Manned stack where
  lent j v hv hlent := by
    rcases List.mem_cons.mp (h.lent j v hv hlent) with heq | hrest
    · exact absurd heq.symm (hcomposing j)
    · exact hrest
  held j v hv hlive := by
    refine (h.held j v hv hlive).imp_right fun hheld ↦ ?_
    rwa [List.any_cons, hholds, Bool.false_or] at hheld

theorem eases_foldl_unregister (inputs : List (SourceId × Nat)) (world : World α β) :
    world.Eases (inputs.foldl (fun w input ↦ w.unregister (.source input.1) input.2) world) := by
  induction inputs generalizing world with
  | nil => exact .refl world
  | cons input rest ih => exact Eases.trans (.of_views rfl) (ih _)

theorem eases_disconnect (view : ViewId) (world : World α β) :
    world.Eases (world.disconnect view) := by
  unfold disconnect
  cases world.views[view]? with
  | none => exact .refl world
  | some v =>
    refine (eases_foldl_unregister v.inputs world).trans ?_
    exact .modifyView view (fun _ ↦ id) (fun _ ↦ id) (fun _ ↦ id)

theorem eases_takeApart (view : ViewId) (world : World α β) :
    world.Eases (world.takeApart view) := by
  refine (eases_disconnect view world).trans ?_
  exact .modifyView view (fun _ ↦ id) (fun _ h ↦ absurd h (by simp)) (fun _ ↦ id)

theorem eases_dispose (view : ViewId) (world : World α β) : world.Eases (world.dispose view) := by
  unfold dispose
  split
  · exact .refl world
  · split
    · exact .refl world
    · refine (eases_disconnect view world).trans ?_
      exact .modifyView view (fun _ ↦ id) (fun _ ↦ id) (fun _ ↦ id)

theorem eases_unregister (target : Target) (ticket : Nat) (world : World α β) :
    world.Eases (world.unregister target ticket) := by
  cases target with
  | source source => exact .of_views rfl
  | view view => exact .modifyView view (fun _ ↦ id) (fun _ ↦ id) (fun _ ↦ id)

theorem eases_cancel (handle : Nat) (world : World α β) : world.Eases (world.cancel handle) := by
  unfold cancel
  split
  · exact (eases_unregister _ _ world).trans (.of_views rfl)
  · exact .refl world

theorem eases_unschedule (views : List ViewId) (world : World α β) :
    world.Eases (world.unschedule views) := by
  unfold unschedule
  induction views generalizing world with
  | nil => exact .refl world
  | cons view rest ih =>
    rw [List.foldl_cons]
    refine Eases.trans ?_ (ih _)
    exact .modifyView view (fun _ ↦ id) (fun _ ↦ id) (fun _ ↦ id)

theorem eases_closeTick (world : World α β) : world.Eases world.closeTick.2 := by
  unfold closeTick
  dsimp only
  split <;> exact .of_views rfl

theorem eases_abandonTick (world : World α β) : world.Eases world.abandonTick :=
  (eases_closeTick world).trans (eases_unschedule _ _)

theorem eases_absorb (view : ViewId) (slot : Nat) (event : Event α) (world : World α β) :
    world.Eases (world.modifyView view (.absorb slot event)) := by
  refine .modifyView view (fun v hlent ↦ ?_) (fun v hlive ↦ ?_) (fun v howned ↦ ?_)
  · rwa [View.lent_absorb] at hlent
  · rwa [View.live_absorb] at hlive
  · rwa [View.owned_absorb]

/-- What a view that is let go leaves. Assumes: whatever is manned without the frame that held it. -/
theorem Manned.takeApart {view : ViewId}
    (hlent : ∀ (j : ViewId) (v : View α β), world.views[j]? = some v → v.lent → .composing j ∈ stack)
    (hheld : ∀ (j : ViewId) (v : View α β), world.views[j]? = some v → j ≠ view → v.live →
      v.owned ∨ stack.any (·.holds j)) : (world.takeApart view).Manned stack where
  lent j v' hv' hv := by
    obtain ⟨v, hview, hlent', -⟩ := eases_takeApart view world j v' hv'
    exact hlent j v hview (hlent' hv)
  held j v' hv' hlive := by
    by_cases hj : j = view
    · subst hj
      have hgone : v'.live = false := by
        simp only [World.takeApart, World.modifyView, List.getElem?_modify_eq] at hv'
        obtain ⟨v, -, rfl⟩ := Option.map_eq_some_iff.mp hv'
        rfl
      rw [hgone] at hlive
      contradiction
    · obtain ⟨v, hv, -, hlive', howned⟩ := eases_takeApart view world j v' hv'
      exact (hheld j v hv hj (hlive' hlive)).imp_left howned

/-- The values of a view are lent to the callback on top. -/
theorem Manned.lend {view : ViewId} {call : Call α β} {turn : Option (Target × Nat)}
    (h : world.Manned stack) :
    (world.modifyView view fun v ↦ { v with lent := true }).Manned
      (.calling call turn :: .composing view :: stack) where
  lent j v' hv' hlent := by
    by_cases hj : view = j
    · subst hj
      exact List.mem_cons_of_mem _ List.mem_cons_self
    · have hv : world.views[j]? = some v' := by
        simpa [World.modifyView, List.getElem?_modify, hj] using hv'
      exact List.mem_cons_of_mem _ (List.mem_cons_of_mem _ (h.lent j v' hv hlent))
  held j v' hv' hlive := by
    rw [World.modifyView, List.getElem?_modify] at hv'
    obtain ⟨v, hv, rfl⟩ := Option.map_eq_some_iff.mp hv'
    have hholds :
        (.calling call turn :: .composing view :: stack : List (Frame α β)).any (·.holds j) =
          stack.any (·.holds j) := by
      rw [List.any_cons, List.any_cons]
      rfl
    rw [hholds]
    split at hlive
    case isTrue hj =>
      rw [if_pos hj]
      exact h.held j v hv hlive
    case isFalse hj =>
      rw [if_neg hj]
      exact h.held j v hv hlive

/-- The values of a view are lent no longer. -/
theorem Manned.takeBack {view : ViewId} (h : world.Manned (.composing view :: stack)) :
    (world.modifyView view fun v ↦ { v with lent := false }).Manned stack where
  lent j v' hv' hlent := by
    rw [World.modifyView, List.getElem?_modify] at hv'
    obtain ⟨v, hv, rfl⟩ := Option.map_eq_some_iff.mp hv'
    by_cases hj : view = j
    · simp only [if_pos hj] at hlent
      contradiction
    · rw [if_neg hj] at hlent
      rcases List.mem_cons.mp (h.lent j v hv hlent) with heq | hrest
      · exact absurd (Frame.composing.inj heq).symm hj
      · exact hrest
  held j v' hv' hlive := by
    rw [World.modifyView, List.getElem?_modify] at hv'
    obtain ⟨v, hv, rfl⟩ := Option.map_eq_some_iff.mp hv'
    have hheld : v.live → v.owned ∨ stack.any (·.holds j) := h.held j v hv
    by_cases hj : view = j
    · simp only [if_pos hj] at hlive ⊢
      exact hheld hlive
    · rw [if_neg hj] at hlive ⊢
      exact hheld hlive

/-- A new view is owned, and no longer held. -/
theorem Manned.hand {view : ViewId} (h : world.Manned (.building view :: stack)) :
    (world.modifyView view fun v ↦ { v with owned := true }).Manned stack where
  lent j v' hv' hlent := by
    rw [World.modifyView, List.getElem?_modify] at hv'
    obtain ⟨v, hv, rfl⟩ := Option.map_eq_some_iff.mp hv'
    have hlent' : v.lent := by split at hlent <;> exact hlent
    exact (List.mem_cons.mp (h.lent j v hv hlent')).resolve_left (by simp)
  held j v' hv' hlive := by
    rw [World.modifyView, List.getElem?_modify] at hv'
    obtain ⟨v, hv, rfl⟩ := Option.map_eq_some_iff.mp hv'
    by_cases hj : view = j
    · exact .inl (by rw [if_pos hj])
    · rw [if_neg hj] at hlive ⊢
      refine (h.held j v hv hlive).imp_right fun hheld ↦ ?_
      rwa [List.any_cons, Frame.holds, beq_false_of_ne hj, Bool.false_or] at hheld

end World

namespace Machine

variable {m m' m'' : Machine α β}

/-- Every view that is live is kept by somebody, and values are lent only to callbacks at work. -/
def Manned (m : Machine α β) : Prop := m.world.Manned m.stack

/-- The stack grows, and no view is new, live again, lent or without its owner. -/
structure Eases (m m' : Machine α β) : Prop where
  world : m.world.Eases m'.world
  stack : m.stack ⊆ m'.stack

theorem Manned.eases (h : m.Manned) (heases : m.Eases m') : m'.Manned :=
  World.Manned.eases h heases.world heases.stack

theorem Eases.trans (hfirst : m.Eases m') (hlast : m'.Eases m'') : m.Eases m'' :=
  ⟨hfirst.world.trans hlast.world, fun _ hframe ↦ hlast.stack (hfirst.stack hframe)⟩

theorem Eases.withWorld {f : World α β → World α β} (h : m.world.Eases (f m.world)) :
    m.Eases (m.withWorld f) := ⟨h, fun _ ↦ id⟩

/-- Assumes: a change of a view that keeps whether it is lent, live and owned. -/
theorem Eases.of_modifyView (view : ViewId) {f : View α β → View α β}
    (hworld : m'.world = m.world.modifyView view f) (hstack : m.stack ⊆ m'.stack)
    (hlent : ∀ v, (f v).lent = v.lent) (hlive : ∀ v, (f v).live = v.live)
    (howned : ∀ v, (f v).owned = v.owned) : m.Eases m' := by
  refine ⟨?_, hstack⟩
  rw [hworld]
  exact .modifyView view (fun v h ↦ hlent v ▸ h) (fun v h ↦ hlive v ▸ h)
    (fun v h ↦ (howned v).symm ▸ h)

theorem eases_workOff (view : ViewId) (m : Machine α β) : m.Eases (m.workOff view) := by
  unfold workOff
  split
  · exact ⟨.refl _, fun _ ↦ id⟩
  · split
    · exact .of_modifyView view rfl (fun _ ↦ id) (fun _ ↦ rfl) (fun _ ↦ rfl) (fun _ ↦ rfl)
    · exact .of_modifyView view rfl (fun _ ↦ List.mem_cons_of_mem _) (fun _ ↦ rfl) (fun _ ↦ rfl)
        (fun _ ↦ rfl)

theorem eases_flush (view : ViewId) (m : Machine α β) : m.Eases (m.flush view) := by
  unfold flush
  split
  · exact ⟨.refl _, fun _ ↦ id⟩
  · split
    · exact .of_modifyView view rfl (fun _ ↦ id) (fun _ ↦ rfl) (fun _ ↦ rfl) (fun _ ↦ rfl)
    · refine Eases.trans ?_ (eases_workOff view _)
      exact .of_modifyView view rfl (fun _ ↦ id) (fun _ ↦ rfl) (fun _ ↦ rfl) (fun _ ↦ rfl)

theorem eases_settle (view : ViewId) (m : Machine α β) : m.Eases (m.settle view) := by
  unfold settle
  split
  · exact ⟨.refl _, fun _ ↦ id⟩
  · split
    · exact eases_workOff view m
    · exact .of_modifyView view rfl (fun _ ↦ id) (fun _ ↦ rfl) (fun _ ↦ rfl) (fun _ ↦ rfl)

theorem eases_requestCompose (view : ViewId) (m : Machine α β) :
    m.Eases (m.requestCompose view) := by
  unfold requestCompose
  split
  · exact ⟨.refl _, fun _ ↦ id⟩
  · split
    · exact eases_flush view m
    · split
      · exact ⟨.refl _, fun _ ↦ id⟩
      · refine ⟨World.Eases.trans (.of_views rfl) ?_, fun _ ↦ id⟩
        exact .modifyView view (fun _ ↦ id) (fun _ ↦ id) (fun _ ↦ id)

theorem eases_becomeReady (view : ViewId) (value : β) (m : Machine α β) :
    m.Eases (m.becomeReady view value) :=
  .of_modifyView view rfl (fun _ h ↦ List.mem_cons_of_mem _ (List.mem_cons_of_mem _ h))
    (fun _ ↦ rfl) (fun _ ↦ rfl) (fun _ ↦ rfl)

theorem eases_hear (view : ViewId) (slot : Nat) (event : Event α) (m : Machine α β) :
    m.Eases (m.hear view slot event) := by
  have habsorbed : m.Eases
      ((m.push (.holding view)).withWorld (.modifyView view (.absorb slot event))) :=
    ⟨World.eases_absorb view slot event m.world, fun _ ↦ List.mem_cons_of_mem _⟩
  have hhears := m.hears view slot event
  generalize m.hear view slot event = m' at hhears ⊢
  cases hhears with
  | deaf => exact ⟨.refl _, fun _ ↦ id⟩
  | lent => exact ⟨.refl _, fun _ ↦ List.mem_cons_of_mem _⟩
  | quiet => exact ⟨habsorbed.world, habsorbed.stack⟩
  | loaded => exact habsorbed.trans (eases_requestCompose view _)
  | failed => exact habsorbed.trans (eases_flush view _)

theorem eases_runDeferred (view : ViewId) (m : Machine α β) : m.Eases (m.runDeferred view) := by
  unfold runDeferred
  split
  · exact ⟨.refl _, fun _ ↦ id⟩
  · refine Eases.trans ?_ (eases_flush view _)
    exact .of_modifyView view rfl (fun _ ↦ List.mem_cons_of_mem _) (fun _ ↦ rfl) (fun _ ↦ rfl)
      (fun _ ↦ rfl)

theorem eases_closeTick (answer : Answer α β) (m : Machine α β) : m.Eases (m.closeTick answer) :=
  ⟨World.eases_closeTick m.world, fun _ ↦ List.mem_cons_of_mem _⟩

theorem eases_emit (source : SourceId) (event : Event α) (m : Machine α β) :
    m.Eases (m.emit source event) := by
  unfold emit
  split
  · exact ⟨.refl _, fun _ ↦ id⟩
  · split
    · exact ⟨.refl _, fun _ ↦ id⟩
    · exact ⟨.of_views rfl, fun _ h ↦ List.mem_cons_of_mem _ (List.mem_cons_of_mem _ h)⟩

theorem eases_feed (feed : Feed α) (m : Machine α β) : m.Eases (m.feed feed) := by
  unfold Machine.feed
  split
  case h_1 => exact ⟨.refl _, fun _ ↦ id⟩
  case h_2 event rest _ =>
    refine Eases.trans ?_ (eases_emit feed.source event (m.push (.feeding rest)))
    exact ⟨.refl _, fun _ ↦ List.mem_cons_of_mem _⟩

theorem eases_connect (view : ViewId) (source : SourceId) (slot : Nat) (m : Machine α β) :
    m.Eases (m.connect view source slot) := by
  unfold connect
  split
  case h_1 => exact ⟨.refl _, fun _ ↦ id⟩
  case h_2 s _ =>
    refine Eases.trans ?_ (eases_hear view slot s.current _)
    refine ⟨World.Eases.trans (.of_views rfl) ?_, fun _ ↦ id⟩
    exact .modifyView view (fun _ ↦ id) (fun _ ↦ id) (fun _ ↦ id)

theorem eases_subscribe (target : Target) (key : Nat) (m : Machine α β) :
    m.Eases (m.subscribe target key) := by
  have hsubscribes := m.subscribes target key
  generalize m.subscribe target key = m' at hsubscribes ⊢
  cases hsubscribes with
  | unknown => exact ⟨.refl _, fun _ ↦ id⟩
  | source => exact ⟨.of_views rfl, fun _ h ↦ List.mem_cons_of_mem _ (List.mem_cons_of_mem _ h)⟩
  | @silent view =>
    exact .of_modifyView view rfl (fun _ ↦ List.mem_cons_of_mem _) (fun _ ↦ rfl) (fun _ ↦ rfl)
      (fun _ ↦ rfl)
  | @view view =>
    exact .of_modifyView view rfl (fun _ h ↦ List.mem_cons_of_mem _ (List.mem_cons_of_mem _ h))
      (fun _ ↦ rfl) (fun _ ↦ rfl) (fun _ ↦ rfl)

/-! ### Operations that lend, hold or let go -/

theorem manned_composeIfDue (view : ViewId) (h : m.Manned) : (m.composeIfDue view).Manned := by
  have hfresh : m.Eases (m.withWorld (.modifyView view fun v ↦ { v with stale := false })) :=
    .of_modifyView view rfl (fun _ ↦ id) (fun _ ↦ rfl) (fun _ ↦ rfl) (fun _ ↦ rfl)
  unfold composeIfDue
  split
  · exact h
  · split
    · split
      · exact h.eases (hfresh.trans (eases_settle view _))
      · exact h.eases (hfresh.trans (eases_becomeReady view _ _))
      · exact World.Manned.lend (h.eases hfresh)
    · exact h.eases (eases_settle view m)

theorem manned_release {view : ViewId}
    (hlent : ∀ (j : ViewId) (v : View α β), m.world.views[j]? = some v → v.lent →
      .composing j ∈ m.stack)
    (hheld : ∀ (j : ViewId) (v : View α β), m.world.views[j]? = some v → j ≠ view → v.live →
      v.owned ∨ m.stack.any (·.holds j)) : (m.release view).Manned := by
  unfold release
  cases hview : m.world.liveView? view with
  | none =>
    refine ⟨hlent, fun j v hv hlive ↦ ?_⟩
    by_cases hj : j = view
    · subst hj
      rw [World.liveView?, hv, Option.filter_some, if_pos hlive] at hview
      contradiction
    · exact hheld j v hv hj hlive
  | some v =>
    dsimp only
    split
    case isTrue hkept =>
      refine ⟨hlent, fun j v' hv' hlive ↦ ?_⟩
      by_cases hj : j = view
      · subst hj
        rw [World.liveView?, hv', Option.filter_some, if_pos hlive] at hview
        obtain rfl := Option.some.inj hview
        simpa using hkept
      · exact hheld j v' hv' hj hlive
    case isFalse => exact .takeApart hlent hheld

theorem manned_dropView (view : ViewId) (h : m.Manned) : (m.dropView view).Manned := by
  refine manned_release (fun j v' hv' hlent ↦ ?_) (fun j v' hv' hj hlive ↦ ?_)
  · simp only [withWorld, World.modifyView, List.getElem?_modify] at hv'
    obtain ⟨v, hv, rfl⟩ := Option.map_eq_some_iff.mp hv'
    refine h.lent j v hv ?_
    split at hlent <;> exact hlent
  · have hv : m.world.views[j]? = some v' := by
      simpa [withWorld, World.modifyView, List.getElem?_modify, Ne.symm hj] using hv'
    exact h.held j v' hv hlive

theorem manned_build (sources : List SourceId) (composer : Composer α β) (h : m.Manned) :
    (m.build sources composer).Manned := by
  unfold build
  split
  · exact h
  · rename_i found _
    constructor
    case lent =>
      intro j v hv hlent
      simp only [returning, push, withWorld, World.openTick, World.addView,
        List.getElem?_append] at hv
      split at hv
      · exact List.mem_cons_of_mem _ (List.mem_cons_of_mem _ (List.mem_cons_of_mem _
          (h.lent j v hv hlent)))
      · rw [List.mem_singleton.mp (List.mem_of_getElem? hv)] at hlent
        contradiction
    case held =>
      intro j v hv hlive
      simp only [returning, push, withWorld, World.openTick, World.addView,
        List.getElem?_append] at hv ⊢
      by_cases hj : j < m.world.views.length
      · rw [if_pos hj] at hv
        refine (h.held j v hv hlive).imp_right fun hheld ↦ ?_
        simp [hheld]
      · rw [if_neg hj] at hv
        obtain ⟨hlast, -⟩ := List.getElem?_eq_some_iff.mp hv
        rw [List.length_singleton] at hlast
        have hle : m.world.views.length ≤ j := Nat.le_of_not_lt hj
        have hnew : m.world.views.length = j := by omega
        exact .inr (by simp [Frame.holds, hnew])

theorem manned_serve (request : Request α β) (h : m.Manned) : (m.serve request).Manned := by
  cases request with
  | newSource name => exact h.eases ⟨.of_views rfl, fun _ ↦ id⟩
  | emit source event => exact h.eases (eases_emit source event m)
  | build sources composer => exact manned_build sources composer h
  | subscribe target key => exact h.eases (eases_subscribe target key m)
  | cancel handle owned =>
    exact serve_cancel_induction (motive := Manned)
      (fun m handle h ↦ h.eases ⟨World.eases_cancel handle m.world, fun _ ↦ id⟩)
      (fun m target h ↦ h.eases ⟨.of_views (World.views_strand target m.world), fun _ ↦ id⟩)
      (fun _ view h ↦ manned_dropView view h) handle owned h
  | detach handle => exact h.eases ⟨.of_views rfl, fun _ ↦ id⟩
  | dispose view => exact h.eases ⟨World.eases_dispose view m.world, fun _ ↦ id⟩
  | dropView view => exact manned_dropView view h
  | enterTick => exact h.eases ⟨.of_views rfl, fun _ ↦ id⟩
  | leaveTick => exact h.eases (eases_closeTick _ m)
  | abandonTick => exact h.eases ⟨World.eases_abandonTick m.world, fun _ ↦ id⟩
  | poll feed => exact h.eases (eases_feed feed m)
  | finish | compose value | raise message =>
    refine serve_of_ends (motive := Manned) rfl h fun call turn below control hstack _ ↦ ?_
    rw [Manned, hstack] at h
    exact World.Manned.tail h (by simp) (fun _ ↦ rfl)

/-- What is left when a frame that held a view goes, and the view with it if nobody else has it. -/
theorem manned_pop {frame : Frame α β} {view : ViewId} (hstack : m.stack = frame :: m'.stack)
    (hviews : m'.world.views = m.world.views) (hcomposing : ∀ j, frame ≠ .composing j)
    (hholds : ∀ j, frame.holds j = (view == j)) (h : m.Manned) : (m'.release view).Manned := by
  rw [Manned, hstack] at h
  refine manned_release (fun j v hv hlent ↦ ?_) (fun j v hv hj hlive ↦ ?_)
  · rcases List.mem_cons.mp (h.lent j v (hviews ▸ hv) hlent) with heq | hrest
    · exact absurd heq.symm (hcomposing j)
    · exact hrest
  · refine (h.held j v (hviews ▸ hv) hlive).imp_right fun hheld ↦ ?_
    rw [List.any_cons, hholds, beq_false_of_ne (Ne.symm hj), Bool.false_or] at hheld
    exact hheld

/-- What is left when the frame on top goes. Assumes: it holds no view, and waits for no composer. -/
theorem Manned.below {frame : Frame α β} {below : List (Frame α β)} (h : m.Manned)
    (hstack : m.stack = frame :: below) (hcomposing : ∀ j, frame ≠ .composing j)
    (hholds : ∀ j, frame.holds j = false) : Manned { m with stack := below } := by
  rw [Manned, hstack] at h
  exact h.tail hcomposing hholds

/-- Assumes: what was on top holds no view, and waits for no composer. -/
theorem Manned.next {frame : Frame α β} {below : List (Frame α β)} (next : Frame α β) (h : m.Manned)
    (hstack : m.stack = frame :: below) (hcomposing : ∀ j, frame ≠ .composing j)
    (hholds : ∀ j, frame.holds j = false) : Manned { m with stack := next :: below } :=
  (h.below hstack hcomposing hholds).eases ⟨.refl _, fun _ ↦ List.mem_cons_of_mem _⟩

theorem manned_resume (answer : Answer α β) (h : m.Manned) : (m.resume answer).Manned := by
  -- what a composer worked on is given back
  have hreturned {view : ViewId} {below : List (Frame α β)} (hstack : m.stack = .composing view :: below) :
      Manned ({ m with stack := below }.withWorld
        (.modifyView view fun v ↦ { v with lent := false })) := by
    rw [Manned, hstack] at h
    exact h.takeBack
  have hresumes := m.resumes answer
  generalize m.resume answer = m' at hresumes ⊢
  cases hresumes with
  | rest | calling => exact h
  | drained hstack | delivered hstack | announced hstack | fed hstack =>
    exact h.below hstack (by simp) (fun _ ↦ rfl)
  | skipDelivery hstack | skipAnnouncement hstack => exact h.next _ hstack (by simp) (fun _ ↦ rfl)
  | @callListener source event _ _ tickets _ hstack =>
    exact (h.next (.delivering source event tickets) hstack (by simp) (fun _ ↦ rfl)).eases
      ⟨.refl _, fun _ ↦ List.mem_cons_of_mem _⟩
  | @callViewer view event _ _ tickets _ hstack =>
    exact (h.next (.announcing view event tickets) hstack (by simp) (fun _ ↦ rfl)).eases
      ⟨.refl _, fun _ ↦ List.mem_cons_of_mem _⟩
  | @fail view error errors _ hstack =>
    exact (h.next (.failing view errors) hstack (by simp) (fun _ ↦ rfl)).eases
      ⟨.refl _, fun _ ↦ List.mem_cons_of_mem _⟩
  | closing hstack => exact (h.below hstack (by simp) (fun _ ↦ rfl)).eases (eases_closeTick _ _)
  | drain hstack => exact (h.next _ hstack (by simp) (fun _ ↦ rfl)).eases (eases_runDeferred _ _)
  | hear hstack => exact (h.next _ hstack (by simp) (fun _ ↦ rfl)).eases (eases_hear _ _ _ _)
  | compose hstack => exact manned_composeIfDue _ (h.below hstack (by simp) (fun _ ↦ rfl))
  | composed hstack => exact (hreturned hstack).eases (eases_becomeReady _ _ _)
  | notComposed hstack => exact (hreturned hstack).eases (eases_settle _ _)
  | settle hstack => exact (h.below hstack (by simp) (fun _ ↦ rfl)).eases (eases_settle _ _)
  | release hstack | subscribedView hstack => exact manned_pop hstack rfl (by simp) (fun _ ↦ rfl) h
  | subscribed hstack =>
    exact (h.below hstack (by simp) (fun _ ↦ rfl)).eases ⟨.of_views rfl, fun _ ↦ id⟩
  | connect hstack => exact (h.next _ hstack (by simp) (fun _ ↦ rfl)).eases (eases_connect _ _ _ _)
  | connected hstack =>
    exact (h.below hstack (by simp) (fun _ ↦ rfl)).eases (eases_requestCompose _ _)
  | built hstack =>
    rw [Manned, hstack] at h
    exact h.hand
  | feed hstack => exact (h.below hstack (by simp) (fun _ ↦ rfl)).eases (eases_feed _ _)

theorem manned_giveUp (message : String) (h : m.Manned) : (m.giveUp message).Manned := by
  have hgivesUp := m.givesUp message
  generalize m.giveUp message = m' at hgivesUp ⊢
  cases hgivesUp with
  | rest | calling => exact h
  | closing hstack =>
    exact (h.below hstack (by simp) (fun _ ↦ rfl)).eases
      ⟨World.eases_abandonTick m.world, fun _ ↦ id⟩
  | draining hstack =>
    exact (h.below hstack (by simp) (fun _ ↦ rfl)).eases
      ⟨World.eases_unschedule _ m.world, fun _ ↦ id⟩
  | composing hstack =>
    rw [Manned, hstack] at h
    exact h.takeBack
  | holding hstack | building hstack => exact manned_pop hstack rfl (by simp) (fun _ ↦ rfl) h
  | subscribing hstack =>
    exact (h.below hstack (by simp) (fun _ ↦ rfl)).eases ⟨.of_views rfl, fun _ ↦ id⟩
  | @subscribingView view ticket below hstack =>
    have hleft : (m.withWorld (.unregister (.view view) ticket)).Manned :=
      h.eases (Eases.withWorld (World.eases_unregister (.view view) ticket m.world))
    exact manned_pop (m := m.withWorld (.unregister (.view view) ticket)) hstack rfl (by simp)
      (fun _ ↦ rfl) hleft
  | pop hstack hframe =>
    refine h.below hstack ?_ fun j ↦ ?_
    · rintro j rfl
      contradiction
    · unfold Frame.leavesNothing at hframe
      split at hframe <;> first | rfl | contradiction

theorem manned_move (move : Move α β) (h : m.Manned) : (m.move move).Manned :=
  move_of move h (fun request _ _ ↦ manned_serve request h) (fun answer _ _ ↦ manned_resume answer h)
    fun message _ _ ↦ manned_giveUp message h

/-- Every view that is live is kept by somebody, after every run. -/
theorem manned_run (moves : List (Move α β)) : (run moves ({} : Machine α β)).Manned :=
  run_preserves (fun _ move ↦ manned_move move) ⟨by simp, by simp⟩ moves

end Machine

end LiveRecord.Flow
