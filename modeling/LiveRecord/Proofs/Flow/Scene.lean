import LiveRecord.Proofs.Flow.Slots
import LiveRecord.Proofs.Flow.Stack

/-!
# Sources and the inputs of views

A scene is the world without what views make of their news: the sources, what the inputs of each
view show, who listens and who has the view. A view that goes through its news leaves the scene
alone (`Machine.Works`), and an input that hears an event inside a tick changes what that input
shows (`Machine.hear_spec`).
-/

set_option autoImplicit false

namespace LiveRecord.Flow

variable {α β : Type}

/-- A view without its work. -/
structure Outline (α : Type) where
  slots : List (Slot α)
  inputs : List (SourceId × Nat) := []
  listeners : Registry Nat := {}
  disposed : Bool := false
  owned : Bool := false
  live : Bool := true

def View.outline (v : View α β) : Outline α where
  slots := v.slots
  inputs := v.inputs
  listeners := v.listeners
  disposed := v.disposed
  owned := v.owned
  live := v.live

structure Scene (α : Type) where
  sources : List (Source α) := []
  views : List (Outline α) := []
  handles : List Handle := []
  /-- The number of open ticks. -/
  depth : Nat := 0
  stranded : List SourceId := []

def World.scene (world : World α β) : Scene α where
  sources := world.sources
  views := world.views.map (·.outline)
  handles := world.handles
  depth := world.depth
  stranded := world.stranded

namespace Outline

def allLoaded (o : Outline α) : Bool := o.slots.all (·.status == .loaded)

/-- An input hears an event. -/
def hear (slot : Nat) (event : Event α) (o : Outline α) : Outline α :=
  { o with slots := o.slots.modify slot (·.hear event) }

end Outline

namespace Scene

variable {scene : Scene α} {i j : ViewId} {o : Outline α}

def modifyView (j : ViewId) (f : Outline α → Outline α) (scene : Scene α) : Scene α :=
  { scene with views := scene.views.modify j f }

/-- The event that a source emitted last. It is pending until then. -/
def current (source : SourceId) (scene : Scene α) : Event α :=
  (scene.sources[source]?.map (·.current)).getD .pending

/-- The listener of a source under a ticket. -/
def listener? (source : SourceId) (ticket : Nat) (scene : Scene α) : Option Listener :=
  scene.sources[source]?.bind (·.listeners.find? ticket)

theorem getElem?_modifyView_self (f : Outline α → Outline α) (h : scene.views[j]? = some o) :
    (scene.modifyView j f).views[j]? = some (f o) := by
  rw [modifyView, List.getElem?_modify_eq, h]
  rfl

theorem getElem?_modifyView_of_ne (f : Outline α → Outline α) (hne : j ≠ i) :
    (scene.modifyView j f).views[i]? = scene.views[i]? :=
  List.getElem?_modify_ne f scene.views hne

/-- Where an outline of a changed scene comes from. -/
theorem exists_of_modifyView {f : Outline α → Outline α} {o' : Outline α}
    (h : (scene.modifyView j f).views[i]? = some o') :
    ∃ o, scene.views[i]? = some o ∧ (j = i ∧ o' = f o ∨ j ≠ i ∧ o' = o) := by
  rw [modifyView, List.getElem?_modify] at h
  obtain ⟨o, ho, rfl⟩ := Option.map_eq_some_iff.mp h
  refine ⟨o, ho, ?_⟩
  by_cases hj : j = i
  · exact .inl ⟨hj, if_pos hj⟩
  · exact .inr ⟨hj, if_neg hj⟩

end Scene

namespace World

variable {world : World α β} {j : ViewId} {v : View α β} {o : Outline α}

theorem getElem?_scene (h : world.views[j]? = some v) : world.scene.views[j]? = some v.outline := by
  simp [scene, h]

theorem exists_of_scene (h : world.scene.views[j]? = some o) :
    ∃ v, world.views[j]? = some v ∧ v.outline = o := by
  simpa [scene] using h

/-- Assumes: a change of the view of which only `g` is seen. -/
theorem scene_modifyView {f : View α β → View α β} {g : Outline α → Outline α}
    (h : ∀ v, (f v).outline = g v.outline) :
    (world.modifyView j f).scene = world.scene.modifyView j g := by
  have hviews : (world.views.modify j f).map (·.outline) =
      (world.views.map (·.outline)).modify j g := by
    ext k outline
    simp only [List.getElem?_map, List.getElem?_modify]
    cases world.views[k]? with
    | none => rfl
    | some v =>
      by_cases hk : j = k
      · simp [hk, h]
      · simp [hk]
  simp only [scene, modifyView, Scene.modifyView, hviews]

/-- Assumes: a change of the view of which nothing is seen. -/
theorem scene_modifyView_eq {f : View α β → View α β} (h : ∀ v, (f v).outline = v.outline) :
    (world.modifyView j f).scene = world.scene := by
  have hid : world.scene.modifyView j id = world.scene := by
    rw [Scene.modifyView, List.modify_id]
  exact (@scene_modifyView α β world j f id h).trans hid

theorem scene_schedule : (world.schedule j).scene = world.scene :=
  (scene_modifyView_eq fun _ ↦ rfl : (World.modifyView j (fun v ↦ { v with scheduled := true })
    { world with deferred := world.deferred ++ [j] }).scene = _)

end World

namespace Machine

variable {j : ViewId} {m m' m'' : Machine α β}

/-- The user has control only where it is called or nothing is under way, and nothing raises. -/
def Poised (m : Machine α β) : Prop :=
  match m.control with
  | .user _ => m.stack = [] ∨ ∃ call turn stack, m.stack = .calling call turn :: stack
  | .returning _ => True
  | .unwinding _ => False

theorem Poised.isUnwinding (h : m.Poised) : m.isUnwinding = false := by
  unfold Poised at h
  unfold Machine.isUnwinding
  cases hcontrol : m.control with
  | unwinding message =>
    rw [hcontrol] at h
    exact h.elim
  | _ => rfl

/-! ### Going through the news -/

/-- The view goes through its news, or not. The scene stays the same. -/
structure Works (j : ViewId) (m m' : Machine α β) : Prop where
  scene : m'.world.scene = m.world.scene
  poised : m'.Poised
  stack : m'.stack = m.stack ∨ ∃ o errors, m.world.scene.views[j]? = some o ∧ o.disposed = false ∧
    m'.stack = .failing j errors :: m.stack

theorem Works.of_returning (hscene : m'.world.scene = m.world.scene)
    (hpoised : m'.Poised) (hstack : m'.stack = m.stack) : Works j m m' :=
  ⟨hscene, hpoised, .inl hstack⟩

/-- Assumes: a step that leaves the scene and the stack alone at first. -/
theorem Works.after (hscene : m'.world.scene = m.world.scene) (hstack : m'.stack = m.stack)
    (h : Works j m' m'') : Works j m m'' where
  scene := h.scene.trans hscene
  poised := h.poised
  stack := by
    rw [← hscene, ← hstack]
    exact h.stack

theorem works_workOff (j : ViewId) (m : Machine α β) : Works j m (m.workOff j) := by
  unfold workOff
  split
  case h_1 => exact .of_returning rfl trivial rfl
  case h_2 v hview =>
    split
    case isTrue => exact .of_returning (World.scene_modifyView_eq fun _ ↦ rfl) trivial rfl
    case isFalse hdisposed =>
      refine ⟨World.scene_modifyView_eq fun _ ↦ rfl, trivial,
        .inr ⟨v.outline, v.failures, ?_, ?_, rfl⟩⟩
      · exact World.getElem?_scene hview
      · exact (Bool.not_eq_true _).mp hdisposed

theorem works_flush (j : ViewId) (m : Machine α β) : Works j m (m.flush j) := by
  unfold flush
  split
  · exact .of_returning rfl trivial rfl
  · split
    · exact .of_returning (World.scene_modifyView_eq fun _ ↦ rfl) trivial rfl
    · refine Works.after ?_ ?_ (works_workOff j _)
      · exact World.scene_modifyView_eq fun _ ↦ rfl
      · rfl

theorem works_settle (j : ViewId) (m : Machine α β) : Works j m (m.settle j) := by
  unfold settle
  split
  · exact .of_returning rfl trivial rfl
  · split
    · exact works_workOff j m
    · exact .of_returning (World.scene_modifyView_eq fun _ ↦ rfl) trivial rfl

/-- Assumes: a tick is open. -/
theorem requestCompose_spec (j : ViewId) (htick : m.world.inTick) :
    (m.requestCompose j).world.scene = m.world.scene ∧
      (m.requestCompose j).Poised ∧ (m.requestCompose j).stack = m.stack := by
  unfold requestCompose
  split
  · exact ⟨rfl, trivial, rfl⟩
  · split
    case isTrue hquiet => simp [htick] at hquiet
    case isFalse =>
      split
      · exact ⟨rfl, trivial, rfl⟩
      · exact ⟨World.scene_schedule, trivial, rfl⟩

/-- What is on the stack for a view that announces a value, or waits for one. -/
inductive Composes (j : ViewId) (stack : List (Frame α β)) : List (Frame α β) → Prop
  | ready (event : ViewEvent β) (tickets : List Nat) :
      Composes j stack (.announcing j event tickets :: .settling j :: stack)
  | call (key : Nat) (inputs : List α) :
      Composes j stack (.calling (.compose key inputs) none :: .composing j :: stack)

theorem becomeReady_spec (j : ViewId) (value : β) (m : Machine α β) :
    (m.becomeReady j value).world.scene = m.world.scene ∧
      (m.becomeReady j value).Poised ∧
      Composes j m.stack (m.becomeReady j value).stack :=
  ⟨World.scene_modifyView_eq fun _ ↦ rfl, trivial, .ready _ _⟩

/-- A view composes only when all its inputs are loaded, and otherwise sees whether there is more
news. -/
theorem composeIfDue_spec (j : ViewId) (m : Machine α β) :
    Works j m (m.composeIfDue j) ∨
      (∃ o, m.world.scene.views[j]? = some o ∧ o.allLoaded) ∧
        (m.composeIfDue j).world.scene = m.world.scene ∧
        (m.composeIfDue j).Poised ∧ Composes j m.stack (m.composeIfDue j).stack := by
  have hfresh : (m.withWorld (.modifyView j fun v ↦ { v with stale := false })).world.scene =
      m.world.scene := World.scene_modifyView_eq fun _ ↦ rfl
  unfold composeIfDue
  split
  case h_1 => exact .inl (.of_returning rfl trivial rfl)
  case h_2 v hview =>
    split
    case isFalse => exact .inl (works_settle j m)
    case isTrue hdue =>
      rw [View.isDue, Bool.and_eq_true] at hdue
      have hloaded : ∃ o, m.world.scene.views[j]? = some o ∧ o.allLoaded :=
        ⟨v.outline, World.getElem?_scene hview, hdue.2⟩
      dsimp only
      split
      · exact .inl (.after hfresh rfl (works_settle j _))
      · obtain ⟨hscene, hpoised, hstack⟩ := becomeReady_spec j _
          (m.withWorld (.modifyView j fun v ↦ { v with stale := false }))
        exact .inr ⟨hloaded, hscene.trans hfresh, hpoised, hstack⟩
      · refine .inr ⟨hloaded, ?_, .inr ⟨_, _, _, rfl⟩, .call _ _⟩
        exact (World.scene_modifyView_eq fun _ ↦ rfl :
          (World.modifyView j (fun v ↦ { v with lent := true }) _).scene = _).trans hfresh

/-! ### Hearing an event, ending a tick and letting go -/

theorem scene_absorb {v : View α β} (slot : Nat) (event : Event α)
    (hview : m.world.views[j]? = some v) (hdisposed : v.disposed = false) :
    (m.world.modifyView j (.absorb slot event)).scene =
      m.world.scene.modifyView j (·.hear slot event) := by
  have houtline : (v.absorb slot event).outline = v.outline.hear slot event := by
    cases event with
    | pending => rw [View.absorb_pending hdisposed]; rfl
    | loaded value => rw [View.absorb_loaded value hdisposed]; rfl
    | failed error => rw [View.absorb_failed error hdisposed]; rfl
  have hviews : (m.world.views.modify j (.absorb slot event)).map (·.outline) =
      (m.world.views.map (·.outline)).modify j (·.hear slot event) := by
    ext k outline
    simp only [List.getElem?_map, List.getElem?_modify]
    by_cases hk : j = k
    · subst hk
      simp [hview, houtline]
    · simp [hk]
  simp only [World.scene, World.modifyView, Scene.modifyView, hviews]

/-- An input hears an event. Assumes: a tick is open, and the view is there and may change. -/
theorem hear_spec {v : View α β} (slot : Nat) (event : Event α) (hview : m.world.views[j]? = some v)
    (hlive : v.live) (hdisposed : v.disposed = false) (hlent : v.lent = false)
    (htick : m.world.inTick) :
    (m.hear j slot event).world.scene = m.world.scene.modifyView j (·.hear slot event) ∧
      (m.hear j slot event).Poised ∧
      ((m.hear j slot event).stack = .holding j :: m.stack ∨
        event.isFailed ∧ ∃ errors,
          (m.hear j slot event).stack = .failing j errors :: .holding j :: m.stack) := by
  have hfound : m.world.liveView? j = some v := by
    rw [World.liveView?, hview, Option.filter_some, if_pos hlive]
  let heard : Machine α β :=
    (m.push (.holding j)).withWorld (.modifyView j (.absorb slot event))
  have hheard : heard.world.scene = m.world.scene.modifyView j (·.hear slot event) :=
    scene_absorb slot event hview hdisposed
  simp only [hear, hfound, hlent, hdisposed, Bool.false_and, Bool.false_eq_true, if_false]
  cases event with
  | pending => exact ⟨hheard, trivial, .inl rfl⟩
  | loaded value =>
    obtain ⟨hscene, hpoised, hstack⟩ := @requestCompose_spec α β heard j htick
    exact ⟨hscene.trans hheard, hpoised, .inl hstack⟩
  | failed error =>
    obtain ⟨hscene, hpoised, hstack⟩ := works_flush j heard
    refine ⟨hscene.trans hheard, hpoised, hstack.imp_right ?_⟩
    rintro ⟨-, errors, -, -, hfailing⟩
    exact ⟨rfl, errors, hfailing⟩

/-- What was deferred is gone through only when the outermost tick ends. -/
theorem closeTick_spec (answer : Answer α β) (m : Machine α β) :
    ∃ views, (views = [] ∨ m.world.depth - 1 = 0) ∧
      (m.closeTick answer).world.scene = { m.world.scene with depth := m.world.depth - 1 } ∧
      (m.closeTick answer).stack = .draining views answer :: m.stack := by
  unfold closeTick World.closeTick
  dsimp only
  split
  case isTrue hlast => exact ⟨_, .inr hlast, rfl, rfl⟩
  case isFalse => exact ⟨[], .inl rfl, rfl, rfl⟩

/-- Nothing is let go. Assumes: the view is not live, or somebody has it. -/
theorem release_of_owned
    (h : ∀ o, m.world.scene.views[j]? = some o → o.live → o.owned ∨ m.stack.any (·.holds j)) :
    m.release j = m := by
  unfold release
  split
  case h_2 => rfl
  case h_1 v hfound =>
    obtain ⟨hview, hlive⟩ := Option.filter_eq_some_iff.mp hfound
    have hheld : v.owned ∨ m.stack.any (·.holds j) := h v.outline (World.getElem?_scene hview) hlive
    rw [if_pos (by simpa using hheld)]

end Machine

end LiveRecord.Flow
