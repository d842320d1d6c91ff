import LiveRecord.Proofs.Flow.Footprint
import LiveRecord.Proofs.Flow.Scene

/-!
# What an observer does

An observer that hears an event takes note, and its view goes through its news and composes if a
value is due. Nobody listens to that view, so the core soon goes on where it was, and nothing but
the view has changed (`Observer.Completes`).
-/

set_option autoImplicit false

namespace LiveRecord.Flow

variable {α β : Type}

/-- What is seen of an observer: of its views, and of its tickets at others. -/
def Footprint.owns (f : Footprint) : Notice α β → Bool
  | .accepted _ _ => false
  | .ofView view (.heard ticket _) => f.views.has view || (f.tickets (.view view)).has ticket
  | .ofView view _ => f.views.has view

namespace Observer

/-- How an observer ends a call that is for it. -/
def reply? (o : Observer α β) : Call α β → Option (Request α β)
  | .sourceEvent key _ | .viewEvent key _ => if key = o.key then some .finish else none
  | .compose key inputs => if key = o.key then some (.compose (o.compose inputs)) else none

/-- The move is one of the core, or ends a call that is for the observer. -/
def Acts (o : Observer α β) (m : Machine α β) : Move α β → Prop
  | .advance => m.hasUser = false
  | .request request =>
    ∃ call, m.control = .user (.called call) ∧ o.reply? call = some request

/-- The move is the observer's turn: nothing is seen of it but what concerns the observer. -/
def Turn (o : Observer α β) (f : Footprint) (m : Machine α β) (move : Move α β) : Prop :=
  o.Acts m move ∧ ∀ notice ∈ m.notices move, f.owns notice

/-- Turns of the observer lead from one machine to the other. -/
def Leads (o : Observer α β) (f : Footprint) (m m' : Machine α β) : Prop :=
  ∃ moves, Machine.Along (o.Turn f) moves m ∧ m.run moves = m'

section Leads

variable {o : Observer α β} {f : Footprint} {m m' m'' : Machine α β}

theorem Leads.refl (m : Machine α β) : o.Leads f m m := ⟨[], trivial, rfl⟩

theorem Leads.trans (hfirst : o.Leads f m m') (hlast : o.Leads f m' m'') : o.Leads f m m'' := by
  obtain ⟨first, hturns, rfl⟩ := hfirst
  obtain ⟨last, hturns', rfl⟩ := hlast
  exact ⟨first ++ last, Machine.along_append.mpr ⟨hturns, hturns'⟩, Machine.run_append first last m⟩

theorem Leads.of_turn {move : Move α β} (h : o.Turn f m move) : o.Leads f m (m.move move) :=
  ⟨[move], ⟨h, trivial⟩, rfl⟩

/-- Assumes: the core is on its way back, and nothing is seen of what it does but what concerns the
observer. -/
theorem Leads.resume {answer : Answer α β} (hcontrol : m.control = .returning answer)
    (hnotices : ∀ notice ∈ m.resumeNotices answer, f.owns notice) :
    o.Leads f m (m.resume answer) := by
  have hturn : o.Turn f m .advance := by
    refine ⟨by simp only [Acts, Machine.hasUser, hcontrol], ?_⟩
    simpa only [Machine.notices, hcontrol] using hnotices
  have hmove : m.move .advance = m.resume answer := by
    simp only [Machine.move, Machine.advance, hcontrol]
  exact hmove ▸ .of_turn hturn

theorem Leads.resume_eq {answer : Answer α β} (hcontrol : m.control = .returning answer)
    (hresumes : m.resume answer = m')
    (hnotices : ∀ notice ∈ m.resumeNotices answer, f.owns notice) : o.Leads f m m' :=
  hresumes ▸ .resume hcontrol hnotices

/-- Assumes: a call that is for the observer. -/
theorem Leads.reply {call : Call α β} {request : Request α β}
    (hcontrol : m.control = .user (.called call)) (hreply : o.reply? call = some request) :
    o.Leads f m (m.serve request) := by
  have hmove : m.move (.request request) = m.serve request := by
    simp only [Machine.move, Machine.submit, hcontrol]
  have hnotices : m.requestNotices request = [] := by
    cases call <;> simp only [reply?] at hreply <;> split at hreply <;>
      first
      | rw [← Option.some.inj hreply]; rfl
      | contradiction
  refine hmove ▸ .of_turn ⟨⟨call, hcontrol, hreply⟩, ?_⟩
  simp [Machine.notices, hcontrol, hnotices]

/-- The observer takes note of what it is told. -/
theorem Leads.call {world : World α β} {stack : List (Frame α β)} {call : Call α β}
    {turn : Option (Target × Nat)} {control : Control α β}
    (hreply : o.reply? call = some .finish) :
    o.Leads f (Machine.call call { world, stack, control } turn)
      { world, stack, control := .returning .done } := by
  have hended : (Machine.call call { world, stack, control } turn).serve .finish =
      { world, stack, control := .returning .done } := by
    cases call with
    | compose key inputs =>
      simp only [reply?] at hreply
      split at hreply <;> simp at hreply
    | _ => rfl
  exact hended ▸ .reply rfl hreply

end Leads

end Observer

/-! ### Changes that only concern one view -/

/-- Only that view has changed, and may wait to compose. -/
structure World.Touches (j : ViewId) (world world' : World α β) : Prop where
  sources : world'.sources = world.sources
  handles : world'.handles = world.handles
  depth : world'.depth = world.depth
  length : world'.views.length = world.views.length
  others : ∀ k, k ≠ j → world'.views[k]? = world.views[k]?
  deferred : ∃ times, world'.deferred = world.deferred ++ List.replicate times j
  stranded : world'.stranded = world.stranded

namespace World.Touches

variable {j : ViewId} {world world' world'' : World α β}

theorem refl (j : ViewId) (world : World α β) : world.Touches j world :=
  ⟨rfl, rfl, rfl, rfl, fun _ _ ↦ rfl, ⟨0, by simp⟩, rfl⟩

theorem trans (hfirst : world.Touches j world') (hlast : world'.Touches j world'') :
    world.Touches j world'' where
  sources := hlast.sources.trans hfirst.sources
  handles := hlast.handles.trans hfirst.handles
  depth := hlast.depth.trans hfirst.depth
  length := hlast.length.trans hfirst.length
  others k hk := (hlast.others k hk).trans (hfirst.others k hk)
  deferred := by
    obtain ⟨first, hdeferred⟩ := hfirst.deferred
    obtain ⟨last, hdeferred'⟩ := hlast.deferred
    refine ⟨first + last, ?_⟩
    rw [hdeferred', hdeferred, List.append_assoc, List.replicate_append_replicate]
  stranded := hlast.stranded.trans hfirst.stranded

theorem modifyView (j : ViewId) (world : World α β) (g : View α β → View α β) :
    world.Touches j (world.modifyView j g) where
  sources := rfl
  handles := rfl
  depth := rfl
  length := List.length_modify g _ _
  others k hk := List.getElem?_modify_ne g _ hk.symm
  deferred := ⟨0, by simp [World.modifyView]⟩
  stranded := rfl

theorem schedule (j : ViewId) (world : World α β) : world.Touches j (world.schedule j) := by
  have hdeferred : world.Touches j { world with deferred := world.deferred ++ [j] } :=
    ⟨rfl, rfl, rfl, rfl, fun _ _ ↦ rfl, ⟨1, rfl⟩, rfl⟩
  exact hdeferred.trans (.modifyView j _ _)

end World.Touches

theorem Footprint.Hosts.touch {o : Observer α β} {f : Footprint} {world world' world'' : World α β}
    {j : ViewId} {v : View α β} (h : f.Hosts o world world') (hj : f.views.has j)
    (htouches : world'.Touches j world'') (hview : world''.views[j]? = some v)
    (hkeeps : o.Keeps v) : f.Hosts o world world'' where
  depth := htouches.depth.trans h.depth
  deferred := by
    obtain ⟨times, hdeferred⟩ := htouches.deferred
    have hown : (List.replicate times j).filter (fun i ↦ !f.views.has i) = [] := by
      simp [hj]
    rw [Gap.Hosts, hdeferred, List.filter_append, hown, List.append_nil]
    exact h.deferred
  sources := htouches.sources ▸ h.sources
  views := by
    refine ⟨h.views.start, htouches.length.trans h.views.length, fun k v hv ↦ ?_⟩
    obtain ⟨v', hv', hsame⟩ := h.views.get k v hv
    exact ⟨v', (htouches.others _ (Gap.skip_ne_of_has hj k)).trans hv', hsame⟩
  handles := htouches.handles ▸ h.handles
  own k hk := by
    by_cases hkj : k = j
    · exact ⟨v, hkj ▸ hview, hkeeps⟩
    · obtain ⟨v', hv', hkept⟩ := h.own k hk
      exact ⟨v', (htouches.others k hkj).trans hv', hkept⟩
  newSource := h.newSource
  newView k hk := h.newView k (htouches.length ▸ hk)
  stranded := htouches.stranded.trans h.stranded

namespace Observer

/-! ### The work of a view of an observer -/

/-- After turns of the observer, the core goes on below. Since `origin` nothing has changed but the
view of the observer, which is not at work. -/
def Completes (o : Observer α β) (f : Footprint) (j : ViewId) (owned : Bool)
    (below : List (Frame α β)) (origin : World α β) (m : Machine α β) : Prop :=
  ∃ world v, origin.Touches j world ∧ world.views[j]? = some v ∧ o.Sees v ∧ v.owned = owned ∧
    v.composing = false ∧ o.Leads f m { world, stack := below, control := .returning .done }

variable {o : Observer α β} {f : Footprint} {j : ViewId} {owned : Bool} {m m' : Machine α β}
  {origin world : World α β} {below : List (Frame α β)} {v : View α β} {answer : Answer α β}
  {control : Control α β}

theorem Completes.after (hleads : o.Leads f m m') (htouches : origin.Touches j world)
    (h : o.Completes f j owned below world m') : o.Completes f j owned below origin m := by
  obtain ⟨world', v, htouches', hview, hsees, howned, hcomposing, hleads'⟩ := h
  exact ⟨world', v, htouches.trans htouches', hview, hsees, howned, hcomposing,
    hleads.trans hleads'⟩

theorem getElem?_modifyView_self (hview : world.views[j]? = some v) (g : View α β → View α β) :
    (world.modifyView j g).views[j]? = some (g v) := by
  rw [World.modifyView, List.getElem?_modify_eq, hview]
  rfl

theorem Sees.absorb (h : o.Sees v) (slot : Nat) (event : Event α) :
    o.Sees (v.absorb slot event) := by
  have hsame : ∀ v' : View α β, v'.composer = v.composer → v'.listeners = v.listeners →
      v'.live = v.live → v'.disposed = v.disposed → v'.lent = v.lent → v'.dirty = v.dirty →
        o.Sees v' := by
    rintro v' hcomposer hlisteners hlive hdisposed hlent hdirty
    exact ⟨hcomposer ▸ h.composer, hlisteners ▸ h.listeners, hlive ▸ h.live,
      hdisposed ▸ h.disposed, hlent ▸ h.lent, hdirty ▸ h.dirty⟩
  cases event with
  | pending => rw [View.absorb_pending h.disposed]; exact hsame _ rfl rfl rfl rfl rfl rfl
  | loaded value => rw [View.absorb_loaded value h.disposed]; exact hsame _ rfl rfl rfl rfl rfl rfl
  | failed error => rw [View.absorb_failed error h.disposed]; exact hsame _ rfl rfl rfl rfl rfl rfl

theorem viewTickets_of_sees (hview : world.views[j]? = some v) (hsees : o.Sees v) :
    world.viewTickets j = [] := by
  simp only [World.viewTickets, hview, Registry.tickets, hsees.listeners, List.map_nil]

/-- Nobody hears what the view announces. -/
theorem leads_announcing (event : ViewEvent β) :
    o.Leads f { world, stack := .announcing j event [] :: below, control := .returning answer }
      { world, stack := below, control := .returning .done } :=
  .resume rfl (by simp [Machine.resumeNotices])

theorem completes_settle (hview : world.views[j]? = some v) (hsees : o.Sees v)
    (howned : v.owned = owned) :
    o.Completes f j owned below world (Machine.settle j { world, stack := below, control }) := by
  have hsettled : Machine.settle j { world, stack := below, control } =
      { world := world.modifyView j fun v ↦ { v with composing := false }, stack := below,
        control := .returning .done } := by
    simp only [Machine.settle, hview, hsees.dirty]
    rfl
  rw [hsettled]
  exact ⟨_, _, .modifyView j _ _, getElem?_modifyView_self hview _,
    ⟨hsees.composer, hsees.listeners, hsees.live, hsees.disposed, hsees.lent, hsees.dirty⟩, howned,
    rfl, .refl _⟩

theorem completes_becomeReady (hview : world.views[j]? = some v) (hsees : o.Sees v)
    (howned : v.owned = owned) (value : β) :
    o.Completes f j owned below world
      (Machine.becomeReady j value { world, stack := below, control }) := by
  have hready := getElem?_modifyView_self hview (.becomeReady value)
  have hsees' : o.Sees (v.becomeReady value) :=
    ⟨hsees.composer, hsees.listeners, hsees.live, hsees.disposed, hsees.lent, hsees.dirty⟩
  have hpushed : Machine.becomeReady j value { world, stack := below, control } =
      { world := world.modifyView j (.becomeReady value)
        stack := .announcing j (.ready value) [] :: .settling j :: below
        control := .returning .done } := by
    simp only [Machine.becomeReady, Machine.withWorld, viewTickets_of_sees hready hsees']
    rfl
  rw [hpushed]
  refine .after ((leads_announcing _).trans (.resume rfl ?_)) (.modifyView j _ _)
    (completes_settle hready hsees' howned)
  simp [Machine.resumeNotices]

/-- The observer has composed a value. -/
theorem leads_composed (hj : f.views.has j) (value : β) :
    o.Leads f { world, stack := .composing j :: below, control := .returning (.composed value) }
      (Machine.becomeReady j value
        { world := world.modifyView j fun v ↦ { v with lent := false }, stack := below,
          control := .returning (.composed value) }) := by
  refine @Leads.resume α β o f
    { world, stack := .composing j :: below, control := .returning (.composed value) } _ rfl ?_
  intro notice hnotice
  simp only [Machine.resumeNotices] at hnotice
  cases hview : world.views[j]? with
  | none => simp [hview] at hnotice
  | some v =>
    simp only [hview, List.mem_singleton] at hnotice
    rw [hnotice]
    exact hj

/-- The view is asked to compose, by a function or through its observer. -/
theorem completes_composeIfDue (hview : world.views[j]? = some v) (hsees : o.Sees v)
    (howned : v.owned = owned) (hj : f.views.has j) :
    o.Completes f j owned below world
      (Machine.composeIfDue j { world, stack := below, control }) := by
  have hfresh := getElem?_modifyView_self hview fun v ↦ { v with stale := false }
  have hsees' : o.Sees { v with stale := false } :=
    ⟨hsees.composer, hsees.listeners, hsees.live, hsees.disposed, hsees.lent, hsees.dirty⟩
  unfold Machine.composeIfDue
  simp only [hview]
  split
  · cases v.cachedValues? with
    | none => exact .after (.refl _) (.modifyView j _ _) (completes_settle hfresh hsees' howned)
    | some inputs =>
      rcases hsees.composer with hcomposer | hcomposer
      · simp only [hcomposer]
        exact .after (.refl _) (.modifyView j _ _) (completes_becomeReady hfresh hsees' howned _)
      · -- the values are lent while the observer composes, and nothing happens meanwhile
        simp only [hcomposer]
        have hlent := getElem?_modifyView_self hfresh fun v ↦ { v with lent := true }
        have hreturned := getElem?_modifyView_self hlent fun v ↦ { v with lent := false }
        have hreply : o.reply? (.compose o.key inputs) = some (.compose (o.compose inputs)) :=
          if_pos rfl
        refine .after ((Leads.reply rfl hreply).trans (leads_composed hj _))
          (((World.Touches.modifyView j _ _).trans (.modifyView j _ _)).trans (.modifyView j _ _))
          (completes_becomeReady hreturned ?_ howned _)
        exact ⟨hsees.composer, hsees.listeners, hsees.live, hsees.disposed, rfl, hsees.dirty⟩
  · exact completes_settle hview hsees howned

theorem owns_composeNotices (hj : f.views.has j) (m : Machine α β) :
    ∀ notice ∈ m.composeNotices j, f.owns notice := by
  intro notice hnotice
  unfold Machine.composeNotices at hnotice
  split at hnotice
  · simp at hnotice
  · split at hnotice
    · split at hnotice
      · simp at hnotice
      · rcases List.mem_pair.mp hnotice with rfl | rfl <;> exact hj
      · rw [List.mem_singleton.mp hnotice]
        exact hj
    · simp at hnotice

theorem owns_hearNotices (hj : f.views.has j) (slot : Nat) (event : Event α) (m : Machine α β) :
    ∀ notice ∈ m.hearNotices j slot event, f.owns notice := by
  intro notice hnotice
  unfold Machine.hearNotices at hnotice
  split at hnotice
  · simp at hnotice
  · split at hnotice
    · simp at hnotice
    · rw [List.mem_singleton.mp hnotice]
      exact hj

theorem completes_failing (hview : world.views[j]? = some v) (hsees : o.Sees v)
    (howned : v.owned = owned) (hj : f.views.has j) (errors : List SourceError) :
    o.Completes f j owned below world
      { world, stack := .failing j errors :: below, control := .returning answer } := by
  induction errors generalizing answer with
  | nil =>
    exact .after (.resume rfl (owns_composeNotices hj _)) (.refl j _)
      (completes_composeIfDue hview hsees howned hj)
  | cons error errors ih =>
    have hstarts : o.Leads f
        { world, stack := .failing j (error :: errors) :: below, control := .returning answer }
        { world
          stack := .announcing j (.failed error) [] :: .failing j errors :: below
          control := .returning .done } := by
      refine .resume_eq rfl ?_ (by simp [Machine.resumeNotices])
      simp only [Machine.resume, Machine.push, viewTickets_of_sees hview hsees]
      rfl
    exact .after (hstarts.trans (leads_announcing _)) (.refl j _) ih

/-- Assumes: a view that is not at work. -/
theorem completes_flush (hview : world.views[j]? = some v) (hsees : o.Sees v)
    (howned : v.owned = owned) (hcomposing : v.composing = false) (hj : f.views.has j) :
    o.Completes f j owned below world (Machine.flush j { world, stack := below, control }) := by
  have hbusy := getElem?_modifyView_self hview fun v ↦ { v with composing := true }
  have hemptied := getElem?_modifyView_self hbusy fun v ↦ { v with dirty := false, failures := [] }
  have hflushed : Machine.flush j { world, stack := below, control } =
      { world := (world.modifyView j fun v ↦ { v with composing := true }).modifyView j
          fun v ↦ { v with dirty := false, failures := [] }
        stack := .failing j v.failures :: below
        control := .returning .done } := by
    simp only [Machine.flush, Machine.workOff, Machine.withWorld, hview, hcomposing, hbusy,
      hsees.disposed]
    rfl
  rw [hflushed]
  refine .after (.refl _) ((World.Touches.modifyView j _ _).trans (.modifyView j _ _))
    (completes_failing hemptied ?_ howned hj _)
  exact ⟨hsees.composer, hsees.listeners, hsees.live, hsees.disposed, hsees.lent, rfl⟩

theorem completes_requestCompose (hview : world.views[j]? = some v) (hsees : o.Sees v)
    (howned : v.owned = owned) (hcomposing : v.composing = false) (hj : f.views.has j) :
    o.Completes f j owned below world
      (Machine.requestCompose j { world, stack := below, control }) := by
  unfold Machine.requestCompose
  simp only [hview]
  split
  · exact completes_flush hview hsees howned hcomposing hj
  · split
    · exact ⟨world, v, .refl j _, hview, hsees, howned, hcomposing, .refl _⟩
    · have hscheduled := getElem?_modifyView_self
        (hview : ({ world with deferred := world.deferred ++ [j] } : World α β).views[j]? = some v)
        fun v ↦ { v with scheduled := true }
      exact ⟨_, _, .schedule j _, hscheduled, ⟨hsees.composer, hsees.listeners, hsees.live,
        hsees.disposed, hsees.lent, hsees.dirty⟩, howned, hcomposing, .refl _⟩

/-- The view is held while it is at work, and kept afterwards. Assumes: somebody has it. -/
theorem Completes.release (h : o.Completes f j owned (.holding j :: below) origin m)
    (hkept : owned ∨ below.any (·.holds j)) : o.Completes f j owned below origin m := by
  obtain ⟨world, v, htouches, hview, hsees, rfl, hcomposing, hleads⟩ := h
  refine ⟨world, v, htouches, hview, hsees, rfl, hcomposing, hleads.trans ?_⟩
  have hlive : world.liveView? j = some v := by
    rw [World.liveView?, hview, Option.filter_some, if_pos hsees.live]
  have hkept' : (v.owned || below.any (·.holds j)) = true := by simpa using hkept
  refine .resume_eq rfl ?_ (by simp [Machine.resumeNotices])
  simp only [Machine.resume, Machine.release, hlive, hkept']
  rfl

/-- An input of the view hears an event. Assumes: a view that is not at work, and that somebody
has. -/
theorem completes_hear (hview : world.views[j]? = some v) (hsees : o.Sees v)
    (howned : v.owned = owned) (hcomposing : v.composing = false) (hj : f.views.has j)
    (hkept : owned ∨ below.any (·.holds j)) (slot : Nat) (event : Event α) :
    o.Completes f j owned below world
      (Machine.hear j slot event { world, stack := below, control }) := by
  have hlive : world.liveView? j = some v := by
    rw [World.liveView?, hview, Option.filter_some, if_pos hsees.live]
  have habsorbed := getElem?_modifyView_self hview (.absorb slot event)
  have hsees' := hsees.absorb slot event
  have howned' : (v.absorb slot event).owned = owned := by rw [View.owned_absorb, howned]
  have hcomposing' : (v.absorb slot event).composing = false := by
    rw [View.composing_absorb, hcomposing]
  refine Completes.release (.after (.refl _) (.modifyView j _ (.absorb slot event)) ?_) hkept
  simp only [Machine.hear, hlive, hsees.lent, hsees.disposed, Bool.false_and, Bool.false_eq_true,
    if_false]
  cases event with
  | pending => exact ⟨_, _, .refl j _, habsorbed, hsees', howned', hcomposing', .refl _⟩
  | loaded value => exact completes_requestCompose habsorbed hsees' howned' hcomposing' hj
  | failed error => exact completes_flush habsorbed hsees' howned' hcomposing' hj

/-- The view composes at the end of the outermost tick. Assumes: a view that is not at work, and
that somebody has. -/
theorem completes_runDeferred (hview : world.views[j]? = some v) (hsees : o.Sees v)
    (howned : v.owned = owned) (hcomposing : v.composing = false) (hj : f.views.has j)
    (hkept : owned ∨ below.any (·.holds j)) :
    o.Completes f j owned below world
      (Machine.runDeferred j { world, stack := below, control }) := by
  have hlive : world.liveView? j = some v := by
    rw [World.liveView?, hview, Option.filter_some, if_pos hsees.live]
  have hready := getElem?_modifyView_self hview fun v ↦ { v with scheduled := false }
  refine Completes.release (.after (.refl _) (.modifyView j _ fun v ↦ { v with scheduled := false })
    ?_) hkept
  simp only [Machine.runDeferred, hlive]
  refine completes_flush hready ?_ howned hcomposing hj
  exact ⟨hsees.composer, hsees.listeners, hsees.live, hsees.disposed, hsees.lent, hsees.dirty⟩

end Observer

end LiveRecord.Flow
