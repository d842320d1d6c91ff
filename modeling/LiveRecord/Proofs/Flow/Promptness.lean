import LiveRecord.Proofs.Flow.Nesting

/-!
# Views stay prompt

What `Machine.Prompt` says of a view holds after every move of a run in which callbacks only emit
(`Machine.prompt_run`). The sources that feed the view are undisturbed as long as none of them
accepts an event in the middle of its own delivery.
-/

set_option autoImplicit false

namespace LiveRecord.Flow

variable {α β : Type}

namespace Machine

section Prompt

variable {view j : ViewId} {undisturbed : Prop} {m m' : Machine α β} {below : List (Frame α β)}

/-! ### What is done while nothing is under way -/

/-- Assumes: nothing is under way, nothing is emitted and no view is new. -/
theorem Prompt.aside (h : m.Prompt view undisturbed) (hstack : m.stack = [])
    (hretires : m.world.scene.Retires m'.world.scene) (hpoised : m'.Poised)
    (hhandled : m'.world.Handled) (hclosings : m'.stack.countP (·.closes) = 0)
    (hstacked : Stacked view undisturbed m'.world.scene m'.stack) :
    m'.Prompt view undisturbed where
  poised := hpoised
  plugged := hretires.plugged
  handled := hhandled
  owned k o' ho' hlive' := by
    obtain ⟨o, ho, hkept⟩ := hretires.views k o' ho'
    obtain ⟨hlive, howned⟩ := hkept.live hlive'
    have hholder := h.owned k o ho hlive
    rw [hstack] at hholder
    exact .inl (howned (hholder.resolve_right List.not_mem_nil))
  complete o' ho' hlive' hdisposed' := by
    obtain ⟨o, ho, hkept⟩ := hretires.views view o' ho'
    left
    rcases hkept.inputs with ⟨hinputs, hslots⟩ | ⟨-, hdisposed⟩
    · have hcomplete := h.complete o ho (hkept.live hlive').1 (hkept.disposed hdisposed')
      rw [hstack] at hcomplete
      rw [hinputs, hslots]
      exact hcomplete.resolve_right fun ⟨inputs, hconnecting⟩ ↦ List.not_mem_nil hconnecting
    · rw [hdisposed hlive'] at hdisposed'
      contradiction
  closings := by
    rw [hclosings]
    exact Nat.zero_le _
  stacked := hstacked
  served hu o' ho' k input hinput' := by
    obtain ⟨o, ho, hkept⟩ := hretires.views view o' ho'
    rcases hkept.inputs with ⟨hinputs, hslots⟩ | ⟨hnone, -⟩
    · rw [hinputs] at hinput'
      rw [hslots, hretires.current]
      refine .inl ((h.served hu o ho k input hinput').resolve_right ?_)
      rintro ⟨event, tickets, hframe, -⟩
      rw [hstack] at hframe
      contradiction
    · rw [hnone] at hinput'
      contradiction

/-- Assumes: a change of the world that adds no subscription and returns at once. -/
theorem Prompt.aside_returning {world : World α β} (answer : Answer α β)
    (h : m.Prompt view undisturbed) (hstack : m.stack = [])
    (hretires : m.world.scene.Retires world.scene) (hhandled : world.Handled) :
    ({ m with world }.returning answer).Prompt view undisturbed := by
  have hnew : ({ m with world }.returning answer).stack = [] := hstack
  refine h.aside hstack hretires trivial hhandled ?_ ?_
  · rw [hnew]
    rfl
  · rw [hnew]
    trivial

theorem retires_addSource (name : String) (h : m.world.scene.Plugged) :
    m.world.scene.Retires (m.world.addSource name).scene := by
  let new : Source α := { name }
  have hsources : (m.world.addSource name).scene.sources = m.world.scene.sources ++ [new] := rfl
  have hsource : ∀ source : SourceId, (m.world.addSource name).scene.sources[source]? =
      m.world.scene.sources[source]? ∨ m.world.scene.sources[source]? = none ∧
        ∀ s : Source α, (m.world.addSource name).scene.sources[source]? = some s → s = new := by
    intro source
    rw [hsources, List.getElem?_append]
    split
    case isTrue => exact .inl rfl
    case isFalse hlength =>
      refine .inr ⟨List.getElem?_eq_none (Nat.le_of_not_lt hlength), fun s hs ↦ ?_⟩
      exact List.mem_singleton.mp (List.mem_of_getElem? hs)
  refine ⟨h.congr ?_ (fun j o ho ↦ ⟨o, ho, rfl, rfl, rfl, rfl⟩) fun _ _ ↦ rfl, ?_, ?_⟩
  · intro source ticket
    rcases hsource source with hsame | ⟨hnone, hnew⟩
    · rw [Scene.listener?, hsame, Scene.listener?]
    · rw [Scene.listener?, Scene.listener?, hnone]
      cases hs : (m.world.addSource name).scene.sources[source]? with
      | none => rfl
      | some s =>
        rw [hnew s hs]
        rfl
  · intro source
    rcases hsource source with hsame | ⟨hnone, hnew⟩
    · rw [Scene.current, hsame, Scene.current]
    · rw [Scene.current, Scene.current, hnone]
      cases hs : (m.world.addSource name).scene.sources[source]? with
      | none => rfl
      | some s =>
        rw [hnew s hs]
        rfl
  · exact fun j o ho ↦ ⟨o, ho, .refl o⟩

/-- Assumes: handles that stand for the subscriptions that there were. -/
theorem handled_of_targets (h : m.world.Handled)
    (hhandles : ∀ handle ∈ m'.world.handles, ∃ old ∈ m.world.handles,
      old.target = handle.target ∧ old.ticket = handle.ticket)
    (hforeign : ∀ source ticket, m.world.scene.Foreign source ticket →
      m'.world.scene.Foreign source ticket) : m'.world.Handled := by
  intro handle hhandle source htarget
  obtain ⟨old, hold, hsame, hticket⟩ := hhandles handle hhandle
  rw [← hticket]
  exact hforeign source old.ticket (h old hold source (hsame.trans htarget))

theorem mem_modifyHandle {handle : Nat} {f : Handle → Handle} {world : World α β}
    (hf : ∀ h, (f h).target = h.target ∧ (f h).ticket = h.ticket) :
    ∀ new ∈ (world.modifyHandle handle f).handles, ∃ old ∈ world.handles,
      old.target = new.target ∧ old.ticket = new.ticket := by
  intro new hnew
  obtain ⟨k, hk⟩ := List.mem_iff_getElem?.mp hnew
  rw [World.modifyHandle, List.getElem?_modify] at hk
  obtain ⟨old, hold, rfl⟩ := Option.map_eq_some_iff.mp hk
  refine ⟨old, List.mem_of_getElem? hold, ?_⟩
  split
  · exact ⟨(hf old).1.symm, (hf old).2.symm⟩
  · exact ⟨rfl, rfl⟩

theorem prompt_subscribe (target : Target) (key : Nat) (h : m.Prompt view undisturbed)
    (hstack : m.stack = []) (hordered : m.world.Ordered)
    (hhandled : (m.subscribe target key).world.Handled) :
    (m.subscribe target key).Prompt view undisturbed := by
  have hnone {frame : Frame α β} (hwaits : frame.waits = false)
      (hconnects : frame.connects = false) : NoneWaits [frame] ∧ NoneConnects [frame] :=
    ⟨noneWaits_cons.mpr ⟨hwaits, noneWaits_nil⟩,
      noneConnects_cons.mpr ⟨hconnects, noneConnects_nil⟩⟩
  cases target with
  | source source =>
    cases hs : m.world.sources[source]? with
    | none =>
      simp only [subscribe, hs]
      exact h.stay rfl trivial rfl
    | some s =>
      simp only [subscribe, hs] at hhandled ⊢
      let registered : World α β := m.world.registerAtSource source (.callback key)
      have hs' : registered.scene.sources[source]? =
          some { s with listeners := s.listeners.register (.callback key) } := by
        show (m.world.sources.modify source _)[source]? = _
        rw [List.getElem?_modify_eq, hs]
        rfl
      have hforeign : registered.scene.Foreign source s.listeners.next := by
        refine ⟨⟨_, hs', Nat.lt_succ_self _⟩, fun j slot ↦ ?_⟩
        rw [Scene.listener?_of_source hs', Scene.find?_register_next (hordered source s hs)]
        simp
      have hplugged : registered.scene.Plugged :=
        h.plugged.registerCallback key hs (hordered source s hs)
      have hnew : ((m.withWorld (.registerAtSource source (.callback key))).push
          (.subscribing (.source source) s.listeners.next)).stack =
            [.subscribing (.source source) s.listeners.next] := by
        rw [push, withWorld, hstack]
      refine h.aside hstack (.modifySource hplugged fun _ ↦ rfl) (.inr ⟨_, _, _, rfl⟩) hhandled ?_ ?_
      · show List.countP _ (_ :: Machine.stack _) = 0
        rw [hnew]
        rfl
      · show Stacked view undisturbed registered.scene (_ :: Machine.stack _)
        rw [hnew]
        refine ⟨hnone rfl rfl, ⟨rfl, ?_⟩, trivial⟩
        rintro other hother
        obtain rfl := Target.source.inj hother
        exact hforeign
  | view j =>
    cases hfound : m.world.liveView? j with
    | none =>
      simp only [subscribe, hfound]
      exact h.stay rfl trivial rfl
    | some v =>
      simp only [subscribe, hfound] at hhandled ⊢
      have hscene : (m.world.registerAtView j key).scene =
          m.world.scene.modifyView j fun o ↦ { o with listeners := o.listeners.register key } :=
        World.scene_modifyView fun _ ↦ rfl
      have hretires : m.world.scene.Retires (m.world.registerAtView j key).scene := by
        rw [hscene]
        exact .modifyView h.plugged (fun _ ↦ rfl) (fun _ ↦ rfl) (fun _ ↦ rfl) (fun _ ↦ rfl)
          fun _ ↦ rfl
      let waiting : Machine α β := (m.withWorld (.registerAtView j key)).push
        (.subscribing (.view j) v.listeners.next)
      have hwaiting : waiting.stack = [.subscribing (.view j) v.listeners.next] := by
        show _ :: m.stack = _
        rw [hstack]
      have hfits : Stacked view undisturbed (m.world.registerAtView j key).scene waiting.stack := by
        rw [hwaiting]
        exact ⟨⟨rfl, fun _ hother ↦ by contradiction⟩, trivial⟩
      have hclosings : waiting.stack.countP (·.closes) = 0 := by
        rw [hwaiting]
        rfl
      split at hhandled
      case h_1 => exact h.aside hstack hretires trivial hhandled hclosings hfits
      case h_2 event _ =>
        refine h.aside hstack hretires (.inr ⟨_, _, _, rfl⟩) hhandled hclosings ⟨?_, hfits⟩
        show NoneWaits waiting.stack ∧ NoneConnects waiting.stack
        rw [hwaiting]
        exact hnone rfl rfl

/-- A feed goes on. Assumes: nothing is under way. -/
theorem prompt_feed (feed : Feed α) (h : m.Prompt view undisturbed) (hstack : m.stack = []) :
    (m.feed feed).Prompt view undisturbed := by
  unfold Machine.feed
  split
  case h_1 progress _ => exact h.stay rfl trivial rfl
  case h_2 event rest _ =>
    let feeding : Machine α β := (m.push (.feeding rest)).returning .done
    have hnew : feeding.stack = [.feeding rest] := by
      show _ :: m.stack = _
      rw [hstack]
    have hfeeding : feeding.Prompt view undisturbed := h.push rfl trivial rfl rfl hstack
    have hemitted : (feeding.emit feed.source event).Prompt view undisturbed := by
      refine hfeeding.emit feed.source event ?_ ?_ fun _ _ _ ↦ ?_
      · rw [hnew]
        exact noneWaits_cons.mpr ⟨rfl, noneWaits_nil⟩
      · rw [hnew]
        exact noneConnects_cons.mpr ⟨rfl, noneConnects_nil⟩
      · rw [hnew]
        exact List.not_mem_nil
    have hsame : (m.push (.feeding rest)).emit feed.source event =
        feeding.emit feed.source event := by
      unfold Machine.emit
      rfl
    exact hsame ▸ hemitted

theorem prompt_build (sources : List SourceId) (composer : Composer α β)
    (h : m.Prompt view undisturbed) (hstack : m.stack = [])
    (hhandled : (m.build sources composer).world.Handled) :
    (m.build sources composer).Prompt view undisturbed := by
  cases hfound : sources.mapM fun source ↦ m.world.sources[source]? with
  | none =>
    simp only [build, hfound]
    exact h.stay rfl trivial rfl
  | some found =>
    simp only [build, hfound] at hhandled ⊢
    let new : View α β :=
      { label := labelOf (found.map (·.name)), composer, slots := found.map fun _ ↦ {} }
    let built : World α β := m.world.openTick.addView new
    have hviews : built.scene.views = m.world.scene.views ++ [new.outline] := List.map_append
    have hcount : m.world.scene.views.length = m.world.views.length := List.length_map _
    have hself : built.scene.views[m.world.views.length]? = some new.outline := by
      rw [hviews, ← hcount, List.getElem?_concat_length]
    -- every view is the new one or was there before
    have hold {k : ViewId} {o : Outline α} (ho : built.scene.views[k]? = some o) :
        m.world.scene.views[k]? = some o ∨ k = m.world.views.length ∧ o = new.outline := by
      rw [hviews, List.getElem?_append] at ho
      split at ho
      case isTrue => exact .inl ho
      case isFalse hlength =>
        have hindex : k - m.world.scene.views.length < 1 := (List.getElem?_eq_some_iff.mp ho).1
        rw [hcount] at hlength hindex
        have hle : k ≤ m.world.views.length := Nat.sub_eq_zero_iff_le.mp (Nat.lt_one_iff.mp hindex)
        refine .inr ⟨Nat.le_antisymm hle (Nat.le_of_not_lt hlength), ?_⟩
        exact List.mem_singleton.mp (List.mem_of_getElem? ho)
    have hbelow : ∀ frame : Frame α β, frame ∉ m.stack := by simp [hstack]
    have hlength : found.length = sources.length := by
      simpa using (congrArg List.length (mapM_eq_some_iff.mp hfound)).symm
    constructor
    case poised => exact trivial
    case handled => exact hhandled
    case plugged => exact h.plugged.addView (o := new.outline) rfl rfl hviews
    case owned =>
      intro k o ho hlive
      rcases hold ho with hview | ⟨rfl, -⟩
      · exact .inl ((h.owned k o hview hlive).resolve_right (hbelow _))
      · exact .inr (List.mem_cons_of_mem _ (List.mem_cons_of_mem _ List.mem_cons_self))
    case complete =>
      intro o ho hlive hdisposed
      rcases hold ho with hview | ⟨rfl, -⟩
      · left
        refine (h.complete o hview hlive hdisposed).resolve_right ?_
        rintro ⟨inputs, hconnecting⟩
        exact hbelow _ hconnecting
      · exact .inr ⟨_, List.mem_cons_self⟩
    case closings =>
      show List.countP _ (_ :: _ :: _ :: m.stack) ≤ m.world.depth + 1
      rw [hstack]
      exact Nat.succ_le_succ (Nat.zero_le _)
    case stacked =>
      show Stacked view undisturbed built.scene (_ :: _ :: _ :: m.stack)
      rw [hstack]
      let building : Frame α β := .building m.world.views.length
      have hclosing : NoneWaits [building] ∧ NoneConnects [building] :=
        ⟨noneWaits_cons.mpr ⟨rfl, noneWaits_nil⟩, noneConnects_cons.mpr ⟨rfl, noneConnects_nil⟩⟩
      refine ⟨⟨rfl, new.outline, hself, rfl, rfl, rfl, ?_, ?_⟩, hclosing, rfl, trivial⟩
      · show 0 + sources.zipIdx.length = (found.map _).length
        simp [hlength]
      · rintro n ⟨source, slot⟩ hinput
        obtain ⟨other, hsource, rfl, rfl⟩ : ∃ other, sources[n]? = some other ∧ other = source ∧
            n = slot := by simpa [List.getElem?_zipIdx] using hinput
        refine ⟨(Nat.zero_add n).symm, ?_⟩
        have hthere : m.world.sources[other]? ∈ found.map some := by
          rw [← mapM_eq_some_iff.mp hfound]
          exact List.mem_map_of_mem (List.mem_of_getElem? hsource)
        obtain ⟨s, -, hs⟩ := List.mem_map.mp hthere
        exact (List.getElem?_eq_some_iff.mp hs.symm).1
    case served =>
      intro hu o ho k input hinput
      rcases hold ho with hview | ⟨-, rfl⟩
      · refine .inl ((h.served hu o hview k input hinput).resolve_right ?_)
        rintro ⟨event, tickets, hframe, -⟩
        exact hbelow _ hframe
      · contradiction

/-! ### What a request ends with -/

theorem prompt_holding (answer : Answer α β) (h : m.Prompt view undisturbed)
    (hstack : m.stack = .holding j :: below) : (m.resume answer).Prompt view undisturbed := by
  have hpopped : ({ m with stack := below }.returning answer).Prompt view undisturbed :=
    h.pop hstack rfl rfl trivial rfl
  have hkept : ({ m with stack := below } : Machine α β).release j = { m with stack := below } := by
    refine release_of_owned fun o ho hlive ↦ (h.owned j o ho hlive).imp_right fun hbuilding ↦ ?_
    rw [hstack] at hbuilding
    rw [List.any_eq_true]
    exact ⟨.building j, (List.mem_cons.mp hbuilding).resolve_left (by simp), by simp [Frame.holds]⟩
  simp only [resume, hstack]
  rw [hkept]
  exact hpopped

theorem prompt_subscribing {target : Target} {ticket : Nat} (answer : Answer α β)
    (h : m.Prompt view undisturbed) (hstack : m.stack = .subscribing target ticket :: below) :
    (m.resume answer).Prompt view undisturbed := by
  have hstacked := h.stacked
  rw [hstack] at hstacked
  obtain ⟨⟨rfl, hforeign⟩, -⟩ := hstacked
  have hpopped : ({ m with stack := [] }.returning answer).Prompt view undisturbed :=
    h.pop hstack rfl rfl trivial rfl
  have hhandled : (m.world.addHandle target ticket).Handled := by
    intro handle hhandle source htarget
    rcases List.mem_append.mp hhandle with hold | hnew
    · exact (h.handled handle hold source htarget).congr rfl
    · obtain rfl := List.mem_singleton.mp hnew
      exact (hforeign source htarget).congr rfl
  have hadded : ({ m with stack := [], world := m.world.addHandle target ticket }.returning
      (.subscribed m.world.handles.length)).Prompt view undisturbed :=
    hpopped.aside_returning _ rfl (.of_eq h.plugged rfl rfl) hhandled
  cases target with
  | source source =>
    simp only [resume, hstack]
    exact hadded
  | view j =>
    let added : Machine α β :=
      { m with stack := [], world := m.world.addHandle (.view j) ticket }
    have hkept : added.release j = added := by
      refine release_of_owned fun o ho hlive ↦ .inl ?_
      exact (hpopped.owned j o ho hlive).resolve_right List.not_mem_nil
    simp only [resume, hstack]
    show ((added.release j).returning _).Prompt view undisturbed
    rw [hkept]
    exact hadded

/-- A new view is handed over. -/
theorem prompt_building (answer : Answer α β) (h : m.Prompt view undisturbed)
    (hstack : m.stack = .building j :: below) : (m.resume answer).Prompt view undisturbed := by
  have hstacked := h.stacked
  rw [hstack] at hstacked
  obtain ⟨hbelow, -⟩ := hstacked
  obtain rfl : below = [] := hbelow
  obtain ⟨hscene, hhandles, hpoised, hnew⟩ :
      (m.resume answer).world.scene =
          m.world.scene.modifyView j (fun o ↦ { o with owned := true }) ∧
        (m.resume answer).world.handles = m.world.handles ∧
        (m.resume answer).Poised ∧ (m.resume answer).stack = [] := by
    simp only [resume, hstack]
    exact ⟨World.scene_modifyView fun _ ↦ rfl, rfl, trivial, rfl⟩
  constructor
  case poised => exact hpoised
  case plugged =>
    rw [hscene]
    exact h.plugged.modifyView (fun _ ↦ rfl) (fun _ ↦ rfl) (fun _ ↦ rfl) fun _ ↦ rfl
  case handled =>
    refine handled_congr h.handled hhandles fun source ticket hforeign ↦ ?_
    rw [hscene]
    exact hforeign.congr rfl
  case owned =>
    intro k o' ho' hlive'
    rw [hscene] at ho'
    obtain ⟨o, ho, ⟨-, rfl⟩ | ⟨hne, rfl⟩⟩ := Scene.exists_of_modifyView ho'
    · exact .inl rfl
    · refine .inl ((h.owned k _ ho hlive').resolve_right fun hbuilding ↦ hne ?_)
      rw [hstack] at hbuilding
      exact (Frame.building.inj (List.mem_singleton.mp hbuilding)).symm
  case complete =>
    have hcomplete : ∀ o, m.world.scene.views[view]? = some o → o.live → o.disposed = false →
        o.inputs.length = o.slots.length := by
      intro o ho hlive hdisposed
      refine (h.complete o ho hlive hdisposed).resolve_right ?_
      rintro ⟨inputs, hconnecting⟩
      rw [hstack] at hconnecting
      simp at hconnecting
    intro o' ho' hlive' hdisposed'
    rw [hscene] at ho'
    obtain ⟨o, ho, ⟨-, rfl⟩ | ⟨-, rfl⟩⟩ := Scene.exists_of_modifyView ho'
    · exact .inl (hcomplete o ho hlive' hdisposed')
    · exact .inl (hcomplete _ ho hlive' hdisposed')
  case closings =>
    rw [hnew]
    exact Nat.zero_le _
  case stacked =>
    rw [hnew]
    trivial
  case served =>
    have hserved : undisturbed → ∀ o, m.world.scene.views[view]? = some o → ∀ (k : Nat) input,
        o.inputs[k]? = some input → ∃ slot, o.slots[k]? = some slot ∧
          slot.Shows (m.world.scene.current input.1) := by
      intro hu o ho k input hinput
      refine (h.served hu o ho k input hinput).resolve_right ?_
      rintro ⟨event, tickets, hframe, -⟩
      rw [hstack] at hframe
      simp at hframe
    intro hu o' ho' k input hinput'
    rw [hscene] at ho' ⊢
    obtain ⟨o, ho, ⟨-, rfl⟩ | ⟨-, rfl⟩⟩ := Scene.exists_of_modifyView ho'
    · exact .inl (hserved hu o ho k input hinput')
    · exact .inl (hserved hu _ ho k input hinput')

/-! ### Connecting a new view -/

/-- Assumes: all the inputs of the new view are connected. -/
theorem prompt_connected (answer : Answer α β) (h : m.Prompt view undisturbed)
    (hstack : m.stack = .connecting j [] :: below) : (m.resume answer).Prompt view undisturbed := by
  have hstacked := h.stacked
  rw [hstack] at hstacked
  obtain ⟨⟨rfl, o, ho, -, -, -, hlength, -⟩, hbelow⟩ := hstacked
  have htick : m.world.inTick := by
    have hclosings := h.closings
    rw [hstack] at hclosings
    exact decide_eq_true (Nat.lt_of_lt_of_le Nat.zero_lt_one hclosings)
  obtain ⟨hscene, hpoised, hnew⟩ : (m.resume answer).world.scene = m.world.scene ∧
      (m.resume answer).Poised ∧ (m.resume answer).stack = [.closing .done, .building j] := by
    simp only [resume, hstack]
    exact @requestCompose_spec α β { m with stack := [.closing .done, .building j] } j htick
  -- the view that was being connected has all its inputs
  have hcomplete : ∀ o, m.world.scene.views[view]? = some o → o.live → o.disposed = false →
      o.inputs.length = o.slots.length := by
    intro o' ho' hlive hdisposed
    rcases h.complete o' ho' hlive hdisposed with hfull | ⟨inputs, hconnecting⟩
    · exact hfull
    · rw [hstack] at hconnecting
      obtain ⟨rfl, -⟩ : view = j ∧ inputs = [] := by simpa using hconnecting
      obtain rfl := Option.some.inj (ho.symm.trans ho')
      exact hlength
  constructor
  case poised => exact hpoised
  case plugged => exact hscene ▸ h.plugged
  case handled =>
    show ∀ handle ∈ (m.resume answer).world.scene.handles, _
    rw [hscene]
    exact h.handled
  case owned =>
    intro k o' ho' hlive
    rw [hscene] at ho'
    refine (h.owned k o' ho' hlive).imp_right fun hbuilding ↦ ?_
    rw [hstack] at hbuilding
    rw [hnew]
    exact (List.mem_cons.mp hbuilding).resolve_left (by simp)
  case complete =>
    intro o' ho' hlive hdisposed
    rw [hscene] at ho'
    exact .inl (hcomplete o' ho' hlive hdisposed)
  case closings =>
    have hclosings := h.closings
    rw [hstack] at hclosings
    rw [hscene, hnew]
    exact hclosings
  case stacked =>
    rw [hscene, hnew]
    exact hbelow
  case served =>
    intro hu
    rw [hscene]
    intro o' ho' k input hinput
    refine .inl ((h.served hu o' ho' k input hinput).resolve_right ?_)
    rintro ⟨event, tickets, hframe, -⟩
    rw [hstack] at hframe
    simp at hframe

/-- Assumes: a new view that is there, and a tick that is open. -/
theorem connect_spec {s : Source α} {v : View α β} (source : SourceId) (slot : Nat)
    (hs : m.world.sources[source]? = some s) (hview : m.world.views[j]? = some v) (hlive : v.live)
    (hdisposed : v.disposed = false) (hlent : v.lent = false) (htick : m.world.inTick) :
    (m.connect j source slot).world.scene =
        m.world.scene.plug j source slot s.listeners.next s.current ∧
      (m.connect j source slot).Poised ∧
      ((m.connect j source slot).stack = .holding j :: m.stack ∨
        s.current.isFailed ∧ ∃ errors,
          (m.connect j source slot).stack = .failing j errors :: .holding j :: m.stack) := by
  let plugged : Machine α β := (m.withWorld (.registerAtSource source (.input j slot))).withWorld
    (.modifyView j fun v ↦ { v with inputs := v.inputs ++ [(source, s.listeners.next)] })
  have hplugged : plugged.world.views[j]? =
      some { v with inputs := v.inputs ++ [(source, s.listeners.next)] } := by
    show (m.world.views.modify j _)[j]? = _
    rw [List.getElem?_modify_eq, hview]
    rfl
  have hscene : plugged.world.scene = (m.world.scene.modifySource source fun s ↦
      { s with listeners := s.listeners.register (.input j slot) }).modifyView j
        fun o ↦ { o with inputs := o.inputs ++ [(source, s.listeners.next)] } :=
    World.scene_modifyView fun _ ↦ rfl
  obtain ⟨hheard, hpoised, hnew⟩ :=
    @hear_spec α β j plugged _ slot s.current hplugged hlive hdisposed hlent htick
  rw [hscene] at hheard
  simp only [connect, hs]
  exact ⟨hheard, hpoised, hnew⟩

/-- An input has been registered and has heard the current event of its source, and the next one is
to be connected. -/
theorem Prompt.plug {source : SourceId} {inputs : List (SourceId × Nat)} {s : Source α}
    {v : View α β} (h : m.Prompt view undisturbed)
    (hstack : m.stack = .connecting j ((source, v.inputs.length) :: inputs) :: below)
    (hordered : s.listeners.Ordered) (hs : m.world.sources[source]? = some s)
    (hview : m.world.views[j]? = some v) (hlive : v.live) (hdisposed : v.disposed = false)
    (hforeign : ∀ other ticket, m.world.scene.Foreign other ticket →
      m'.world.scene.Foreign other ticket)
    (hscene : m'.world.scene =
      m.world.scene.plug j source v.inputs.length s.listeners.next s.current)
    (hpoised : m'.Poised) (hnew : m'.stack = [.connecting j inputs, .closing .done, .building j]) :
    m'.Prompt view undisturbed := by
  have ho := World.getElem?_scene hview
  have hstacked := h.stacked
  rw [hstack] at hstacked
  obtain ⟨⟨rfl, hcontinues⟩, -⟩ := hstacked
  have hroom : v.inputs.length < v.slots.length := by
    obtain ⟨o, ho', -, -, -, hlength, -⟩ := hcontinues
    obtain rfl := Option.some.inj (ho.symm.trans ho')
    have hadded : v.inputs.length + (inputs.length + 1) = v.slots.length := hlength
    omega
  have hstill {frame : Frame α β} (hframe : frame ∈ m.stack) (hne : frame.connects = false) :
      frame ∈ m'.stack := by
    rw [hstack] at hframe
    rw [hnew]
    refine List.mem_cons_of_mem _ ((List.mem_cons.mp hframe).resolve_left ?_)
    rintro rfl
    contradiction
  constructor
  case poised => exact hpoised
  case plugged =>
    rw [hscene]
    exact h.plugged.plug hs hordered ho hlive hdisposed hroom
  case handled => exact handled_congr h.handled (congrArg Scene.handles hscene) hforeign
  case owned =>
    intro k o' ho' hlive'
    rw [hscene] at ho'
    obtain ⟨o, hold, ⟨-, rfl⟩ | ⟨-, rfl⟩⟩ := Scene.exists_of_plug ho'
    · exact (h.owned k o hold hlive').imp_right fun hbuilding ↦ hstill hbuilding rfl
    · exact (h.owned k _ hold hlive').imp_right fun hbuilding ↦ hstill hbuilding rfl
  case complete =>
    intro o' ho' hlive' hdisposed'
    rw [hscene] at ho'
    obtain ⟨o, hold, ⟨rfl, rfl⟩ | ⟨hne, rfl⟩⟩ := Scene.exists_of_plug ho'
    · exact .inr ⟨inputs, hnew ▸ List.mem_cons_self⟩
    · refine .inl ((h.complete _ hold hlive' hdisposed').resolve_right ?_)
      rintro ⟨others, hconnecting⟩
      rw [hstack] at hconnecting
      simp only [List.mem_cons, Frame.connecting.injEq, reduceCtorEq, List.not_mem_nil,
        or_false] at hconnecting
      exact hne hconnecting.1.symm
  case closings =>
    have hclosings := h.closings
    rw [hstack] at hclosings
    rw [hscene, hnew]
    exact hclosings
  case stacked =>
    rw [hscene, hnew]
    refine ⟨⟨rfl, hcontinues.plug⟩, ⟨?_, ?_⟩, rfl, trivial⟩
    · exact noneWaits_cons.mpr ⟨rfl, noneWaits_nil⟩
    · exact noneConnects_cons.mpr ⟨rfl, noneConnects_nil⟩
  case served =>
    intro hu
    -- nobody has still to hear of an event
    have howed : ∀ input, ¬ Owed input m.stack := by
      rintro input ⟨event, tickets, hframe, -⟩
      rw [hstack] at hframe
      simp at hframe
    have hcurrent : m.world.scene.current source = s.current := by
      rw [Scene.current, show m.world.scene.sources[source]? = _ from hs]
      rfl
    rw [hscene, hnew, ← hcurrent]
    exact (h.served hu).plug howed ho hroom

/-- Assumes: values are lent only to composing callbacks at work, listeners in order, and tickets
of subscriptions that are not given to inputs. -/
theorem prompt_connecting {source : SourceId} {slot : Nat} {inputs : List (SourceId × Nat)}
    (answer : Answer α β) (h : m.Prompt view undisturbed) (hmanned : m.Manned)
    (hordered : m.world.Ordered)
    (hforeign : ∀ other ticket, m.world.scene.Foreign other ticket →
      (m.resume answer).world.scene.Foreign other ticket)
    (hstack : m.stack = .connecting j ((source, slot) :: inputs) :: below) :
    (m.resume answer).Prompt view undisturbed := by
  have hstacked := h.stacked
  rw [hstack] at hstacked
  obtain ⟨⟨rfl, o, ho, hlive, hdisposed, hnobody, hlength, hnext⟩, -⟩ := hstacked
  obtain ⟨hslot, hsource⟩ := hnext 0 (source, slot) rfl
  obtain rfl : slot = o.inputs.length := hslot
  have hs := List.getElem?_eq_getElem hsource
  generalize m.world.scene.sources[source] = s at hs
  obtain ⟨v, hview, rfl⟩ := World.exists_of_scene ho
  have hlent : v.lent = false := by
    cases hlent : v.lent with
    | false => rfl
    | true =>
      have hcomposing := hmanned.lent j v hview hlent
      rw [hstack] at hcomposing
      simp at hcomposing
  have htick : m.world.inTick := by
    have hclosings := h.closings
    rw [hstack] at hclosings
    exact decide_eq_true (Nat.lt_of_lt_of_le Nat.zero_lt_one hclosings)
  have hroom : v.inputs.length < v.outline.slots.length := by
    have hadded : v.inputs.length + (inputs.length + 1) = v.outline.slots.length := hlength
    omega
  let rest : List (Frame α β) := [.connecting j inputs, .closing .done, .building j]
  obtain ⟨hscene, hpoised, hnew⟩ := @connect_spec α β j { m with stack := rest } s v source
    v.inputs.length hs hview hlive hdisposed hlent htick
  have hresumed : m.resume answer = ({ m with stack := rest } : Machine α β).connect j source
      v.inputs.length := by
    simp only [resume, hstack]
    rfl
  rw [hresumed] at hforeign ⊢
  let heard : Machine α β := { ({ m with stack := rest } : Machine α β).connect j source
    v.inputs.length with stack := rest, control := .returning .done }
  have hheard : heard.Prompt view undisturbed :=
    h.plug hstack (hordered source s hs) hs hview hlive hdisposed hforeign hscene trivial rfl
  have hnone : NoneWaits rest := noneWaits_cons.mpr ⟨rfl, noneWaits_cons.mpr ⟨rfl,
    noneWaits_cons.mpr ⟨rfl, noneWaits_nil⟩⟩⟩
  let holding : Machine α β := { heard with stack := .holding j :: rest }
  have hholding : holding.Prompt view undisturbed := hheard.push rfl trivial rfl rfl hnone
  rcases hnew with hnew | ⟨hfailed, errors, hnew⟩
  · exact hholding.stay rfl hpoised hnew
  · have hself : holding.world.scene.views[j]? =
        some (v.outline.plug source v.inputs.length s.listeners.next s.current) :=
      hscene ▸ Scene.getElem?_plug_self ho
    refine hholding.push rfl hpoised hnew rfl ⟨noneWaits_cons.mpr ⟨rfl, hnone⟩, .inr ?_, ?_⟩
    · -- the input that has just been connected is not loaded
      refine ⟨_, hself, hnobody, ?_⟩
      refine View.all_modify_hear hroom ?_
      cases hcurrent : s.current with
      | failed error => rfl
      | pending | loaded value =>
        rw [hcurrent] at hfailed
        contradiction
    · rintro rfl
      exact ⟨⟨_, hself, hlive, hdisposed⟩, fun _ ↦ .inl rfl⟩

/-! ### Every move -/

theorem prompt_feeding {rest : Feed α} (answer : Answer α β) (h : m.Prompt view undisturbed)
    (hstack : m.stack = .feeding rest :: below) : (m.resume answer).Prompt view undisturbed := by
  have hstacked := h.stacked
  rw [hstack] at hstacked
  obtain ⟨hbelow, -⟩ := hstacked
  obtain rfl : below = [] := hbelow
  have hpopped (control : Control α β) (hcontrol : Poised { m with stack := [], control }) :
      ({ m with stack := [], control } : Machine α β).Prompt view undisturbed :=
    h.pop hstack rfl rfl hcontrol rfl
  have hfeed (feed : Feed α) :
      (({ m with stack := [] } : Machine α β).feed feed).Prompt view undisturbed := by
    have hfed := prompt_feed feed (hpopped (.returning .done) trivial) rfl
    have hsame : ({ m with stack := [], control := .returning .done } : Machine α β).feed feed =
        ({ m with stack := [] } : Machine α β).feed feed := by
      unfold Machine.feed Machine.emit
      rfl
    exact hsame ▸ hfed
  simp only [resume, hstack]
  split
  · split
    · exact hpopped _ trivial
    · exact hfeed _
  · exact hfeed _

/-- Assumes: values are lent only to composing callbacks at work, listeners in order, and tickets
of subscriptions that are not given to inputs. -/
theorem prompt_resume (answer : Answer α β) (h : m.Prompt view undisturbed) (hmanned : m.Manned)
    (hordered : m.world.Ordered)
    (hforeign : ∀ other ticket, m.world.scene.Foreign other ticket →
      (m.resume answer).world.scene.Foreign other ticket) :
    (m.resume answer).Prompt view undisturbed := by
  cases hstack : m.stack with
  | nil =>
    simp only [resume, hstack]
    exact h.stay rfl (.inl hstack) rfl
  | cons frame below =>
    cases frame with
    | calling call turn =>
      simp only [resume, hstack]
      exact h.stay rfl (.inr ⟨_, _, _, hstack⟩) rfl
    | closing answer' =>
      simp only [resume, hstack]
      exact prompt_closing h hstack
    | draining views answer' => exact prompt_draining answer h hstack
    | delivering source event tickets => exact prompt_delivering answer h hmanned hstack
    | announcing j event tickets => exact prompt_announcing answer h hstack
    | failing j errors => exact prompt_failing answer h hstack
    | composing j => exact prompt_composing answer h hstack
    | settling j =>
      simp only [resume, hstack]
      exact prompt_settling h hstack
    | holding j => exact prompt_holding answer h hstack
    | subscribing target ticket => exact prompt_subscribing answer h hstack
    | connecting j inputs =>
      cases inputs with
      | nil => exact prompt_connected answer h hstack
      | cons input inputs => exact prompt_connecting answer h hmanned hordered hforeign hstack
    | building j => exact prompt_building answer h hstack
    | feeding rest => exact prompt_feeding answer h hstack

/-- A subscription is cancelled. Assumes: nothing is under way. -/
theorem Prompt.cancel (h : m.Prompt view undisturbed) (hstack : m.stack = []) (handle : Nat) :
    (m.withWorld (.cancel handle)).Prompt view undisturbed := by
  have hnew : (m.withWorld (.cancel handle)).stack = [] := hstack
  refine h.aside hstack (World.retires_cancel h.plugged h.handled handle) h.poised ?_ ?_ ?_
  · refine handled_of_targets h.handled ?_ fun other ticket ↦
      World.foreign_changes (@World.changes_cancel α β m.MayListen handle m.world)
    show ∀ new ∈ (m.world.cancel handle).handles, _
    unfold World.cancel
    split
    case h_1 target ticket _ =>
      have hkept : (m.world.unregister target ticket).handles = m.world.handles := by
        cases target <;> rfl
      rw [← hkept]
      exact mem_modifyHandle fun _ ↦ ⟨rfl, rfl⟩
    case h_2 => exact fun old hold ↦ ⟨old, hold, rfl, rfl⟩
  · rw [hnew]
    rfl
  · rw [hnew]
    trivial

/-- A view is dropped. Assumes: nothing is under way. -/
theorem Prompt.dropView (h : m.Prompt view undisturbed) (hstack : m.stack = []) (j : ViewId) :
    (m.dropView j).Prompt view undisturbed := by
  have hnew : (m.dropView j).stack = [] := (dropView_stack j m).trans hstack
  refine h.aside hstack (retires_dropView h.plugged hstack j) ?_ ?_ ?_ ?_
  · have hpoised := h.poised
    rw [Poised, hstack] at hpoised
    rwa [Poised, dropView_control, hnew]
  · exact handled_congr h.handled (handles_release j _) fun other ticket ↦
      World.foreign_changes (@changes_dropView α β m.MayListen j m)
  · rw [hnew]
    rfl
  · rw [hnew]
    trivial

/-- A subscription is cancelled, and what goes with it. Assumes: nothing is under way, and nothing
raises. -/
theorem Prompt.serve_cancel (h : m.Prompt view undisturbed) (hstack : m.stack = []) (handle : Nat)
    (owned : Belongings) (hcalm : (m.serve (.cancel handle owned)).isUnwinding = false) :
    (m.serve (.cancel handle owned)).Prompt view undisturbed := by
  -- what has raised once goes on unwinding
  let motive (m' : Machine α β) : Prop :=
    m'.isUnwinding ∨ m'.stack = [] ∧ m'.Prompt view undisturbed
  have hserved : motive (m.serve (.cancel handle owned)) := by
    refine serve_cancel_induction (motive := motive) (fun m' handle h' ↦ ?_)
      (fun m' target _ ↦ .inl rfl) (fun m' j h' ↦ ?_) handle owned ?_
    · exact h'.imp id fun ⟨hstack', hprompt⟩ ↦ ⟨hstack', hprompt.cancel hstack' handle⟩
    · refine h'.imp (fun hraised ↦ ?_) fun ⟨hstack', hprompt⟩ ↦ ?_
      · rwa [isUnwinding, dropView_control]
      · exact ⟨(dropView_stack j m').trans hstack', hprompt.dropView hstack' j⟩
    · exact .inr ⟨hstack, h.stay rfl trivial rfl⟩
  exact (hserved.resolve_left (by simp [hcalm])).2

/-- Assumes: nothing is under way, nothing raises, listeners in order, and tickets of subscriptions
that are not given to inputs. -/
theorem prompt_serve (request : Request α β) (h : m.Prompt view undisturbed)
    (hstack : m.stack = []) (hordered : m.world.Ordered)
    (habandons : (Move.request request : Move α β).abandons = false)
    (hcalm : (m.serve request).isUnwinding = false)
    (hforeign : ∀ other ticket, m.world.scene.Foreign other ticket →
      (m.serve request).world.scene.Foreign other ticket) :
    (m.serve request).Prompt view undisturbed := by
  have hhandled (hhandles : (m.serve request).world.handles = m.world.handles) :
      (m.serve request).world.Handled := handled_congr h.handled hhandles hforeign
  have hnone : NoneWaits m.stack ∧ NoneConnects m.stack := by
    rw [hstack]
    exact ⟨noneWaits_nil, noneConnects_nil⟩
  cases request with
  | newSource name =>
    exact h.aside_returning _ hstack (retires_addSource name h.plugged) (hhandled rfl)
  | emit source event =>
    refine h.emit source event hnone.1 hnone.2 fun _ _ _ ↦ ?_
    rw [hstack]
    exact List.not_mem_nil
  | build sources composer =>
    refine prompt_build sources composer h hstack (hhandled ?_)
    simp only [serve, build]
    split <;> rfl
  | subscribe target key =>
    refine prompt_subscribe target key h hstack hordered (hhandled ?_)
    have hsubscribes := m.subscribes target key
    show (m.subscribe target key).world.handles = _
    generalize m.subscribe target key = m' at hsubscribes ⊢
    cases hsubscribes <;> rfl
  | cancel handle owned => exact h.serve_cancel hstack handle owned hcalm
  | detach handle =>
    refine h.aside_returning .done hstack (.of_eq h.plugged rfl rfl) ?_
    refine @handled_of_targets α β m (m.serve (.detach handle)) h.handled ?_ hforeign
    refine mem_modifyHandle fun handle ↦ ?_
    split <;> exact ⟨rfl, rfl⟩
  | dispose j =>
    exact h.aside_returning .done hstack (World.retires_dispose h.plugged j)
      (hhandled (World.handles_dispose j m.world))
  | dropView j =>
    have hdropped := h.dropView hstack j
    exact hdropped.stay rfl trivial rfl
  | enterTick => exact h.aside_returning .done hstack (.of_eq h.plugged rfl rfl) (hhandled rfl)
  | leaveTick =>
    obtain ⟨views, -, hscene, hnew⟩ := closeTick_spec .done m
    rw [hstack] at hnew
    refine h.aside hstack ?_ trivial (hhandled (congrArg Scene.handles hscene)) ?_ ?_
    · show m.world.scene.Retires (m.closeTick .done).world.scene
      rw [hscene]
      exact .of_eq h.plugged rfl rfl
    · show (m.closeTick .done).stack.countP _ = 0
      rw [hnew]
      rfl
    · show Stacked view undisturbed _ (m.closeTick .done).stack
      rw [hnew]
      exact ⟨⟨noneWaits_nil, noneConnects_nil, .inr rfl⟩, trivial⟩
  | abandonTick => contradiction
  | poll feed => exact prompt_feed feed h hstack
  | finish | compose value | raise message =>
    simp only [serve, hstack]
    exact h

theorem feeds_of_scene {source : SourceId} (h : m.world.scene.Feeds source view) :
    m.world.feeds source view := by
  obtain ⟨slot, ticket, hinput⟩ := h
  obtain ⟨o, ho, hslot⟩ := Scene.input?_eq_some_iff.mp hinput
  obtain ⟨v, hview, rfl⟩ := World.exists_of_scene ho
  rw [World.feeds, hview, Option.any_some, List.any_eq_true]
  exact ⟨(source, ticket), List.mem_of_getElem? hslot, beq_self_eq_true source⟩

/-- What a callback asks for. -/
theorem prompt_callback {call : Call α β} {turn : Option (Target × Nat)} (request : Request α β)
    (h : m.Prompt view undisturbed) (huser : m.hasUser)
    (hstack : m.stack = .calling call turn :: below) (hreenters : request.reenters call) :
    (m.serve request).Prompt view (undisturbed ∧ m.Undisturbed view (.request request)) := by
  have hearlier : m.Prompt view (undisturbed ∧ m.Undisturbed view (.request request)) :=
    h.mono And.left
  have hstacked := h.stacked
  rw [hstack] at hstacked
  cases request with
  | emit source event =>
    obtain ⟨hwaits, hconnects⟩ : NoneWaits below ∧ NoneConnects below := by
      cases call with
      | compose key inputs => contradiction
      | sourceEvent key event => exact hstacked.1
      | viewEvent key event => exact hstacked.1
    refine hearlier.emit source event ?_ ?_ fun haccepted hundisturbed hfeeds ↦ ?_
    · rw [hstack]
      exact noneWaits_cons.mpr ⟨rfl, hwaits⟩
    · rw [hstack]
      exact noneConnects_cons.mpr ⟨rfl, hconnects⟩
    · refine hundisturbed.2 source ?_ (feeds_of_scene hfeeds)
      rw [notices_request huser]
      exact List.mem_filterMap.mpr ⟨_, haccepted, rfl⟩
  | finish =>
    cases call with
    | compose key inputs => contradiction
    | sourceEvent key event =>
      simp only [serve, hstack]
      exact hearlier.pop hstack rfl rfl trivial rfl
    | viewEvent key event =>
      simp only [serve, hstack]
      exact hearlier.pop hstack rfl rfl trivial rfl
  | compose value =>
    cases call with
    | compose key inputs =>
      simp only [serve, hstack]
      exact hearlier.pop hstack rfl rfl trivial rfl
    | sourceEvent key event => contradiction
    | viewEvent key event => contradiction
  | _ => contradiction

/-- Assumes: a move with which callbacks only emit. -/
theorem prompt_move (move : Move α β) (h : m.Prompt view undisturbed) (hmanned : m.Manned)
    (hordered : m.world.Ordered) (hmove : m.Reentrant move) :
    (m.move move).Prompt view (undisturbed ∧ m.Undisturbed view move) := by
  have hforeign : ∀ other ticket, m.world.scene.Foreign other ticket →
      (m.move move).world.scene.Foreign other ticket := fun other ticket ↦ foreign_move move
  have hpoised := h.poised
  cases move with
  | advance =>
    have hearlier : m.Prompt view (undisturbed ∧ m.Undisturbed view .advance) := h.mono And.left
    cases hcontrol : m.control with
    | user heard =>
      simp only [Machine.move, advance, hcontrol]
      exact hearlier
    | returning answer =>
      simp only [Machine.move, advance, hcontrol] at hforeign ⊢
      exact prompt_resume answer hearlier hmanned hordered hforeign
    | unwinding message =>
      rw [Poised, hcontrol] at hpoised
      exact hpoised.elim
  | request request =>
    have hearlier : m.Prompt view (undisturbed ∧ m.Undisturbed view (.request request)) :=
      h.mono And.left
    cases hcontrol : m.control with
    | returning answer | unwinding message =>
      simp only [Machine.move, submit, hcontrol]
      exact hearlier
    | user heard =>
      have huser : m.hasUser := by
        rw [hasUser, hcontrol]
      simp only [Machine.move, submit, hcontrol] at hforeign ⊢
      rw [Poised, hcontrol] at hpoised
      rcases hpoised with hstack | ⟨call, turn, below, hstack⟩
      · have hfree : m.RaiseFree (.request request) := by
          simpa [Reentrant, reenters, hstack] using hmove
        have hcalm : (m.serve request).isUnwinding = false := by
          simpa only [Machine.move, submit, hcontrol] using hfree.2
        exact prompt_serve request hearlier hstack hordered hfree.1 hcalm hforeign
      · have hreenters : request.reenters call := by
          simpa [Reentrant, reenters, hstack] using hmove
        exact prompt_callback request h huser hstack hreenters

/-- No callback abandons a tick. -/
theorem Reentrant.abandons {move : Move α β} (h : m.Reentrant move) : move.abandons = false := by
  cases move with
  | advance => rfl
  | request request =>
    unfold Reentrant reenters at h
    dsimp only at h
    split at h
    case h_1 => cases request <;> first | rfl | contradiction
    case h_2 => exact (of_decide_eq_true h).1

/-- Assumes: a run in which callbacks only emit. -/
theorem Prompt.run {moves : List (Move α β)} (h : m.Prompt view undisturbed) (hmanned : m.Manned)
    (hordered : m.world.Ordered) (hmoves : Along Reentrant moves m) :
    (m.run moves).Prompt view (undisturbed ∧ Along (Undisturbed view) moves m) ∧
      Along RaiseFree moves m := by
  induction moves generalizing m undisturbed with
  | nil => exact ⟨h.mono And.left, trivial⟩
  | cons move rest ih =>
    have hordered' : (m.move move).world.Ordered := (changes_move move m).preserves
      (fun _ _ hold hchange ↦ hchange.ordered hold) hordered
    have hmoved := prompt_move move h hmanned hordered hmoves.1
    obtain ⟨hrest, hcalm⟩ := ih hmoved (manned_move move hmanned) hordered' hmoves.2
    refine ⟨hrest.mono fun ⟨hbefore, hfirst, hlast⟩ ↦ ⟨⟨hbefore, hfirst⟩, hlast⟩, ?_, hcalm⟩
    exact ⟨hmoves.1.abandons, hmoved.poised.isUnwinding⟩

end Prompt

theorem prompt_start (view : ViewId) (undisturbed : Prop) :
    ({} : Machine α β).Prompt view undisturbed where
  poised := .inl rfl
  plugged := .start
  handled handle hhandle := absurd hhandle List.not_mem_nil
  owned := by simp [World.scene]
  complete := by simp [World.scene]
  closings := Nat.zero_le _
  stacked := trivial
  served _ := by simp [Scene.Served, World.scene]

/-- What holds of every view after a run in which callbacks only emit, and what holds if moreover
the sources that feed it were undisturbed. Nothing raises in such a run. -/
theorem prompt_run (view : ViewId) (moves : List (Move α β)) (hmoves : Along Reentrant moves {}) :
    (run moves {}).Prompt view (Along (Undisturbed view) moves {}) ∧ Along RaiseFree moves {} := by
  obtain ⟨hprompt, hcalm⟩ := (prompt_start view True).run (manned_run [])
    (ordered_run ([] : List (Move α β))) hmoves
  exact ⟨hprompt.mono fun hundisturbed ↦ ⟨trivial, hundisturbed⟩, hcalm⟩

end Machine

end LiveRecord.Flow
