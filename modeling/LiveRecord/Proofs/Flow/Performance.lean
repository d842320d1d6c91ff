import Mathlib.Algebra.Ring.Nat
import LiveRecord.Proofs.Flow.Echo

/-!
# A view agrees with the reference

A view that is built at rest, whatever happened before, agrees with the reference from then on: its
inputs hear the current events of their sources one after the other (`Machine.echoes_connecting`),
and the listener that registers right after the build hears exactly the outputs of the reference
(`Machine.performs_reference`).
-/

set_option autoImplicit false

namespace LiveRecord.Flow

variable {α β : Type}

namespace World.Follows

variable {watch : Watch α β} {connected : List SourceId} {shown : Nat → Event α}
  {stack : List (Frame α β)} {waiting : List ViewId} {r : Reference α β} {world : World α β}

/-- A change of the view that keeps what it shows. -/
theorem modifyView {watch' : Watch α β} {waiting' : List ViewId} {stack' : List (Frame α β)}
    {f : View α β → View α β} (h : world.Follows watch connected shown stack waiting r)
    (hwatch : watch'.view = watch.view)
    (hreflects : ∀ v, v.Reflects watch shown r → (f v).Reflects watch' shown r)
    (hwaits : ∀ v : View α β, (watch.requested → v.isDue → v.scheduled) →
      (v.scheduled → watch.view ∈ waiting) →
      (watch'.requested → (f v).isDue → (f v).scheduled) ∧
        ((f v).scheduled → watch.view ∈ waiting'))
    (hcalm : (world.modifyView watch.view f).Calm stack') :
    (world.modifyView watch.view f).Follows watch' connected shown stack' waiting' r where
  view := by
    obtain ⟨v, hview, hv, hdue, hscheduled⟩ := h.view
    rw [hwatch]
    refine ⟨f v, ?_, hreflects v hv, hwaits v hdue hscheduled⟩
    simp [World.modifyView, hview]
  events := h.events
  slots := by
    rw [hwatch]
    exact h.slots
  ordered := h.ordered
  calm := hcalm

/-- The next input of the view is connected to its source. -/
theorem connect (h : world.Follows watch connected shown stack waiting r) (source : SourceId) :
    (world.registerAtSource source (.input watch.view connected.length)).Follows watch
      (connected ++ [source]) shown stack waiting r where
  view := h.view
  events := by
    rw [← h.events]
    refine List.ext_getElem? fun k ↦ ?_
    simp only [registerAtSource, modifySource, List.getElem?_map, List.getElem?_modify]
    cases world.sources[k]? with
    | none => rfl
    | some s =>
      by_cases hk : source = k
      · simp [hk]
      · simp [hk]
  slots other s hsource := by
    simp only [registerAtSource, modifySource, List.getElem?_modify] at hsource
    obtain ⟨s, hs, rfl⟩ := Option.map_eq_some_iff.mp hsource
    rw [fed_concat]
    by_cases hother : source = other
    · rw [if_pos hother, if_pos hother]
      simp only [Registry.register, List.filterMap_append, h.slots other s hs]
      simp [Listener.slot?]
    · rw [if_neg hother, if_neg hother, List.append_nil]
      exact h.slots other s hs
  ordered other s hsource := by
    simp only [registerAtSource, modifySource, List.getElem?_modify] at hsource
    obtain ⟨s, hs, rfl⟩ := Option.map_eq_some_iff.mp hsource
    by_cases hother : source = other
    · rw [if_pos hother]
      exact (h.ordered other s hs).register _
    · rw [if_neg hother]
      exact h.ordered other s hs
  calm := h.calm

end World.Follows

namespace Machine

section Build

variable {answers : Nat → List α → β} {watch : Watch α β} {ticket : Nat}
  {r : Reference α β} {m : Machine α β} {connected : List SourceId} {shown : Nat → Event α}
  {stack : List (Frame α β)} {world : World α β} {answer : Answer α β}

/-- The inputs of a new view are connected, and hear the current events of their sources. -/
theorem echoes_connecting {rest : List SourceId}
    (h : world.Follows watch connected (r.shown connected) stack world.deferred r)
    (htick : world.inTick) (hinputs : watch.inputs = connected ++ rest)
    (hsources : ∀ source ∈ rest, source < world.sources.length) :
    let r' := (rest.map r.current).foldl (fun r event ↦ r.hear event) r
    ∃ world' last, Echoes answers watch ticket r
        ⟨world, .connecting watch.view (rest.zipIdx connected.length) :: stack, .returning answer⟩
        r' ⟨world', .connecting watch.view [] :: stack, .returning last⟩ ∧
      world'.Follows watch watch.inputs (r'.shown watch.inputs) stack world'.deferred r' ∧
      world'.depth = world.depth := by
  induction rest generalizing connected world r answer with
  | nil =>
    rw [List.append_nil] at hinputs
    refine ⟨world, answer, .of_tells (.refl _) rfl, ?_, rfl⟩
    rw [hinputs]
    exact h
  | cons source rest ih =>
    obtain ⟨s, hsource⟩ : ∃ s, world.sources[source]? = some s :=
      ⟨_, List.getElem?_eq_getElem (hsources source List.mem_cons_self)⟩
    have hcurrent : r.current source = s.current := by
      rw [Reference.current, ← h.events, List.getElem?_map, hsource]
      rfl
    let registered : World α β :=
      (world.registerAtSource source (.input watch.view connected.length)).modifyView watch.view
        fun v ↦ { v with inputs := v.inputs ++ [(source, s.listeners.next)] }
    have hregistered : registered.Follows watch (connected ++ [source]) (r.shown connected) stack
        registered.deferred r := by
      refine (h.connect source).modifyView rfl (fun v hv ↦ { hv with }) (fun v hdue hwaits ↦ ?_) ?_
      · exact ⟨hdue, hwaits⟩
      · exact h.calm.modifyView (fun _ ↦ rfl) (fun _ ↦ rfl) (fun _ ↦ rfl)
    have hturn : Tells answers watch.view ticket
        ⟨world, .connecting watch.view ((source, connected.length) ::
          rest.zipIdx (connected.length + 1)) :: stack, .returning answer⟩ []
        ((⟨registered, .connecting watch.view (rest.zipIdx (connected.length + 1)) :: stack,
          .returning answer⟩ : Machine α β).hear watch.view connected.length s.current) := by
      apply Tells.resume
      · simp only [Machine.resume, Machine.connect, hsource]
        rfl
      · simp only [resumeNotices, hsource]
        exact heardBy_eq_nil (hearNotices_quiet watch.view connected.length s.current · · · _)
    have hslot : connected.length < watch.inputs.length := by
      rw [hinputs, List.length_append, List.length_cons]
      omega
    have hheard := @echoes_hear α β answers watch ticket _ _ _ _ _ (.returning answer) _ s.current
      (hregistered.push (.connecting watch.view (rest.zipIdx (connected.length + 1)))) htick hslot
    let world₁ := registered.takeIn answers watch.view connected.length s.current
    have hr₁ : (r.hear s.current).current = r.current := r.current_hear s.current
    have h₁ : world₁.Follows watch (connected ++ [source])
        ((r.hear s.current).shown (connected ++ [source])) stack world₁.deferred
        (r.hear s.current) := by
      rw [Reference.shown_concat, hr₁, hcurrent,
        Reference.shown_congr (Reference.events_hear s.current r)]
      exact hregistered.takeIn_self s.current hslot
    have hsources₁ : world₁.sources.length = world.sources.length := by
      rw [World.sources_takeIn]
      exact List.length_modify _ _ _
    have hdepth₁ : world₁.depth = world.depth := World.depth_takeIn _ _
    have htick₁ : world₁.inTick := by rwa [World.inTick, hdepth₁]
    have hinputs₁ : watch.inputs = connected ++ [source] ++ rest := by
      rw [hinputs, List.append_assoc, List.singleton_append]
    obtain ⟨world', last, hlater, h', hdepth'⟩ := @ih _ _ world₁ .done h₁ htick₁ hinputs₁
      fun other hother ↦ hsources₁ ▸ hsources other (List.mem_cons_of_mem _ hother)
    rw [hr₁] at hlater h'
    rw [List.length_append, List.length_singleton] at hlater
    rw [List.map_cons, List.foldl_cons, hcurrent]
    exact ⟨world', last, ((Echoes.of_tells hturn rfl).trans hheard).trans hlater, h',
      hdepth'.trans hdepth₁⟩

/-- The first composition of a new view is requested, which puts it off to the end of the tick. -/
theorem tells_requestCompose
    (h : world.Follows watch connected shown stack world.deferred r) (htick : world.inTick) :
    ∃ world', Tells answers watch.view ticket
        ⟨world, .connecting watch.view [] :: stack, .returning answer⟩ []
        ⟨world', stack, .returning .done⟩ ∧
      world'.Follows { watch with requested := true } connected shown stack world'.deferred r ∧
      world'.depth = world.depth := by
  obtain ⟨v, hview, hreflects, -, hwaits⟩ := h.view
  by_cases hscheduled : v.scheduled
  · refine ⟨world, ?_, ?_, rfl⟩
    · refine .resume ?_ rfl
      simp only [Machine.resume, requestCompose, hview, htick, hscheduled]
      rfl
    · exact ⟨⟨v, hview, { hreflects with }, fun _ _ ↦ hscheduled, hwaits⟩, h.events, h.slots,
        h.ordered, h.calm⟩
  · refine ⟨world.schedule watch.view, ?_, ?_, rfl⟩
    · refine .resume ?_ rfl
      simp only [Machine.resume, requestCompose, hview, htick, hscheduled]
      rfl
    · have hlisted : { world with deferred := world.deferred ++ [watch.view] }.Follows watch
          connected shown stack world.deferred r :=
        ⟨h.view, h.events, h.slots, h.ordered, h.calm⟩
      refine hlisted.modifyView rfl (fun v hv ↦ { hv with }) (fun v _ _ ↦ ⟨fun _ _ ↦ rfl, fun _ ↦ ?_⟩)
        (hlisted.calm.modifyView (fun _ ↦ rfl) (fun _ ↦ rfl) (fun _ ↦ rfl))
      exact List.mem_append_right _ List.mem_cons_self

/-- The view is handed over to its owner. -/
theorem calm_hand {view : ViewId} (h : world.Calm [.building view]) :
    (world.modifyView view fun v ↦ { v with owned := true }).Calm [] := by
  intro j v' hv'
  rw [World.modifyView, List.getElem?_modify] at hv'
  obtain ⟨v, hview, rfl⟩ := Option.map_eq_some_iff.mp hv'
  obtain ⟨hlent, hheld⟩ := h j v hview
  by_cases hj : view = j
  · rw [if_pos hj]
    exact ⟨hlent, fun _ ↦ .inl rfl⟩
  · rw [if_neg hj]
    refine ⟨hlent, fun hlive ↦ (hheld hlive).imp_right fun hany ↦ ?_⟩
    rw [List.any_cons, Frame.holds, beq_false_of_ne hj] at hany
    exact hany

/-- A new view, before any input is connected. Assumes: whatever listens for a view, the view is
there, and nobody's values are lent. -/
theorem follows_addView {composer : Composer α β} {inputs : List SourceId} {label : String}
    (hwired : world.Wired) (hordered : world.Ordered) (hcalm : world.Calm []) :
    let watch : Watch α β := { view := world.views.length, composer, inputs }
    let r : Reference α β := { events := world.sources.map (·.current), depth := world.depth }
    (world.openTick.addView { label, composer, slots := inputs.map fun _ ↦ {} }).Follows watch []
      (r.shown []) [.closing .done, .building world.views.length] world.deferred r := by
  intro watch r
  have hview : (world.openTick.addView
      { label, composer, slots := inputs.map fun _ ↦ {} }).views[world.views.length]? =
        some { label, composer, slots := inputs.map fun _ ↦ {} } := List.getElem?_concat_length
  refine ⟨⟨_, hview, ?_, fun hrequested ↦ by contradiction, fun hscheduled ↦ by contradiction⟩, rfl,
    ?_, hordered, ?_⟩
  · refine ⟨rfl, rfl, List.length_map _, fun k s hs ↦ ?_, rfl, rfl, rfl, rfl, rfl, rfl, rfl, rfl⟩
    obtain ⟨source, -, rfl⟩ := Option.map_eq_some_iff.mp ((List.getElem?_map ..).symm.trans hs)
    rfl
  · intro source s hsource
    rw [List.filterMap_eq_nil_iff.mpr]
    · rfl
    · intro entry hentry
      have hnamed := hwired source s hsource entry hentry
      cases hlistener : entry.2 with
      | callback key => rfl
      | input other slot =>
        rw [hlistener] at hnamed
        obtain ⟨v, hv, -⟩ := hnamed
        obtain ⟨hold, -⟩ := List.getElem?_eq_some_iff.mp hv
        exact if_neg (Nat.ne_of_lt hold)
  · intro j v hv
    change (world.views ++ [_])[j]? = some v at hv
    by_cases hold : j < world.views.length
    · rw [List.getElem?_append_left hold] at hv
      refine (hcalm j v hv).imp_right fun hheld hlive ↦ (hheld hlive).imp_right fun hany ↦ ?_
      contradiction
    · obtain ⟨hbound, -⟩ := List.getElem?_eq_some_iff.mp hv
      rw [List.length_append, List.length_singleton] at hbound
      obtain rfl : world.views.length = j :=
        Nat.le_antisymm (Nat.le_of_not_lt hold) (Nat.le_of_lt_succ hbound)
      rw [List.getElem?_concat_length] at hv
      obtain rfl := Option.some.inj hv
      refine ⟨rfl, fun _ ↦ .inr ?_⟩
      simp [Frame.holds]

/-- A view is built at rest. Assumes: whatever listens for a view, the view is there, and nobody's
values are lent. -/
theorem agrees_build {composer : Composer α β} {inputs : List SourceId} (hrest : m.AtRest)
    (hwired : m.world.Wired) (hordered : m.world.Ordered) (hcalm : m.world.Calm [])
    (hinputs : ∀ source ∈ inputs, source < m.world.sources.length) :
    let watch : Watch α β := { view := m.world.views.length, composer, inputs, requested := true }
    let r := Reference.build inputs (composer.apply answers) (m.world.sources.map (·.current))
      m.world.depth
    ∃ m', Tells answers watch.view ticket (m.build inputs composer) [] m' ∧ m'.Agrees watch r := by
  intro watch r
  obtain ⟨world, stack, control⟩ := m
  obtain ⟨hstack, -⟩ := hrest
  dsimp only at hstack hwired hordered hcalm hinputs
  subst hstack
  let fresh : Watch α β := { view := world.views.length, composer, inputs }
  let r₀ : Reference α β := { events := world.sources.map (·.current), depth := world.depth }
  let r₁ := (inputs.map r₀.current).foldl (fun r event ↦ r.hear event) r₀
  obtain ⟨found, hfound⟩ : ∃ found : List (Source α),
      inputs.map (world.sources[·]?) = found.map some := by
    refine exists_map_eq_map_some fun source hsource ↦ ?_
    rw [List.getElem?_eq_getElem (hinputs source hsource)]
    rfl
  let new : View α β :=
    { label := labelOf (found.map (·.name)), composer, slots := inputs.map fun _ ↦ {} }
  have hstart : (⟨world, [], control⟩ : Machine α β).build inputs composer =
      ⟨world.openTick.addView new, [.connecting world.views.length (inputs.zipIdx 0),
        .closing .done, .building world.views.length], .returning .done⟩ := by
    have hslots : (found.map fun _ ↦ ({} : Slot α)) = inputs.map fun _ ↦ {} := by
      have hlength : inputs.length = found.length := by
        simpa using congrArg List.length hfound
      rw [List.map_const', List.map_const', hlength]
    simp only [build, mapM_eq_some_iff.mpr hfound, hslots]
    rfl
  -- the inputs are connected
  have hadded : (world.openTick.addView new).Follows fresh [] (r₀.shown [])
      [.closing .done, .building world.views.length] world.deferred r₀ :=
    follows_addView hwired hordered hcalm
  have htick : (world.openTick.addView new).inTick := world.inTick_openTick
  obtain ⟨world₁, last, hconnected, h₁, hdepth₁⟩ :=
    @echoes_connecting α β answers fresh ticket r₀ [] _ _ .done inputs hadded htick rfl hinputs
  -- the first composition is put off
  have htick₁ : world₁.inTick := by
    rw [World.inTick, hdepth₁]
    exact world.inTick_openTick
  obtain ⟨world₂, hrequested, h₂, hdepth₂⟩ :=
    @tells_requestCompose α β answers fresh ticket _ _ _ _ world₁ last h₁ htick₁
  -- the tick of the build ends
  have hturn : Tells answers watch.view ticket
      ⟨world₂, [.closing .done, .building watch.view], .returning .done⟩ []
      ((⟨world₂, [.building watch.view], .returning .done⟩ : Machine α β).closeTick .done) :=
    .resume rfl rfl
  obtain ⟨world₃, hclosed, h₃, -, hdepth₃, hputsOff⟩ :=
    @echoes_closeTick α β answers watch ticket r₁ _ _ _ (.returning .done) .done world.depth rfl
      (h₂.pop fun _ ↦ rfl) (hdepth₂.trans hdepth₁)
  -- the view is handed over
  let handed : World α β := world₃.modifyView watch.view fun v ↦ { v with owned := true }
  have hhanded : Tells answers watch.view ticket
      ⟨world₃, [.building watch.view], .returning .done⟩ []
      ⟨handed, [], .user (.answered (.built watch.view))⟩ :=
    Tells.trans (.resume rfl rfl : Tells answers watch.view ticket _ []
      ⟨handed, [], .returning (.built watch.view)⟩) (.resume rfl rfl)
  have hbuilt : (if world.depth = 0 then r₁.endTick inputs (composer.apply answers) else r₁) = r :=
    rfl
  have hevents : r.events = r₁.events := by
    rw [← hbuilt]
    split
    · exact Reference.events_endTick _ _ _
    · rfl
  have hdepth : r.depth = world.depth := Reference.depth_build _ _ _ _
  rw [hbuilt] at h₃
  have hall := ((((hconnected.silent rfl).trans hrequested).trans hturn).trans
    (hclosed.silent rfl)).trans hhanded
  rw [hstart]
  refine ⟨_, hall, agrees_answered rfl ?_ ?_ ?_⟩
  · rw [Reference.shown_congr hevents]
    exact h₃.modifyView rfl (fun v hv ↦ { hv with }) (fun v hdue hwaits ↦ ⟨hdue, hwaits⟩)
      (calm_hand h₃.calm)
  · exact hdepth₃.trans hdepth.symm
  · exact fun hzero ↦ hputsOff (hdepth₃.symm.trans hzero)

/-- A listener registers at rest, and hears the last output at once. Assumes: it is the first one. -/
theorem Agrees.subscribe (h : m.Agrees watch r) (hfirst : watch.listeners = {}) (key : Nat) :
    let watch' : Watch α β := { watch with listeners := watch.listeners.register key }
    (ViewNotice.heardBy 0 (historyOf watch.view
      (m.requestNotices (.subscribe (.view watch.view) key))) = r.outputs.getLast?.toList) ∧
    ∃ m', Tells answers watch.view 0 (m.subscribe (.view watch.view) key) [] m' ∧
      m'.Agrees watch' r := by
  intro watch'
  obtain ⟨world, stack, control⟩ := m
  obtain ⟨⟨hstack, -⟩, hrequested, hworld, hdepth, hputsOff⟩ := h
  dsimp only at hstack hworld hdepth hputsOff
  subst hstack
  obtain ⟨v, hview, hreflects, -⟩ := hworld.view
  have hlast : v.status.event? = r.outputs.getLast? := by
    rw [hreflects.status, Reference.status]
    cases r.outputs.getLast? with
    | none => rfl
    | some event => cases event <;> rfl
  have hnext : v.listeners.next = 0 := by rw [hreflects.listeners, hfirst]
  let registered : World α β := world.registerAtView watch.view key
  have hregistered : registered.Follows watch' watch.inputs (r.shown watch.inputs) []
      registered.deferred r :=
    hworld.modifyView rfl
      (fun v hv ↦ { hv with listeners := congrArg (·.register key) hv.listeners })
      (fun v hdue hwaits ↦ ⟨hdue, hwaits⟩)
      (hworld.calm.modifyView (fun _ ↦ rfl) (fun _ ↦ rfl) (fun _ ↦ rfl))
  constructor
  · simp only [requestNotices, World.liveView?_eq hview hreflects.live, hlast, hnext]
    cases r.outputs.getLast? with
    | none => rfl
    | some event => simp [historyOf, Notice.of?, ViewNotice.heardBy]
  · let listed : World α β := registered.addHandle (.view watch.view) 0
    have hlisted : listed.Follows watch' watch.inputs (r.shown watch.inputs) [] listed.deferred r :=
      ⟨hregistered.view, hregistered.events, hregistered.slots, hregistered.ordered,
        hregistered.calm⟩
    have hcalled : Tells answers watch.view 0
        ((⟨world, [], control⟩ : Machine α β).subscribe (.view watch.view) key) []
        ⟨registered, [.subscribing (.view watch.view) 0], .returning .done⟩ := by
      simp only [Machine.subscribe, World.liveView?_eq hview hreflects.live, hnext]
      cases v.status.event? with
      | none => exact .refl _
      | some event => exact tells_call (by simp)
    have hnoted : Tells answers watch.view 0
        ⟨registered, [.subscribing (.view watch.view) 0], .returning .done⟩ []
        ⟨listed, [], .returning (.subscribed registered.handles.length)⟩ := by
      refine .resume ?_ rfl
      have hkept : (⟨listed, [], .returning .done⟩ : Machine α β).release watch.view =
          ⟨listed, [], .returning .done⟩ := release_eq hlisted.calm
      exact congrArg (Machine.returning (.subscribed registered.handles.length)) hkept
    refine ⟨_, (hcalled.trans hnoted).trans (.resume rfl rfl), ?_⟩
    exact agrees_answered hrequested hlisted hdepth hputsOff

end Build

/-! ### Performances -/

/-- The run submits these requests, each of them at rest, and otherwise the user only records. -/
inductive Performs (answers : Nat → List α → β) :
    List (Request α β) → List (Move α β) → Machine α β → Prop
  | nil {m : Machine α β} (hrest : m.AtRest) : Performs answers [] [] m
  | cons {m : Machine α β} {request : Request α β} {requests : List (Request α β)}
      {moves rest : List (Move α β)} (hrest : m.AtRest)
      (hrecords : Along (Records answers) moves (m.submit request))
      (hlater : Performs answers requests rest ((m.submit request).run moves)) :
      Performs answers (request :: requests) (.request request :: (moves ++ rest)) m

section Performs

variable {answers : Nat → List α → β} {watch : Watch α β} {ticket : Nat} {m : Machine α β}
  {r : Reference α β} {requests : List (Request α β)} {moves moves' : List (Move α β)}

theorem Performs.atRest (h : Performs answers requests moves m) : m.AtRest := by
  cases h with
  | nil hrest => exact hrest
  | cons hrest _ _ => exact hrest

theorem Performs.cons_serve {request : Request α β} {rest : List (Move α β)} (hrest : m.AtRest)
    (hrecords : Along (Records answers) moves (m.serve request))
    (hlater : Performs answers requests rest ((m.serve request).run moves)) :
    Performs answers (request :: requests) (.request request :: (moves ++ rest)) m := by
  rw [← submit_eq_serve hrest.2] at hrecords hlater
  exact .cons hrest hrecords hlater

theorem run_performance (h : m.hasUser) (request : Request α β) (moves rest : List (Move α β)) :
    m.run (.request request :: (moves ++ rest)) = ((m.serve request).run moves).run rest := by
  rw [run_cons, run_append, ← submit_eq_serve h]
  rfl

theorem heardBy_performance {i : ViewId} (h : m.hasUser) (request : Request α β)
    (moves rest : List (Move α β)) :
    ViewNotice.heardBy ticket (historyOf i (m.history (.request request :: (moves ++ rest)))) =
      ViewNotice.heardBy ticket (historyOf i (m.requestNotices request)) ++
      (ViewNotice.heardBy ticket (historyOf i ((m.serve request).history moves)) ++
      ViewNotice.heardBy ticket (historyOf i (((m.serve request).run moves).history rest))) := by
  rw [← notices_request h, ← submit_eq_serve h, ← ViewNotice.heardBy_append,
    ← ViewNotice.heardBy_append, ← historyOf_append, ← historyOf_append, ← history_append]
  rfl

/-- At rest, a user that only records has nothing to do. -/
theorem AtRest.reply_eq (h : m.AtRest) :
    m.move (m.reply answers) = m ∧ m.notices (m.reply answers) = [] := by
  obtain ⟨world, stack, control⟩ := m
  obtain ⟨hstack, huser⟩ := h
  obtain ⟨heard, rfl⟩ := exists_heard huser
  dsimp only at hstack
  subst hstack
  cases heard with
  | called call => cases call <;> exact ⟨rfl, rfl⟩
  | _ => exact ⟨rfl, rfl⟩

theorem AtRest.records (h : m.AtRest) (hrecords : Along (Records answers) moves m) :
    m.run moves = m ∧ m.history moves = [] := by
  induction moves with
  | nil => exact ⟨rfl, rfl⟩
  | cons move rest ih =>
    obtain ⟨rfl, hrest⟩ := hrecords
    obtain ⟨hmove, hnotices⟩ : m.move (m.reply answers) = m ∧ m.notices (m.reply answers) = [] :=
      h.reply_eq
    rw [hmove] at hrest
    rw [run_cons, history, hmove, hnotices]
    exact ih hrest

/-- Two runs of the same user from the same machine to rest end alike. -/
theorem records_unique (hrecords : Along (Records answers) moves m)
    (hrecords' : Along (Records answers) moves' m) (hrest : (m.run moves).AtRest)
    (hrest' : (m.run moves').AtRest) :
    m.run moves = m.run moves' ∧ m.history moves = m.history moves' := by
  induction moves generalizing m moves' with
  | nil =>
    obtain ⟨hrun, hhistory⟩ := AtRest.records hrest hrecords'
    exact ⟨hrun.symm, hhistory.symm⟩
  | cons move rest ih =>
    cases moves' with
    | nil => exact AtRest.records hrest' hrecords
    | cons move' rest' =>
      obtain ⟨rfl, hlater⟩ := hrecords
      obtain ⟨rfl, hlater'⟩ := hrecords'
      obtain ⟨hrun, hhistory⟩ := ih hlater hlater' hrest hrest'
      exact ⟨hrun, congrArg (m.notices (m.reply answers) ++ ·) hhistory⟩

/-- The requests determine what happens. -/
theorem Performs.unique (h : Performs answers requests moves m)
    (h' : Performs answers requests moves' m) :
    m.run moves = m.run moves' ∧ m.history moves = m.history moves' := by
  induction h generalizing moves' with
  | nil _ =>
    cases h' with
    | nil _ => exact ⟨rfl, rfl⟩
  | cons _ hrecords hlater ih =>
    cases h' with
    | cons _ hrecords' hlater' =>
      obtain ⟨hrun, hhistory⟩ := records_unique hrecords hrecords' hlater.atRest hlater'.atRest
      rw [← hrun] at hlater'
      obtain ⟨hrun', hhistory'⟩ := ih hlater'
      constructor
      · rw [run_cons, run_cons, run_append, run_append]
        show ((submit _ _).run _).run _ = ((submit _ _).run _).run _
        rw [hrun', hrun]
      · show _ ++ history (_ ++ _) (submit _ _) = _ ++ history (_ ++ _) (submit _ _)
        rw [history_append, history_append, hhistory, hhistory', hrun]

theorem requestNotices_act (act : Act α) :
    ViewNotice.heardBy ticket (historyOf watch.view (m.requestNotices act.request)) = [] := by
  apply heardBy_eq_nil
  intro other t event
  cases act with
  | emit source event =>
    show _ ∉ m.emitNotices source event
    unfold emitNotices
    split
    · simp
    · split <;> simp
  | _ => exact List.not_mem_nil

/-- Whatever is done, the view agrees with the reference, and the listener hears its outputs. -/
theorem Agrees.performs (h : m.Agrees watch r) (acts : List (Act α)) :
    let r' := acts.foldl (fun r act ↦ r.act watch.inputs (watch.composer.apply answers) act) r
    ∃ moves told, Performs answers (acts.map Act.request) moves m ∧ (m.run moves).Agrees watch r' ∧
      r'.outputs = r.outputs ++ told ∧
      ViewNotice.heardBy ticket (historyOf watch.view (m.history moves)) =
        toldTo watch.view ticket watch.view watch.listeners.tickets told := by
  induction acts generalizing m r with
  | nil =>
    refine ⟨[], [], .nil h.rest, h, (List.append_nil _).symm, ?_⟩
    rw [toldTo_nil]
    rfl
  | cons act acts ih =>
    obtain ⟨m', ⟨told, houtputs, moves, hrecords, hmoves, hheard⟩, h'⟩ :=
      @Agrees.act α β answers watch ticket r m h act
    rw [submit_eq_serve h.rest.2] at hrecords hmoves hheard
    obtain ⟨rest, later, hlater, hlast, houtputs', hheard'⟩ := ih h'
    rw [← hmoves] at hlater hlast hheard'
    refine ⟨.request act.request :: (moves ++ rest), told ++ later,
      .cons_serve h.rest hrecords hlater, ?_, ?_, ?_⟩
    · rw [run_performance h.rest.2]
      exact hlast
    · rw [List.foldl_cons, houtputs', houtputs, List.append_assoc]
    · rw [heardBy_performance h.rest.2, requestNotices_act, List.nil_append, hheard, hheard',
        toldTo_append]

/-- A view is built at rest, whatever happened before, a listener registers right after, and then
events are emitted and ticks opened and closed while callbacks only record. This can be done, and
however it is done, the status of the view, the number of values that it composed and what the
listener heard are those of the reference. The acts are arbitrary, so this is so after each of them.
Assumes: the inputs are there. -/
theorem performs_reference (answers : Nat → List α → β) (before : List (Move α β))
    (hrest : (run before ({} : Machine α β)).AtRest) (inputs : List SourceId)
    (hinputs : ∀ source ∈ inputs, source < (run before ({} : Machine α β)).world.sources.length)
    (composer : Composer α β) (key : Nat) (acts : List (Act α)) :
    let m : Machine α β := run before {}
    let view := m.world.views.length
    let compose := composer.apply answers
    let first := Reference.build inputs compose (m.world.sources.map (·.current)) m.world.depth
    let last := acts.foldl (fun r act ↦ r.act inputs compose act) first
    let requests := .build inputs composer :: .subscribe (.view view) key :: acts.map Act.request
    (∃ moves, Performs answers requests moves m) ∧
    ∀ moves, Performs answers requests moves m →
      (∃ v, (m.run moves).world.views[view]? = some v ∧
        v.status = last.status ∧ v.emissions = last.emissions) ∧
      ViewNotice.heardBy 0 (historyOf view (m.history moves)) = Reference.heardSince first last := by
  intro m view compose first last requests
  -- the state before the build
  have hwired : m.world.Wired := (wired_run before).world
  have hordered : m.world.Ordered := ordered_run before
  have hcalm : m.world.Calm [] := by
    intro j v hview
    have hmanned : m.Manned := manned_run before
    rw [Machine.Manned, hrest.1] at hmanned
    refine ⟨?_, fun hlive ↦ hmanned.held j v hview hlive⟩
    cases hlent : v.lent with
    | false => rfl
    | true => exact absurd (hmanned.lent j v hview hlent) List.not_mem_nil
  -- the build, the registration and the acts
  let watch : Watch α β := { view, composer, inputs, requested := true }
  let watch' : Watch α β := { watch with listeners := watch.listeners.register key }
  obtain ⟨built, ⟨building, hbuilding, hbuilt, hnone⟩, hagrees⟩ :
      ∃ built, Tells answers view 0 (m.serve (.build inputs composer)) [] built ∧
        built.Agrees watch first :=
    agrees_build hrest hwired hordered hcalm hinputs
  obtain ⟨hjoined, joined, ⟨joining, hjoining, hjoin, hnothing⟩, hagrees'⟩ :
      ViewNotice.heardBy 0 (historyOf view (built.requestNotices (.subscribe (.view view) key))) =
        first.outputs.getLast?.toList ∧
      ∃ joined, Tells answers view 0 (built.serve (.subscribe (.view view) key)) [] joined ∧
        joined.Agrees watch' first :=
    hagrees.subscribe rfl key
  obtain ⟨moves, told, hacts, hlast, houtputs, hheard⟩ :
      ∃ moves told, Performs answers (acts.map Act.request) moves joined ∧
        (joined.run moves).Agrees watch' last ∧ last.outputs = first.outputs ++ told ∧
        ViewNotice.heardBy 0 (historyOf view (joined.history moves)) =
          toldTo view 0 view watch'.listeners.tickets told :=
    hagrees'.performs acts
  have hperforms : Performs answers requests
      (.request (.build inputs composer) :: (building ++
        .request (.subscribe (.view view) key) :: (joining ++ moves))) m := by
    refine .cons_serve hrest hbuilding ?_
    rw [hbuilt]
    refine .cons_serve hagrees.rest hjoining ?_
    rw [hjoin]
    exact hacts
  refine ⟨⟨_, hperforms⟩, fun other hother ↦ ?_⟩
  obtain ⟨hrun, hhistory⟩ := hother.unique hperforms
  rw [hrun, hhistory, run_performance hrest.2, hbuilt, run_performance hagrees.rest.2, hjoin,
    heardBy_performance hrest.2, hbuilt, heardBy_performance hagrees.rest.2, hjoin]
  constructor
  · obtain ⟨v, hview, hreflects, -⟩ := hlast.world.view
    exact ⟨v, hview, hreflects.status, hreflects.emissions⟩
  · rw [hnone, hjoined, hnothing, hheard, Reference.heardSince, houtputs, List.drop_left]
    show _ ++ (_ ++ (_ ++ (_ ++ toldTo view 0 view [0] told))) = _
    rw [toldTo_self]
    rfl

/-- Two sources, one of which has loaded. -/
def halfLoaded : List (Move Nat Nat) :=
  Move.script 14 [.newSource "a", .newSource "b", .emit 1 (.loaded 10)]

/-- A source that feeds two inputs loads, and then fails and recovers inside a tick. -/
def failingInTick : List (Act Nat) :=
  [.emit 0 (.loaded 1), .enterTick, .emit 0 (.failed ⟨"a", "lost"⟩), .emit 0 (.loaded 2),
    .emit 1 (.loaded 20), .leaveTick]

theorem performs_failingInTick :
    ∃ moves, Performs (fun _ ↦ List.sum) (.build [0, 1, 0] (.callback 3) ::
        .subscribe (.view 0) 7 :: failingInTick.map Act.request) moves (run halfLoaded {}) ∧
      ViewNotice.heardBy 0 (historyOf 0 ((run halfLoaded {}).history moves)) =
        [.ready 12, .failed ⟨"a", "lost"⟩, .failed ⟨"a", "lost"⟩, .ready 24] := by
  obtain ⟨⟨moves, hmoves⟩, hperforms⟩ := performs_reference (fun _ ↦ List.sum) halfLoaded
    (by decide +kernel) [0, 1, 0] (by decide +kernel) (.callback 3) 7 failingInTick
  refine ⟨moves, hmoves, ?_⟩
  obtain ⟨-, hheard⟩ := hperforms moves hmoves
  exact hheard.trans (by decide +kernel)

end Performs

end Machine

end LiveRecord.Flow
