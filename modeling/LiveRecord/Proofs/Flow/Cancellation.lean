import LiveRecord.Proofs.Flow.Roster

/-!
# What goes with a cancelled subscription

To cancel a subscription takes its own registration away whatever else happens
(`Machine.notMem_serve_cancel`). What its callback owns is dropped with the callback: subscriptions
are cancelled (`Machine.withdraws_serve_cancel`) and views let go. All of that succeeds unless
something is dropped that is registered in a list from which a listener is just being taken out
(`Machine.Clashes`). Only then does the core raise (`Machine.isUnwinding_drop_iff`) and are
registrations left behind (`Machine.stranded_of_calm_drop`).
-/

set_option autoImplicit false

namespace LiveRecord.Flow

variable {α β : Type}

theorem World.stranded_unregister (target : Target) (ticket : Nat) (world : World α β) :
    (world.unregister target ticket).stranded = world.stranded := by
  cases target <;> rfl

theorem World.stranded_cancel (handle : Nat) (world : World α β) :
    (world.cancel handle).stranded = world.stranded := by
  unfold cancel
  split
  · exact stranded_unregister _ _ world
  · rfl

theorem World.stranded_disconnect (view : ViewId) (world : World α β) :
    (world.disconnect view).stranded = world.stranded := by
  have hinputs (inputs : List (SourceId × Nat)) (world : World α β) :
      (inputs.foldl (fun w input ↦ w.unregister (.source input.1) input.2) world).stranded =
        world.stranded := by
    induction inputs generalizing world with
    | nil => rfl
    | cons input rest ih => exact (ih _).trans (stranded_unregister _ _ world)
  unfold disconnect
  split
  · rfl
  · exact hinputs _ world

theorem World.stranded_dispose (view : ViewId) (world : World α β) :
    (world.dispose view).stranded = world.stranded := by
  unfold dispose
  split
  · rfl
  · split
    · rfl
    · exact stranded_disconnect view world

namespace Machine

variable {m : Machine α β}

/-- Something that the belongings name is dropped while a listener is being taken out of the list
in which it is registered, one of the lists `locked`. -/
inductive Clashes : List Target → Belongings → Machine α β → Prop
  /-- It is an active subscription. -/
  | subscription {locked : List Target} {handle ticket : Nat} {owned rest : Belongings}
      {m : Machine α β} {target : Target}
      (hhandle : m.world.handles[handle]? = some { target, ticket }) (hlocked : target ∈ locked) :
      Clashes locked (.subscription handle owned rest) m
  /-- It belongs to the callback of a subscription, which goes with its registration. -/
  | owned {locked : List Target} {handle ticket : Nat} {owned rest : Belongings}
      {m : Machine α β} {target : Target}
      (hhandle : m.world.handles[handle]? = some { target, ticket }) (hfree : target ∉ locked)
      (hfrees : m.frees target ticket)
      (h : Clashes (target :: locked) owned (m.withWorld (.cancel handle))) :
      Clashes locked (.subscription handle owned rest) m
  /-- It belongs to the composer of a view that goes. -/
  | composer {locked : List Target} {view : ViewId} {composer listeners rest : Belongings}
      {m : Machine α β} (hgoes : m.letsGo view) (h : Clashes locked composer m) :
      Clashes locked (.view view composer listeners rest) m
  /-- It is an input of a view that goes. -/
  | input {locked : List Target} {view : ViewId} {composer listeners rest : Belongings}
      {m : Machine α β} {source : SourceId} {ticket : Nat} (hgoes : m.letsGo view)
      (hinput : (source, ticket) ∈ (m.drop locked composer).world.inputsOf view)
      (hlocked : .source source ∈ locked) :
      Clashes locked (.view view composer listeners rest) m
  /-- It belongs to the callback of a listener of a view that goes. -/
  | listener {locked : List Target} {view : ViewId} {composer listeners rest : Belongings}
      {m : Machine α β} (hgoes : m.letsGo view)
      (h : Clashes (locked.filter (· != .view view)) listeners
        (((m.drop locked composer).inputsIn locked view).foldl (fun m target ↦ m.refuse target)
          ((m.drop locked composer).dropView view))) :
      Clashes locked (.view view composer listeners rest) m
  /-- It comes after a subscription and what went with that. -/
  | afterSubscription {locked : List Target} {handle : Nat} {owned rest : Belongings}
      {m : Machine α β}
      (h : Clashes locked rest (m.drop locked (.subscription handle owned .nothing))) :
      Clashes locked (.subscription handle owned rest) m
  /-- It comes after a view and what went with that. -/
  | afterView {locked : List Target} {view : ViewId} {composer listeners rest : Belongings}
      {m : Machine α β}
      (h : Clashes locked rest (m.drop locked (.view view composer listeners .nothing))) :
      Clashes locked (.view view composer listeners rest) m

/-! ### When the core raises -/

theorem isUnwinding_foldl_refuse (targets : List Target) (m : Machine α β) :
    (targets.foldl (fun m target ↦ m.refuse target) m).isUnwinding ↔
      m.isUnwinding ∨ targets ≠ [] := by
  induction targets generalizing m with
  | nil => simp
  | cons target rest ih =>
    have hrefused : (m.refuse target).isUnwinding := rfl
    simp [ih, hrefused]

theorem isUnwinding_dropView (view : ViewId) (m : Machine α β) :
    (m.dropView view).isUnwinding = m.isUnwinding := by
  rw [isUnwinding, dropView_control, isUnwinding]

theorem inputsIn_ne_nil {locked : List Target} {view : ViewId} :
    m.inputsIn locked view ≠ [] ↔
      ∃ source ticket, (source, ticket) ∈ m.world.inputsOf view ∧ .source source ∈ locked := by
  unfold inputsIn World.inputsOf
  cases m.world.views[view]? with
  | none => simp
  | some v => simp [List.filter_eq_nil_iff]

/-- Whether the core raises in the course of dropping one subscription. -/
theorem isUnwinding_drop_subscription {locked : List Target} {handle : Nat} {owned : Belongings}
    (howned : ∀ locked (m : Machine α β),
      (m.drop locked owned).isUnwinding ↔ m.isUnwinding ∨ Clashes locked owned m) :
    (m.drop locked (.subscription handle owned .nothing)).isUnwinding ↔
      m.isUnwinding ∨ Clashes locked (.subscription handle owned .nothing) m := by
  have hwhenIdle (hidle : ∀ target ticket, m.world.handles[handle]? ≠ some { target, ticket }) :
      ¬Clashes locked (.subscription handle owned .nothing) m := by
    intro hclash
    cases hclash with
    | subscription hhandle _ | owned hhandle _ _ _ => exact hidle _ _ hhandle
    | afterSubscription h => cases h
  simp only [drop]
  split
  case h_1 target ticket hhandle =>
    split
    case isTrue hlocked =>
      exact iff_of_true rfl (.inr (.subscription hhandle (by simpa using hlocked)))
    case isFalse hfree =>
      have hfree : target ∉ locked := by simpa using hfree
      have hclash : Clashes locked (.subscription handle owned .nothing) m ↔
          m.frees target ticket ∧
            Clashes (target :: locked) owned (m.withWorld (.cancel handle)) := by
        refine ⟨fun hclash ↦ ?_, fun h ↦ .owned hhandle hfree h.1 h.2⟩
        cases hclash with
        | subscription hhandle' hlocked =>
          obtain ⟨rfl, rfl⟩ : target = _ ∧ ticket = _ := by simpa [hhandle] using hhandle'
          exact absurd hlocked hfree
        | owned hhandle' _ hfrees h =>
          obtain ⟨rfl, rfl⟩ : target = _ ∧ ticket = _ := by simpa [hhandle] using hhandle'
          exact ⟨hfrees, h⟩
        | afterSubscription h => cases h
      rw [hclash]
      split
      case isTrue hfrees => exact (howned _ _).trans (by simp [hfrees, withWorld, isUnwinding])
      case isFalse hkept => simp [hkept, withWorld, isUnwinding]
  case h_2 hidle =>
    have hnone := hwhenIdle fun target ticket hhandle ↦ hidle target ticket hhandle
    simp [hnone, withWorld, isUnwinding]

/-- Whether the core raises in the course of dropping one view. -/
theorem isUnwinding_drop_view {locked : List Target} {view : ViewId}
    {composer listeners : Belongings}
    (hcomposer : ∀ locked (m : Machine α β),
      (m.drop locked composer).isUnwinding ↔ m.isUnwinding ∨ Clashes locked composer m)
    (hlisteners : ∀ locked (m : Machine α β),
      (m.drop locked listeners).isUnwinding ↔ m.isUnwinding ∨ Clashes locked listeners m) :
    (m.drop locked (.view view composer listeners .nothing)).isUnwinding ↔
      m.isUnwinding ∨ Clashes locked (.view view composer listeners .nothing) m := by
  simp only [drop]
  split
  case isTrue hgoes =>
    rw [hlisteners, isUnwinding_foldl_refuse, isUnwinding_dropView, hcomposer, inputsIn_ne_nil]
    constructor
    · rintro (((hunwinding | h) | ⟨source, ticket, hinput, hlocked⟩) | h)
      · exact .inl hunwinding
      · exact .inr (.composer hgoes h)
      · exact .inr (.input hgoes hinput hlocked)
      · exact .inr (.listener hgoes h)
    · rintro (hunwinding | hclash)
      · exact .inl (.inl (.inl hunwinding))
      · cases hclash with
        | composer _ h => exact .inl (.inl (.inr h))
        | input _ hinput hlocked => exact .inl (.inr ⟨_, _, hinput, hlocked⟩)
        | listener _ h => exact .inr h
        | afterView h => cases h
  case isFalse hstays =>
    rw [isUnwinding_dropView]
    refine ⟨.inl, fun h ↦ h.elim id fun hclash ↦ ?_⟩
    cases hclash with
    | composer hgoes _ | input hgoes _ _ | listener hgoes _ => exact absurd hgoes hstays
    | afterView h => cases h

theorem clashes_subscription_iff {locked : List Target} {handle : Nat} {owned rest : Belongings} :
    Clashes locked (.subscription handle owned rest) m ↔
      Clashes locked (.subscription handle owned .nothing) m ∨
        Clashes locked rest (m.drop locked (.subscription handle owned .nothing)) := by
  constructor
  · intro hclash
    cases hclash with
    | subscription hhandle hlocked => exact .inl (.subscription hhandle hlocked)
    | owned hhandle hfree hfrees h => exact .inl (.owned hhandle hfree hfrees h)
    | afterSubscription h => exact .inr h
  · rintro (hclash | h)
    · cases hclash with
      | subscription hhandle hlocked => exact .subscription hhandle hlocked
      | owned hhandle hfree hfrees h => exact .owned hhandle hfree hfrees h
      | afterSubscription h => cases h
    · exact .afterSubscription h

theorem clashes_view_iff {locked : List Target} {view : ViewId}
    {composer listeners rest : Belongings} :
    Clashes locked (.view view composer listeners rest) m ↔
      Clashes locked (.view view composer listeners .nothing) m ∨
        Clashes locked rest (m.drop locked (.view view composer listeners .nothing)) := by
  constructor
  · intro hclash
    cases hclash with
    | composer hgoes h => exact .inl (.composer hgoes h)
    | input hgoes hinput hlocked => exact .inl (.input hgoes hinput hlocked)
    | listener hgoes h => exact .inl (.listener hgoes h)
    | afterView h => exact .inr h
  · rintro (hclash | h)
    · cases hclash with
      | composer hgoes h => exact .composer hgoes h
      | input hgoes hinput hlocked => exact .input hgoes hinput hlocked
      | listener hgoes h => exact .listener hgoes h
      | afterView h => cases h
    · exact .afterView h

/-- The core raises in the course of dropping what callbacks own exactly if something of it is
registered in a list that is being changed. -/
theorem isUnwinding_drop_iff (locked : List Target) (owned : Belongings) (m : Machine α β) :
    (m.drop locked owned).isUnwinding ↔ m.isUnwinding ∨ Clashes locked owned m := by
  induction owned generalizing m locked with
  | nothing =>
    refine ⟨.inl, fun h ↦ h.elim id fun hclash ↦ ?_⟩
    cases hclash
  | subscription handle owned rest ihowned ihrest =>
    refine (ihrest locked (m.drop locked (.subscription handle owned .nothing))).trans ?_
    rw [isUnwinding_drop_subscription ihowned, or_assoc, ← clashes_subscription_iff]
  | view view composer listeners rest ihcomposer ihlisteners ihrest =>
    refine (ihrest locked (m.drop locked (.view view composer listeners .nothing))).trans ?_
    rw [isUnwinding_drop_view ihcomposer ihlisteners, or_assoc, ← clashes_view_iff]

/-! ### Requests to cancel -/

section Request

variable {handle ticket : Nat} {owned : Belongings} {target : Target}

theorem serve_cancel_of_active (owned : Belongings)
    (hhandle : m.world.handles[handle]? = some { target, ticket }) :
    m.serve (.cancel handle owned) =
      let left := (m.withWorld (.cancel handle)).returning .done
      if m.frees target ticket then left.drop [target] owned else left := by
  have hfrees : (m.returning .done).frees target ticket = m.frees target ticket := rfl
  have hactive : (m.returning .done).world.handles[handle]? = some { target, ticket } := hhandle
  simp only [serve, drop, hactive, List.contains_nil, Bool.false_eq_true, if_false, hfrees]
  rfl

/-- A subscription that is not active is not cancelled, and its callback goes nowhere. -/
theorem serve_cancel_of_idle (owned : Belongings)
    (hidle : ∀ target ticket, m.world.handles[handle]? ≠ some { target, ticket }) :
    m.serve (.cancel handle owned) = m.returning .done := by
  have hcancelled : m.world.cancel handle = m.world := by
    unfold World.cancel
    split
    case h_1 target ticket hhandle => exact absurd hhandle (hidle target ticket)
    case h_2 => rfl
  simp only [serve, drop]
  split
  case h_1 target ticket hhandle => exact absurd hhandle (hidle target ticket)
  case h_2 => exact congrArg (fun world ↦ { m.returning .done with world }) hcancelled

/-- A request to cancel raises exactly if what goes with the callback clashes with the list in which
the callback was registered, or with the next one. -/
theorem isUnwinding_serve_cancel_iff :
    (m.serve (.cancel handle owned)).isUnwinding ↔
      ∃ target ticket, m.world.handles[handle]? = some { target, ticket } ∧
        m.frees target ticket ∧
          Clashes [target] owned ((m.withWorld (.cancel handle)).returning .done) := by
  constructor
  · intro hunwinding
    by_cases hidle : ∀ target ticket, m.world.handles[handle]? ≠ some { target, ticket }
    · rw [serve_cancel_of_idle owned hidle] at hunwinding
      contradiction
    · push Not at hidle
      obtain ⟨target, ticket, hhandle⟩ := hidle
      rw [serve_cancel_of_active owned hhandle] at hunwinding
      dsimp only at hunwinding
      split at hunwinding
      case isTrue hfrees =>
        refine ⟨target, ticket, hhandle, hfrees, ?_⟩
        exact ((isUnwinding_drop_iff _ _ _).mp hunwinding).resolve_left Bool.false_ne_true
      case isFalse => contradiction
  · rintro ⟨target, ticket, hhandle, hfrees, hclash⟩
    rw [serve_cancel_of_active owned hhandle]
    dsimp only
    rw [if_pos hfrees]
    exact (isUnwinding_drop_iff _ _ _).mpr (.inr hclash)

theorem stranded_release (view : ViewId) (m : Machine α β) :
    (m.release view).world.stranded = m.world.stranded := by
  unfold release
  split
  · split
    · rfl
    · exact World.stranded_disconnect view m.world
  · rfl

theorem stranded_dropView (view : ViewId) (m : Machine α β) :
    (m.dropView view).world.stranded = m.world.stranded :=
  stranded_release view _

/-- Nothing is left behind unless the core raises. -/
theorem stranded_serve_cancel (hcalm : (m.serve (.cancel handle owned)).isUnwinding = false) :
    (m.serve (.cancel handle owned)).world.stranded = m.world.stranded := by
  have hserved : (m.serve (.cancel handle owned)).isUnwinding ∨
      (m.serve (.cancel handle owned)).world.stranded = m.world.stranded := by
    refine serve_cancel_induction
      (motive := fun m' ↦ m'.isUnwinding ∨ m'.world.stranded = m.world.stranded) (fun m' other h ↦ ?_)
      (fun m' target _ ↦ .inl rfl) (fun m' view h ↦ ?_) handle owned (.inr rfl)
    · exact h.imp_right ((World.stranded_cancel other m'.world).trans ·)
    · rw [isUnwinding_dropView, stranded_dropView]
      exact h
  exact hserved.resolve_left (by simp [hcalm])

theorem marks_serve_cancel (handle : Nat) (owned : Belongings) (m : Machine α β) :
    World.Marks .cancelled (handle :: owned.handles) m.world
      (m.serve (.cancel handle owned)).world :=
  have hwithdraws : World.Withdraws (handle :: owned.handles) (.source 0) 0 m.world
      (m.serve (.cancel handle owned)).world := withdraws_serve_cancel handle owned m
  hwithdraws.marks

/-- The subscription is cancelled, whatever becomes of what its callback owns. -/
theorem handle_serve_cancel (owned : Belongings)
    (hhandle : m.world.handles[handle]? = some { target, ticket }) :
    (m.serve (.cancel handle owned)).world.handles[handle]? =
      some { target, ticket, state := .cancelled } := by
  have hcancelled : (m.world.cancel handle).handles[handle]? =
      some { target, ticket, state := .cancelled } := by
    simp [World.cancel, hhandle, World.modifyHandle]
  rw [serve_cancel_of_active owned hhandle]
  dsimp only
  split
  case isFalse => exact hcancelled
  case isTrue =>
    refine drop_induction
      (motive := fun m' : Machine α β ↦ m'.world.handles[handle]? =
        some { target, ticket, state := .cancelled }) (fun m' other h ↦ ?_)
      (fun m' other h ↦ (World.handles_strand other m'.world).symm ▸ h) (fun m' view h ↦ ?_) _ _
      hcancelled
    · exact (World.marks_cancel (List.mem_singleton_self other) m'.world).of_not_active h rfl
    · rw [dropView, handles_release]
      exact h

/-- A subscription that was active is so still, or its registration is gone. Assumes: a ticket that
was given out. -/
theorem active_or_notMem_serve_cancel (handle : Nat) (owned : Belongings) {other : Nat}
    (hother : m.world.handles[other]? = some { target, ticket })
    (hgiven : ticket < (m.world.registry target).next) :
    (m.serve (.cancel handle owned)).world.handles[other]? = some { target, ticket } ∨
      ticket ∉ ((m.serve (.cancel handle owned)).world.registry target).tickets := by
  -- what is kept by a step in which the handle is not cancelled, or its registration was gone
  have hstep {m m' : Machine α β} (hchanges : World.Changes (fun _ ↦ False) m.world m'.world)
      (hhandles : m.world.handles[other]? = some { target, ticket } →
        m'.world.handles[other]? = some { target, ticket } ∨
          (m'.world.registry target).find? ticket = none)
      (h : ticket < (m.world.registry target).next ∧
        (m.world.handles[other]? = some { target, ticket } ∨
          (m.world.registry target).find? ticket = none)) :
      ticket < (m'.world.registry target).next ∧
        (m'.world.handles[other]? = some { target, ticket } ∨
          (m'.world.registry target).find? ticket = none) := by
    obtain ⟨hgiven', hfound⟩ := hchanges.find?_registry h.1
    refine ⟨hgiven', h.2.elim hhandles fun hnone ↦ ?_⟩
    exact .inr (hfound.elim (·.trans hnone) id)
  have hserved := serve_cancel_induction
    (motive := fun m' ↦ ticket < (m'.world.registry target).next ∧
      (m'.world.handles[other]? = some { target, ticket } ∨
        (m'.world.registry target).find? ticket = none))
    (fun m' cancelled ↦ hstep (World.changes_cancel cancelled m'.world) fun hactive ↦ ?_)
    (fun m' at' ↦ hstep (changes_refuse at' m') fun hactive ↦ ?_)
    (fun m' view ↦ hstep (changes_dropView view m') fun hactive ↦ ?_) handle owned
    ⟨hgiven, .inl hother⟩
  · refine hserved.2.imp_right fun hnone hmem ↦ ?_
    simpa [hnone] using Registry.find?_isSome_of_mem_tickets hmem
  · by_cases hown : cancelled = other
    · refine .inr ?_
      have hregistry := World.registry_cancel (hown ▸ hactive) target
      rw [if_pos ⟨rfl, rfl⟩] at hregistry
      exact hregistry ▸ Registry.find?_remove_self ticket _
    · refine .inl ((World.marks_cancel (List.mem_singleton_self cancelled) m'.world other).elim
        (·.trans hactive) fun hmarked ↦ ?_)
      exact absurd (List.mem_singleton.mp hmarked.1).symm hown
  · exact .inl (by simpa using hactive)
  · refine .inl ?_
    rw [dropView, handles_release]
    exact hactive

end Request

end Machine

end LiveRecord.Flow
