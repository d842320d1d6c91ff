import LiveRecord.Proofs.Flow.Advance

/-!
# Composing callbacks answer the frames below them

A frame that waits for a composing callback is always right below that callback, or on top when the
value is on the way (`Machine.composersAttended_move`).
-/

set_option autoImplicit false

namespace LiveRecord.Flow

variable {α β : Type}

/-! ### Composing callbacks at work -/

/-- Every frame that waits for a composing callback is right below that callback. -/
inductive Attended : List (Frame α β) → Prop
  | nil : Attended []
  | cons {frame : Frame α β} {stack : List (Frame α β)} (hframe : ∀ view, frame ≠ .composing view)
      (hstack : Attended stack) : Attended (frame :: stack)
  | call {key : Nat} {inputs : List α} {view : ViewId} {stack : List (Frame α β)}
      (hstack : Attended stack) :
      Attended (.calling (.compose key inputs) none :: .composing view :: stack)

/-- What the operations of the core put on the stack for a view. -/
inductive WorkFrames (view : ViewId) : List (Frame α β) → Prop
  | none : WorkFrames view []
  | failing (errors : List SourceError) : WorkFrames view [.failing view errors]
  | ready (event : ViewEvent β) (tickets : List Nat) :
      WorkFrames view [.announcing view event tickets, .settling view]
  | call (key : Nat) (inputs : List α) :
      WorkFrames view [.calling (.compose key inputs) none, .composing view]

theorem Attended.append {view : ViewId} {new stack : List (Frame α β)} (hnew : WorkFrames view new)
    (hstack : Attended stack) : Attended (new ++ stack) := by
  cases hnew with
  | none => exact hstack
  | failing errors => exact .cons (by simp) hstack
  | ready event tickets => exact .cons (by simp) (.cons (by simp) hstack)
  | call key inputs => exact .call hstack

/-- Assumes: a frame on top that is no callback of a composer. -/
theorem Attended.tail {frame : Frame α β} {stack : List (Frame α β)}
    (hframe : ∀ key inputs, frame ≠ .calling (.compose key inputs) none)
    (h : Attended (frame :: stack)) : Attended stack := by
  cases h with
  | cons _ hstack => exact hstack
  | call hstack => exact absurd rfl (hframe _ _)

namespace Machine

variable {m : Machine α β} {view : ViewId}

/-- The stack is as before, or the news of the view has been taken up on top of it. -/
def TakesUp (view : ViewId) (m m' : Machine α β) : Prop :=
  m'.stack = m.stack ∨ ∃ errors, m'.stack = .failing view errors :: m.stack

theorem TakesUp.work {m' : Machine α β} (h : m.TakesUp view m') :
    ∃ new, WorkFrames view new ∧ m'.stack = new ++ m.stack := by
  rcases h with hsame | ⟨errors, hfailing⟩
  · exact ⟨[], .none, hsame⟩
  · exact ⟨_, .failing errors, hfailing⟩

theorem takesUp_workOff (view : ViewId) (m : Machine α β) : m.TakesUp view (m.workOff view) := by
  unfold workOff
  split
  · exact .inl rfl
  · split
    · exact .inl rfl
    · exact .inr ⟨_, rfl⟩

theorem takesUp_flush (view : ViewId) (m : Machine α β) : m.TakesUp view (m.flush view) := by
  unfold flush
  split
  · exact .inl rfl
  · split
    · exact .inl rfl
    · exact takesUp_workOff view _

theorem takesUp_settle (view : ViewId) (m : Machine α β) : m.TakesUp view (m.settle view) := by
  unfold settle
  split
  · exact .inl rfl
  · split
    · exact takesUp_workOff view m
    · exact .inl rfl

theorem takesUp_requestCompose (view : ViewId) (m : Machine α β) :
    m.TakesUp view (m.requestCompose view) := by
  unfold requestCompose
  split
  · exact .inl rfl
  · split
    · exact takesUp_flush view m
    · split <;> exact .inl rfl

theorem flush_stack (view : ViewId) (m : Machine α β) :
    ∃ new, WorkFrames view new ∧ (m.flush view).stack = new ++ m.stack :=
  (takesUp_flush view m).work

theorem settle_stack (view : ViewId) (m : Machine α β) :
    ∃ new, WorkFrames view new ∧ (m.settle view).stack = new ++ m.stack :=
  (takesUp_settle view m).work

theorem requestCompose_stack (view : ViewId) (m : Machine α β) :
    ∃ new, WorkFrames view new ∧ (m.requestCompose view).stack = new ++ m.stack :=
  (takesUp_requestCompose view m).work

theorem composeIfDue_stack (view : ViewId) (m : Machine α β) :
    ∃ new, WorkFrames view new ∧ (m.composeIfDue view).stack = new ++ m.stack := by
  unfold composeIfDue
  split
  · exact ⟨[], .none, rfl⟩
  · split
    · split
      · exact settle_stack view _
      · exact ⟨_, .ready _ _, rfl⟩
      · exact ⟨_, .call _ _, rfl⟩
    · exact settle_stack view m

theorem hear_stack (view : ViewId) (slot : Nat) (event : Event α) (m : Machine α β) :
    (m.hear view slot event).stack = m.stack ∨
      ∃ new, WorkFrames view new ∧
        (m.hear view slot event).stack = new ++ .holding view :: m.stack := by
  have hhears := m.hears view slot event
  generalize m.hear view slot event = m' at hhears ⊢
  cases hhears with
  | deaf => exact .inl rfl
  | lent | quiet => exact .inr ⟨[], .none, rfl⟩
  | loaded => exact .inr (requestCompose_stack view _)
  | failed => exact .inr (flush_stack view _)

/-! ### Every composing callback answers the frame below it -/

/-- A value is on the way to the frame on top, or the core gives that frame up. -/
def bringsValue (m : Machine α β) : Bool :=
  match m.control with
  | .returning (.composed _) => true
  | .unwinding _ => true
  | _ => false

/-- A frame that waits for a composing callback is right below that callback, or is on top and gets
its value next. -/
def ComposersAttended (m : Machine α β) : Prop :=
  Attended m.stack ∨
    ∃ view stack, m.stack = .composing view :: stack ∧ Attended stack ∧ m.bringsValue

namespace ComposersAttended

variable {m' : Machine α β}

theorem start : ComposersAttended ({} : Machine α β) := .inl .nil

/-- Assumes: no value is on the way. -/
theorem attended (h : m.ComposersAttended) (hvalue : m.bringsValue = false) : Attended m.stack := by
  rcases h with h | ⟨_, _, _, _, hbrings⟩
  · exact h
  · rw [hvalue] at hbrings
    contradiction

/-- Assumes: a frame on top that does not wait for a composing callback. -/
theorem attended_of_cons {frame : Frame α β} {stack : List (Frame α β)} (h : m.ComposersAttended)
    (hstack : m.stack = frame :: stack) (hframe : ∀ view, frame ≠ .composing view) :
    Attended m.stack := by
  rcases h with h | ⟨view, _, hcomposing, _⟩
  · exact h
  · rw [hstack] at hcomposing
    exact absurd (List.cons.inj hcomposing).1 (hframe view)

/-- What is left when the frame on top goes. Assumes: it is no callback of a composer. -/
theorem tail {frame : Frame α β} {stack : List (Frame α β)} (h : m.ComposersAttended)
    (hstack : m.stack = frame :: stack)
    (hframe : ∀ key inputs, frame ≠ .calling (.compose key inputs) none) : Attended stack := by
  rcases h with h | ⟨_, _, hcomposing, h, _⟩
  · rw [hstack] at h
    exact h.tail hframe
  · rw [hstack] at hcomposing
    obtain ⟨-, rfl⟩ := List.cons.inj hcomposing
    exact h

theorem of_work {stack : List (Frame α β)} (hstack : Attended stack)
    (h : ∃ new, WorkFrames view new ∧ m'.stack = new ++ stack) : m'.ComposersAttended := by
  obtain ⟨new, hnew, heq⟩ := h
  exact .inl (heq ▸ hstack.append hnew)

theorem of_stack {stack : List (Frame α β)} (hstack : Attended stack) (heq : m'.stack = stack) :
    m'.ComposersAttended :=
  .inl (heq ▸ hstack)

end ComposersAttended

theorem composersAttended_hear (view : ViewId) (slot : Nat) (event : Event α)
    (h : Attended m.stack) : (m.hear view slot event).ComposersAttended := by
  rcases hear_stack view slot event m with heq | ⟨new, hnew, heq⟩
  · exact .of_stack h heq
  · exact .of_work (.cons (by simp) h) ⟨new, hnew, heq⟩

theorem composersAttended_emit (source : SourceId) (event : Event α) (h : Attended m.stack) :
    (m.emit source event).ComposersAttended := by
  unfold emit
  split
  · exact .of_stack h rfl
  · split
    · exact .of_stack h rfl
    · exact .of_stack (.cons (by simp) (.cons (by simp) h)) rfl

theorem composersAttended_feed (feed : Feed α) (h : Attended m.stack) :
    (m.feed feed).ComposersAttended := by
  unfold Machine.feed
  split
  · exact .of_stack h rfl
  · exact composersAttended_emit _ _ (.cons (by simp) h)

theorem composersAttended_subscribe (target : Target) (key : Nat) (h : Attended m.stack) :
    (m.subscribe target key).ComposersAttended := by
  have hsubscribes := m.subscribes target key
  generalize m.subscribe target key = m' at hsubscribes ⊢
  cases hsubscribes with
  | unknown => exact .of_stack h rfl
  | silent => exact .of_stack (.cons (by simp) h) rfl
  | source | view => exact .of_stack (.cons (by simp) (.cons (by simp) h)) rfl

theorem composersAttended_build (sources : List SourceId) (composer : Composer α β)
    (h : Attended m.stack) : (m.build sources composer).ComposersAttended := by
  unfold build
  split
  · exact .of_stack h rfl
  · exact .of_stack (.cons (by simp) (.cons (by simp) (.cons (by simp) h))) rfl

theorem composersAttended_serve (request : Request α β) (h : Attended m.stack) :
    (m.serve request).ComposersAttended := by
  cases request with
  | newSource name => exact .of_stack h rfl
  | emit source event => exact composersAttended_emit source event h
  | build sources composer => exact composersAttended_build sources composer h
  | subscribe target key => exact composersAttended_subscribe target key h
  | cancel handle owned => exact .of_stack h (serve_cancel_stack handle owned m)
  | detach handle => exact .of_stack h rfl
  | dispose view => exact .of_stack h rfl
  | dropView view => exact .of_stack h (release_stack view _)
  | enterTick => exact .of_stack h rfl
  | leaveTick => exact .of_stack (.cons (by simp) h) rfl
  | abandonTick => exact .of_stack h rfl
  | poll feed => exact composersAttended_feed feed h
  | finish =>
    simp only [serve]
    split
    case h_1 hstack | h_2 hstack => exact .of_stack ((hstack ▸ h).tail (by simp)) rfl
    case h_3 => exact .of_stack h rfl
  | compose value =>
    simp only [serve]
    split
    case h_1 hstack =>
      rw [hstack] at h
      cases h with
      | cons _ hrest => exact .of_stack hrest rfl
      | call hrest => exact .inr ⟨_, _, rfl, hrest, rfl⟩
    case h_2 => exact .of_stack h rfl
  | raise message =>
    simp only [serve]
    split
    case h_1 hstack =>
      rw [hstack] at h
      cases h with
      | cons _ hrest => exact .of_stack hrest rfl
      | call hrest => exact .inr ⟨_, _, rfl, hrest, rfl⟩
    case h_2 => exact .of_stack h rfl

theorem composersAttended_connect (view : ViewId) (source : SourceId) (slot : Nat)
    (h : Attended m.stack) : (m.connect view source slot).ComposersAttended := by
  unfold connect
  split
  · exact .of_stack h rfl
  · exact composersAttended_hear _ _ _ h

theorem composersAttended_runDeferred (view : ViewId) (h : Attended m.stack) :
    (m.runDeferred view).ComposersAttended := by
  unfold runDeferred
  split
  · exact .of_stack h rfl
  · exact .of_work (.cons (by simp) h) (flush_stack view _)

theorem composersAttended_resume (answer : Answer α β) (h : m.ComposersAttended) :
    (m.resume answer).ComposersAttended := by
  have hresumes := m.resumes answer
  generalize m.resume answer = m' at hresumes ⊢
  cases hresumes with
  | rest hstack => exact .of_stack .nil hstack
  | calling hstack => exact .of_stack (h.attended_of_cons hstack (by simp)) rfl
  | drained hstack | delivered hstack | announced hstack | subscribed hstack | built hstack
  | fed hstack => exact .of_stack (h.tail hstack (by simp)) rfl
  | closing hstack | skipDelivery hstack | skipAnnouncement hstack =>
    exact .of_stack (.cons (by simp) (h.tail hstack (by simp))) rfl
  | callListener hstack | callViewer hstack | fail hstack =>
    exact .of_stack (.cons (by simp) (.cons (by simp) (h.tail hstack (by simp)))) rfl
  | drain hstack =>
    exact composersAttended_runDeferred _ (.cons (by simp) (h.tail hstack (by simp)))
  | hear hstack => exact composersAttended_hear _ _ _ (.cons (by simp) (h.tail hstack (by simp)))
  | compose hstack => exact .of_work (h.tail hstack (by simp)) (composeIfDue_stack _ _)
  | composed hstack => exact .of_work (h.tail hstack (by simp)) ⟨_, .ready _ _, rfl⟩
  | notComposed hstack | settle hstack =>
    exact .of_work (h.tail hstack (by simp)) (settle_stack _ _)
  | release hstack | subscribedView hstack =>
    exact .of_stack (h.tail hstack (by simp)) (release_stack _ _)
  | connect hstack =>
    exact composersAttended_connect _ _ _ (.cons (by simp) (h.tail hstack (by simp)))
  | connected hstack => exact .of_work (h.tail hstack (by simp)) (requestCompose_stack _ _)
  | feed hstack => exact composersAttended_feed _ (h.tail hstack (by simp))

theorem composersAttended_giveUp (message : String) (h : m.ComposersAttended) :
    (m.giveUp message).ComposersAttended := by
  have hgivesUp := m.givesUp message
  generalize m.giveUp message = m' at hgivesUp ⊢
  cases hgivesUp with
  | rest hstack => exact .of_stack .nil hstack
  | calling hstack => exact .of_stack (h.attended_of_cons hstack (by simp)) rfl
  | holding hstack | building hstack | subscribingView hstack =>
    exact .of_stack (h.tail hstack (by simp)) (release_stack _ _)
  | closing hstack | draining hstack | composing hstack | subscribing hstack =>
    exact .of_stack (h.tail hstack (by simp)) rfl
  | pop hstack hframe =>
    refine .of_stack (h.tail hstack ?_) rfl
    rintro key inputs rfl
    contradiction

theorem composersAttended_move (move : Move α β) (h : m.ComposersAttended) :
    (m.move move).ComposersAttended := by
  refine move_of move h (fun request _ huser ↦ composersAttended_serve request (h.attended ?_))
    (fun answer _ _ ↦ composersAttended_resume answer h)
    fun message _ _ ↦ composersAttended_giveUp message h
  obtain ⟨heard, hcontrol⟩ := exists_heard huser
  simp [bringsValue, hcontrol]

end Machine
end LiveRecord.Flow
