import LiveRecord.Proofs.Flow.Lending

/-!
# No composition without news

The news of a view are gone through on many occasions: when an input fails, at the end of a tick,
once more when the view was disturbed at work, and when it is built. Only some of these find
something to compose. In the history of a view every call of the composer is about a value that was
loaded since the call before (`ViewNotice.Renewing`), because a value is due only where there is one
(`Situation.Novel`). So a view emits at most once for each loaded event of its inputs, and the
newest event of each input is a loaded one every time (`Machine.composes_only_news`). All of that
holds whatever raises.
-/

set_option autoImplicit false

namespace LiveRecord.Flow

variable {α β : Type}

/-! ### Histories in which every composition has its news -/

/-- What has become of the newest loaded value of a view: it is to be composed, it is being
composed, or neither. -/
inductive Novelty
  | due
  | lent
  | spent

namespace Novelty

/-- How many compositions are still to come. -/
def claims : Novelty → Nat
  | due | lent => 1
  | spent => 0

/-- A view with that many inputs as it is built. If it has none, there is something to compose. -/
def atFirst (inputs : Nat) : Novelty := if inputs = 0 then due else spent

theorem atFirst_ne_lent (inputs : Nat) : atFirst inputs ≠ lent := by
  unfold atFirst
  split <;> nofun

end Novelty

namespace ViewNotice

/-- The notice is neither about a loaded value nor about a composition. -/
def isIdle : ViewNotice α β → Bool
  | delivered _ event => !event.isLoaded
  | called _ | composed _ _ => false
  | heard _ _ => true

/-- The composer is called only with a value that has not been composed, and nothing is loaded while
it is at work. Its call can come to nothing, and so can a value that is due. -/
inductive Renewing (start : Novelty) : List (ViewNotice α β) → Novelty → Prop
  | start : Renewing start [] start
  | idle {past : List (ViewNotice α β)} {novelty : Novelty} (h : Renewing start past novelty)
      {notice : ViewNotice α β} (hidle : notice.isIdle) :
      Renewing start (past ++ [notice]) novelty
  | load {past : List (ViewNotice α β)} {novelty : Novelty} (h : Renewing start past novelty)
      (hlent : novelty ≠ .lent) {notice : ViewNotice α β} (hloads : notice.loads) :
      Renewing start (past ++ [notice]) .due
  | call {past : List (ViewNotice α β)} (h : Renewing start past .due) (inputs : List α) :
      Renewing start (past ++ [.called inputs]) .lent
  | compose {past : List (ViewNotice α β)} (h : Renewing start past .lent) (value : β)
      (waiting : List SourceError) : Renewing start (past ++ [.composed value waiting]) .spent
  | forget {past : List (ViewNotice α β)} {novelty : Novelty} (h : Renewing start past novelty) :
      Renewing start past .spent

/-- Since every value that came out of the composer a value was loaded. -/
def Renewed (history : List (ViewNotice α β)) : Prop :=
  ∀ first value waiting last, history = first ++ .composed value waiting :: last →
    last.any (·.loads)

/-- The composer was called, and there was neither a loaded value nor a composition since. -/
def Pending (history : List (ViewNotice α β)) : Prop :=
  ∃ before inputs since, history = before ++ .called inputs :: since ∧ since.all (·.isIdle)

/-- Every notice has the property together with the history before it. -/
def Throughout (property : List (ViewNotice α β) → ViewNotice α β → Prop)
    (history : List (ViewNotice α β)) : Prop :=
  ∀ first notice last, history = first ++ notice :: last → property first notice

variable {start novelty : Novelty} {past seen : List (ViewNotice α β)} {notice : ViewNotice α β}
  {property : List (ViewNotice α β) → ViewNotice α β → Prop}

/-! #### Cutting a history in front of a notice -/

theorem append_singleton_eq_iff {first last : List (ViewNotice α β)} {other : ViewNotice α β} :
    past ++ [notice] = first ++ other :: last ↔
      (past = first ∧ notice = other ∧ last = []) ∨
        ∃ rest, last = rest ++ [notice] ∧ past = first ++ other :: rest := by
  constructor
  · intro h
    cases last using List.reverseRecOn with
    | nil =>
      obtain ⟨rfl, hnotice⟩ := List.append_inj' h rfl
      exact .inl ⟨rfl, (List.cons.inj hnotice).1, rfl⟩
    | append_singleton rest final =>
      rw [← List.cons_append, ← List.append_assoc] at h
      obtain ⟨rfl, hfinal⟩ := List.append_inj' h rfl
      obtain rfl := (List.cons.inj hfinal).1
      exact .inr ⟨rest, rfl, rfl⟩
  · rintro (⟨rfl, rfl, rfl⟩ | ⟨rest, rfl, rfl⟩)
    · rfl
    · simp

theorem throughout_nil : Throughout property [] := by
  intro first notice last h
  simp at h

theorem Throughout.concat (h : Throughout property past) (hnotice : property past notice) :
    Throughout property (past ++ [notice]) := by
  intro first other last hcut
  obtain ⟨rfl, rfl, -⟩ | ⟨rest, -, hpast⟩ := append_singleton_eq_iff.mp hcut
  · exact hnotice
  · exact h first other rest hpast

theorem Throughout.append (h : Throughout property past)
    (hseen : ∀ notice ∈ seen, ∀ before, property before notice) :
    Throughout property (past ++ seen) := by
  induction seen using List.reverseRecOn with
  | nil => rwa [List.append_nil]
  | append_singleton seen notice ih =>
    rw [← List.append_assoc]
    refine (ih fun other hother ↦ hseen other (List.mem_append_left _ hother)).concat ?_
    exact hseen notice (by simp) _

/-! #### What follows for compositions -/

theorem compositions_of_isIdle (h : notice.isIdle) : compositions [notice] = [] := by
  cases notice with
  | composed value waiting => contradiction
  | _ => rfl

theorem compositions_of_loads (h : notice.loads) : compositions [notice] = [] := by
  cases notice with
  | composed value waiting => contradiction
  | _ => rfl

theorem Renewed.concat (h : Renewed past) (hnotice : compositions [notice] = []) :
    Renewed (past ++ [notice]) := by
  intro first value waiting last hcut
  obtain ⟨rfl, rfl, -⟩ | ⟨rest, rfl, hpast⟩ := append_singleton_eq_iff.mp hcut
  · contradiction
  · rw [List.any_append, h first value waiting rest hpast, Bool.true_or]

theorem renewed_of_loads (h : notice.loads) : Renewed (past ++ [notice]) := by
  intro first value waiting last hcut
  obtain ⟨rfl, rfl, -⟩ | ⟨rest, rfl, hpast⟩ := append_singleton_eq_iff.mp hcut
  · contradiction
  · rw [List.any_append, List.any_cons, h, Bool.true_or, Bool.or_true]

namespace Renewing

theorem append_idle (h : Renewing start past novelty) (hseen : ∀ notice ∈ seen, notice.isIdle) :
    Renewing start (past ++ seen) novelty := by
  induction seen using List.reverseRecOn with
  | nil => rwa [List.append_nil]
  | append_singleton seen notice ih =>
    rw [← List.append_assoc]
    exact (ih fun other hother ↦ hseen other (List.mem_append_left _ hother)).idle
      (hseen notice (by simp))

/-- The compositions that there were and that are still to come are no more than the loaded values
and what there was at the start. -/
theorem length_compositions_le (h : Renewing start past novelty) :
    (compositions past).length + novelty.claims ≤ past.countP (·.loads) + start.claims := by
  induction h with
  | start => exact Nat.le_refl _
  | idle h hidle ih =>
    rw [compositions_append, compositions_of_isIdle hidle, List.append_nil, List.countP_append]
    omega
  | load h hlent hloads ih =>
    have hclaims : Novelty.due.claims = 1 := rfl
    rw [compositions_append, compositions_of_loads hloads, List.append_nil, List.countP_append,
      List.countP_singleton, if_pos hloads]
    omega
  | @call past h inputs ih =>
    have hnone : compositions ([.called inputs] : List (ViewNotice α β)) = [] := rfl
    rw [compositions_append, hnone, List.append_nil, List.countP_append]
    exact ih
  | compose h value waiting ih =>
    rw [compositions_append, List.length_append, List.countP_append]
    exact ih
  | forget h ih => exact (Nat.le_add_right _ _).trans ih

/-- Where a value is due or being composed, it was loaded after the last composition. -/
theorem renewed (h : Renewing start past novelty) (hnovelty : novelty ≠ .spent) :
    Renewed past := by
  induction h with
  | start => exact fun first value waiting last hcut ↦ by simp at hcut
  | idle h hidle ih => exact (ih hnovelty).concat (compositions_of_isIdle hidle)
  | load h hlent hloads ih => exact renewed_of_loads hloads
  | call h inputs ih => exact (ih nofun).concat rfl
  | compose | forget => exact absurd rfl hnovelty

theorem pending (h : Renewing start past .lent) (hstart : start ≠ .lent) : Pending past := by
  generalize hnovelty : Novelty.lent = novelty at h
  induction h with
  | start => exact absurd hnovelty.symm hstart
  | @idle past novelty h notice hidle ih =>
    obtain ⟨before, inputs, since, rfl, hsince⟩ := ih hnovelty
    refine ⟨before, inputs, since ++ [notice], by simp, ?_⟩
    rw [List.all_append, hsince, List.all_cons, hidle]
    rfl
  | @call past h inputs ih => exact ⟨past, inputs, [], rfl, rfl⟩
  | load | compose | forget => contradiction

/-- When a value comes out of the composer, one was loaded since the last time, and the composer was
called with it. -/
theorem composed (h : Renewing start past novelty) (hstart : start ≠ .lent) :
    Throughout (fun before notice ↦ compositions [notice] ≠ [] → Renewed before ∧ Pending before)
      past := by
  induction h with
  | start => exact throughout_nil
  | idle h hidle ih => exact ih.concat fun hne ↦ absurd (compositions_of_isIdle hidle) hne
  | load h hlent hloads ih => exact ih.concat fun hne ↦ absurd (compositions_of_loads hloads) hne
  | call h inputs ih => exact ih.concat fun hne ↦ absurd rfl hne
  | compose h value waiting ih => exact ih.concat fun _ ↦ ⟨h.renewed nofun, h.pending hstart⟩
  | forget h ih => exact ih

end Renewing

end ViewNotice

/-! ### What every act keeps -/

namespace Situation

open ViewNotice (newest Throughout)

variable {s s' : Situation α β} {past seen : List (ViewNotice α β)} {slot : Nat} {event : Event α}

/-- What has become of the newest loaded value of the view. -/
def novelty (s : Situation α β) : Novelty :=
  if s.view.lent then .lent else if s.view.isDue then .due else .spent

/-- What is seen of a view with that many inputs: events for these inputs only, and a call of the
composer only when the newest event of each of them is a loaded one. -/
def Fits (inputs : Nat) (before : List (ViewNotice α β)) : ViewNotice α β → Prop
  | .delivered slot _ => slot < inputs
  | .called _ => ∀ slot < inputs, (newest slot before).isLoaded
  | _ => True

/-- Every composition of the view had its news, and the view knows which of its inputs are loaded.
-/
structure Novel (s : Situation α β) (past : List (ViewNotice α β)) : Prop where
  lent : s.view.lent → s.view.stale = false
  renewing : ViewNotice.Renewing (.atFirst s.view.slots.length) past s.novelty
  loaded : ∀ (k : Nat) (slot : Slot α), s.view.slots[k]? = some slot → slot.status = .loaded →
    (newest k past).isLoaded
  fits : Throughout (Fits s.view.slots.length) past
  emissions : s.view.emissions = (ViewNotice.compositions past).length

/-- There is as much to compose for the view as before, and it composed nothing. -/
structure Abides (s s' : Situation α β) : Prop where
  statuses : s'.view.slots.map (·.status) = s.view.slots.map (·.status)
  stale : s'.view.stale = s.view.stale
  lent : s'.view.lent = s.view.lent
  emissions : s'.view.emissions = s.view.emissions

namespace Abides

theorem length_slots (h : s.Abides s') : s'.view.slots.length = s.view.slots.length := by
  simpa using congrArg List.length h.statuses

theorem novelty (h : s.Abides s') : s'.novelty = s.novelty := by
  have hdue : s'.view.isDue = s.view.isDue := by
    rw [View.isDue, View.isDue, h.stale, View.allLoaded_eq, View.allLoaded_eq, h.statuses]
  rw [Situation.novelty, Situation.novelty, h.lent, hdue]

end Abides

theorem TakesOn.abides (h : s.TakesOn s') : s.Abides s' := by
  obtain ⟨failures, scheduled, composing, dirty, tasks, jobs, -, rfl⟩ := h
  exact ⟨rfl, rfl, rfl, rfl⟩

theorem newest_append {k : Nat} (h : ViewNotice.deliveries k seen = []) :
    newest k (past ++ seen) = newest k past := by
  rw [newest, ViewNotice.deliveries_append, h, List.append_nil]
  rfl

/-- If nothing was delivered to a view and it composed nothing, only calls of listeners are seen. -/
theorem exists_heard_of_quiet (h : ViewNotice.Quiet seen) {notice : ViewNotice α β}
    (hmem : notice ∈ seen) : ∃ ticket event, notice = .heard ticket event := by
  have hnone {γ : Type} {f : ViewNotice α β → Option γ} (hseen : seen.filterMap f = []) :
      f notice = none :=
    List.filterMap_eq_nil_iff.mp hseen notice hmem
  cases notice with
  | delivered slot event => simpa using hnone (h.deliveries slot)
  | called inputs => simpa using hnone h.calls
  | composed value waiting => simpa using hnone h.compositions
  | heard ticket event => exact ⟨ticket, event, rfl⟩

theorem Novel.abide (h : s.Novel past) (habides : s.Abides s') (hquiet : ViewNotice.Quiet seen) :
    s'.Novel (past ++ seen) := by
  constructor
  case lent =>
    rw [habides.lent, habides.stale]
    exact h.lent
  case renewing =>
    rw [habides.novelty, habides.length_slots]
    refine h.renewing.append_idle fun notice hmem ↦ ?_
    obtain ⟨ticket, event, rfl⟩ := exists_heard_of_quiet hquiet hmem
    rfl
  case loaded =>
    intro k slot hslot hloaded
    have hstatus : (s.view.slots.map (·.status))[k]? = some .loaded := by
      rw [← habides.statuses, List.getElem?_map, hslot, Option.map_some, hloaded]
    rw [List.getElem?_map, Option.map_eq_some_iff] at hstatus
    obtain ⟨before, hbefore, hstatus⟩ := hstatus
    rw [newest_append (hquiet.deliveries k)]
    exact h.loaded k before hbefore hstatus
  case fits =>
    rw [habides.length_slots]
    refine h.fits.append fun notice hmem before ↦ ?_
    obtain ⟨ticket, event, rfl⟩ := exists_heard_of_quiet hquiet hmem
    trivial
  case emissions =>
    rw [habides.emissions, ViewNotice.compositions_append, hquiet.compositions, List.append_nil]
    exact h.emissions

theorem Novel.abide_unseen (h : s.Novel past) (habides : s.Abides s') : s'.Novel past := by
  have hnovel := h.abide habides .nil
  rwa [List.append_nil] at hnovel

/-- Assumes: the view is not disposed of, has the input, and its values may change. -/
theorem Novel.renewing_absorb (h : s.Novel past) (hdisposed : s.view.disposed = false)
    (hslot : slot < s.view.slots.length) (hlent : (s.view.lent && event.isLoaded) = false) :
    ViewNotice.Renewing (.atFirst s.view.slots.length) (past ++ [.delivered slot event])
      (s.modify (.absorb slot event)).novelty := by
  rw [novelty, modify, View.lent_absorb]
  cases hloaded : event.isLoaded with
  | true =>
    have hfree : s.view.lent = false := by simpa [hloaded] using hlent
    have hnovelty : s.novelty ≠ .lent := by
      rw [novelty, hfree]
      cases s.view.isDue <;> simp
    have hload : ViewNotice.Renewing (.atFirst s.view.slots.length)
        (past ++ [.delivered slot event]) .due := h.renewing.load hnovelty hloaded
    rw [hfree]
    cases (s.view.absorb slot event).isDue with
    | true => exact hload
    | false => exact hload.forget
  | false =>
    have hnone : (s.view.absorb slot event).isDue = false := by
      rw [View.isDue, View.allLoaded, View.slots_absorb hdisposed,
        View.all_modify_hear hslot hloaded, Bool.and_false]
    have hidle : ViewNotice.Renewing (.atFirst s.view.slots.length)
        (past ++ [.delivered slot event]) s.novelty :=
      h.renewing.idle (by rw [ViewNotice.isIdle, hloaded]; rfl)
    rw [hnone]
    cases hbusy : s.view.lent with
    | true =>
      rw [novelty, hbusy] at hidle
      exact hidle
    | false => exact hidle.forget

/-- Assumes: the view is not disposed of, has the input, and its values may change. -/
theorem Novel.absorb (h : s.Novel past) (hdisposed : s.view.disposed = false)
    (hslot : slot < s.view.slots.length) (hlent : (s.view.lent && event.isLoaded) = false) :
    (s.modify (.absorb slot event)).Novel (past ++ [.delivered slot event]) := by
  have hslots : (s.view.absorb slot event).slots = s.view.slots.modify slot (·.hear event) :=
    View.slots_absorb hdisposed
  have hnone : ViewNotice.compositions ([.delivered slot event] : List (ViewNotice α β)) = [] := rfl
  constructor
  case lent =>
    intro hlent'
    rw [modify, View.lent_absorb] at hlent'
    cases event with
    | loaded value => simp [hlent', Event.isLoaded, Event.value?] at hlent
    | pending =>
      simp only [modify, View.absorb_pending hdisposed]
      exact h.lent hlent'
    | failed error =>
      simp only [modify, View.absorb_failed error hdisposed]
      exact h.lent hlent'
  case renewing =>
    rw [modify, View.length_slots_absorb]
    exact h.renewing_absorb hdisposed hslot hlent
  case loaded =>
    intro k found hfound hloaded
    rw [ViewNotice.newest_concat_delivered]
    simp only [modify, hslots, List.getElem?_modify] at hfound
    obtain ⟨before, hbefore, rfl⟩ := Option.map_eq_some_iff.mp hfound
    by_cases hk : slot = k
    · rw [if_pos hk]
      simp only [if_pos hk] at hloaded
      cases event with
      | loaded value => rfl
      | _ => contradiction
    · rw [if_neg hk]
      simp only [if_neg hk] at hloaded
      exact h.loaded k before hbefore hloaded
  case fits =>
    simp only [modify, View.length_slots_absorb]
    exact h.fits.concat hslot
  case emissions =>
    rw [ViewNotice.compositions_append, hnone, List.append_nil, ← h.emissions]
    simp only [modify, View.absorb]
    cases event <;> dsimp only <;> split <;> rfl

theorem Novel.hearing (h : s.Novel past) (hheard : s.Hearing slot event seen s') :
    s'.Novel (past ++ seen) := by
  cases hheard with
  | deaf => exact h.abide ⟨rfl, rfl, rfl, rfl⟩ .nil
  | heard inTick hslot hlive hlent =>
    unfold Situation.hear
    by_cases hdisposed : s.view.disposed
    · obtain ⟨slots, -, habsorbed⟩ := View.absorb_of_disposed slot event hdisposed
      have hstatuses := @View.map_status_absorb α β s.view slot event hdisposed
      rw [if_pos hdisposed, if_pos hdisposed]
      refine h.abide ⟨hstatuses, ?_, ?_, ?_⟩ .nil <;> simp only [modify, habsorbed]
    · rw [if_neg hdisposed, if_neg hdisposed]
      rw [Bool.not_eq_true] at hdisposed
      have habsorbed := h.absorb hdisposed hslot hlent
      cases event with
      | pending => exact habsorbed
      | loaded value => exact habsorbed.abide_unseen (takesOn_requestCompose inTick _).abides
      | failed error => exact habsorbed.abide_unseen (takesOn_flush _).abides

/-- The composer is called. Assumes: a value is due, and no callback is composing. -/
theorem Novel.call (h : s.Novel past) (hdue : s.view.isDue) (hlent : s.view.lent = false)
    (inputs : List α) :
    (s.modify fun v ↦ { v with stale := false, lent := true }).Novel
      (past ++ [.called inputs]) := by
  have hloaded : ∀ slot < s.view.slots.length, (newest slot past).isLoaded := by
    intro slot hslot
    refine h.loaded slot _ (List.getElem?_eq_getElem hslot) ?_
    have hall := (Bool.and_eq_true_iff.mp hdue).2
    simpa using List.all_eq_true.mp hall _ (List.getElem_mem hslot)
  constructor
  case lent => exact fun _ ↦ rfl
  case renewing =>
    have hrenewing := h.renewing
    rw [novelty, hlent, hdue] at hrenewing
    exact hrenewing.call inputs
  case loaded =>
    intro k slot hslot hstatus
    rw [newest_append rfl]
    exact h.loaded k slot hslot hstatus
  case fits => exact h.fits.concat hloaded
  case emissions =>
    rw [ViewNotice.compositions_append]
    exact h.emissions.trans (congrArg List.length (List.append_nil _).symm)

/-- A value comes out of the composer. -/
theorem Novel.answer (h : s.Novel past) (hlent : s.view.lent) (value : β)
    (waiting : List SourceError) :
    ((s.modify fun v ↦ { v with lent := false }).becomeReady value).Novel
      (past ++ [.composed value waiting]) := by
  constructor
  case lent => exact fun hnone ↦ absurd hnone Bool.false_ne_true
  case renewing =>
    have hspent : Situation.novelty
        ((s.modify fun v ↦ { v with lent := false }).becomeReady value) = .spent := by
      simp [novelty, Situation.becomeReady, push, modify, View.becomeReady, View.isDue,
        h.lent hlent]
    have hrenewing := h.renewing
    rw [novelty, hlent] at hrenewing
    rw [hspent]
    exact hrenewing.compose value waiting
  case loaded =>
    intro k slot hslot hstatus
    rw [newest_append rfl]
    exact h.loaded k slot hslot hstatus
  case fits => exact h.fits.concat trivial
  case emissions =>
    rw [ViewNotice.compositions_append, List.length_append, ← h.emissions]
    rfl

/-- Nothing is due any more, though nothing came of it. Assumes: nothing is lent. -/
theorem Novel.forget (h : s.Novel past) (hlent : s'.view.lent = false)
    (hstale : s'.view.stale = false) (hslots : s'.view.slots = s.view.slots)
    (hemissions : s'.view.emissions = s.view.emissions) : s'.Novel past := by
  constructor
  case lent => exact fun _ ↦ hstale
  case renewing =>
    have hspent : s'.novelty = .spent := by
      simp [novelty, View.isDue, hlent, hstale]
    rw [hspent, hslots]
    exact h.renewing.forget
  case loaded =>
    rw [hslots]
    exact h.loaded
  case fits =>
    rw [hslots]
    exact h.fits
  case emissions => exact hemissions.trans h.emissions

/-- Assumes: nothing is lent. -/
theorem Novel.composeIfDue (h : s.Novel past) (hlent : s.view.lent = false) :
    s.composeIfDue.Novel (past ++ s.composeNotices) := by
  unfold Situation.composeIfDue composeNotices
  by_cases hdue : s.view.isDue
  · have hcached : (s.modify fun v ↦ { v with stale := false }).view.cachedValues? =
        s.view.cachedValues? := rfl
    have hcomposer : (s.modify fun v ↦ { v with stale := false }).view.composer =
        s.view.composer := rfl
    rw [if_pos hdue, if_pos hdue]
    simp only [hcached, hcomposer]
    cases s.view.cachedValues? with
    | none =>
      have hfresh : (s.modify fun v ↦ { v with stale := false }).Novel past :=
        h.forget hlent rfl rfl rfl
      rw [List.append_nil]
      exact hfresh.abide_unseen (takesOn_settle _).abides
    | some inputs =>
      have hcalled := h.call hdue hlent inputs
      cases s.view.composer with
      | direct compose =>
        have hready := hcalled.answer rfl (compose inputs) s.view.failures
        rw [List.append_assoc] at hready
        exact hready.abide_unseen ⟨rfl, rfl, hlent, rfl⟩
      | callback key => exact hcalled.abide_unseen ⟨rfl, rfl, rfl, rfl⟩
  · rw [if_neg hdue, if_neg hdue, List.append_nil]
    exact h.abide_unseen (takesOn_settle s).abides

/-! #### Every act -/

/-- Assumes: a task on top that goes through the news and waits for no callback. -/
theorem Lends.free {task : Task α β} {tasks : List (Task α β)} (h : s.Lends)
    (htasks : s.tasks = task :: tasks) (hworks : task.works) (hcomposing : task ≠ .composing) :
    s.view.lent = false := by
  rw [← Bool.toNat_eq_zero, ← h.composers, ← (LentAlike.pop htasks hcomposing).composers]
  exact h.composers_below htasks hworks

theorem Lends.lent_of_composing {tasks : List (Task α β)} (h : s.Lends)
    (htasks : s.tasks = .composing :: tasks) : s.view.lent := by
  have hsome : 0 < Task.composers s.tasks := List.countP_pos_iff.mpr ⟨.composing, by simp [htasks]⟩
  rw [h.composers] at hsome
  cases hlent : s.view.lent with
  | true => rfl
  | false => simp [hlent] at hsome

theorem Novel.step (h : s.Novel past) (hlends : s.Lends) (hstep : s.Step seen s') :
    s'.Novel (past ++ seen) := by
  cases hstep with
  | keep hkept =>
    obtain ⟨gone, inputs, owned, live, -, rfl⟩ := hkept
    exact h.abide ⟨rfl, rfl, rfl, rfl⟩ .nil
  | register key => exact h.abide ⟨rfl, rfl, rfl, rfl⟩ (.heard _ id _)
  | dispose | skip hjobs hlive | fail htasks | announced htasks =>
    exact h.abide ⟨rfl, rfl, rfl, rfl⟩ .nil
  | announce htasks => exact h.abide ⟨rfl, rfl, rfl, rfl⟩ (.heard _ (fun _ ↦ _) _)
  | hear slot event hheard => exact h.hearing hheard
  | @connect input inputs tasks htasks registered event _ _ hheard =>
    have hrest : Novel ({ s with tasks := .connecting inputs :: tasks }.modify fun v ↦
        { v with inputs := registered }) past := h.abide_unseen ⟨rfl, rfl, rfl, rfl⟩
    exact hrest.hearing hheard
  | @connected inTick tasks htasks =>
    have hrest : Novel { s with tasks } past := h.abide_unseen ⟨rfl, rfl, rfl, rfl⟩
    exact hrest.abide (takesOn_requestCompose inTick _).abides .nil
  | @run jobs hjobs hlive =>
    have hrest : Novel ({ s with jobs }.modify fun v ↦ { v with scheduled := false }) past :=
      h.abide_unseen ⟨rfl, rfl, rfl, rfl⟩
    exact hrest.abide (takesOn_flush _).abides .nil
  | @compose tasks htasks =>
    have hrest : Novel { s with tasks } past := h.abide_unseen ⟨rfl, rfl, rfl, rfl⟩
    exact hrest.composeIfDue (hlends.free htasks rfl nofun)
  | @composed tasks htasks value =>
    have hrest : Novel { s with tasks } past := h.abide_unseen ⟨rfl, rfl, rfl, rfl⟩
    exact hrest.answer (hlends.lent_of_composing htasks) value s.view.failures
  | @settle tasks htasks =>
    have hrest : Novel { s with tasks } past := h.abide_unseen ⟨rfl, rfl, rfl, rfl⟩
    exact hrest.abide (takesOn_settle _).abides .nil

theorem Novel.act {spared : Prop} (h : s.Novel past) (hlends : s.Lends)
    (hact : s.Act spared seen s') : s'.Novel (past ++ seen) := by
  cases hact with
  | step hstep => exact h.step hlends hstep
  | shed hshed =>
    rw [List.append_nil]
    cases hshed with
    | giveUp htasks hcomposing hspared => exact h.abide_unseen ⟨rfl, rfl, rfl, rfl⟩
    | takeBack htasks hspared =>
      exact h.forget rfl (h.lent (hlends.lent_of_composing htasks)) rfl rfl
    | unschedule hjobs hdropped => exact h.abide_unseen ⟨rfl, rfl, rfl, rfl⟩

theorem Fresh.novel (h : s.Fresh) : s.Novel [] := by
  obtain ⟨label, composer, count, inputs, hview, htasks⟩ := h
  constructor
  case lent => simp [hview]
  case renewing =>
    have hnovelty : s.novelty = .atFirst s.view.slots.length := by
      cases count <;> simp [novelty, hview, View.isDue, View.allLoaded, Novelty.atFirst]
    rw [hnovelty]
    exact .start
  case loaded =>
    intro k slot hslot hloaded
    rw [hview] at hslot
    rw [List.eq_of_mem_replicate (List.mem_of_getElem? hslot)] at hloaded
    contradiction
  case fits => exact ViewNotice.throughout_nil
  case emissions => rw [hview]; rfl

end Situation

namespace Machine

variable {view : ViewId} {v : View α β}

/-- What holds of a view after every run, whatever raises. -/
theorem novel_run (moves : List (Move α β)) {s : Situation α β}
    (h : (run moves {}).situation view = some s) :
    s.Novel (historyOf view (history moves {})) := by
  have hfresh (s : Situation α β) (hs : s.Fresh) : s.Lends ∧ s.Novel [] := ⟨hs.lends, hs.novel⟩
  have hact (s : Situation α β) (past seen : List (ViewNotice α β)) (s' : Situation α β)
      (hs : s.Lends ∧ s.Novel past) (hact : s.Act False seen s') :
      s'.Lends ∧ s'.Novel (past ++ seen) :=
    ⟨hs.1.act hact, hs.2.act hs.1 hact⟩
  exact (turns_invariant (fun _ move hg _ ↦ ⟨hg.move move, acts_move move hg False.elim⟩) hact
    hfresh .start ⟨rfl, rfl⟩ (along_of_forall (fun _ _ ↦ trivial) moves {}) h).2

open ViewNotice in
/-- Between any two values that come out of the composer of a view, one of its inputs is given a
loaded event, so the view emits at most as often as that happens, and at most once if it has no
inputs. Whenever the composer is called, the newest event of each input is a loaded one, and a value
comes out of it only for the last call, with nothing loaded meanwhile. All of that holds whatever
raises. -/
theorem composes_only_news (moves : List (Move α β))
    (hview : (run moves {}).world.views[view]? = some v) :
    (∀ first value waiting between value' waiting' last,
      historyOf view (history moves {}) =
        first ++ .composed value waiting :: between ++ .composed value' waiting' :: last →
      between.any (·.loads)) ∧
    v.emissions = (compositions (historyOf view (history moves {}))).length ∧
    (v.slots ≠ [] → v.emissions ≤ (historyOf view (history moves {})).countP (·.loads)) ∧
    (v.slots = [] → v.emissions ≤ 1) ∧
    (∀ first inputs last, historyOf view (history moves {}) = first ++ .called inputs :: last →
      ∀ slot < v.slots.length, (newest slot first).isLoaded) ∧
    ∀ first value waiting last,
      historyOf view (history moves {}) = first ++ .composed value waiting :: last →
      ∃ before inputs since, first = before ++ .called inputs :: since ∧
        since.all (·.isIdle) := by
  have hnovel := novel_run moves (situation_of_view hview)
  generalize historyOf view (history moves {}) = past at hnovel
  have hcomposed := hnovel.renewing.composed (Novelty.atFirst_ne_lent _)
  have hcount := hnovel.renewing.length_compositions_le
  rw [← hnovel.emissions] at hcount
  refine ⟨?_, hnovel.emissions, fun hinputs ↦ ?_, fun hnone ↦ ?_, ?_, ?_⟩
  · intro first value waiting between value' waiting' last hpast
    exact (hcomposed _ _ last hpast nofun).1 first value waiting between rfl
  · rw [Novelty.atFirst, if_neg (by simpa using hinputs)] at hcount
    exact (Nat.le_add_right _ _).trans hcount
  · have hloads : past.countP (·.loads) = 0 := by
      refine List.countP_eq_zero.mpr fun notice hmem hloads ↦ ?_
      obtain ⟨first, last, hpast⟩ := List.append_of_mem hmem
      cases notice with
      | delivered slot event =>
        have hslot : slot < v.slots.length := hnovel.fits first _ last hpast
        simp [hnone] at hslot
      | _ => contradiction
    rw [hloads, hnone] at hcount
    exact (Nat.le_add_right _ _).trans hcount
  · exact fun first inputs last hpast ↦ hnovel.fits first _ last hpast
  · exact fun first value waiting last hpast ↦ (hcomposed first _ last hpast nofun).2

/-- A tick is abandoned in which the first input was given a value. It fails and is given another
one, which is composed, and so is the next one of the second input. -/
def loadedOnceMore : List (Move Nat Nat) :=
  Move.script 16 [.newSource "a", .newSource "b", .build [0, 1] (.direct List.sum),
    .emit 1 (.loaded 10), .enterTick, .emit 0 (.loaded 1), .abandonTick,
    .emit 0 (.failed ⟨"a", "lost"⟩), .emit 0 (.loaded 2), .emit 1 (.loaded 20)]

theorem composes_loadedOnceMore :
    ∃ v, (run loadedOnceMore {}).world.views[0]? = some v ∧ v.emissions = 2 ∧
      v.emissions ≤ (historyOf 0 (history loadedOnceMore {})).countP (·.loads) := by
  have hview : (run loadedOnceMore {}).world.views[0]? = some
      { label := "a+b", composer := .direct List.sum, inputs := [(0, 0), (1, 0)],
        slots := [{ status := .loaded, cached := some 2 }, { status := .loaded, cached := some 20 }],
        status := .ready 22, stale := false, emissions := 2, owned := true } := by cbv
  obtain ⟨-, -, hloads, -⟩ := composes_only_news loadedOnceMore hview
  exact ⟨_, hview, rfl, hloads (List.cons_ne_nil _ _)⟩

end Machine

end LiveRecord.Flow
