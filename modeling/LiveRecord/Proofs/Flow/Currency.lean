import LiveRecord.Proofs.Flow.Announcement
import LiveRecord.Proofs.Flow.Promptness

/-!
# Whether compositions are current

A view composes the values that its inputs were given last, which need not be the current ones: a
source that accepts an event in the middle of its own delivery gives an input that it has not
reached yet the later event first (`Machine.called_answeredAtOnce`). In a run in which callbacks
only emit, the values are the current ones exactly where no input is behind its source, and always
if the sources that feed the view are undisturbed (`Machine.called_current_iff`).
-/

set_option autoImplicit false

namespace LiveRecord.Flow

variable {α β : Type}

namespace Machine

variable {m : Machine α β} {view j : ViewId} {values : List α} {source : SourceId} {slot : Nat}
  {event : Event α}

/-! ### When a composer is called -/

theorem called_notMem_emitNotices : .ofView view (.called values) ∉ m.emitNotices source event := by
  unfold emitNotices
  split
  · simp
  · split <;> simp

theorem called_notMem_hearNotices : .ofView view (.called values) ∉ m.hearNotices j slot event := by
  unfold hearNotices
  split
  · simp
  · split <;> simp

theorem called_notMem_feedNotices {feed : Feed α} :
    .ofView view (.called values) ∉ m.feedNotices feed := by
  unfold feedNotices
  split
  · simp
  · exact called_notMem_emitNotices

theorem called_notMem_requestNotices {request : Request α β} :
    .ofView view (.called values) ∉ m.requestNotices request := by
  unfold requestNotices
  split
  · exact called_notMem_emitNotices
  · exact called_notMem_feedNotices
  · split <;> simp
  · simp

theorem exists_due_of_called (h : .ofView view (.called values) ∈ m.composeNotices j) :
    j = view ∧ ∃ v, m.world.views[view]? = some v ∧ v.isDue ∧ v.cachedValues? = some values := by
  unfold composeNotices at h
  split at h
  case h_1 => simp at h
  case h_2 v hview =>
    split at h
    case isFalse => simp at h
    case isTrue hdue =>
      have hcalled : ∀ inputs, v.cachedValues? = some inputs →
          (.ofView view (.called values) : Notice α β) = .ofView j (.called inputs) →
          j = view ∧ ∃ v, m.world.views[view]? = some v ∧ v.isDue ∧
            v.cachedValues? = some values := by
        intro inputs hinputs heq
        obtain ⟨rfl, hnotice⟩ := Notice.ofView.inj heq
        obtain rfl := ViewNotice.called.inj hnotice
        exact ⟨rfl, v, hview, hdue, hinputs⟩
      split at h
      case h_1 => simp at h
      case h_2 inputs compose hinputs hcomposer =>
        rcases List.mem_cons.mp h with heq | hrest
        · exact hcalled inputs hinputs heq
        · simp at hrest
      case h_3 inputs key hinputs hcomposer =>
        exact hcalled inputs hinputs (List.mem_singleton.mp h)

/-- A composer is called when the failures of its view have been announced and a value is due. -/
theorem exists_failing_of_called {move : Move α β}
    (h : .ofView view (.called values) ∈ m.notices move) :
    (∃ below, m.stack = .failing view [] :: below) ∧
      ∃ v, m.world.views[view]? = some v ∧ v.isDue ∧ v.cachedValues? = some values := by
  unfold notices at h
  split at h
  case h_1 => exact absurd h called_notMem_requestNotices
  case h_3 => simp at h
  case h_2 answer hcontrol =>
    unfold resumeNotices at h
    split at h
    case h_1 =>
      split at h
      · exact absurd h called_notMem_hearNotices
      · simp at h
    case h_2 => split at h <;> simp at h
    case h_3 other below hstack =>
      obtain ⟨rfl, hdue⟩ := exists_due_of_called h
      exact ⟨⟨below, hstack⟩, hdue⟩
    case h_4 => split at h <;> simp at h
    case h_5 =>
      split at h
      · simp at h
      · exact absurd h called_notMem_hearNotices
    case h_6 =>
      split at h
      · split at h
        · simp at h
        · exact absurd h called_notMem_feedNotices
      · exact absurd h called_notMem_feedNotices
    case h_7 => simp at h

/-! ### What it is called with -/

/-- The current events of the sources that feed a view, in the order of its inputs. -/
def inputEvents (v : View α β) (m : Machine α β) : List (Event α) :=
  v.inputs.map fun input ↦ m.world.scene.current input.1

/-- A view composes when all its inputs are connected, and when no delivery is under way if they are
undisturbed. Assumes: a value is due. -/
theorem Prompt.due {undisturbed : Prop} {below : List (Frame α β)} {v : View α β}
    (h : m.Prompt view undisturbed) (hstack : m.stack = .failing view [] :: below)
    (hview : m.world.views[view]? = some v) (hdue : v.isDue) :
    v.disposed = false ∧ v.inputs.length = v.slots.length ∧
      (undisturbed → deliverers m.stack = []) := by
  have hloaded : v.allLoaded := (Bool.and_eq_true_iff.mp hdue).2
  have hscene := World.getElem?_scene hview
  have hfits := h.stacked
  rw [hstack] at hfits
  obtain ⟨⟨-, hconnects, hallows⟩, -⟩ := hfits
  obtain ⟨⟨o, ho, hlive, hdisposed⟩, hblocked⟩ := hallows rfl
  obtain rfl := Option.some.inj (hscene.symm.trans ho)
  have hquiet : NoneConnects m.stack := by
    rw [hstack]
    refine noneConnects_cons.mpr ⟨rfl, hconnects.resolve_right ?_⟩
    rintro ⟨o, ho, -, hblank⟩
    obtain rfl := Option.some.inj (hscene.symm.trans ho)
    exact absurd hloaded (Bool.eq_false_iff.mp hblank)
  refine ⟨hdisposed, (h.complete _ hscene hlive hdisposed).resolve_right ?_, fun hundisturbed ↦ ?_⟩
  · rintro ⟨inputs, hconnecting⟩
    have hnot := hquiet _ hconnecting
    contradiction
  · rw [hstack, deliverers_cons]
    rcases hblocked hundisturbed with hnone | ⟨o, k, slot, input, ho, hslot, hfailed, -⟩
    · rw [hnone]
      rfl
    · obtain rfl := Option.some.inj (hscene.symm.trans ho)
      have hslotLoaded := List.all_eq_true.mp hloaded slot (List.mem_of_getElem? hslot)
      rw [hfailed] at hslotLoaded
      contradiction

/-- Assumes: nothing is being delivered. -/
theorem Prompt.shows {undisturbed : Prop} {v : View α β} (h : m.Prompt view undisturbed)
    (hundisturbed : undisturbed) (hdeliverers : deliverers m.stack = [])
    (hview : m.world.views[view]? = some v) {k : Nat} {slot : Slot α} {input : SourceId × Nat}
    (hslot : v.slots[k]? = some slot) (hinput : v.inputs[k]? = some input) :
    slot.Shows (m.world.scene.current input.1) := by
  have hserved := h.served hundisturbed _ (World.getElem?_scene hview) k input hinput
  have hnone : ¬ Owed input m.stack := by
    rintro ⟨event, tickets, hframe, -⟩
    have hmem := mem_deliverers.mpr ⟨event, tickets, hframe⟩
    rw [hdeliverers] at hmem
    contradiction
  obtain ⟨other, hother, hshows⟩ := hserved.resolve_right hnone
  obtain rfl := Option.some.inj (hslot.symm.trans hother)
  exact hshows

theorem map_eq_map_range_iff {γ δ : Type} {list : List γ} {f : γ → δ} {g : Nat → δ} :
    list.map f = (List.range list.length).map g ↔ ∀ k a, list[k]? = some a → g k = f a := by
  rw [List.ext_getElem?_iff]
  refine forall_congr' fun k ↦ ?_
  rw [List.getElem?_map, List.getElem?_map]
  by_cases hk : k < list.length
  case pos =>
    rw [List.getElem?_eq_getElem hk, List.getElem?_range hk]
    simp [eq_comm]
  case neg =>
    rw [List.getElem?_eq_none (Nat.le_of_not_lt hk), List.getElem?_eq_none (by simpa using hk)]
    simp

/-- A view composes the values that its inputs were given last. They are the current ones exactly
where no input is behind its source, and always if the sources that feed the view are undisturbed.
Assumes: a run in which callbacks only emit. -/
theorem called_current_iff (moves : List (Move α β)) (move : Move α β) (view : ViewId)
    (values : List α) (hmoves : Along Reentrant moves {})
    (hcalled : .ofView view (.called values) ∈ (run moves {}).notices move) :
    ∃ v, (run moves {}).world.views[view]? = some v ∧
      (List.range v.inputs.length).map (ViewNotice.newest · (historyOf view (history moves {}))) =
        values.map .loaded ∧
      ((run moves {}).inputEvents v = values.map .loaded ↔ ∀ k input, v.inputs[k]? = some input →
        ViewNotice.newest k (historyOf view (history moves {})) =
          (run moves {}).world.scene.current input.1) ∧
      (Along (Undisturbed view) moves {} → (run moves {}).inputEvents v = values.map .loaded) := by
  obtain ⟨hprompt, hcalm⟩ := prompt_run view moves hmoves
  obtain ⟨⟨below, hstack⟩, v, hview, hdue, hcached⟩ := exists_failing_of_called hcalled
  obtain ⟨hdisposed, hinputs, hquiet⟩ := hprompt.due hstack hview hdue
  have hloaded : v.allLoaded := (Bool.and_eq_true_iff.mp hdue).2
  have hsituation : (run moves {}).situation view =
      some { view := v, tasks := (run moves {}).tasks view, jobs := (run moves {}).jobs view } := by
    rw [situation, hview]
    rfl
  have hslots := (accounted_and_upToDate hcalm hsituation).2.slots hdisposed
  obtain ⟨given, hgiven, hnewest⟩ := View.exists_values_of_shows hslots hloaded
  obtain rfl := Option.some.inj (hcached.symm.trans hgiven)
  rw [← hinputs] at hnewest
  have hiff : (run moves {}).inputEvents v = values.map .loaded ↔
      ∀ k input, v.inputs[k]? = some input →
        ViewNotice.newest k (historyOf view (history moves {})) =
          (run moves {}).world.scene.current input.1 := by
    rw [← hnewest]
    exact map_eq_map_range_iff
  refine ⟨v, hview, hnewest, hiff, fun hundisturbed ↦ hiff.mpr fun k input hinput ↦ ?_⟩
  have hbound : k < v.slots.length := hinputs ▸ (List.getElem?_eq_some_iff.mp hinput).1
  have hslot : v.slots[k]? = some v.slots[k] := List.getElem?_eq_getElem hbound
  have hstatus : v.slots[k].status = .loaded := by
    simpa using List.all_eq_true.mp hloaded _ (List.mem_of_getElem? hslot)
  -- the slot shows both events, and it is loaded
  obtain ⟨given, hgiven, hcachedGiven⟩ := (hslots k _ hslot).value hstatus
  obtain ⟨current, hcurrent, hcachedCurrent⟩ :=
    (hprompt.shows hundisturbed (hquiet hundisturbed) hview hslot hinput).value hstatus
  rw [hgiven, hcurrent]
  obtain rfl : given = current := by
    rw [hcachedGiven] at hcachedCurrent
    exact Option.some.inj (Slot.mk.inj hcachedCurrent).2
  rfl

/-- A listener of the first source, which is connected before the view over both sources. -/
def listenedFirst : List (Move Nat (List Nat)) :=
  Move.script 14 [.newSource "a", .newSource "b", .subscribe (.source 0) 7, .finish,
    .build [0, 1] (.direct id)]

/-- The listener emits on the other source. The run ends where the composer is called next. -/
def answeredElsewhere : List (Move Nat (List Nat)) :=
  listenedFirst ++ Move.script 14 [.emit 0 (.loaded 1), .emit 1 (.loaded 10)] ++
    Move.script 5 [.finish]

theorem called_answeredElsewhere :
    ∃ v, (run answeredElsewhere {}).world.views[0]? = some v ∧
      .ofView 0 (.called [1, 10]) ∈ (run answeredElsewhere {}).notices .advance ∧
      (run answeredElsewhere {}).inputEvents v = [.loaded 1, .loaded 10] := by
  have hcalled : .ofView 0 (.called [1, 10]) ∈ (run answeredElsewhere {}).notices .advance := by
    decide +kernel
  obtain ⟨v, hview, -, -, hcurrent⟩ := called_current_iff answeredElsewhere .advance 0 [1, 10]
    (by decide +kernel) hcalled
  exact ⟨v, hview, hcalled, hcurrent (by decide +kernel)⟩

/-- The listener emits on the source it hears. The run ends where the composer is called next. -/
def answeredAtOnce : List (Move Nat (List Nat)) :=
  listenedFirst ++
    Move.script 14 [.emit 1 (.loaded 10), .emit 0 (.loaded 1), .emit 0 (.loaded 2), .finish] ++
    Move.script 5 [.finish]

theorem called_answeredAtOnce :
    Along Reentrant answeredAtOnce {} ∧
      .ofView 0 (.called [1, 10]) ∈ (run answeredAtOnce {}).notices .advance ∧
      (run answeredAtOnce {}).world.views.map ((run answeredAtOnce {}).inputEvents ·) =
        [[.loaded 2, .loaded 10]] := by
  decide +kernel

end Machine

end LiveRecord.Flow
