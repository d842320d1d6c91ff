import LiveRecord.Proofs.Flow.Registration

/-!
# The books on registrations balance

The two sides of the books on registrations agree after every run (`Machine.kept_run`): the
tickets at a source are those that handles, first callbacks at work and inputs of views can give
back, each of them once. A view that is gone has no inputs left (`Books.Cleared`), and every other
one has those that it was built with, but for what is still to be connected (`Books.Intended`).
-/

set_option autoImplicit false

namespace LiveRecord.Flow

variable {α β : Type}

/-! ### Registrations in lists -/

/-- The tickets at a source among these registrations. -/
def ticketsAt (source : SourceId) (registrations : List (Target × Nat)) : List Nat :=
  registrations.filterMap fun registration ↦
    if registration.1 = .source source then some registration.2 else none

theorem mem_ticketsAt {source : SourceId} {ticket : Nat} {registrations : List (Target × Nat)} :
    ticket ∈ ticketsAt source registrations ↔ (.source source, ticket) ∈ registrations := by
  simp only [ticketsAt, List.mem_filterMap, Option.ite_none_right_eq_some, Option.some.injEq]
  constructor
  · rintro ⟨⟨target, other⟩, hmem, rfl, rfl⟩
    exact hmem
  · exact fun hmem ↦ ⟨_, hmem, rfl, rfl⟩

theorem ticketsAt_append (source : SourceId) (first last : List (Target × Nat)) :
    ticketsAt source (first ++ last) = ticketsAt source first ++ ticketsAt source last :=
  List.filterMap_append

/-- What becomes of a list of parts when one part is changed, up to the order. -/
theorem exists_flatMap_modify {ι ρ : Type} {list : List ι} {i : Nat} {part : ι} (f : ι → ι)
    (g : ι → List ρ) (h : list[i]? = some part) :
    ∃ others, (list.flatMap g).Perm (g part ++ others) ∧
      ((list.modify i f).flatMap g).Perm (g (f part) ++ others) := by
  induction list generalizing i with
  | nil => contradiction
  | cons head tail ih =>
    cases i with
    | zero =>
      obtain rfl := Option.some.inj h
      exact ⟨tail.flatMap g, .refl _, .refl _⟩
    | succ i =>
      obtain ⟨others, hbefore, hafter⟩ := ih h
      exact ⟨g head ++ others, (hbefore.append_left _).trans (List.perm_append_comm_assoc _ _ _),
        (hafter.append_left _).trans (List.perm_append_comm_assoc _ _ _)⟩

theorem flatMap_modify_eq {ι ρ : Type} {f : ι → ι} {g : ι → List ρ}
    (h : ∀ part, g (f part) = g part)
    (list : List ι) (i : Nat) : (list.modify i f).flatMap g = list.flatMap g := by
  induction list generalizing i with
  | nil => simp
  | cons head tail ih =>
    cases i with
    | zero => simp [h]
    | succ i => simp [ih]

/-- Where a part of a changed list comes from. -/
theorem exists_of_getElem?_modify {ι : Type} {list : List ι} {f : ι → ι} {i j : Nat} {part' : ι}
    (h : (list.modify i f)[j]? = some part') :
    ∃ part, list[j]? = some part ∧ (i = j ∧ part' = f part ∨ i ≠ j ∧ part' = part) := by
  rw [List.getElem?_modify] at h
  obtain ⟨part, hpart, rfl⟩ := Option.map_eq_some_iff.mp h
  refine ⟨part, hpart, ?_⟩
  by_cases hi : i = j
  · exact .inl ⟨hi, if_pos hi⟩
  · exact .inr ⟨hi, if_neg hi⟩

namespace Frame

/-- The registration that a first callback hands over when it is done. -/
def registrations : Frame α β → List (Target × Nat)
  | subscribing target ticket => [(target, ticket)]
  | _ => []

/-- What a frame still has to connect to a view. -/
def leftFor (view : ViewId) : Frame α β → List (SourceId × Nat)
  | connecting other inputs => if other = view then inputs else []
  | _ => []

end Frame

namespace Books

variable {books books' : Books α β} {asked : List (List SourceId)}

/-- The registrations that somebody can give back. -/
def registrations (books : Books α β) : List (Target × Nat) :=
  books.handles.flatMap (·.registrations) ++
    (books.writers.flatMap (·.registrations) ++ books.intakes.flatMap (·.registrations))

/-- What is still to be connected to a view. -/
def leftFor (view : ViewId) (books : Books α β) : List (SourceId × Nat) :=
  books.writers.flatMap (·.leftFor view)

/-! ### The two sides agree -/

/-- The tickets at every source are those that somebody can give back, each of them once. -/
structure Balanced (books : Books α β) : Prop where
  agree : ∀ source, (books.tickets source).Perm (ticketsAt source books.registrations)
  distinct : ∀ source, (books.tickets source).Nodup

theorem Balanced.keep (h : books.Balanced) (htickets : books'.tickets = books.tickets)
    (hregistrations : books'.registrations.Perm books.registrations) : books'.Balanced where
  agree source := by
    rw [htickets]
    exact (h.agree source).trans (hregistrations.symm.filterMap _)
  distinct := htickets ▸ h.distinct

/-- Assumes: a ticket that is nobody's. -/
theorem Balanced.enter {target : Target} {ticket : Nat} (h : books.Balanced)
    (hfresh : books.Fresh target ticket)
    (htickets : books'.tickets = (books.enter target ticket).tickets)
    (hregistrations : books'.registrations.Perm ((target, ticket) :: books.registrations)) :
    books'.Balanced := by
  have hagree : ∀ source,
      (ticketsAt source books'.registrations).Perm (ticketsAt source ((target, ticket) ::
        books.registrations)) := fun source ↦ hregistrations.filterMap _
  cases target with
  | view view =>
    refine ⟨fun source ↦ ?_, htickets ▸ h.distinct⟩
    rw [htickets]
    refine (h.agree source).trans (.trans (.of_eq ?_) (hagree source).symm)
    simp [ticketsAt]
  | source source =>
    constructor
    case agree =>
      intro other
      rw [htickets]
      refine .trans ?_ (hagree other).symm
      by_cases hother : source = other
      · subst hother
        simp only [Books.enter, Function.update_self, ticketsAt, List.filterMap_cons, if_true]
        exact (List.perm_append_singleton _ _).trans ((h.agree source).cons ticket)
      · have hne : Target.source source ≠ .source other :=
          fun heq ↦ hother (Target.source.inj heq)
        simp only [Books.enter, Function.update_of_ne (Ne.symm hother), ticketsAt,
          List.filterMap_cons, if_neg hne]
        exact h.agree other
    case distinct =>
      intro other
      rw [htickets]
      by_cases hother : source = other
      · subst hother
        simp only [Books.enter, Function.update_self]
        exact List.nodup_append.mpr ⟨h.distinct source, List.nodup_singleton _, fun t ht t' ht' ↦ by
          rintro rfl
          exact hfresh source rfl (List.mem_singleton.mp ht' ▸ ht)⟩
      · simp only [Books.enter, Function.update_of_ne (Ne.symm hother)]
        exact h.distinct other

theorem Balanced.leave {gone : List (Target × Nat)} (h : books.Balanced)
    (htickets : books'.tickets = (books.leave gone).tickets)
    (hregistrations : books.registrations.Perm (gone ++ books'.registrations)) :
    books'.Balanced where
  agree source := by
    have hsplit : (books.tickets source).Perm
        (ticketsAt source gone ++ ticketsAt source books'.registrations) :=
      ticketsAt_append source _ _ ▸ (h.agree source).trans (hregistrations.filterMap _)
    have hdistinct := (hsplit.nodup_iff.mp (h.distinct source))
    have hdisjoint := (List.nodup_append.mp hdistinct).2.2
    have hfirst : (ticketsAt source gone).filter
        (fun ticket ↦ (Target.source source, ticket) ∉ gone) = [] :=
      List.filter_eq_nil_iff.mpr fun ticket hticket ↦ by simpa using mem_ticketsAt.mp hticket
    have hlast : (ticketsAt source books'.registrations).filter
        (fun ticket ↦ (Target.source source, ticket) ∉ gone) =
          ticketsAt source books'.registrations :=
      List.filter_eq_self.mpr fun ticket hticket ↦ by
        have hnot : ticket ∉ ticketsAt source gone := fun hgone ↦
          hdisjoint ticket hgone ticket hticket rfl
        simpa using fun hmem ↦ hnot (mem_ticketsAt.mpr hmem)
    rw [htickets]
    have hkept := hsplit.filter fun ticket ↦ (Target.source source, ticket) ∉ gone
    rwa [List.filter_append, hfirst, hlast, List.nil_append] at hkept
  distinct source := by
    rw [htickets]
    exact (h.distinct source).filter _

theorem Balanced.step (h : books.Balanced) (hstep : Step asked books books') : books'.Balanced := by
  cases hstep with
  | build inputs hnone =>
    refine h.keep rfl (.of_eq ?_)
    simp [registrations, Frame.registrations, Intake.registrations]
  | @connect _ view source slot left writers intake ticket hwriters hintake hhears hfresh =>
    obtain ⟨others, hbefore, hafter⟩ := exists_flatMap_modify
      (fun intake : Intake ↦ { intake with inputs := intake.inputs ++ [(source, ticket)] })
      (·.registrations) hintake
    refine h.enter hfresh rfl (List.perm_iff_count.mpr fun registration ↦ ?_)
    have hcount := hbefore.count_eq registration
    have hcount' := hafter.count_eq registration
    simp only [registrations, hwriters, Intake.registrations, List.map_append, List.map_cons,
      List.map_nil, List.count_append, List.count_cons, List.count_nil, List.flatMap_cons,
      Frame.registrations, List.nil_append, handles_enter] at hcount hcount' ⊢
    omega
  | connected hwriters =>
    refine h.keep rfl (.of_eq ?_)
    simp [registrations, hwriters, Frame.registrations]
  | retire hintake =>
    obtain ⟨others, hbefore, hafter⟩ := exists_flatMap_modify
      (fun _ : Intake ↦ { hears := false }) (·.registrations) hintake
    refine h.leave rfl (List.perm_iff_count.mpr fun registration ↦ ?_)
    have hcount := hbefore.count_eq registration
    have hcount' := hafter.count_eq registration
    simp only [registrations, List.count_append, Intake.registrations, List.map_nil, handles_leave,
      writers_leave, List.nil_append] at hcount hcount' ⊢
    omega
  | @subscribe _ target ticket hfresh =>
    refine h.enter hfresh rfl (List.perm_iff_count.mpr fun registration ↦ ?_)
    simp only [registrations, List.count_append, List.count_cons, List.flatMap_cons,
      Frame.registrations, List.count_nil, handles_enter, intakes_enter]
    omega
  | @handOver _ target ticket writers hwriters =>
    refine h.keep rfl (.of_eq ?_)
    simp [registrations, hwriters, Frame.registrations, Handle.registrations]
  | @turnAway _ target ticket writers hwriters =>
    refine h.leave rfl (List.perm_iff_count.mpr fun registration ↦ ?_)
    simp only [registrations, hwriters, List.count_append, List.count_cons, List.flatMap_cons,
      Frame.registrations, List.count_nil, handles_leave, intakes_leave]
    omega
  | cancel hhandle =>
    obtain ⟨others, hbefore, hafter⟩ := exists_flatMap_modify
      (fun handle : Handle ↦ { handle with state := .cancelled }) (·.registrations) hhandle
    refine h.leave rfl (List.perm_iff_count.mpr fun registration ↦ ?_)
    have hcount := hbefore.count_eq registration
    have hcount' := hafter.count_eq registration
    simp only [registrations, List.count_append, Handle.registrations, if_true, reduceCtorEq,
      if_false, List.nil_append, intakes_leave, writers_leave] at hcount hcount' ⊢
    omega
  | detach handle f hf =>
    refine h.keep rfl (.of_eq ?_)
    simp only [registrations, flatMap_modify_eq hf]

/-! ### What views were built with -/

/-- A view that is gone has no inputs left. -/
def Cleared (books : Books α β) : Prop :=
  ∀ (view : ViewId) (intake : Intake), books.intakes[view]? = some intake → intake.hears = false →
    intake.inputs = []

theorem Cleared.step (h : books.Cleared) (hstep : Step asked books books') : books'.Cleared := by
  cases hstep with
  | build inputs hnone =>
    intro view intake hintake hgone
    rw [List.getElem?_append] at hintake
    split at hintake
    · exact h view intake hintake hgone
    · obtain rfl := List.mem_singleton.mp (List.mem_of_getElem? hintake)
      rfl
  | @connect _ view source _ _ _ old ticket hwriters hold hhears hfresh =>
    intro other intake hintake hgone
    obtain ⟨before, hbefore, ⟨rfl, rfl⟩ | ⟨-, rfl⟩⟩ := exists_of_getElem?_modify hintake
    · obtain rfl := Option.some.inj (hold.symm.trans hbefore)
      rw [show old.hears = false from hgone] at hhears
      contradiction
    · exact h other _ hbefore hgone
  | @retire _ view old hold =>
    intro other intake hintake hgone
    obtain ⟨before, hbefore, ⟨-, rfl⟩ | ⟨-, rfl⟩⟩ := exists_of_getElem?_modify hintake
    · rfl
    · exact h other _ hbefore hgone
  | subscribe hfresh =>
    intro view intake hintake
    exact h view intake (by simpa using hintake)
  | connected | handOver | turnAway | cancel | detach => exact h

/-- Every view has the inputs that it was built with, but for those still to be connected. -/
structure Intended (past : List (List SourceId)) (books : Books α β) : Prop where
  length : past.length = books.intakes.length
  inputs : ∀ (view : ViewId) (intake : Intake), books.intakes[view]? = some intake → intake.hears →
    past[view]? = some (intake.inputs.map (·.1) ++ (books.leftFor view).map (·.1))

/-- Assumes: no change but of what there is to write down, of which nothing is for a view. -/
theorem Intended.of_left {past : List (List SourceId)} (h : books.Intended past)
    (hintakes : books'.intakes = books.intakes)
    (hleft : ∀ view, books'.leftFor view = books.leftFor view) : books'.Intended past where
  length := hintakes ▸ h.length
  inputs view intake hintake hhears := by
    rw [hleft]
    exact h.inputs view intake (hintakes ▸ hintake) hhears

theorem Intended.step {past : List (List SourceId)} (h : books.Intended past)
    (hstep : Step asked books books') : books'.Intended (past ++ asked) := by
  cases hstep with
  | build inputs hnone =>
    have hleft : ∀ view, books.leftFor view = [] := by
      intro view
      refine List.flatMap_eq_nil_iff.mpr fun frame hframe ↦ ?_
      cases frame with
      | connecting other left => exact absurd hframe (hnone other left)
      | _ => rfl
    refine ⟨by simp [h.length], fun view intake hintake hhears ↦ ?_⟩
    have hleft' : ({ books with
        intakes := books.intakes ++ [{}]
        writers := .connecting books.intakes.length inputs :: books.writers } :
          Books α β).leftFor view = if books.intakes.length = view then inputs else [] := by
      rw [leftFor, List.flatMap_cons]
      exact (congrArg _ (hleft view)).trans (List.append_nil _)
    rw [hleft']
    by_cases hview : view < books.intakes.length
    · rw [List.getElem?_append_left (h.length.symm ▸ hview)]
      rw [List.getElem?_append_left hview] at hintake
      rw [if_neg (Nat.ne_of_gt hview), h.inputs view intake hintake hhears, hleft view]
    · have hlast : books.intakes.length = view := by
        obtain ⟨hbound, -⟩ := List.getElem?_eq_some_iff.mp hintake
        rw [List.length_append, List.length_singleton] at hbound
        exact Nat.le_antisymm (Nat.le_of_not_lt hview) (Nat.le_of_lt_succ hbound)
      subst hlast
      rw [List.getElem?_concat_length] at hintake
      obtain rfl := Option.some.inj hintake
      rw [if_pos rfl, ← h.length, List.getElem?_concat_length]
      rfl
  | @connect _ view source slot left writers old ticket hwriters hold hhears' hfresh =>
    rw [List.append_nil]
    refine ⟨by simp [h.length], fun other intake hintake hhears ↦ ?_⟩
    obtain ⟨before, hbefore, ⟨rfl, rfl⟩ | ⟨hview, rfl⟩⟩ := exists_of_getElem?_modify hintake
    · rw [h.inputs view before hbefore hhears]
      simp [leftFor, hwriters, Frame.leftFor]
    · rw [h.inputs other _ hbefore hhears]
      simp [leftFor, hwriters, Frame.leftFor, hview]
  | connected hwriters =>
    rw [List.append_nil]
    exact h.of_left rfl fun view ↦ by simp [leftFor, hwriters, Frame.leftFor]
  | @retire _ view old hold =>
    rw [List.append_nil]
    refine ⟨by simp [h.length], fun other intake hintake hhears ↦ ?_⟩
    obtain ⟨before, hbefore, ⟨-, rfl⟩ | ⟨-, rfl⟩⟩ := exists_of_getElem?_modify hintake
    · contradiction
    · exact h.inputs other _ hbefore hhears
  | subscribe hfresh =>
    rw [List.append_nil]
    exact h.of_left intakes_enter fun view ↦ by simp [leftFor, Frame.leftFor]
  | handOver hwriters | turnAway hwriters =>
    rw [List.append_nil]
    exact h.of_left rfl fun view ↦ by simp [leftFor, hwriters, Frame.leftFor]
  | cancel hhandle | detach handle f hf =>
    rw [List.append_nil]
    exact h.of_left rfl fun _ ↦ rfl

/-- The books are in order, when views were built with these sources. -/
structure Kept (past : List (List SourceId)) (books : Books α β) : Prop where
  balanced : books.Balanced
  cleared : books.Cleared
  intended : books.Intended past

theorem Kept.steps {past : List (List SourceId)} (h : books.Kept past)
    (hsteps : Steps asked books books') : books'.Kept (past ++ asked) := by
  induction hsteps generalizing past with
  | refl => exact (List.append_nil past).symm ▸ h
  | cons hfirst _ ih =>
    rw [← List.append_assoc]
    exact ih ⟨h.balanced.step hfirst, h.cleared.step hfirst, h.intended.step hfirst⟩

end Books

namespace Machine

variable {m : Machine α β}

/-- The sources of the views that a run begins to build. -/
def built : List (Move α β) → Machine α β → List (List SourceId)
  | [], _ => []
  | move :: rest, m => m.asked move ++ built rest (m.move move)

theorem kept_start : ({} : Machine α β).books.Kept [] where
  balanced := ⟨fun _ ↦ .refl _, fun _ ↦ List.nodup_nil⟩
  cleared := by simp [Books.Cleared, books, World.books]
  intended := ⟨rfl, by simp [books, World.books]⟩

/-- The books are in order after every run. -/
theorem kept_run (moves : List (Move α β)) :
    (run moves ({} : Machine α β)).books.Kept (({} : Machine α β).built moves) := by
  suffices hall : ∀ (moves : List (Move α β)) (m : Machine α β) (past : List (List SourceId)),
      m.Wired → m.Joining → m.world.Ordered → m.books.Kept past →
        (m.run moves).books.Kept (past ++ m.built moves) by
    exact hall moves {} [] .start (.inl rfl) (fun source s hs ↦ by simp at hs) kept_start
  intro moves
  induction moves with
  | nil =>
    intro m past _ _ _ h
    exact (List.append_nil past).symm ▸ h
  | cons move rest ih =>
    intro m past hwired hjoining hordered h
    rw [built, ← List.append_assoc]
    refine ih (m.move move) _ (wired_move move hwired) (joining_move move hwired hjoining) ?_ ?_
    · exact (changes_move move m).preserves (fun _ _ hold hchange ↦ hchange.ordered hold) hordered
    · exact h.steps (books_move move hordered hjoining)

end Machine

end LiveRecord.Flow
