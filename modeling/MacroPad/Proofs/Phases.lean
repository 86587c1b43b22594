/-
`Phases.lean` -- the phases of a hold sequence, as a journal tells them.

Playing a hold sequence reports each change of its phase. Only the pad reports such a
change, so whatever the radio tells in between, a journal tells the same changes as the
actions that were played. A journal can therefore be cut where a change is reported, and
each part belongs to the actions of one phase.
-/
import MacroPad.Proofs.Course

set_option autoImplicit false

namespace MacroPad

/-- The change of phase that a notice reports. -/
def Notice.phase? : Notice → Option (HoldPhase × HoldPhase)
  | phaseChanged first next => some (first, next)
  | _ => none

/-- The change of phase that an action reports. -/
def Action.phase? : Action → Option (HoldPhase × HoldPhase)
  | note notice => notice.phase?
  | send _ _ _ | waitUs _ | waitMs _ => none

/-- The changes of phase that actions report. -/
def Action.phases (actions : List Action) : List (HoldPhase × HoldPhase) :=
  actions.filterMap Action.phase?

/-- The changes of phase that were reported. -/
def Journal.phases (journal : Journal) : List (HoldPhase × HoldPhase) :=
  journal.notices.filterMap Notice.phase?

/-! ## The changes that actions report -/

namespace Action

@[simp] theorem phases_nil : phases [] = [] := rfl

@[simp] theorem phases_append (first later : List Action) :
    phases (first ++ later) = phases first ++ phases later :=
  List.filterMap_append

@[simp] theorem phases_send (channel : Channel) (modifiers : Modifiers) (key : UInt8)
    (actions : List Action) : phases (send channel modifiers key :: actions) = phases actions :=
  rfl

@[simp] theorem phases_press (modifiers : Modifiers) (key : UInt8) (actions : List Action) :
    phases (press modifiers key :: actions) = phases actions :=
  rfl

@[simp] theorem phases_release (actions : List Action) :
    phases (release :: actions) = phases actions :=
  rfl

@[simp] theorem phases_note (notice : Notice) (actions : List Action) :
    phases (note notice :: actions) = notice.phase?.toList ++ phases actions := by
  rw [phases, List.filterMap_cons, phase?]
  cases notice.phase? <;> rfl

@[simp] theorem phases_enter (first next : HoldPhase) (actions : List Action) :
    phases (enter first next :: actions) = (first, next) :: phases actions :=
  rfl

@[simp] theorem phases_pause (us : Nat) : phases (pause us) = [] := by
  unfold pause
  split <;> rfl

@[simp] theorem phases_tap (modifiers : Modifiers) (key : UInt8) (hold settle : Nat) :
    phases (tap modifiers key hold settle) = [] := by
  simp only [tap, List.cons_append, phases_press, phases_append, phases_pause, phases_release,
    List.nil_append]

/-- Nothing of the kind is reported by actions none of which report it. -/
theorem phases_flatMap {α : Type} {f : α → List Action} (h : ∀ a, phases (f a) = [])
    (l : List α) : phases (l.flatMap f) = [] := by
  induction l with
  | nil => rfl
  | cons a l ih => rw [List.flatMap_cons, phases_append, h, ih, List.nil_append]

end Action

/-! ## The changes that a journal tells -/

@[simp] theorem Journal.phases_append (first later : Journal) :
    phases (first ++ later) = first.phases ++ later.phases := by
  simp only [phases, notices_append, List.filterMap_append]

/-- The radio reports no change of phase. -/
theorem Link.phase?_of_mem_notices (link : Link) (event : LinkEvent) :
    ∀ notice ∈ link.notices event, notice.phase? = none := by
  cases event with
  | outputReport bytes => cases bytes <;> simp [Link.notices, Notice.phase?]
  | _ => simp [Link.notices, Notice.phase?]

/-- Notices that report no change of phase tell none. -/
theorem Journal.phases_map_note {notices : List Notice}
    (h : ∀ notice ∈ notices, notice.phase? = none) : phases (notices.map Entry.note) = [] := by
  have hnotices : Journal.notices (notices.map Entry.note) = notices := by
    simp [Journal.notices, Entry.notice?, List.filterMap_map, Function.comp_def]
  rw [phases, hnotices, List.filterMap_eq_nil_iff]
  exact h

namespace Host

variable (timing : Timing) (host : Host)

theorem phases_apply (event : HostEvent) : Journal.phases (host.apply event).2 = [] := by
  cases event with
  | link event => exact Journal.phases_map_note (host.link.phase?_of_mem_notices event)
  | writer fault => rfl

theorem phases_applyAll (events : List HostEvent) :
    Journal.phases (host.applyAll events).2 = [] := by
  induction events generalizing host with
  | nil => rfl
  | cons event events ih =>
      have hrest := ih (host.apply event).1
      simp only [applyAll, Journal.phases_append, phases_apply, hrest, List.append_nil]

theorem phases_elapse (us : Nat) : Journal.phases (host.elapse us).2 = [] :=
  phases_applyAll _ _

/-- What performing an action records tells the change that the action reports. -/
theorem phases_perform (action : Action) :
    Journal.phases (host.perform timing action).2 = Action.phases [action] := by
  cases action with
  | send channel modifiers key =>
      simp only [perform, send]
      split
      · exact phases_elapse _ _
      · rfl
      · rfl
  | waitUs us => exact host.phases_elapse us.toNat
  | waitMs ms => exact host.phases_elapse (1000 * ms.toNat)
  | note notice => rfl

end Host

namespace Course

variable {timing : Timing} {host after : Host} {actions before later : List Action}
  {journal : Journal}

/-- **A course tells the changes of phase of its actions**, in their order, whatever
happens. -/
theorem phases_eq (h : Course timing host actions journal after) :
    journal.phases = Action.phases actions := by
  induction h with
  | done _ => rfl
  | @event host _ _ _ event _ ih =>
      rw [Journal.phases_append, host.phases_apply, ih, List.nil_append]
  | @action host _ action actions _ _ ih =>
      rw [Journal.phases_append, host.phases_perform, ih, ← Action.phases_append,
        List.singleton_append]

/-- A course that reports something is cut there. -/
theorem exists_note {notice : Notice}
    (h : Course timing host (before ++ .note notice :: later) journal after) :
    ∃ (met : Host) (first rest : Journal), Course timing host before first met ∧
      journal = first ++ .note notice :: rest ∧ Course timing met later rest after := by
  obtain ⟨met, first, rest, hfirst, hjournal, hrest⟩ := h.exists_met
  refine ⟨met, first, rest, hfirst, ?_, hrest⟩
  rw [hjournal, List.append_assoc]
  rfl

end Course

/-! ## The phases of a hold sequence -/

/-- Actions that are played in the phases of a hold sequence: while the modifiers go down,
while the content is played, and while the modifiers go up. -/
def inPhases (down emitting up : List Action) : List Action :=
  Action.enter .idle .modifiersDown :: down ++ Action.enter .modifiersDown .emitting :: emitting ++
    Action.enter .emitting .modifiersUp :: up ++ [Action.enter .modifiersUp .idle]

/-- A journal that is cut at the four changes of phase. -/
def cutAtPhases (before down emitting up after : Journal) : Journal :=
  before ++ .note (.phaseChanged .idle .modifiersDown) ::
    (down ++ .note (.phaseChanged .modifiersDown .emitting) ::
      (emitting ++ .note (.phaseChanged .emitting .modifiersUp) ::
        (up ++ .note (.phaseChanged .modifiersUp .idle) :: after)))

theorem requested_cutAtPhases (before down emitting up after : Journal) :
    (cutAtPhases before down emitting up after).requested =
      before.requested ++ (down.requested ++ emitting.requested ++ up.requested) ++
        after.requested := by
  simp only [cutAtPhases, Journal.requested_append, Journal.requested_note, List.append_assoc]

/-- **A course is cut where the phases change**, and each part asks for the reports of the
actions between two changes. -/
theorem Course.exists_cutAtPhases {timing : Timing} {host left : Host} {journal : Journal}
    {opening goDown play goUp closing : List Action}
    (h : Course timing host (opening ++ inPhases goDown play goUp ++ closing) journal left) :
    ∃ before down emitting up after, journal = cutAtPhases before down emitting up after ∧
      before.requested = Action.reports opening ∧ down.requested = Action.reports goDown ∧
      emitting.requested = Action.reports play ∧ up.requested = Action.reports goUp ∧
      after.requested = Action.reports closing := by
  have hactions : opening ++ inPhases goDown play goUp ++ closing =
      opening ++ Action.enter .idle .modifiersDown :: (goDown ++
        Action.enter .modifiersDown .emitting :: (play ++
          Action.enter .emitting .modifiersUp :: (goUp ++
            Action.enter .modifiersUp .idle :: closing))) := by
    simp [inPhases]
  rw [hactions] at h
  -- one cut for each change of phase, the first one first
  obtain ⟨_, before, _, hbefore, rfl, h₁⟩ := h.exists_note
  obtain ⟨_, down, _, hdown, rfl, h₂⟩ := h₁.exists_note
  obtain ⟨_, emitting, _, hemitting, rfl, h₃⟩ := h₂.exists_note
  obtain ⟨_, up, after, hup, rfl, hafter⟩ := h₃.exists_note
  exact ⟨before, down, emitting, up, after, rfl, hbefore.requested_eq, hdown.requested_eq,
    hemitting.requested_eq, hup.requested_eq, hafter.requested_eq⟩

/-- The changes from one phase to the next, once around. -/
def phaseRound : List (HoldPhase × HoldPhase) :=
  [(.idle, .modifiersDown), (.modifiersDown, .emitting), (.emitting, .modifiersUp),
    (.modifiersUp, .idle)]

theorem phases_inPhases {down emitting up : List Action} (hdown : Action.phases down = [])
    (hemitting : Action.phases emitting = []) (hup : Action.phases up = []) :
    Action.phases (inPhases down emitting up) = phaseRound := by
  simp [inPhases, phaseRound, hdown, hemitting, hup]

theorem SequenceItem.phases_script (timing : Timing) (held : Modifiers) (item : SequenceItem) :
    Action.phases (item.script timing held) = [] := by
  cases item with
  | wait ms => rfl
  | digits ds => exact Action.phases_flatMap (fun key => Action.phases_tap held key _ _) _
  | press key extra => exact Action.phases_tap (held ∪ extra) key _ _

/-- **Every content is played in the same phases.** The modifiers are held until the last of
them, which releases everything. -/
theorem HoldContent.exists_inPhases (timing : Timing) (held : Modifiers) (content : HoldContent) :
    ∃ down emitting up, content.script timing held = inPhases down emitting up ∧
      Action.phases down = [] ∧ Action.phases emitting = [] ∧ Action.phases up = [] ∧
      Action.reports up = [.release] := by
  cases content with
  | altCode ds =>
      refine ⟨[.send .burst held 0],
        (ds.filterMap keypadUsage?).flatMap fun key => [.send .burst held key, .send .burst held 0],
        [.send .burst .none 0], ?_, rfl, ?_, rfl, rfl⟩
      · simp [HoldContent.script, inPhases]
      · exact Action.phases_flatMap (fun key => rfl) _
  | sequence items =>
      refine ⟨Action.press held 0 :: Action.pause timing.modifierSettle,
        items.flatMap (SequenceItem.script timing held),
        Action.release :: Action.pause timing.modifierSettle, rfl, ?_, ?_, ?_, ?_⟩
      · rw [Action.phases_press, Action.phases_pause]
      · exact Action.phases_flatMap (SequenceItem.phases_script timing held) items
      · rw [Action.phases_release, Action.phases_pause]
      · rw [Action.reports_release, Action.reports_pause]

end MacroPad
