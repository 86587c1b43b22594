/-
`Course.lean` -- playing amid events.

Nobody knows beforehand what the host does while a macro is played: the link may
go and come back, the lights may change, and the writer may refuse any report. A
*course* is one way in which a list of actions can go. The actions are performed
in their order, each exactly as the pad performs it, and before, between and
after them any events may happen. Performing actions on a host with an agenda is
one such course, so what holds of every course holds of every run.

A course asks for exactly its actions (`Course.actions_eq`), and each report that
it asks for has one of three outcomes (`Delivery`). A *performance* is the same for a
player, who hears what became of each report and may ask how things are. The
performances of a plan are the courses of its script
(`performance_player_iff`).
-/
import MacroPad.Proofs.PlayedScript
import MacroPad.Proofs.Requests

set_option autoImplicit false

namespace MacroPad

/-! ## One report, one outcome -/

/-- What becomes of a report at a host that it meets, what is recorded of it, and
the host that it leaves behind. -/
inductive Delivery (timing : Timing) (channel : Channel) (modifiers : Modifiers) (key : UInt8)
    (met : Host) : Journal → Host → Prop
  /-- The report is written once and then paced. -/
  | accepted {told : Journal} {left : Host} (ready : met.link.ready = true)
      (taken : met.fault = none) (quiet : told.FromRadio)
      (attempts : left.attempts = met.attempts + 1)
      (clock : left.clock = met.clock + (timing.pacingOf channel).toNat) :
      Delivery timing channel modifiers key met
        (.send met.clock channel modifiers key .accepted ::
          .pacing (timing.pacingOf channel) :: told) left
  /-- The report is written once, which is an error, and no time passes. -/
  | refused {fault : SendFault} (ready : met.link.ready = true)
      (answer : met.fault = some fault) (level : (Notice.reportRefused fault).level = .error) :
      Delivery timing channel modifiers key met
        [.send met.clock channel modifiers key (.refused fault), .note (.reportRefused fault)]
        { met with attempts := met.attempts + 1 }
  /-- The report is not written, which is a warning, and no time passes. -/
  | skipped (unready : met.link.ready = false)
      (level : (Notice.reportSkipped modifiers key).level = .warn) :
      Delivery timing channel modifiers key met
        [.send met.clock channel modifiers key .skipped, .note (.reportSkipped modifiers key)] met

namespace Host

variable (timing : Timing) (host : Host)

/-- **Sending is delivering**: there is no fourth outcome. -/
theorem delivery_send (channel : Channel) (modifiers : Modifiers) (key : UInt8) :
    Delivery timing channel modifiers key host (host.send timing channel modifiers key).2
      (host.send timing channel modifiers key).1 := by
  cases hready : host.link.ready with
  | false =>
      have hfate : host.fate = .skipped := by simp [fate, hready]
      simp only [send, hfate]
      exact .skipped hready rfl
  | true =>
      cases hfault : host.fault with
      | none =>
          have hfate : host.fate = .accepted := by simp [fate, hready, hfault]
          obtain ⟨hquiet, hclock, hattempts⟩ :=
            elapse_spec { host with attempts := host.attempts + 1 } (timing.pacingOf channel).toNat
          simp only [send, hfate]
          exact .accepted hready hfault hquiet hattempts hclock
      | some fault =>
          have hfate : host.fate = .refused fault := by simp [fate, hready, hfault]
          simp only [send, hfate]
          exact .refused hready hfault rfl

end Host

/-- Whatever becomes of a report, it was asked for once. -/
theorem Delivery.actions_eq {timing : Timing} {channel : Channel} {modifiers : Modifiers}
    {key : UInt8} {met left : Host} {journal : Journal}
    (h : Delivery timing channel modifiers key met journal left) :
    journal.actions = [.send channel modifiers key] := by
  cases h with
  | accepted _ _ quiet _ _ => exact congrArg (_ :: ·) quiet.actions_eq
  | refused _ _ _ => rfl
  | skipped _ _ => rfl

/-! ## Courses -/

/-- One way in which actions can go: the host at the beginning, the actions, what
is recorded, and the host at the end. -/
inductive Course (timing : Timing) : Host → List Action → Journal → Host → Prop
  | done (host : Host) : Course timing host [] [] host
  /-- Something happens on the side of the host. -/
  | event {host after : Host} {actions : List Action} {journal : Journal} (event : HostEvent)
      (rest : Course timing (host.apply event).1 actions journal after) :
      Course timing host actions ((host.apply event).2 ++ journal) after
  /-- The next action is performed. -/
  | action {host after : Host} {action : Action} {actions : List Action} {journal : Journal}
      (rest : Course timing (host.perform timing action).1 actions journal after) :
      Course timing host (action :: actions) ((host.perform timing action).2 ++ journal) after

/-- What performing an action records asks for that action. -/
theorem Host.perform_actions (timing : Timing) (host : Host) (action : Action) :
    Journal.actions (host.perform timing action).2 = [action].filter Action.asks := by
  cases action with
  | send channel modifiers key => exact (host.delivery_send timing channel modifiers key).actions_eq
  | waitUs us => exact congrArg (_ :: ·) (host.elapse_spec us.toNat).1.actions_eq
  | waitMs ms => exact congrArg (_ :: ·) (host.elapse_spec (1000 * ms.toNat)).1.actions_eq
  | note notice => rfl

namespace Course

variable {timing : Timing} {host after : Host} {actions before later : List Action}
  {action : Action} {journal : Journal}

/-- The course without events of its own; those of the agenda still happen. -/
theorem performAll (host : Host) (actions : List Action) :
    Course timing host actions (host.performAll timing actions).2
      (host.performAll timing actions).1 := by
  induction actions generalizing host with
  | nil => exact .done host
  | cons action actions ih => exact .action (ih _)

/-- **A course asks for its actions**, in their order, whatever happens. -/
theorem actions_eq (h : Course timing host actions journal after) :
    journal.actions = actions.filter Action.asks := by
  induction h with
  | done _ => rfl
  | @event host _ _ _ event _ ih =>
      rw [Journal.actions_append, (host.fromRadio_apply event).actions_eq, ih, List.nil_append]
  | @action host _ action actions _ _ ih =>
      rw [Journal.actions_append, host.perform_actions, ih, ← List.filter_append,
        List.singleton_append]

/-- A course asks for the reports of its actions. -/
theorem requested_eq (h : Course timing host actions journal after) :
    journal.requested = Action.reports actions := by
  rw [Journal.requested, h.actions_eq, Action.reports, List.filterMap_filter]
  congr 1
  funext action
  cases action <;> rfl

/-- **The host that an action meets.** A course that performs some action comes
to it through what it performs before, and goes on from there. -/
theorem exists_met (h : Course timing host (before ++ action :: later) journal after) :
    ∃ (met : Host) (first rest : Journal), Course timing host before first met ∧
      journal = first ++ (met.perform timing action).2 ++ rest ∧
      Course timing (met.perform timing action).1 later rest after := by
  generalize hs : before ++ action :: later = actions at h
  induction h generalizing before with
  | done _ => exact absurd hs (by simp)
  | @event host _ _ _ event _ ih =>
      obtain ⟨met, first, rest, hfirst, rfl, hrest⟩ := ih hs
      exact ⟨met, _, rest, .event event hfirst, by simp only [List.append_assoc], hrest⟩
  | @action host _ _ _ _ hcourse ih =>
      cases before with
      | nil =>
          obtain ⟨rfl, rfl⟩ := List.cons.inj hs
          exact ⟨host, [], _, .done host, by rw [List.nil_append], hcourse⟩
      | cons _ before =>
          obtain ⟨rfl, htail⟩ := List.cons.inj hs
          obtain ⟨met, first, rest, hfirst, rfl, hrest⟩ := ih htail
          exact ⟨met, _, rest, .action hfirst, by simp only [List.append_assoc], hrest⟩

end Course

/-! ## Performances -/

/-- One way in which a player can go: the host at the beginning, the player, what is recorded, the
host at the end, and what the player ends with. Each answer comes from the host that meets the
request. -/
inductive Performance {α : Type} (timing : Timing) :
    Host → Player α → Journal → Host → α → Prop
  | done (host : Host) (value : α) : Performance timing host (.done value) [] host value
  /-- Something happens on the side of the host. -/
  | event {host after : Host} {player : Player α} {journal : Journal} {value : α}
      (event : HostEvent) (rest : Performance timing (host.apply event).1 player journal after value) :
      Performance timing host player ((host.apply event).2 ++ journal) after value
  /-- The player asks, and is answered. -/
  | ask {host after : Host} {request : Request} {next : request.Answer → Player α}
      {journal : Journal} {value : α}
      (rest : Performance timing (host.serve timing request).1 (next (host.answer request)) journal
        after value) :
      Performance timing host (.ask request next) ((host.serve timing request).2 ++ journal) after
        value

section Performances

variable {timing : Timing} {host after : Host} {actions : List Action} {journal : Journal}
  {value : Unit}

/-- A player that heeds no answer goes as its actions go. -/
theorem performance_performing_iff :
    Performance timing host (.performing actions) journal after value ↔
      Course timing host actions journal after := by
  constructor
  · intro h
    generalize hplayer : Player.performing actions = player at h
    induction h generalizing actions with
    | done host _ =>
        cases actions with
        | nil => exact .done host
        | cons _ _ => contradiction
    | event event _ ih => exact .event event (ih hplayer)
    | ask _ ih =>
        cases actions with
        | nil => contradiction
        | cons action actions =>
            obtain ⟨rfl, hnext⟩ := Player.ask.inj hplayer
            obtain rfl := eq_of_heq hnext
            exact .action (ih rfl)
  · intro h
    induction h with
    | done host => exact .done host value
    | event event _ ih => exact .event event ih
    | action _ ih => exact .ask ih

/-- **The performances of a plan are the courses of its script.** The question about the lights is
answered at the beginning; whatever happens after that, and whatever the player hears of its
reports, it goes through the script. -/
theorem performance_player_iff {plan : Plan} :
    Performance timing host (host.opening (plan.player timing)) journal after value ↔
      Course timing host (plan.script timing host.link.lights.numLock) journal after := by
  rw [host.opening_player, performance_performing_iff]

end Performances

/-! ## Runs -/

/-- What may come of asking for a macro whose text reads as `reading`. The two
checks come before anything is played; then the player of the plan plays amid events.
If it begins with a question, that is answered at once. -/
inductive RunAmid (timing : Timing) (host : Host) (kind : Kind) (reading : Reading Plan) :
    Run → Prop
  | ignored (unready : host.link.ready = false) :
      RunAmid timing host kind reading (host.ignore kind)
  | rejected {fault : GrammarFault} (ready : host.link.ready = true)
      (bad : reading.result = .error fault) :
      RunAmid timing host kind reading
        ⟨host, reading.notices.map Entry.note ++ [.note (.macroRejected kind fault)],
          .error (.rejected fault)⟩
  | played {plan : Plan} {journal : Journal} {after : Host} (ready : host.link.ready = true)
      (good : reading.result = .ok plan)
      (playing : Performance timing host (host.opening (plan.player timing)) journal after ()) :
      RunAmid timing host kind reading
        ⟨after, reading.notices.map Entry.note ++ journal, .ok ()⟩

namespace Host

variable (timing : Timing) (host : Host)

/-- However the plan is played amid events, it is a run amid events. -/
theorem runAmid_runReading {kind : Kind} {reading : Reading Plan} {play : Plan → Host × Journal}
    (hplay : ∀ plan, Course timing host (plan.script timing host.link.lights.numLock) (play plan).2
      (play plan).1) :
    RunAmid timing host kind reading (host.runReading kind reading play) := by
  cases hready : host.link.ready with
  | false =>
      rw [runReading_unready hready]
      exact .ignored hready
  | true =>
      cases hresult : reading.result with
      | error fault =>
          rw [runReading_error hready hresult]
          exact .rejected hready hresult
      | ok plan =>
          rw [runReading_ok hready hresult]
          exact .played hready hresult (performance_player_iff.2 (hplay plan))

/-- Running the text of a macro is a run amid events. -/
theorem runAmid_runText (kind : Kind) (text : String) :
    RunAmid timing host kind (Plan.ofMacro kind text) (host.runText timing kind text) := by
  rw [runText_eq]
  exact runAmid_runReading timing host fun plan => Course.performAll host _

/-- Running a plan is a run amid events, of a text that reads as the plan. -/
theorem runAmid_runPlan (plan : Plan) :
    RunAmid timing host plan.kind (.silent (.ok plan)) (host.runPlan timing plan) := by
  rw [runPlan_eq]
  exact runAmid_runReading timing host fun plan => Course.performAll host _

end Host

end MacroPad
