/-
`Schedule.lean` -- when reports arrive.

The clock moves only while a report is paced and while a wait is waited out. If every
report is accepted, the time at which each arrives therefore depends on the actions
alone: they follow a *schedule*. Whatever else happens while they are performed, on
the link or at the writer, moves no report of it.
-/
import MacroPad.Proofs.Course

set_option autoImplicit false

namespace MacroPad

/-! ## Durations and schedules -/

/-- How long an action takes, if its report is accepted. -/
def Action.duration (timing : Timing) : Action → Nat
  | send channel _ _ => (timing.pacingOf channel).toNat
  | waitUs us => us.toNat
  | waitMs ms => 1000 * ms.toNat
  | note _ => 0

/-- How long actions take, one after the other. -/
def span (timing : Timing) : List Action → Nat
  | [] => 0
  | action :: rest => action.duration timing + span timing rest

/-- The report of an action with the time at which the action begins. -/
def Action.arrival? (start : Nat) (action : Action) : Option (Nat × Report) :=
  action.report?.map fun report => (start, report)

/-- The reports of actions that begin at a time, each with the time of its arrival. -/
def schedule (timing : Timing) : Nat → List Action → List (Nat × Report)
  | _, [] => []
  | start, action :: rest =>
      (action.arrival? start).toList ++ schedule timing (start + action.duration timing) rest

/-- Reports in equal steps from some time on. -/
def inSteps (step : Nat) : Nat → List Report → List (Nat × Report)
  | _, [] => []
  | start, report :: rest => (start, report) :: inSteps step (start + step) rest

variable {timing : Timing} {start : Nat} {actions first later : List Action}

theorem schedule_append :
    schedule timing start (first ++ later) =
      schedule timing start first ++ schedule timing (start + span timing first) later := by
  induction first generalizing start with
  | nil => rfl
  | cons action first ih =>
      rw [List.cons_append, schedule, schedule, ih, List.append_assoc, Nat.add_assoc]
      rfl

/-- A schedule has the reports of its actions. -/
theorem map_snd_schedule : (schedule timing start actions).map Prod.snd = Action.reports actions := by
  induction actions generalizing start with
  | nil => rfl
  | cons action actions ih =>
      rw [schedule, List.map_append, ih]
      cases action <;> rfl

/-- Reports of one channel that follow each other without a wait arrive in equal
steps. -/
theorem schedule_eq_inSteps {channel : Channel}
    (h : ∀ action ∈ actions, (∃ modifiers key, action = .send channel modifiers key) ∨
      ∃ notice, action = .note notice) :
    schedule timing start actions =
      inSteps (timing.pacingOf channel).toNat start (Action.reports actions) := by
  induction actions generalizing start with
  | nil => rfl
  | cons action actions ih =>
      obtain ⟨hfirst, hrest⟩ := List.forall_mem_cons.1 h
      rcases hfirst with ⟨modifiers, key, rfl⟩ | ⟨notice, rfl⟩
      · rw [schedule, ih hrest]
        rfl
      · rw [schedule, ih hrest]
        rfl

/-! ## Courses follow their schedule -/

theorem Journal.FromRadio.arrivals_eq {journal : Journal} (h : journal.FromRadio) :
    journal.arrivals = [] := by
  obtain ⟨notices, rfl, -⟩ := h
  exact Journal.arrivals_map_note notices

theorem Delivery.arrivals_eq {channel : Channel} {modifiers : Modifiers} {key : UInt8}
    {met left : Host} {journal : Journal}
    (h : Delivery timing channel modifiers key met journal left) (hall : journal.AllAccepted) :
    journal.arrivals = [(met.clock, .press modifiers key)] ∧
      left.clock = met.clock + (timing.pacingOf channel).toNat := by
  cases h with
  | accepted _ _ quiet _ clock => exact ⟨congrArg (_ :: ·) quiet.arrivals_eq, clock⟩
  | @refused fault _ _ _ => exact absurd (hall (.refused fault) List.mem_cons_self) (by simp)
  | skipped _ _ => exact absurd (hall .skipped List.mem_cons_self) (by simp)

/-- What performing one action takes and brings to the host. -/
theorem Host.perform_arrivals {host : Host} {action : Action}
    (h : Journal.AllAccepted (host.perform timing action).2) :
    Journal.arrivals (host.perform timing action).2 = (action.arrival? host.clock).toList ∧
      (host.perform timing action).1.clock = host.clock + action.duration timing := by
  cases action with
  | send channel modifiers key =>
      exact (host.delivery_send timing channel modifiers key).arrivals_eq h
  | waitUs us =>
      obtain ⟨quiet, clock, -⟩ := host.elapse_spec us.toNat
      exact ⟨quiet.arrivals_eq, clock⟩
  | waitMs ms =>
      obtain ⟨quiet, clock, -⟩ := host.elapse_spec (1000 * ms.toNat)
      exact ⟨quiet.arrivals_eq, clock⟩
  | note notice => exact ⟨rfl, rfl⟩

/-- **A course without losses keeps to the schedule**, and ends when the actions
have taken their time. -/
theorem Course.arrivals_eq {host after : Host} {journal : Journal}
    (h : Course timing host actions journal after) (hall : journal.AllAccepted) :
    journal.arrivals = schedule timing host.clock actions ∧
      after.clock = host.clock + span timing actions := by
  induction h with
  | done _ => exact ⟨rfl, rfl⟩
  | @event host _ _ _ event _ ih =>
      -- an event brings no report and takes no time
      obtain ⟨-, hrest⟩ := (Journal.allAccepted_append _ _).1 hall
      obtain ⟨harrivals, hclock⟩ := ih hrest
      rw [host.apply_clock event] at harrivals hclock
      refine ⟨?_, hclock⟩
      rw [Journal.arrivals_append, (host.fromRadio_apply event).arrivals_eq, harrivals,
        List.nil_append]
  | @action host _ action actions _ _ ih =>
      obtain ⟨hfirst, hrest⟩ := (Journal.allAccepted_append _ _).1 hall
      obtain ⟨hsent, hpassed⟩ := Host.perform_arrivals hfirst
      obtain ⟨harrivals, hclock⟩ := ih hrest
      rw [hpassed] at harrivals hclock
      constructor
      · rw [Journal.arrivals_append, hsent, harrivals, schedule]
      · rw [hclock, Nat.add_assoc]
        rfl

end MacroPad
