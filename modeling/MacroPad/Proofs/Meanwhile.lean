/-
`Meanwhile.lean` -- playing while given things happen.

A course says that events may happen anywhere. Here it is given what happens: the side of the host
is a function that tells, for each place between two actions, the events that happen there. It may
look at the host as it is by then, so it can be a writer that refuses every third report as well as
a link that goes away at a given time. Two runs can then be compared on the same side of the host.
Every course is played like this (`course_iff_exists_performAmid`), and so is every run.
-/
import MacroPad.Proofs.Course

set_option autoImplicit false

namespace MacroPad

/-- The events before the action in each place, and after the last one, at a host that is met in
this place. -/
abbrev Meanwhile := Nat → Host → List HostEvent

namespace Meanwhile

/-- Nothing happens but what the agenda holds. -/
def nothing : Meanwhile := fun _ _ => []

/-- What happens from the next place on. -/
def next (meanwhile : Meanwhile) : Meanwhile := fun place => meanwhile (place + 1)

/-- These events happen in the first place, and the others from the next place on. -/
def before (events : List HostEvent) (later : Meanwhile) : Meanwhile
  | 0, _ => events
  | place + 1, met => later place met

@[simp] theorem next_before (events : List HostEvent) (later : Meanwhile) :
    (before events later).next = later := rfl

end Meanwhile

namespace Host

/-- Do what some actions ask for, one after the other, while these things happen. -/
def performAmid (timing : Timing) : Meanwhile → Host → List Action → Host × Journal
  | meanwhile, host, [] => host.applyAll (meanwhile 0 host)
  | meanwhile, host, action :: rest =>
      let (host, told) := host.applyAll (meanwhile 0 host)
      let (host, first) := host.perform timing action
      let (host, later) := performAmid timing meanwhile.next host rest
      (host, told ++ first ++ later)

/-- Let a player play while these things happen. -/
def conductAmid {α : Type} (timing : Timing) : Meanwhile → Host → Player α → α × Host × Journal
  | meanwhile, host, .done value =>
      let (after, told) := host.applyAll (meanwhile 0 host)
      (value, after, told)
  | meanwhile, host, .ask request next =>
      let (met, told) := host.applyAll (meanwhile 0 host)
      let (left, first) := met.serve timing request
      let (value, after, later) :=
        conductAmid timing meanwhile.next left (next (met.answer request))
      (value, after, told ++ first ++ later)

/-- Run the text of a macro while these things happen. -/
def runTextAmid (timing : Timing) (meanwhile : Meanwhile) (host : Host) (kind : Kind)
    (text : String) : Run :=
  host.runReading kind (Plan.ofMacro kind text) fun plan =>
    (conductAmid timing meanwhile host (host.opening (plan.player timing))).2

/-! ## Playing -/

section Playing

variable (timing : Timing) (meanwhile : Meanwhile) (host : Host)

theorem performAmid_cons (action : Action) (rest : List Action) :
    let met := (host.applyAll (meanwhile 0 host)).1
    performAmid timing meanwhile host (action :: rest) =
      ((performAmid timing meanwhile.next (met.perform timing action).1 rest).1,
        (host.applyAll (meanwhile 0 host)).2 ++ (met.perform timing action).2 ++
          (performAmid timing meanwhile.next (met.perform timing action).1 rest).2) := rfl

/-- Where nothing happens, the actions are performed as ever. -/
theorem performAmid_nothing (actions : List Action) :
    performAmid timing .nothing host actions = host.performAll timing actions := by
  induction actions generalizing host with
  | nil => rfl
  | cons action rest ih =>
      have hrest := ih (host.perform timing action).1
      rw [performAll_cons, ← hrest]
      rfl

/-- A player that heeds no answer plays on while anything happens. -/
theorem conductAmid_performing (actions : List Action) :
    conductAmid timing meanwhile host (.performing actions) =
      ((), performAmid timing meanwhile host actions) := by
  induction actions generalizing meanwhile host with
  | nil => rfl
  | cons action rest ih =>
      have hrest := ih meanwhile.next
        ((host.applyAll (meanwhile 0 host)).1.perform timing action).1
      rw [performAmid_cons]
      simp only [Player.performing, conductAmid, serve, hrest]

/-- So a plan is played by performing its script, whatever happens meanwhile. -/
theorem runTextAmid_eq (kind : Kind) (text : String) :
    runTextAmid timing meanwhile host kind text =
      host.runReading kind (Plan.ofMacro kind text) fun plan =>
        performAmid timing meanwhile host (plan.script timing host.link.lights.numLock) := by
  simp only [runTextAmid, opening_player, conductAmid_performing]

/-- One more event in the first place happens before everything else. -/
theorem performAmid_before_cons (event : HostEvent) (actions : List Action) :
    let met := (host.apply event).1
    performAmid timing (.before (event :: meanwhile 0 met) meanwhile.next) host actions =
      ((performAmid timing meanwhile met actions).1,
        (host.apply event).2 ++ (performAmid timing meanwhile met actions).2) := by
  cases actions with
  | nil => rfl
  | cons action rest =>
      refine Prod.ext rfl ?_
      simp only [performAmid_cons, Meanwhile.next_before, ← List.append_assoc]
      rfl

end Playing

end Host

/-! ## Courses -/

section Courses

variable {timing : Timing} {host after : Host} {actions : List Action} {journal : Journal}

/-- Several events happen before a course. -/
theorem Course.applyAll {events : List HostEvent}
    (h : Course timing (host.applyAll events).1 actions journal after) :
    Course timing host actions ((host.applyAll events).2 ++ journal) after := by
  induction events generalizing host with
  | nil => exact h
  | cons event events ih =>
      have hrest := Course.event event (ih h)
      rw [← List.append_assoc] at hrest
      exact hrest

theorem Host.course_performAmid (timing : Timing) (meanwhile : Meanwhile) (host : Host)
    (actions : List Action) :
    Course timing host actions (host.performAmid timing meanwhile actions).2
      (host.performAmid timing meanwhile actions).1 := by
  induction actions generalizing meanwhile host with
  | nil =>
      have hdone : Course timing (host.applyAll (meanwhile 0 host)).1 [] [] _ := .done _
      have hall := Course.applyAll hdone
      rwa [List.append_nil] at hall
  | cons action rest ih =>
      rw [performAmid_cons, List.append_assoc]
      exact Course.applyAll (.action (ih _ _))

/-- **Every course is played while something happens.** -/
theorem course_iff_exists_performAmid :
    Course timing host actions journal after ↔
      ∃ meanwhile, host.performAmid timing meanwhile actions = (after, journal) := by
  constructor
  · intro h
    induction h with
    | done host => exact ⟨.nothing, rfl⟩
    | @event host _ _ _ event _ ih =>
        -- the event joins what happens in the first place anyway
        obtain ⟨meanwhile, hplayed⟩ := ih
        refine ⟨.before (event :: meanwhile 0 (host.apply event).1) meanwhile.next, ?_⟩
        rw [Host.performAmid_before_cons, hplayed]
    | @action host _ action _ _ _ ih =>
        obtain ⟨meanwhile, hplayed⟩ := ih
        refine ⟨.before [] meanwhile, ?_⟩
        have hmet : host.applyAll (Meanwhile.before [] meanwhile 0 host) = (host, []) := rfl
        rw [Host.performAmid_cons, hmet, Meanwhile.next_before, hplayed, List.nil_append]
  · rintro ⟨meanwhile, hplayed⟩
    have hcourse := host.course_performAmid timing meanwhile actions
    rwa [hplayed] at hcourse

end Courses

/-! ## Runs -/

section Runs

variable {timing : Timing} {host : Host} {kind : Kind} {text : String} {run : Run}

/-- Where nothing happens, the text is run as ever. -/
theorem Host.runTextAmid_nothing :
    host.runTextAmid timing .nothing kind text = host.runText timing kind text := by
  rw [runText_eq, runTextAmid_eq]
  simp only [performAmid_nothing]

/-- **Every run amid events is a run while something happens.** -/
theorem runAmid_iff_exists_runTextAmid :
    RunAmid timing host kind (Plan.ofMacro kind text) run ↔
      ∃ meanwhile, host.runTextAmid timing meanwhile kind text = run := by
  constructor
  · intro h
    cases h with
    | ignored unready => exact ⟨.nothing, Host.runReading_unready unready⟩
    | rejected ready bad => exact ⟨.nothing, Host.runReading_error ready bad⟩
    | played ready good playing =>
        obtain ⟨meanwhile, hplayed⟩ :=
          course_iff_exists_performAmid.1 (performance_player_iff.1 playing)
        refine ⟨meanwhile, ?_⟩
        rw [Host.runTextAmid_eq, Host.runReading_ok ready good, hplayed]
  · rintro ⟨meanwhile, rfl⟩
    rw [Host.runTextAmid_eq]
    exact host.runAmid_runReading timing fun plan =>
      course_iff_exists_performAmid.2 ⟨meanwhile, rfl⟩

end Runs

end MacroPad
