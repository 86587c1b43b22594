/-
`DirectRuns.lean` -- macros run on request, amid given events.

A course leaves open what happens on the side of the host. Here the events are given: they
happen in their order, each at some moment before, between or after the actions, and nothing
else happens but what the agenda holds. A macro *runs directly* amid events if it is played
in such a course, or turned away at once; without events this is the run on request. Macros
can be run directly one after the other, and then the events of all of them add up.
-/
import Mathlib.Data.List.Induction
import MacroPad.Proofs.Endings

set_option autoImplicit false

namespace MacroPad

/-! ## Courses amid given events -/

/-- A course in which these events happen and no others, apart from those of the agenda. -/
inductive CourseAmid (timing : Timing) :
    List HostEvent → Host → List Action → Journal → Host → Prop
  | done (host : Host) : CourseAmid timing [] host [] [] host
  | event {events : List HostEvent} {host met : Host} {actions : List Action} {journal : Journal}
      (before : CourseAmid timing events host actions journal met) (event : HostEvent) :
      CourseAmid timing (events ++ [event]) host actions (journal ++ (met.apply event).2)
        (met.apply event).1
  | action {events : List HostEvent} {host met : Host} {actions : List Action} {journal : Journal}
      (before : CourseAmid timing events host actions journal met) (action : Action) :
      CourseAmid timing events host (actions ++ [action])
        (journal ++ (met.perform timing action).2) (met.perform timing action).1

/-- A course goes on where another one ends. -/
theorem Course.trans {timing : Timing} {host met after : Host} {first later : List Action}
    {journal rest : Journal} (h₁ : Course timing host first journal met)
    (h₂ : Course timing met later rest after) :
    Course timing host (first ++ later) (journal ++ rest) after := by
  induction h₁ with
  | done _ => exact h₂
  | event event _ ih =>
      rw [List.append_assoc]
      exact .event event (ih h₂)
  | action _ ih =>
      rw [List.append_assoc]
      exact .action (ih h₂)

section Courses

variable {timing : Timing} {host after : Host} {events : List HostEvent}
  {actions : List Action} {journal : Journal}

theorem CourseAmid.course (h : CourseAmid timing events host actions journal after) :
    Course timing host actions journal after := by
  induction h with
  | done host => exact .done host
  | event _ event ih =>
      have hlast := ih.trans (.event event (.done _))
      rwa [List.append_nil, List.append_nil] at hlast
  | @action _ _ met _ _ _ action ih =>
      have haction : Course timing met [action] ((met.perform timing action).2 ++ []) _ :=
        .action (.done _)
      have hlast := ih.trans haction
      rwa [List.append_nil] at hlast

/-- Where nothing happens, a course performs its actions. -/
theorem courseAmid_nil_iff : CourseAmid timing [] host actions journal after ↔
    host.performAll timing actions = (after, journal) := by
  constructor
  · intro h
    generalize hnone : ([] : List HostEvent) = events at h
    induction h with
    | done host => rfl
    | event _ event _ => exact absurd hnone (by simp)
    | action _ action ih =>
        rw [Host.performAll_append, ih hnone, Host.performAll_cons, Host.performAll_nil,
          List.append_nil]
  · intro h
    induction actions using List.reverseRecOn generalizing after journal with
    | nil =>
        obtain ⟨rfl, rfl⟩ := Prod.mk.inj h
        exact .done host
    | append_singleton actions action ih =>
        rw [Host.performAll_append, Host.performAll_cons, Host.performAll_nil,
          List.append_nil] at h
        obtain ⟨rfl, rfl⟩ := Prod.mk.inj h
        exact .action (ih rfl) action

end Courses

/-! ## Direct runs -/

/-- A macro is run directly on a host that it meets. It is turned away at once, or it is
played amid events. -/
inductive RunsDirectly (timing : Timing) (met : Host) (message : Message) :
    List HostEvent → Run → Prop
  | turnedAway {run : Run} {fault : RunFault}
      (hrun : run = met.runText timing message.kind message.payload.text)
      (hfault : run.result = .error fault) : RunsDirectly timing met message [] run
  | played {events : List HostEvent} {plan : Plan} {journal : Journal} {left : Host}
      (ready : met.link.ready = true)
      (good : (Plan.ofMacro message.kind message.payload.text).result = .ok plan)
      (course : CourseAmid timing events met (plan.script timing met.link.lights.numLock)
        journal left) :
      RunsDirectly timing met message events
        ⟨left, (Plan.ofMacro message.kind message.payload.text).notices.map Entry.note ++ journal,
          .ok ()⟩

section Direct

variable {timing : Timing} {met : Host} {events : List HostEvent} {message : Message} {run : Run}

theorem RunsDirectly.runAmid (h : RunsDirectly timing met message events run) :
    RunAmid timing met message.kind (Plan.ofMacro message.kind message.payload.text) run := by
  cases h with
  | turnedAway hrun _ =>
      rw [hrun]
      exact met.runAmid_runText timing message.kind message.payload.text
  | played ready good course =>
      exact .played ready good (performance_player_iff.2 course.course)

/-- **Where nothing happens, a direct run is the run on request.** -/
theorem runsDirectly_nil_iff : RunsDirectly timing met message [] run ↔
    run = met.runText timing message.kind message.payload.text := by
  constructor
  · intro h
    cases h with
    | turnedAway hrun _ => exact hrun
    | played ready good course =>
        have hall := courseAmid_nil_iff.1 course
        rw [Host.runText_eq, Host.runReading_ok ready good, hall]
  · rintro rfl
    cases hresult : (met.runText timing message.kind message.payload.text).result with
    | error fault => exact .turnedAway rfl hresult
    | ok _ =>
        have hends := (met.runAmid_runText timing message.kind message.payload.text).endsRight
        obtain ⟨hready, plan, hplan⟩ := hends.played.1 hresult
        have hplayed : RunsDirectly timing met message [] _ :=
          .played hready hplan (courseAmid_nil_iff.2 rfl)
        rw [Host.runText_eq, Host.runReading_ok hready hplan]
        exact hplayed

end Direct

/-! ## One run after another -/

/-- A macro that is over, with its run. -/
structure Job where
  message : Message
  run : Run

/-- Macros are run directly on a host, one after the other, and these events happen to the
host before, between, in and after the runs. -/
inductive RunsInTurn (timing : Timing) (host : Host) : List HostEvent → List Job → Host → Prop
  | start : RunsInTurn timing host [] [] host
  | event {events : List HostEvent} {jobs : List Job} {met : Host}
      (before : RunsInTurn timing host events jobs met) (event : HostEvent) :
      RunsInTurn timing host (events ++ [event]) jobs (met.apply event).1
  | run {events during : List HostEvent} {jobs : List Job} {met : Host} {message : Message}
      {run : Run} (before : RunsInTurn timing host events jobs met)
      (hrun : RunsDirectly timing met message during run) :
      RunsInTurn timing host (events ++ during) (jobs ++ [⟨message, run⟩]) run.host

/-- What holds of every run holds of each of them. -/
theorem RunsInTurn.exists_runAmid {timing : Timing} {host after : Host}
    {events : List HostEvent} {jobs : List Job} (h : RunsInTurn timing host events jobs after) :
    ∀ job ∈ jobs, ∃ met, RunAmid timing met job.message.kind
      (Plan.ofMacro job.message.kind job.message.payload.text) job.run := by
  induction h with
  | start => exact fun _ hmem => absurd hmem List.not_mem_nil
  | event _ _ ih => exact ih
  | @run _ _ _ met _ _ _ hrun ih =>
      refine List.forall_mem_append.2 ⟨ih, List.forall_mem_singleton.2 ⟨met, ?_⟩⟩
      exact hrun.runAmid

end MacroPad
