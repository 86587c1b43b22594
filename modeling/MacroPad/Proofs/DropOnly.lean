/-
`DropOnly.lean` -- a bad link costs reports and nothing else.

Two runs of one plan may meet quite different hosts. If both start, with the
lights in the same state, they ask for the same reports and the same waits in the
same order, whatever becomes of each report. The player is told what became of it and
could act on that, but it does not: it goes through its script whatever it is told. A
report that is refused or skipped is gone: it is not asked for again, and nothing is
asked for in its place. So what reaches the host is what would reach it over a perfect
link, with some reports missing.
-/
import MacroPad.Proofs.Course

set_option autoImplicit false

namespace MacroPad

/-! ## The perfect link -/

namespace Host

/-- The host as it is now, with nothing more to happen on its side and a writer
that accepts every report. -/
def onPerfectLink (host : Host) : Host := { host with fault := none, agenda := [] }

/-- The link is perfect and stays so. -/
structure Perfect (host : Host) : Prop where
  ready : host.link.ready = true
  accepts : host.fault = none
  quiet : host.agenda = []

namespace Perfect

variable {host : Host} (timing : Timing)

theorem onPerfectLink (h : host.link.ready = true) : host.onPerfectLink.Perfect := ⟨h, rfl, rfl⟩

/-- Time passes on a perfect link without anything else happening. -/
theorem elapse_eq (h : host.Perfect) (us : Nat) :
    host.elapse us = ({ host with clock := host.clock + us }, []) := by
  obtain ⟨link, fault, clock, agenda, attempts, drops⟩ := host
  obtain rfl : agenda = [] := h.quiet
  rfl

theorem elapse (h : host.Perfect) (us : Nat) : (host.elapse us).1.Perfect := by
  rw [h.elapse_eq]
  exact ⟨h.ready, h.accepts, h.quiet⟩

/-- One action leaves a perfect link perfect, and its report is accepted. -/
theorem perform (h : host.Perfect) (action : Action) :
    (host.perform timing action).1.Perfect ∧
      Journal.AllAccepted (host.perform timing action).2 := by
  cases action with
  | send channel modifiers key =>
      have hfate : host.fate = .accepted := by simp [fate, h.ready, h.accepts]
      have hwritten : Perfect { host with attempts := host.attempts + 1 } :=
        ⟨h.ready, h.accepts, h.quiet⟩
      simp only [Host.perform, Host.send, hfate]
      refine ⟨hwritten.elapse _, ?_⟩
      rw [hwritten.elapse_eq]
      simp [Journal.AllAccepted, Journal.fates, Entry.fate?]
  | waitUs us =>
      refine ⟨h.elapse us.toNat, ?_⟩
      simp [Host.perform, h.elapse_eq, Journal.AllAccepted, Journal.fates, Entry.fate?]
  | waitMs ms =>
      refine ⟨h.elapse (1000 * ms.toNat), ?_⟩
      simp [Host.perform, h.elapse_eq, Journal.AllAccepted, Journal.fates, Entry.fate?]
  | note notice => exact ⟨h, by simp [Host.perform, Journal.AllAccepted, Journal.fates, Entry.fate?]⟩

theorem performAll_allAccepted (h : host.Perfect) (actions : List Action) :
    Journal.AllAccepted (host.performAll timing actions).2 := by
  induction actions generalizing host with
  | nil => simp [Journal.AllAccepted, Journal.fates]
  | cons action actions ih =>
      obtain ⟨hnext, hfirst⟩ := h.perform timing action
      rw [performAll_cons]
      exact (Journal.allAccepted_append _ _).2 ⟨hfirst, ih hnext⟩

/-- Over a perfect link the host gets every report of the plan. -/
theorem reports_runPlan (h : host.Perfect) (plan : Plan) :
    (host.runPlan timing plan).journal.reports =
      Action.reports (plan.script timing host.link.lights.numLock) := by
  rw [runPlan_eq, runReading_ok h.ready rfl]
  exact (h.performAll_allAccepted timing _).reports_eq.trans
    (Course.performAll host _).requested_eq

end Perfect

end Host

/-! ## Runs that start -/

/-- A run of a plan that passed the check of the host, amid events. The plan was
handed in or read from a text. -/
def PlaysAmid (timing : Timing) (host : Host) (plan : Plan) (run : Run) : Prop :=
  host.link.ready = true ∧ ∃ (kind : Kind) (reading : Reading Plan),
    reading.result = .ok plan ∧ RunAmid timing host kind reading run

/-- Each report that some actions ask for is delivered exactly once: a course
comes to it through the actions before it, delivers it to the host that it meets
there, and goes on with the actions after it. -/
def DeliversEach (timing : Timing) (host : Host) (actions : List Action) (journal : Journal)
    (after : Host) : Prop :=
  ∀ (before later : List Action) (channel : Channel) (modifiers : Modifiers) (key : UInt8),
    actions = before ++ .send channel modifiers key :: later →
      ∃ (met left : Host) (first block rest : Journal),
        Course timing host before first met ∧
          Delivery timing channel modifiers key met block left ∧
            Course timing left later rest after ∧ journal = first ++ block ++ rest

theorem Course.deliversEach {timing : Timing} {host after : Host} {actions : List Action}
    {journal : Journal} (h : Course timing host actions journal after) :
    DeliversEach timing host actions journal after := by
  rintro before later channel modifiers key rfl
  obtain ⟨met, first, rest, hfirst, hjournal, hrest⟩ := h.exists_met
  exact ⟨met, _, first, _, rest, hfirst, met.delivery_send timing channel modifiers key, hrest,
    hjournal⟩

namespace PlaysAmid

variable {timing : Timing} {host : Host} {plan : Plan} {run : Run}

/-- A plan that is handed in to a host that is ready is played. -/
theorem runPlan (timing : Timing) (plan : Plan) (h : host.link.ready = true) :
    PlaysAmid timing host plan (host.runPlan timing plan) :=
  ⟨h, plan.kind, .silent (.ok plan), rfl, host.runAmid_runPlan timing plan⟩

/-- A text that reads as a plan is played on a host that is ready. -/
theorem runText {kind : Kind} {text : String} (h : host.link.ready = true)
    (hplan : (Plan.ofMacro kind text).result = .ok plan) :
    PlaysAmid timing host plan (host.runText timing kind text) :=
  ⟨h, kind, Plan.ofMacro kind text, hplan, host.runAmid_runText timing kind text⟩

/-- Such a run is a course of the script, after the notices of the grammar. -/
theorem exists_course (h : PlaysAmid timing host plan run) :
    ∃ (notices : List Notice) (journal : Journal),
      run.journal = notices.map Entry.note ++ journal ∧
        Course timing host (plan.script timing host.link.lights.numLock) journal run.host := by
  obtain ⟨hready, kind, reading, hplan, hrun⟩ := h
  cases hrun with
  | ignored unready => exact absurd (hready.symm.trans unready) (by decide)
  | rejected _ bad => exact absurd (hplan.symm.trans bad) (by simp)
  | played _ good playing =>
      obtain rfl := Except.ok.inj (hplan.symm.trans good)
      exact ⟨reading.notices, _, rfl, performance_player_iff.1 playing⟩

end PlaysAmid

/-! ## The law -/

/-- **A bad link only drops reports.** What a player asks for is the script of its plan, whatever
it is told of its reports: only the answer to its question about the lights, asked before
everything else, makes a difference. So two runs of one plan that start with the lights in the
same state ask for the same reports and waits in the same order. Each report is delivered exactly
once, to be accepted, refused or skipped. What reaches the host is a part, in its order, of what
reaches it over a perfect link. -/
theorem play_drops_only {timing : Timing} {plan : Plan} {host₁ host₂ : Host} {run₁ run₂ : Run}
    (h₁ : PlaysAmid timing host₁ plan run₁) (h₂ : PlaysAmid timing host₂ plan run₂)
    (hlights : host₁.link.lights.numLock = host₂.link.lights.numLock) :
    (∀ talk : List Exchange, (plan.player timing).Talks talk () ↔
        ∃ (numLock : Bool) (rest : List Exchange), talk = plan.questions numLock ++ rest ∧
          rest.map Exchange.request = (plan.script timing numLock).map Request.act) ∧
      run₁.journal.actions = run₂.journal.actions ∧
      (∃ (notices : List Notice) (journal : Journal),
        run₁.journal = notices.map Entry.note ++ journal ∧
          DeliversEach timing host₁ (plan.script timing host₁.link.lights.numLock) journal
            run₁.host) ∧
      run₁.journal.reports.Sublist (host₁.onPerfectLink.runPlan timing plan).journal.reports := by
  obtain ⟨notices₁, journal₁, hj₁, course₁⟩ := h₁.exists_course
  obtain ⟨notices₂, journal₂, hj₂, course₂⟩ := h₂.exists_course
  refine ⟨fun talk => Plan.talks_player_iff, ?_, ⟨notices₁, journal₁, hj₁, course₁.deliversEach⟩, ?_⟩
  · -- the lights are the same, so the two courses follow one script
    rw [hj₁, hj₂, Journal.actions_append, Journal.actions_append, Journal.actions_map_note,
      Journal.actions_map_note, course₁.actions_eq, course₂.actions_eq, hlights]
  · have hperfect : host₁.onPerfectLink.Perfect := Host.Perfect.onPerfectLink h₁.1
    rw [hperfect.reports_runPlan]
    have hsub := Journal.reports_sublist_requested journal₁
    rw [course₁.requested_eq] at hsub
    rw [hj₁, Journal.reports_append, Journal.reports, Journal.arrivals_map_note]
    exact hsub

/-- One digit of a number. One host takes the first tap of NumLock only in part, is gone while the
number is typed and is there again for the second tap; another one refuses everything. -/
theorem play_drops_only_unplugged :
    let plan := Plan.holdSequence (.only .leftAlt) (.altCode [49])
    let leaving := Host.start Link.start.listening
      [⟨10000, .writer (some .notificationFailed)⟩, ⟨30000, .link .disconnect⟩,
        ⟨60000, .writer none⟩, ⟨60000, .link .connect⟩, ⟨60000, .link (.countSubscriptions 1)⟩]
    let refusing := { Host.start Link.start.listening [] with fault := some .notificationFailed }
    let run := leaving.runPlan .standard plan
    leaving.link.ready = true ∧ refusing.link.ready = true ∧
      leaving.link.lights.numLock = refusing.link.lights.numLock ∧
      (∀ rest : List Exchange,
        rest.map Exchange.request = (plan.script .standard false).map Request.act →
          (plan.player .standard).Talks (⟨.numLockOn, false⟩ :: rest) ()) ∧
      run.journal.actions = (refusing.runPlan .standard plan).journal.actions ∧
      run.journal.fates =
        [.accepted, .refused .notificationFailed, .skipped, .skipped, .skipped, .skipped, .accepted,
          .accepted] ∧
      (∃ (notices : List Notice) (journal : Journal),
        run.journal = notices.map Entry.note ++ journal ∧
          DeliversEach .standard leaving (plan.script .standard false) journal run.host) ∧
      run.journal.reports = [.press .none 0x53, .press .none 0x53, .release] ∧
      run.journal.reports.Sublist (leaving.onPerfectLink.runPlan .standard plan).journal.reports := by
  intro plan leaving refusing run
  obtain ⟨htalks, hactions, hdelivers, hreports⟩ :=
    play_drops_only (PlaysAmid.runPlan .standard plan (show leaving.link.ready from rfl))
      (PlaysAmid.runPlan .standard plan (show refusing.link.ready from rfl)) rfl
  have hoff : leaving.link.lights.numLock = false := by decide
  rw [hoff] at hdelivers
  refine ⟨rfl, rfl, rfl, fun rest hrest => (htalks _).2 ⟨false, rest, rfl, hrest⟩, hactions, ?_,
    hdelivers, ?_, hreports⟩
  · decide +kernel
  · decide +kernel

end MacroPad
