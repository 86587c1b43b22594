/-
`PlayedScript.lean` -- players perform scripts.

A player may do what it likes with the answers that it is given: stop after a report that
failed, send it again, look at the lights once more. The players of plans do nothing of the kind.
What they ask for is the script of the plan, whatever they are told (`Plan.talks_player_iff`): a
hold sequence that holds Alt asks once about NumLock, before everything else, and from there on no
answer makes a difference. So a host that plays a plan performs its script (`Host.runPlan_eq`,
`Host.runText_eq`), and so does one to which other things happen meanwhile.
-/
import MacroPad.Host.Run
import MacroPad.Playback.Script

set_option autoImplicit false

namespace MacroPad

/-! ## Players that heed no answer -/

namespace Player

/-- Ask for some actions, one after the other, and heed no answer. -/
def performing : List Action → Player Unit
  | [] => pure ()
  | action :: rest => ask (.act action) fun _ => performing rest

/-- To perform some actions and then others is to perform all of them. -/
@[simp] theorem performing_bind (first later : List Action) :
    (performing first >>= fun _ => performing later) = performing (first ++ later) := by
  induction first with
  | nil => rfl
  | cons action first ih => exact congrArg (ask (.act action)) (funext fun _ => ih)

@[simp] theorem forM_performing {α : Type} (f : α → List Action) (l : List α) :
    (l.forM fun a => performing (f a)) = performing (l.flatMap f) := by
  induction l with
  | nil => rfl
  | cons a l ih => rw [List.forM, ih, performing_bind, List.flatMap_cons]

theorem press_eq (modifiers : Modifiers) (key : UInt8) :
    press modifiers key = performing [.press modifiers key] := rfl

theorem burst_eq (modifiers : Modifiers) (key : UInt8) :
    burst modifiers key = performing [.send .burst modifiers key] := rfl

theorem note_eq (notice : Notice) : note notice = performing [.note notice] := rfl

/-- A wait of no length is left out. -/
theorem unless_zero_eq (n : UInt32) (wait : Action) :
    (if 0 < n then performing [wait] else pure ()) = performing (if n = 0 then [] else [wait]) := by
  by_cases hzero : n = 0
  · rw [if_pos hzero, hzero]
    rfl
  · rw [if_neg hzero, if_pos (UInt32.pos_iff_ne_zero.2 hzero)]

theorem pause_eq (us : Nat) : pause us = performing (Action.pause us) := unless_zero_eq _ _

theorem tap_eq (modifiers : Modifiers) (key : UInt8) (hold settle : Nat) :
    tap modifiers key hold settle = performing (Action.tap modifiers key hold settle) := by
  simp only [tap, press_eq, pause_eq, performing_bind]
  rfl

/-- Going from one phase to the next is noted, and then the phase is the next one. -/
theorem enter_bind {α : Type} (before after : HoldPhase) (f : HoldPhase → Player α) :
    (enter before after >>= f) = performing [Action.enter before after] >>= fun _ => f after := rfl

end Player

open Player

/-! ## The players of plans -/

section Plans

variable (timing : Timing)

theorem Step.player_eq (step : Step) : step.player timing = performing (step.script timing) := by
  have hwait : (if 0 < step.waitMs then Player.waitMs step.waitMs else pure ()) =
      performing (if step.waitMs = 0 then [] else [.waitMs step.waitMs]) := unless_zero_eq _ _
  rw [Step.player, Step.script, hwait]
  cases step.isPause with
  | true => rfl
  | false =>
      simp only [Bool.false_eq_true, if_false, tap_eq, performing_bind]

theorem characterPlayer_eq (hold rest : Nat) (c : Char) :
    characterPlayer hold rest c = performing (characterScript hold rest c) := by
  unfold characterPlayer characterScript
  cases Chord.ofChar? c with
  | some chord => exact tap_eq _ _ _ _
  | none => rfl

theorem SequenceItem.player_eq (held : Modifiers) (item : SequenceItem) :
    item.player timing held = performing (item.script timing held) := by
  cases item with
  | wait ms => rfl
  | digits ds => simp only [SequenceItem.player, SequenceItem.script, tap_eq, forM_performing]
  | press key extra => exact tap_eq _ _ _ _

theorem HoldContent.player_eq (held : Modifiers) (content : HoldContent) :
    content.player timing held = performing (content.script timing held) := by
  cases content with
  | altCode ds =>
      simp only [HoldContent.player, HoldContent.script, enter_bind, burst_eq, forM_performing,
        bind_pure_unit, performing_bind]
      simp only [List.cons_append, List.nil_append]
  | sequence items =>
      have hitems : SequenceItem.player timing held =
          fun item => performing (item.script timing held) :=
        funext (SequenceItem.player_eq timing held)
      simp only [HoldContent.player, HoldContent.script, enter_bind, press_eq, pause_eq, hitems,
        forM_performing, bind_pure_unit, performing_bind]
      simp only [Action.release, List.cons_append, List.nil_append, List.append_assoc]

theorem numLockToggle_eq : numLockToggle timing = performing (numLockTap timing) := tap_eq _ _ _ _

/-- What a hold sequence asks for depends on the lights only through its one question. -/
theorem holdPlayer_eq (held : Modifiers) (content : HoldContent) :
    holdPlayer timing held content =
      needsNumLock held >>= fun restore => performing
        (if restore then
          .note .numLockTurnedOn :: numLockTap timing ++ Action.pause timing.numLockSettle ++
            content.script timing held ++
            .note .numLockRestored :: Action.pause timing.numLockSettle ++ numLockTap timing
        else content.script timing held) := by
  refine congrArg (needsNumLock held >>= ·) (funext fun restore => ?_)
  rw [HoldContent.player_eq, numLockToggle_eq, pause_eq, note_eq, note_eq]
  cases restore with
  | true =>
      simp only [if_true, performing_bind]
      simp only [List.cons_append, List.nil_append, List.append_assoc]
  | false => simp only [Bool.false_eq_true, if_false, bind_pure_unit]

end Plans

/-! ## Plans that ask about the lights -/

/-- Playing the plan begins with a question about NumLock. -/
def Plan.asksNumLock : Plan → Bool
  | holdSequence held _ => held.hasAlt
  | keystroke _ | typing _ _ | keybind _ _ => false

section Questions

variable {timing : Timing} {plan : Plan}

/-- **A plan that asks** performs its script for the answer, and heeds no answer after that. -/
theorem Plan.player_of_asks (h : plan.asksNumLock = true) :
    plan.player timing = numLockOn >>= fun on => performing (plan.script timing on) := by
  cases plan with
  | holdSequence held content =>
      have halt : held.hasAlt = true := h
      rw [Plan.player, holdPlayer_eq, needsNumLock, if_pos halt, bind_assoc]
      refine congrArg (numLockOn >>= ·) (funext fun on => ?_)
      rw [pure_bind, Plan.script, withNumLock, halt, Bool.true_and]
  | keystroke _ | typing _ _ | keybind _ _ => contradiction

/-- **A plan that asks nothing** performs the same script whatever the lights are. -/
theorem Plan.player_of_not_asks (h : plan.asksNumLock = false) (numLock : Bool) :
    plan.player timing = performing (plan.script timing numLock) := by
  cases plan with
  | keystroke steps =>
      have hsteps : Step.player timing = fun step => performing (step.script timing) :=
        funext (Step.player_eq timing)
      rw [Plan.player, hsteps, forM_performing, Plan.script]
  | typing text perSecond =>
      have hcharacters : characterPlayer timing.typingHold (timing.restAfterCharacter perSecond) =
          fun c => performing (characterScript timing.typingHold
            (timing.restAfterCharacter perSecond) c) :=
        funext (characterPlayer_eq _ _)
      rw [Plan.player, hcharacters, forM_performing, Plan.script]
  | keybind key modifiers => exact tap_eq _ _ _ _
  | holdSequence held content =>
      have hfree : held.hasAlt = false := h
      have hplain : needsNumLock held = pure false := by
        rw [needsNumLock, hfree]
        rfl
      rw [Plan.player, holdPlayer_eq, hplain, pure_bind, Plan.script, withNumLock, hfree]
      rfl

end Questions

/-! ## Whatever is answered -/

/-- A request with an answer to it. -/
structure Exchange where
  request : Request
  answer : request.Answer

/-- A player asks and is answered, in one way or another, until it is done. -/
inductive Player.Talks {α : Type} : Player α → List Exchange → α → Prop
  | done (value : α) : Talks (.done value) [] value
  | ask {request : Request} {next : request.Answer → Player α} {talk : List Exchange} {value : α}
      (answer : request.Answer) (rest : Talks (next answer) talk value) :
      Talks (.ask request next) (⟨request, answer⟩ :: talk) value

/-- The questions of a plan, with the answer. -/
def Plan.questions (plan : Plan) (numLock : Bool) : List Exchange :=
  if plan.asksNumLock then [⟨.numLockOn, numLock⟩] else []

section Talks

variable {talk : List Exchange}

/-- To perform some actions is to ask for them in turn, with any answers at all. -/
theorem Player.talks_performing_iff {actions : List Action} :
    (performing actions).Talks talk () ↔ talk.map Exchange.request = actions.map Request.act := by
  induction actions generalizing talk with
  | nil =>
      constructor
      · rintro ⟨⟩
        rfl
      · intro h
        obtain rfl := List.map_eq_nil_iff.1 h
        exact .done ()
  | cons action actions ih =>
      constructor
      · rintro (_ | ⟨answer, rest⟩)
        exact congrArg (Request.act action :: ·) (ih.1 rest)
      · intro h
        obtain ⟨⟨request, answer⟩, rest, rfl, hrequest, hrest⟩ := List.map_eq_cons_iff.1 h
        obtain rfl : request = .act action := hrequest
        exact .ask answer (ih.2 hrest)

theorem Player.talks_numLockOn_bind_iff {α : Type} {f : Bool → Player α} {value : α} :
    (numLockOn >>= f).Talks talk value ↔
      ∃ (on : Bool) (rest : List Exchange), talk = ⟨.numLockOn, on⟩ :: rest ∧
        (f on).Talks rest value := by
  constructor
  · rintro (_ | ⟨answer, rest⟩)
    exact ⟨answer, _, rfl, rest⟩
  · rintro ⟨on, rest, rfl, htalk⟩
    exact @Talks.ask α .numLockOn f rest value on htalk

/-- **Plans heed no answer but that about the lights.** To play a plan is to ask its question, if
it has one, and then for its script, whatever is answered: nothing is left out because a report
failed, nothing is asked for twice or in its place, and no answer stops the player. -/
theorem Plan.talks_player_iff {timing : Timing} {plan : Plan} :
    (plan.player timing).Talks talk () ↔
      ∃ (numLock : Bool) (rest : List Exchange), talk = plan.questions numLock ++ rest ∧
        rest.map Exchange.request = (plan.script timing numLock).map Request.act := by
  unfold Plan.questions
  cases hasks : plan.asksNumLock with
  | true => simp only [player_of_asks hasks, talks_numLockOn_bind_iff, talks_performing_iff,
      if_true, List.singleton_append]
  | false =>
      simp only [Bool.false_eq_true, if_false, List.nil_append]
      constructor
      · intro h
        rw [player_of_not_asks hasks false, talks_performing_iff] at h
        exact ⟨false, talk, rfl, h⟩
      · rintro ⟨numLock, rest, rfl, h⟩
        rwa [player_of_not_asks hasks numLock, talks_performing_iff]

end Talks

/-! ## Playing on a host -/

namespace Host

/-- Answer the first questions of a player at once. -/
def opening {α : Type} (host : Host) : Player α → Player α
  | .ask .isReady next => host.opening (next host.link.ready)
  | .ask .numLockOn next => host.opening (next host.link.lights.numLock)
  | .ask (.act action) next => .ask (.act action) next
  | .done value => .done value

section Conduct

variable {α β : Type} (timing : Timing) (host : Host)

/-- **The opening of a plan.** Once the question about the lights is answered, what is left to do
is the script. -/
theorem opening_player (plan : Plan) :
    host.opening (plan.player timing) =
      performing (plan.script timing host.link.lights.numLock) := by
  have hperforming : ∀ actions, host.opening (performing actions) = performing actions := by
    intro actions
    cases actions with
    | nil => rfl
    | cons _ _ => rfl
  cases hasks : plan.asksNumLock with
  | true =>
      rw [Plan.player_of_asks hasks]
      exact hperforming _
  | false => rw [Plan.player_of_not_asks hasks host.link.lights.numLock, hperforming]

theorem conduct_opening (player : Player α) :
    host.conduct timing (host.opening player) = host.conduct timing player := by
  induction player with
  | done value => rfl
  | ask request next ih =>
      cases request with
      | act action => rfl
      | isReady => exact ih _
      | numLockOn => exact ih _

theorem conduct_performing (actions : List Action) :
    host.conduct timing (performing actions) = ((), host.performAll timing actions) := by
  induction actions generalizing host with
  | nil => rfl
  | cons action actions ih =>
      simp only [performing, conduct_ask, serve, ih, performAll_cons]

theorem conduct_bind (player : Player α) (f : α → Player β) :
    host.conduct timing (player >>= f) =
      let first := host.conduct timing player
      let last := first.2.1.conduct timing (f first.1)
      (last.1, last.2.1, first.2.2 ++ last.2.2) := by
  induction player generalizing host with
  | done value => rfl
  | ask request next ih =>
      have hrest := ih (host.answer request) (host.serve timing request).1
      have hbind : (Player.ask request next >>= f) = .ask request fun answer => next answer >>= f :=
        rfl
      simp only [hbind, conduct_ask, hrest, List.append_assoc]

/-- **A host that plays a plan performs its script.** -/
theorem conduct_player (plan : Plan) :
    host.conduct timing (plan.player timing) =
      ((), host.performAll timing (plan.script timing host.link.lights.numLock)) := by
  rw [← conduct_opening, opening_player, conduct_performing]

end Conduct

/-! ## Runs -/

/-- Turn down a macro because the host is not ready. -/
def ignore (host : Host) (kind : Kind) : Run :=
  ⟨host, [.note (.macroIgnored kind)], .error .notReady⟩

/-- Run what is read of the text of a macro, where `play` is how its plan is played. -/
def runReading (host : Host) (kind : Kind) (reading : Reading Plan)
    (play : Plan → Host × Journal) : Run :=
  if host.link.ready then
    match reading.result with
    | .error fault =>
        ⟨host, reading.notices.map .note ++ [.note (.macroRejected kind fault)],
          .error (.rejected fault)⟩
    | .ok plan => ⟨(play plan).1, reading.notices.map .note ++ (play plan).2, .ok ()⟩
  else host.ignore kind

section Runs

variable (timing : Timing) {host : Host} {kind : Kind} {reading : Reading Plan}
  {play : Plan → Host × Journal}

theorem runReading_unready (unready : host.link.ready = false) :
    host.runReading kind reading play = host.ignore kind := by
  rw [runReading, unready]
  rfl

theorem runReading_error {fault : GrammarFault} (ready : host.link.ready = true)
    (bad : reading.result = .error fault) :
    host.runReading kind reading play =
      ⟨host, reading.notices.map .note ++ [.note (.macroRejected kind fault)],
        .error (.rejected fault)⟩ := by
  rw [runReading, if_pos ready, bad]

theorem runReading_ok {plan : Plan} (ready : host.link.ready = true)
    (good : reading.result = .ok plan) :
    host.runReading kind reading play =
      ⟨(play plan).1, reading.notices.map .note ++ (play plan).2, .ok ()⟩ := by
  rw [runReading, if_pos ready, good]

/-- A player that first asks whether the host is ready. -/
theorem run_whenReady (player : Player (Except RunFault Unit)) :
    host.run timing (whenReady kind player) =
      if host.link.ready then host.run timing player else host.ignore kind := by
  have hasked : host.run timing (whenReady kind player) =
      host.run timing (if host.link.ready then player
        else note (.macroIgnored kind) >>= fun _ => pure (.error .notReady)) := rfl
  rw [hasked]
  cases host.link.ready with
  | true => rfl
  | false => rfl

/-- Notices stand in front of what is recorded after them. -/
theorem run_notes (notices : List Notice) (player : Player (Except RunFault Unit)) :
    host.run timing (notices.forM note >>= fun _ => player) =
      let run := host.run timing player
      { run with journal := notices.map .note ++ run.journal } := by
  induction notices with
  | nil => rfl
  | cons notice notices ih =>
      have hnote (player : Player (Except RunFault Unit)) :
          host.run timing (note notice >>= fun _ => player) =
            let run := host.run timing player
            { run with journal := .note notice :: run.journal } := rfl
      rw [List.forM, bind_assoc, hnote, ih]
      rfl

theorem run_player (plan : Plan) :
    host.run timing (plan.player timing >>= fun _ => pure (.ok ())) =
      let (after, journal) := host.performAll timing (plan.script timing host.link.lights.numLock)
      ⟨after, journal, .ok ()⟩ := by
  have hdone (left : Host) : left.conduct timing (pure (.ok ()) : Player (Except RunFault Unit)) =
      (.ok (), left, []) := rfl
  simp only [run, conduct_bind, conduct_player, hdone, List.append_nil]

variable (host)

/-- **Running a plan** performs its script if the host is ready. -/
theorem runPlan_eq (plan : Plan) :
    host.runPlan timing plan =
      host.runReading plan.kind (.silent (.ok plan)) fun plan =>
        host.performAll timing (plan.script timing host.link.lights.numLock) := by
  rw [runPlan, Player.runPlan, run_whenReady, run_player]
  rfl

/-- **Running the text of a macro** performs the script of what is read. -/
theorem runText_eq (kind : Kind) (text : String) :
    host.runText timing kind text =
      host.runReading kind (Plan.ofMacro kind text) fun plan =>
        host.performAll timing (plan.script timing host.link.lights.numLock) := by
  rw [runText, Player.runText, run_whenReady, run_notes]
  cases hresult : (Plan.ofMacro kind text).result with
  | error fault =>
      rw [runReading, hresult]
      rfl
  | ok plan =>
      rw [runReading, hresult]
      simp only [run_player]

end Runs

end Host

end MacroPad
