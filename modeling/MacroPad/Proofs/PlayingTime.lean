/-
`PlayingTime.lean` -- how long playing takes.

The clock moves only in waits and while accepted reports are paced. The waits of a plan are
fixed before its first report, so they take the same time whatever becomes of the reports.
Every accepted report adds the pause of its channel to that, and a report that is lost adds
nothing. What the waits of each plan come to is written down as one formula, with every
duration cut once, at the largest amount. The time that a character takes up is a sum in 64
bits; where it fits, the formula is in plain numbers (`Plan.waiting_typing`).
-/
import Mathlib.Algebra.BigOperators.Ring.List
import Mathlib.Algebra.Ring.Nat
import MacroPad.Proofs.Bytes
import MacroPad.Proofs.DropOnly
import MacroPad.Proofs.NumLockBracket

set_option autoImplicit false

namespace MacroPad

/-! ## What plans wait for -/

/-- A duration as it is waited out. -/
def dwell (us : Nat) : Nat := min us 0xFFFFFFFF

theorem toNat_ofNat_eq_dwell (us : Nat) : (Capped.ofNat us).toNat = dwell us :=
  Capped.toNat_ofNat us

/-- How many times an item taps a key. -/
def SequenceItem.taps : SequenceItem → Nat
  | wait _ => 0
  | digits ds => ds.countP isDigitByte
  | press _ _ => 1

/-- The milliseconds that an item waits. -/
def SequenceItem.waitMs : SequenceItem → Nat
  | wait ms => ms.toNat
  | digits _ | press _ _ => 0

/-- The waits of what is played while modifiers are held, in microseconds. A burst has none. -/
def HoldContent.waiting (timing : Timing) : HoldContent → Nat
  | altCode _ => 0
  | sequence items =>
      2 * dwell timing.modifierSettle + 1000 * (items.map SequenceItem.waitMs).sum +
        (items.map SequenceItem.taps).sum *
          (dwell timing.sequenceHold + dwell timing.keySettle)

/-- The waits of a plan, in microseconds, on a host with NumLock on or off. -/
def Plan.waiting (timing : Timing) (numLock : Bool) : Plan → Nat
  | keystroke steps =>
      steps.countP (fun step => !step.isPause) * (dwell timing.keyHold + dwell timing.keySettle) +
        1000 * (steps.map fun step => step.waitMs.toNat).sum
  | typing text perSecond =>
      text.toList.countP (fun c => (Chord.ofChar? c).isSome) *
        (dwell timing.typingHold + (1000000 / max perSecond.toNat 1 - timing.typingTime))
  | keybind _ _ => dwell timing.keyHold + dwell timing.keySettle
  | holdSequence held content =>
      (if held.HoldsAlt ∧ numLock = false then
        2 * dwell timing.numLockHold + 2 * dwell timing.keySettle + 2 * dwell timing.numLockSettle
      else 0) + content.waiting timing

/-- The waits of typing, where the time that a character takes up can be counted. -/
theorem Plan.waiting_typing {timing : Timing} (h : timing.FitsTyping) (numLock : Bool)
    (text : String) (perSecond : UInt8) :
    (Plan.typing text perSecond).waiting timing numLock =
      text.toList.countP (fun c => (Chord.ofChar? c).isSome) *
        (dwell timing.typingHold +
          (1000000 / max perSecond.toNat 1 - (timing.typingHold + 2 * timing.pacing))) := by
  rw [Plan.waiting, Timing.typingTime_eq h]

/-! ## What actions wait for -/

namespace Action

/-- The time of an action in which nothing is paced. -/
def waitTime : Action → Nat
  | send _ _ _ | note _ => 0
  | waitUs us => us.toNat
  | waitMs ms => 1000 * ms.toNat

/-- The time of some actions in which nothing is paced. -/
def waiting (actions : List Action) : Nat := (actions.map waitTime).sum

@[simp] theorem waiting_nil : waiting [] = 0 := rfl

@[simp] theorem waiting_cons (action : Action) (actions : List Action) :
    waiting (action :: actions) = action.waitTime + waiting actions :=
  rfl

@[simp] theorem waiting_append (first later : List Action) :
    waiting (first ++ later) = waiting first + waiting later := by
  rw [waiting, List.map_append, List.sum_append, waiting, waiting]

theorem waiting_flatMap {α : Type} (f : α → List Action) (l : List α) :
    waiting (l.flatMap f) = (l.map fun a => waiting (f a)).sum := by
  induction l with
  | nil => rfl
  | cons a l ih => rw [List.flatMap_cons, waiting_append, ih, List.map_cons, List.sum_cons]

@[simp] theorem waitTime_send (channel : Channel) (modifiers : Modifiers) (key : UInt8) :
    (send channel modifiers key).waitTime = 0 :=
  rfl

@[simp] theorem waitTime_note (notice : Notice) : (note notice).waitTime = 0 := rfl

@[simp] theorem waitTime_press (modifiers : Modifiers) (key : UInt8) :
    (press modifiers key).waitTime = 0 :=
  rfl

@[simp] theorem waitTime_release : release.waitTime = 0 := rfl

@[simp] theorem waitTime_enter (before after : HoldPhase) : (enter before after).waitTime = 0 := rfl

/-- A pause that is left out would not have taken time. -/
@[simp] theorem waiting_pause (us : Nat) : waiting (pause us) = dwell us := by
  unfold pause
  split
  · next hzero =>
      rw [← toNat_ofNat_eq_dwell, hzero]
      rfl
  · rw [← toNat_ofNat_eq_dwell]
    rfl

@[simp] theorem waiting_tap (modifiers : Modifiers) (key : UInt8) (hold settle : Nat) :
    waiting (tap modifiers key hold settle) = dwell hold + dwell settle := by
  simp [tap]

end Action

/-! ## What scripts wait for -/

theorem keypadUsage?_isSome (byte : UInt8) : (keypadUsage? byte).isSome = isDigitByte byte := by
  rw [keypadUsage?_eq, Option.isSome_map, digitOfByte?, isDigitByte, ← Bool.decide_and]
  split
  · next hdigit => exact (decide_eq_true hdigit).symm
  · next hdigit => exact (decide_eq_false hdigit).symm

section Scripts

variable (timing : Timing)

theorem Step.waiting_script (step : Step) :
    Action.waiting (step.script timing) =
      (if step.isPause then 0 else dwell timing.keyHold + dwell timing.keySettle) +
        1000 * step.waitMs.toNat := by
  have hwait : Action.waiting (if step.waitMs = 0 then [] else [.waitMs step.waitMs]) =
      1000 * step.waitMs.toNat := by
    split
    · next hzero =>
        rw [hzero]
        rfl
    · rfl
  rw [Step.script, Action.waiting_append, hwait]
  split
  · rfl
  · rw [Action.waiting_tap]

theorem waiting_characterScript (hold rest : Nat) (c : Char) :
    Action.waiting (characterScript hold rest c) =
      if (Chord.ofChar? c).isSome then dwell hold + dwell rest else 0 := by
  unfold characterScript
  cases Chord.ofChar? c with
  | none => rfl
  | some chord => simp

theorem SequenceItem.waiting_script (held : Modifiers) (item : SequenceItem) :
    Action.waiting (item.script timing held) =
      1000 * item.waitMs +
        item.taps * (dwell timing.sequenceHold + dwell timing.keySettle) := by
  cases item with
  | wait ms => simp [SequenceItem.script, SequenceItem.waitMs, taps, Action.waitTime]
  | digits ds =>
      -- the bytes that are no digits are passed over
      have hcount : (ds.filterMap keypadUsage?).length = ds.countP isDigitByte := by
        rw [List.length_filterMap_eq_countP]
        simp only [keypadUsage?_isSome]
      simp only [SequenceItem.script, SequenceItem.waitMs, taps, Action.waiting_flatMap,
        Action.waiting_tap, List.map_const', List.sum_replicate_nat, hcount, Nat.mul_zero,
        Nat.zero_add]
  | press key extra => simp [SequenceItem.script, SequenceItem.waitMs, taps]

theorem waiting_items (held : Modifiers) (items : List SequenceItem) :
    Action.waiting (items.flatMap (SequenceItem.script timing held)) =
      1000 * (items.map SequenceItem.waitMs).sum +
        (items.map SequenceItem.taps).sum *
          (dwell timing.sequenceHold + dwell timing.keySettle) := by
  rw [Action.waiting_flatMap]
  simp only [SequenceItem.waiting_script, List.sum_map_add, List.sum_map_mul_left,
    List.sum_map_mul_right]

theorem HoldContent.waiting_script (held : Modifiers) (content : HoldContent) :
    Action.waiting (content.script timing held) = content.waiting timing := by
  cases content with
  | altCode ds =>
      -- in a burst the digits follow each other at the pace of their channel alone
      have hburst : ∀ key, Action.waiting [.send .burst held key, .send .burst held 0] = 0 :=
        fun key => rfl
      simp [HoldContent.script, HoldContent.waiting, Action.waiting_flatMap, hburst]
  | sequence items =>
      -- the modifiers settle twice, when they go down and when they go up
      simp only [HoldContent.script, HoldContent.waiting, List.cons_append,
        Action.waiting_cons, Action.waiting_append, Action.waiting_pause, Action.waiting_nil,
        Action.waitTime_enter, Action.waitTime_press, Action.waitTime_release, waiting_items]
      omega

/-- What is left of the interval of a character is never cut. -/
theorem dwell_restAfterCharacter (perSecond : UInt8) :
    dwell (timing.restAfterCharacter perSecond) =
      1000000 / max perSecond.toNat 1 - timing.typingTime := by
  have hinterval : 1000000 / max perSecond.toNat 1 ≤ 1000000 := Nat.div_le_self _ _
  rw [dwell, Timing.restAfterCharacter, Timing.interval]
  omega

/-- **The waits of a script** are those of its plan. -/
theorem Plan.waiting_script (numLock : Bool) (plan : Plan) :
    Action.waiting (plan.script timing numLock) = plan.waiting timing numLock := by
  cases plan with
  | keystroke steps =>
      rw [Plan.script, Action.waiting_flatMap, Plan.waiting]
      -- step by step: a pause adds its wait, a chord also its hold and its settling
      induction steps with
      | nil => simp
      | cons step steps ih =>
          rw [List.map_cons, List.sum_cons, ih, Step.waiting_script, List.countP_cons,
            List.map_cons, List.sum_cons, Nat.add_mul]
          cases step.isPause with
          | false =>
              simp only [Bool.not_false, if_true, Bool.false_eq_true, if_false]
              omega
          | true =>
              simp only [Bool.not_true, if_true, Bool.false_eq_true, if_false]
              omega
  | typing text perSecond =>
      rw [Plan.script, Action.waiting_flatMap, Plan.waiting, ← dwell_restAfterCharacter]
      -- character by character: one without a chord adds nothing
      induction text.toList with
      | nil => simp
      | cons c cs ih =>
          rw [List.map_cons, List.sum_cons, ih, waiting_characterScript, List.countP_cons,
            Nat.add_mul]
          split
          · omega
          · omega
  | keybind key modifiers => exact Action.waiting_tap modifiers key _ _
  | holdSequence held content =>
      rw [Plan.script, Plan.waiting, withNumLock]
      simp only [Hold.hasAlt_and_off_iff]
      split
      · -- the two taps and the two pauses stand around the content
        simp only [numLockTap, List.cons_append, Action.waiting_cons, Action.waiting_append,
          Action.waiting_tap, Action.waiting_pause, HoldContent.waiting_script, Action.waitTime_note]
        omega
      · rw [HoldContent.waiting_script, Nat.zero_add]

end Scripts

/-! ## Reports that are accepted and reports that are lost -/

/-- The entry is an accepted report of a channel. -/
def Entry.isAccepted (channel : Channel) : Entry → Bool
  | send _ sent _ _ .accepted => sent = channel
  | send _ _ _ _ _ | pacing _ | waitUs _ | waitMs _ | note _ => false

/-- The entry is a report of a channel that was refused or skipped. -/
def Entry.isLost (channel : Channel) : Entry → Bool
  | send _ _ _ _ .accepted => false
  | send _ sent _ _ _ => sent = channel
  | pacing _ | waitUs _ | waitMs _ | note _ => false

/-- The action sends a report on a channel. -/
def Action.isSendOn (channel : Channel) : Action → Bool
  | send used _ _ => used = channel
  | waitUs _ | waitMs _ | note _ => false

/-- The time for which reports are paced, as many of each channel as told. -/
def pacingTime (timing : Timing) (reports : Channel → Nat) : Nat :=
  reports .paced * dwell timing.pacing + reports .burst * dwell timing.burstPacing

theorem pacingTime_add (timing : Timing) (first later : Channel → Nat) :
    pacingTime timing (fun channel => first channel + later channel) =
      pacingTime timing first + pacingTime timing later := by
  simp only [pacingTime, Nat.add_mul]
  omega

/-- One report takes the pause of its channel. -/
theorem pacingTime_one (timing : Timing) (channel : Channel) :
    pacingTime timing (fun other => if channel = other then 1 else 0) =
      (timing.pacingOf channel).toNat := by
  cases channel with
  | paced =>
      rw [Timing.pacingOf, toNat_ofNat_eq_dwell]
      simp [pacingTime]
  | burst =>
      rw [Timing.pacingOf, toNat_ofNat_eq_dwell]
      simp [pacingTime]

theorem pacingTime_zero (timing : Timing) : pacingTime timing (fun _ => 0) = 0 := by
  simp [pacingTime]

namespace Journal

/-- How many reports of a channel were accepted. -/
def accepted (journal : Journal) (channel : Channel) : Nat :=
  journal.countP (Entry.isAccepted channel)

/-- How many reports of a channel were refused or skipped. -/
def lost (journal : Journal) (channel : Channel) : Nat :=
  journal.countP (Entry.isLost channel)

theorem accepted_append (first later : Journal) :
    accepted (first ++ later) = fun channel => first.accepted channel + later.accepted channel :=
  funext fun _ => List.countP_append

theorem lost_append (first later : Journal) :
    lost (first ++ later) = fun channel => first.lost channel + later.lost channel :=
  funext fun _ => List.countP_append

/-- An entry that is no accepted report does not count. -/
theorem accepted_cons_of_not {entry : Entry} (journal : Journal)
    (h : ∀ channel, entry.isAccepted channel = false) :
    accepted (entry :: journal) = journal.accepted := by
  funext channel
  have hentry : ¬ entry.isAccepted channel = true := by simp [h channel]
  exact List.countP_cons_of_neg hentry

/-- Notices are no reports, whichever reports are counted. -/
theorem countP_map_note {p : Entry → Bool} (h : ∀ notice, p (.note notice) = false)
    (notices : List Notice) : (notices.map Entry.note).countP p = 0 := by
  rw [List.countP_map, List.countP_eq_zero]
  intro notice _
  simp [h notice]

theorem accepted_map_note (notices : List Notice) :
    accepted (notices.map Entry.note) = fun _ => 0 :=
  funext fun _ => countP_map_note (fun _ => rfl) notices

theorem lost_map_note (notices : List Notice) : lost (notices.map Entry.note) = fun _ => 0 :=
  funext fun _ => countP_map_note (fun _ => rfl) notices

theorem FromRadio.accepted_eq {journal : Journal} (h : journal.FromRadio) :
    journal.accepted = fun _ => 0 := by
  obtain ⟨notices, rfl, -⟩ := h
  exact accepted_map_note notices

/-- Where every report was accepted, none was lost. -/
theorem AllAccepted.lost_eq {journal : Journal} (h : journal.AllAccepted) :
    journal.lost = fun _ => 0 := by
  funext channel
  rw [lost, List.countP_eq_zero]
  intro entry hentry
  cases entry with
  | send time used modifiers key fate =>
      obtain rfl : fate = .accepted := h fate (List.mem_filterMap.2 ⟨_, hentry, rfl⟩)
      exact Bool.false_ne_true
  | _ => exact Bool.false_ne_true

/-- **Each report that was asked for is counted once**, as accepted or as lost. -/
theorem accepted_add_lost (journal : Journal) (channel : Channel) :
    journal.accepted channel + journal.lost channel =
      journal.actions.countP (Action.isSendOn channel) := by
  induction journal with
  | nil => rfl
  | cons entry journal ih =>
      rw [← List.singleton_append, accepted_append, lost_append, actions_append,
        List.countP_append, ← ih]
      -- the new entry is counted on both sides, or on neither
      have hone : accepted [entry] channel + lost [entry] channel =
          (actions [entry]).countP (Action.isSendOn channel) := by
        cases entry with
        | send time used modifiers key fate =>
            cases fate with
            | accepted => exact Nat.add_zero _
            | refused _ => exact Nat.zero_add _
            | skipped => exact Nat.zero_add _
        | _ => rfl
      show accepted [entry] channel + accepted journal channel +
        (lost [entry] channel + lost journal channel) = _
      omega

end Journal

/-! ## The clock -/

variable {timing : Timing} {host after : Host} {actions : List Action} {journal : Journal}

/-- A report takes the pause of its channel if it is accepted, and otherwise no time. -/
theorem Delivery.clock_eq {channel : Channel} {modifiers : Modifiers} {key : UInt8}
    {met left : Host} (h : Delivery timing channel modifiers key met journal left) :
    left.clock = met.clock + pacingTime timing journal.accepted := by
  have hnone : Journal.accepted [] = fun _ => 0 := rfl
  cases h with
  | @accepted told _ _ _ quiet _ clock =>
      -- the radio may tell things during the pause, but it sends no report
      have hone : Journal.accepted (.send met.clock channel modifiers key .accepted ::
          .pacing (timing.pacingOf channel) :: told) =
            fun other => if channel = other then 1 else 0 := by
        funext other
        have hquiet : told.accepted other = 0 := congrFun quiet.accepted_eq other
        rw [Journal.accepted] at hquiet
        simp [Journal.accepted, List.countP_cons, Entry.isAccepted, hquiet]
      rw [hone, pacingTime_one, clock]
  | refused _ _ _ =>
      rw [Journal.accepted_cons_of_not _ fun _ => rfl, Journal.accepted_cons_of_not _ fun _ => rfl,
        hnone, pacingTime_zero]
      rfl
  | skipped _ _ =>
      rw [Journal.accepted_cons_of_not _ fun _ => rfl, Journal.accepted_cons_of_not _ fun _ => rfl,
        hnone, pacingTime_zero, Nat.add_zero]

/-- In a wait no report is accepted. -/
theorem Host.clock_wait {entry : Entry} (h : ∀ channel, entry.isAccepted channel = false)
    (host : Host) (us : Nat) :
    (host.elapse us).1.clock =
      host.clock + us + pacingTime timing (Journal.accepted (entry :: (host.elapse us).2)) := by
  obtain ⟨hquiet, hclock, -⟩ := host.elapse_spec us
  rw [Journal.accepted_cons_of_not _ h, hquiet.accepted_eq, pacingTime_zero, hclock, Nat.add_zero]

/-- **What an action takes**: its wait and, if it is a report that is accepted, the pause after
it. A report that is refused or skipped takes no time. -/
theorem Host.clock_perform (timing : Timing) (host : Host) (action : Action) :
    (host.perform timing action).1.clock =
      host.clock + action.waitTime +
        pacingTime timing (Journal.accepted (host.perform timing action).2) := by
  cases action with
  | send channel modifiers key =>
      exact (host.delivery_send timing channel modifiers key).clock_eq
  | waitUs us => exact Host.clock_wait (fun _ => rfl) host us.toNat
  | waitMs ms => exact Host.clock_wait (fun _ => rfl) host (1000 * ms.toNat)
  | note notice =>
      have hnone : Journal.accepted (host.perform timing (.note notice)).2 = fun _ => 0 :=
        Journal.accepted_cons_of_not [] fun _ => rfl
      rw [hnone, pacingTime_zero]
      rfl

namespace Course

/-- **The clock of a course** moves by the waits of its actions and by the pauses after the
reports that are accepted in it, and by nothing else. -/
theorem clock_eq (h : Course timing host actions journal after) :
    after.clock = host.clock + Action.waiting actions + pacingTime timing journal.accepted := by
  induction h with
  | done host => exact (congrArg (host.clock + ·) (pacingTime_zero timing)).symm
  | @event host _ _ _ event _ ih =>
      -- an event takes no time, and no report is accepted in it
      rw [ih, host.apply_clock event, Journal.accepted_append,
        (host.fromRadio_apply event).accepted_eq]
      simp only [Nat.zero_add]
  | @action host _ action actions _ _ ih =>
      rw [ih, host.clock_perform, Journal.accepted_append, pacingTime_add, Action.waiting_cons]
      omega

/-- What a course loses is what it asks for and is not accepted. -/
theorem accepted_add_lost (h : Course timing host actions journal after) (channel : Channel) :
    journal.accepted channel + journal.lost channel =
      actions.countP (Action.isSendOn channel) := by
  rw [journal.accepted_add_lost, h.actions_eq, List.countP_filter]
  congr 1
  funext action
  cases action <;> simp [Action.isSendOn, Action.asks]

end Course

/-! ## The law -/

variable {plan : Plan} {run : Run}

namespace PlaysAmid

/-- Playing takes the waits of the plan and the pauses after the accepted reports. -/
theorem clock_eq (h : PlaysAmid timing host plan run) :
    run.host.clock =
      host.clock + plan.waiting timing host.link.lights.numLock +
        pacingTime timing run.journal.accepted := by
  obtain ⟨notices, journal, hjournal, course⟩ := h.exists_course
  rw [course.clock_eq, Plan.waiting_script, hjournal, Journal.accepted_append,
    Journal.accepted_map_note]
  simp only [Nat.zero_add]

/-- What a run accepts and what it loses is together what its plan asks for. -/
theorem accepted_add_lost (h : PlaysAmid timing host plan run) (channel : Channel) :
    run.journal.accepted channel + run.journal.lost channel =
      (plan.script timing host.link.lights.numLock).countP (Action.isSendOn channel) := by
  obtain ⟨notices, journal, hjournal, course⟩ := h.exists_course
  rw [← course.accepted_add_lost channel, hjournal, Journal.accepted_append, Journal.lost_append,
    Journal.accepted_map_note, Journal.lost_map_note]
  simp only [Nat.zero_add]

end PlaysAmid

/-- Over a perfect link nothing is lost. -/
theorem Host.Perfect.lost_runPlan (h : host.Perfect) (timing : Timing) (plan : Plan) :
    (host.runPlan timing plan).journal.lost = fun _ => 0 := by
  rw [runPlan_eq, runReading_ok h.ready rfl]
  exact (h.performAll_allAccepted timing _).lost_eq

/-- **How long playing takes.** A run that starts takes the waits of its plan, a pause after
every accepted report of the usual pace and a quick pause after every accepted report of a
burst. Nothing else moves the clock. A report that is refused or skipped therefore saves
exactly its own pause, against the run of the plan over a perfect link. The rest after a
character is the interval without the hold and the two pauses, as long as 64 bits can count
these. -/
theorem play_takes_its_time (h : PlaysAmid timing host plan run) :
    run.host.clock =
        host.clock + plan.waiting timing host.link.lights.numLock +
          (run.journal.accepted .paced * dwell timing.pacing +
            run.journal.accepted .burst * dwell timing.burstPacing) ∧
      (host.onPerfectLink.runPlan timing plan).host.clock =
        run.host.clock +
          (run.journal.lost .paced * dwell timing.pacing +
            run.journal.lost .burst * dwell timing.burstPacing) ∧
      (timing.FitsTyping → ∀ text perSecond,
        (Plan.typing text perSecond).waiting timing host.link.lights.numLock =
          text.toList.countP (fun c => (Chord.ofChar? c).isSome) *
            (dwell timing.typingHold +
              (1000000 / max perSecond.toNat 1 - (timing.typingHold + 2 * timing.pacing)))) := by
  refine ⟨h.clock_eq, ?_, fun hfits => Plan.waiting_typing hfits _⟩
  have hperfect : host.onPerfectLink.Perfect := Host.Perfect.onPerfectLink h.1
  have hplays : PlaysAmid timing host.onPerfectLink plan (host.onPerfectLink.runPlan timing plan) :=
    PlaysAmid.runPlan timing plan hperfect.ready
  -- the two runs ask for the same reports, and the perfect link loses none of them
  have hall : (host.onPerfectLink.runPlan timing plan).journal.accepted =
      fun channel => run.journal.accepted channel + run.journal.lost channel := by
    funext channel
    have hnone := congrFun (hperfect.lost_runPlan timing plan) channel
    rw [h.accepted_add_lost channel, ← Nat.add_zero (Journal.accepted _ channel), ← hnone]
    exact hplays.accepted_add_lost channel
  show _ = run.host.clock + pacingTime timing run.journal.lost
  rw [hplays.clock_eq, h.clock_eq, hall, pacingTime_add]
  exact (Nat.add_assoc ..).symm

/-- A number on a host that is gone for the second half of its burst. NumLock is to be held for
longer than a single wait can last, so that hold is cut; three quick reports are lost. -/
theorem play_takes_its_time_half_a_number :
    let timing := { Timing.standard with numLockHold := 2 ^ 40 }
    let plan := Plan.holdSequence (.only .leftAlt) (.altCode [55, 32, 56])
    let host := Host.start Link.start.listening
      [⟨2 ^ 32 + 42000, .link .disconnect⟩, ⟨2 ^ 32 + 50000, .link .connect⟩,
        ⟨2 ^ 32 + 50000, .link (.countSubscriptions 1)⟩]
    let run := host.runPlan timing plan
    host.link.ready = true ∧ plan.waiting timing false = 2 * (2 ^ 32 - 1) + 56000 ∧
      run.journal.accepted .paced = 4 ∧ run.journal.accepted .burst = 3 ∧
      run.host.clock = 2 * (2 ^ 32 - 1) + 56000 + (4 * 6000 + 3 * 900) ∧
      (host.onPerfectLink.runPlan timing plan).host.clock = run.host.clock + 3 * 900 := by
  intro timing plan host run
  obtain ⟨hclock, hperfect, -⟩ :=
    play_takes_its_time (PlaysAmid.runPlan timing plan (show host.link.ready = true from rfl))
  have hwaits : plan.waiting timing false = 2 * (2 ^ 32 - 1) + 56000 := by decide +kernel
  have hpaced : run.journal.accepted .paced = 4 ∧ run.journal.lost .paced = 0 := by
    decide +kernel
  have hburst : run.journal.accepted .burst = 3 ∧ run.journal.lost .burst = 3 := by
    decide +kernel
  have hoff : host.link.lights.numLock = false := by decide
  have hstart : host.clock = 0 := rfl
  have hpauses : dwell timing.pacing = 6000 ∧ dwell timing.burstPacing = 900 := by decide
  rw [hpaced.1, hburst.1, hpauses.1, hpauses.2] at hclock
  rw [hpaced.2, hburst.2, hpauses.1, hpauses.2] at hperfect
  refine ⟨rfl, hwaits, hpaced.1, hburst.1, ?_, ?_⟩
  · rw [hclock, hoff, hwaits, hstart, Nat.zero_add]
  · rw [hperfect, Nat.zero_mul, Nat.zero_add]

end MacroPad
