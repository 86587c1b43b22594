/-
`Release.lean` -- no key stays down.

A host repeats a key for as long as it is held, so a key that is left down types
on its own. What a plan asks for is *tidy*: two reports with a key never follow
each other, and the last report releases everything. Tidy lists can be put one
after the other, which carries the property from the tap of one key to whole
scripts, and from one run to whole sessions. In a burst the held modifiers stay
down between the digits, so its inside is only spaced, and the release at its end
makes it tidy.
-/
import Mathlib.Data.List.Chain
import MacroPad.Pad.Session
import MacroPad.Proofs.Course

set_option autoImplicit false

namespace MacroPad

/-! ## Tidy lists of reports -/

/-- Of two reports that follow each other at most one has a key. -/
def Spaced (reports : List Report) : Prop :=
  reports.IsChain fun first later => ¬ (first.key ≠ 0 ∧ later.key ≠ 0)

/-- Presses are apart, and at the end everything is released. -/
structure Tidy (reports : List Report) : Prop where
  spaced : Spaced reports
  released : ∀ report ∈ reports.getLast?, report = .release

/-- Presses are apart, and at the end no key is down, though modifiers may be. -/
structure KeyUp (reports : List Report) : Prop where
  spaced : Spaced reports
  keyUp : ∀ report ∈ reports.getLast?, report.key = 0

theorem KeyUp.nil : KeyUp [] := ⟨List.isChain_nil, by simp⟩

theorem KeyUp.append {first later : List Report} (h₁ : KeyUp first) (h₂ : KeyUp later) :
    KeyUp (first ++ later) := by
  refine ⟨h₁.spaced.append h₂.spaced fun r hr s _ hkeys => hkeys.1 (h₁.keyUp r hr), ?_⟩
  intro report hr
  rw [List.getLast?_append, Option.mem_def, Option.or_eq_some_iff] at hr
  rcases hr with hr | ⟨-, hr⟩
  · exact h₂.keyUp report hr
  · exact h₁.keyUp report hr

theorem KeyUp.flatMap {α : Type} {f : α → List Report} (h : ∀ a, KeyUp (f a)) (l : List α) :
    KeyUp (l.flatMap f) := by
  induction l with
  | nil => exact KeyUp.nil
  | cons a l ih => exact (h a).append ih

namespace Tidy

variable {first later : List Report}

theorem nil : Tidy [] := ⟨List.isChain_nil, by simp⟩

theorem keyUp (h : Tidy first) : KeyUp first :=
  ⟨h.spaced, fun report hr => by rw [h.released report hr]; rfl⟩

/-- **Tidy after tidy is tidy**: each list starts and ends with nothing held. -/
theorem append (h₁ : Tidy first) (h₂ : Tidy later) : Tidy (first ++ later) := by
  refine ⟨(h₁.keyUp.append h₂.keyUp).spaced, ?_⟩
  intro report hr
  rw [List.getLast?_append, Option.mem_def, Option.or_eq_some_iff] at hr
  rcases hr with hr | ⟨-, hr⟩
  · exact h₂.released report hr
  · exact h₁.released report hr

theorem flatMap {α : Type} {f : α → List Report} {l : List α} (h : ∀ a ∈ l, Tidy (f a)) :
    Tidy (l.flatMap f) := by
  induction l with
  | nil => exact nil
  | cons a l ih =>
      obtain ⟨ha, hl⟩ := List.forall_mem_cons.1 h
      exact ha.append (ih hl)

/-- One key pressed and released. -/
theorem tap (modifiers : Modifiers) (key : UInt8) : Tidy [.press modifiers key, .release] := by
  refine ⟨?_, by simp⟩
  exact List.isChain_pair.2 fun hkeys => hkeys.2 rfl

/-- A release at the end makes a list tidy. -/
theorem concat (h : KeyUp first) : Tidy (first ++ [.release]) := by
  refine ⟨h.spaced.append (List.isChain_singleton _) ?_, by simp⟩
  intro r hr s _ hkeys
  exact hkeys.1 (h.keyUp r hr)

end Tidy

/-! ## Every script is tidy -/

theorem Step.tidy_script (timing : Timing) (step : Step) :
    Tidy (Action.reports (step.script timing)) := by
  rw [Step.script, Action.reports_append]
  refine Tidy.append ?_ ?_
  · split
    · exact Tidy.nil
    · rw [Action.reports_tap]
      exact Tidy.tap step.modifiers step.key
  · split <;> exact Tidy.nil

theorem tidy_characterScript (hold rest : Nat) (c : Char) :
    Tidy (Action.reports (characterScript hold rest c)) := by
  unfold characterScript
  split
  · rw [Action.reports_tap]
    exact Tidy.tap _ _
  · exact Tidy.nil

theorem SequenceItem.tidy_script (timing : Timing) (held : Modifiers) (item : SequenceItem) :
    Tidy (Action.reports (item.script timing held)) := by
  cases item with
  | wait ms => exact Tidy.nil
  | digits ds =>
      rw [SequenceItem.script, Action.reports_flatMap]
      refine Tidy.flatMap fun key _ => ?_
      rw [Action.reports_tap]
      exact Tidy.tap held key
  | press key extra =>
      rw [SequenceItem.script, Action.reports_tap]
      exact Tidy.tap (held ∪ extra) key

theorem HoldContent.tidy_script (timing : Timing) (held : Modifiers) (content : HoldContent) :
    Tidy (Action.reports (content.script timing held)) := by
  have hdown : KeyUp [.press held 0] := ⟨List.isChain_singleton _, by simp⟩
  cases content with
  | altCode ds =>
      have hdigit : ∀ key, KeyUp [.press held key, .press held 0] := fun key =>
        ⟨List.isChain_pair.2 fun hkeys => hkeys.2 rfl, by simp⟩
      rw [HoldContent.reports_altCode]
      exact Tidy.concat (hdown.append (KeyUp.flatMap hdigit _))
  | sequence items =>
      have hitems : Tidy (items.flatMap fun item => Action.reports (item.script timing held)) :=
        Tidy.flatMap fun item _ => item.tidy_script timing held
      rw [HoldContent.reports_sequence]
      exact Tidy.concat (hdown.append hitems.keyUp)

theorem tidy_withNumLock (timing : Timing) (held : Modifiers) (numLock : Bool)
    {inner : List Action} (h : Tidy (Action.reports inner)) :
    Tidy (Action.reports (withNumLock timing held numLock inner)) := by
  have htap : Tidy (Action.reports (numLockTap timing)) := by
    rw [numLockTap, Action.reports_tap]
    exact Tidy.tap _ _
  unfold withNumLock
  split
  · have hall := (htap.append h).append htap
    simpa using hall
  · exact h

/-- **Every script is tidy.** -/
theorem Plan.tidy_script (timing : Timing) (numLock : Bool) (plan : Plan) :
    Tidy (Action.reports (plan.script timing numLock)) := by
  cases plan with
  | keystroke steps =>
      rw [Plan.script, Action.reports_flatMap]
      exact Tidy.flatMap fun step _ => step.tidy_script timing
  | typing text perSecond =>
      rw [Plan.script, Action.reports_flatMap]
      exact Tidy.flatMap fun c _ => tidy_characterScript _ _ c
  | keybind key modifiers =>
      rw [Plan.script, Action.reports_tap]
      exact Tidy.tap modifiers key
  | holdSequence held content =>
      exact tidy_withNumLock timing held numLock (content.tidy_script timing held)

/-! ## Runs and sessions -/

theorem RunAmid.tidy_requested {timing : Timing} {host : Host} {kind : Kind}
    {reading : Reading Plan} {run : Run} (h : RunAmid timing host kind reading run) :
    Tidy run.journal.requested := by
  cases h with
  | ignored _ => exact Tidy.nil
  | rejected _ _ =>
      rw [Journal.requested_append, Journal.requested_map_note]
      exact Tidy.nil
  | @played plan _ _ _ _ playing =>
      rw [Journal.requested_append, Journal.requested_map_note,
        (performance_player_iff.1 playing).requested_eq]
      exact plan.tidy_script timing host.link.lights.numLock

theorem Host.tidy_runMessages (timing : Timing) (host : Host) (messages : List Message) :
    Tidy (Journal.requested (host.runMessages timing messages).2) := by
  induction messages generalizing host with
  | nil => exact Tidy.nil
  | cons message messages ih =>
      have hrun := (host.runAmid_runText timing message.kind message.payload.text).tidy_requested
      simp only [Host.runMessages, Host.runMessage, List.cons_append, Journal.requested_note,
        Journal.requested_append]
      exact hrun.append (ih _)

/-- The command goes to the radio directly and plays no macro. -/
def Command.isDirect : Command → Bool
  | send _ _ _ | holdModifiers _ | releaseAll => true
  | event _ | run _ _ | runSlot _ _ _ | runFactorySlot _ | runPlan _ | dropLink | askPacing |
      askTiming | enqueue _ _ | workOnce | work => false

namespace Pad

theorem tidy_runSlot? (pad : Pad) (slot : Option Slot) :
    Tidy (pad.runSlot? slot).journal.requested := by
  cases slot with
  | none => exact Tidy.nil
  | some slot =>
      exact (pad.host.runAmid_runText pad.timing slot.kind slot.payload.text).tidy_requested

/-- What one command asks for is tidy, unless it goes past the player. -/
theorem tidy_obey (pad : Pad) (command : Command) (h : command.isDirect = false) :
    Tidy (pad.obey command).journal.requested := by
  cases command with
  | event event =>
      have hradio := (pad.host.fromRadio_apply event).actions_eq
      have hnone : Journal.requested (pad.host.apply event).2 = [] :=
        congrArg Action.reports hradio
      simp only [obey, hnone]
      exact Tidy.nil
  | run kind text => exact (pad.host.runAmid_runText pad.timing kind text).tidy_requested
  | runSlot id kind text => exact pad.tidy_runSlot? (Slot.ofText? id kind text)
  | runFactorySlot place => exact pad.tidy_runSlot? Slot.factory[place]?
  | runPlan plan => exact (pad.host.runAmid_runPlan pad.timing plan).tidy_requested
  | send _ _ _ | holdModifiers _ | releaseAll => exact absurd h (by simp [Command.isDirect])
  | enqueue kind text =>
      simp only [obey, enqueue]
      split <;> exact Tidy.nil
  | workOnce =>
      simp only [obey, workOnce]
      split
      · exact Tidy.nil
      · exact (pad.host.runAmid_runText pad.timing _ _).tidy_requested
  | work => exact pad.host.tidy_runMessages pad.timing pad.queue.waiting
  | dropLink | askPacing | askTiming => exact Tidy.nil

theorem tidy_session (pad : Pad) (commands : List Command)
    (h : ∀ command ∈ commands, command.isDirect = false) :
    ∀ outcome ∈ pad.session commands, Tidy outcome.journal.requested := by
  induction commands generalizing pad with
  | nil => exact fun outcome hmem => absurd hmem List.not_mem_nil
  | cons command commands ih =>
      obtain ⟨hfirst, hrest⟩ := List.forall_mem_cons.1 h
      exact List.forall_mem_cons.2 ⟨pad.tidy_obey command hfirst, ih _ hrest⟩

/-- All that a session records. -/
def sessionJournal (pad : Pad) (commands : List Command) : Journal :=
  (pad.session commands).flatMap Outcome.journal

end Pad

/-- **No key stays down.** Over a link on which every report is accepted, a session
never presses a key right after another, and each of its commands that sends
anything ends with the release of everything. Over any link whatsoever, the last
report that a command or a run asks for is that release. -/
theorem no_key_stays_down (pad : Pad) (commands : List Command)
    (h : ∀ command ∈ commands, command.isDirect = false) :
    ((pad.sessionJournal commands).AllAccepted →
        Spaced (pad.sessionJournal commands).reports ∧
          ∀ outcome ∈ pad.session commands, ∀ report ∈ outcome.journal.reports.getLast?,
            report = .release) ∧
      (∀ outcome ∈ pad.session commands, ∀ report ∈ outcome.journal.requested.getLast?,
        report = .release) ∧
      ∀ (timing : Timing) (host : Host) (kind : Kind) (reading : Reading Plan) (run : Run),
        RunAmid timing host kind reading run →
          ∀ report ∈ run.journal.requested.getLast?, report = .release := by
  have htidy := pad.tidy_session commands h
  refine ⟨fun hall => ⟨?_, ?_⟩, fun outcome hmem => (htidy outcome hmem).released,
    fun timing host kind reading run hrun => hrun.tidy_requested.released⟩
  · rw [hall.reports_eq, Pad.sessionJournal, Journal.requested_flatMap]
    exact (Tidy.flatMap htidy).spaced
  · intro outcome hmem
    rw [((Journal.allAccepted_flatMap _ _).1 hall outcome hmem).reports_eq]
    exact (htidy outcome hmem).released

/-- A chord, and a number that waits in the queue until the worker takes it. -/
theorem no_key_stays_down_after_work :
    let pad := Pad.start .standard 8 (Host.start Link.start.listening [])
    let commands := [.run .keybind "F12", .enqueue .holdSequence "LAlt|2", .work]
    (∀ command ∈ commands, command.isDirect = false) ∧
      (pad.sessionJournal commands).AllAccepted ∧
      Spaced (pad.sessionJournal commands).reports := by
  intro pad commands
  have hcommands : ∀ command ∈ commands, command.isDirect = false := by decide
  have hall : (pad.sessionJournal commands).AllAccepted := by decide +kernel
  exact ⟨hcommands, hall, ((no_key_stays_down pad commands hcommands).1 hall).1⟩

end MacroPad
