/-
`Script.lean` -- what playing a plan asks for, from beginning to end.

The script of a plan is fixed before its first report: it depends on the plan, on
the durations and on whether NumLock is on at that moment, and on nothing that
happens while it is played. That playing asks for exactly this, whatever it is told,
is a law of its own; here the script is only written down.
-/
import MacroPad.Playback.Playing

set_option autoImplicit false

namespace MacroPad

namespace Action

/-- Press a key while modifiers are held; key 0 leaves the modifiers alone. -/
def press (modifiers : Modifiers) (key : UInt8) : Action := send .paced modifiers key

/-- Release everything. -/
def release : Action := press .none 0

/-- Wait for a duration, if it is not zero. -/
def pause (us : Nat) : List Action :=
  if Capped.ofNat us = 0 then [] else [waitUs (Capped.ofNat us)]

/-- Press a key, hold it, release everything and let the host settle. -/
def tap (modifiers : Modifiers) (key : UInt8) (hold settle : Nat) : List Action :=
  press modifiers key :: pause hold ++ release :: pause settle

/-- Go from one phase of a hold sequence to the next. -/
def enter (before after : HoldPhase) : Action := note (.phaseChanged before after)

end Action

/-! ## Chords and characters -/

/-- A step presses its chord unless it has none, and then waits if it has to. -/
def Step.script (timing : Timing) (step : Step) : List Action :=
  (if step.isPause then []
    else Action.tap step.modifiers step.key timing.keyHold timing.keySettle) ++
  (if step.waitMs = 0 then [] else [.waitMs step.waitMs])

/-- A character is held and then followed by a rest, so that it takes its share of
a second. One that the layout lacks takes no time. -/
def characterScript (hold rest : Nat) (c : Char) : List Action :=
  match Chord.ofChar? c with
  | some chord => Action.tap chord.modifiers chord.key.usage hold rest
  | none => [.note (.characterSkipped c)]

/-! ## Hold sequences -/

/-- An item plays on top of the held modifiers. -/
def SequenceItem.script (timing : Timing) (held : Modifiers) : SequenceItem → List Action
  | wait ms => [.waitMs ms]
  | digits ds =>
      (ds.filterMap keypadUsage?).flatMap fun key =>
        Action.tap held key timing.sequenceHold timing.keySettle
  | press key extra => Action.tap (held ∪ extra) key timing.sequenceHold timing.keySettle

/-- Hold the modifiers, play the content and release everything. The host takes a
released Alt for the end of a number, so a burst releases nothing before its end. -/
def HoldContent.script (timing : Timing) (held : Modifiers) : HoldContent → List Action
  | altCode ds =>
      Action.enter .idle .modifiersDown :: .send .burst held 0 ::
        Action.enter .modifiersDown .emitting ::
        ((ds.filterMap keypadUsage?).flatMap fun key =>
          [.send .burst held key, .send .burst held 0]) ++
        [Action.enter .emitting .modifiersUp, .send .burst .none 0,
          Action.enter .modifiersUp .idle]
  | sequence items =>
      Action.enter .idle .modifiersDown :: Action.press held 0 ::
        Action.pause timing.modifierSettle ++
        Action.enter .modifiersDown .emitting :: items.flatMap (SequenceItem.script timing held) ++
        Action.enter .emitting .modifiersUp :: Action.release ::
        Action.pause timing.modifierSettle ++ [Action.enter .modifiersUp .idle]

/-- Toggle NumLock. -/
def numLockTap (timing : Timing) : List Action :=
  Action.tap .none Key.numLock.usage timing.numLockHold timing.keySettle

/-- Numbers can only be typed with the keypad in numeric mode: while Alt is held,
NumLock is on, and it is put back afterwards if it was off. -/
def withNumLock (timing : Timing) (held : Modifiers) (numLock : Bool) (inner : List Action) :
    List Action :=
  if held.hasAlt && !numLock then
    .note .numLockTurnedOn :: numLockTap timing ++ Action.pause timing.numLockSettle ++ inner ++
      .note .numLockRestored :: Action.pause timing.numLockSettle ++ numLockTap timing
  else inner

/-! ## Plans -/

/-- All that playing a plan asks for. -/
def Plan.script (timing : Timing) (numLock : Bool) : Plan → List Action
  | keystroke steps => steps.flatMap (Step.script timing)
  | typing text perSecond =>
      text.toList.flatMap
        (characterScript timing.typingHold (timing.restAfterCharacter perSecond))
  | keybind key modifiers => Action.tap modifiers key timing.keyHold timing.keySettle
  | holdSequence held content => withNumLock timing held numLock (content.script timing held)

end MacroPad
