/-
`Playing.lean` -- how plans are played.

Each press of a key is followed by the release of everything, except in a burst,
where the held modifiers stay down between the digits. A report that fails has been
noted by the one who sends it, so a player drops what it is told of its reports and
goes on. The lights are looked at once, before a hold sequence that holds Alt.
-/
import MacroPad.Macro.Plan
import MacroPad.Playback.Player

set_option autoImplicit false

namespace MacroPad

namespace Player

/-- Send a report at the usual pace and drop the answer; key 0 leaves the modifiers alone. -/
def press (modifiers : Modifiers) (key : UInt8) : Player Unit := do
  let _ ← send .paced modifiers key
  pure ()

/-- Send a report of a burst and drop the answer. -/
def burst (modifiers : Modifiers) (key : UInt8) : Player Unit := do
  let _ ← send .burst modifiers key
  pure ()

/-- Wait for a duration, if it is not zero. -/
def pause (us : Nat) : Player Unit :=
  if 0 < Capped.ofNat us then waitUs (Capped.ofNat us) else pure ()

/-- Press a key, hold it, release everything and let the host settle. -/
def tap (modifiers : Modifiers) (key : UInt8) (hold settle : Nat) : Player Unit := do
  press modifiers key
  pause hold
  press .none 0
  pause settle

/-- Go from one phase of a hold sequence to the next. -/
def enter (before after : HoldPhase) : Player HoldPhase := do
  note (.phaseChanged before after)
  pure after

end Player

open Player

/-! ## Chords and characters -/

/-- A step presses its chord unless it has none, and then waits if it has to. -/
def Step.player (timing : Timing) (step : Step) : Player Unit := do
  unless step.isPause do
    tap step.modifiers step.key timing.keyHold timing.keySettle
  if 0 < step.waitMs then
    Player.waitMs step.waitMs

/-- A character is held and then followed by a rest, so that it takes its share of
a second. One that the layout lacks takes no time. -/
def characterPlayer (hold rest : Nat) (c : Char) : Player Unit :=
  match Chord.ofChar? c with
  | some chord => tap chord.modifiers chord.key.usage hold rest
  | none => note (.characterSkipped c)

/-! ## Hold sequences -/

/-- The keypad key of a byte that is an ASCII digit. -/
def keypadUsage? (digit : UInt8) : Option UInt8 :=
  (Key.ofKeypadDigit? (Char.ofNat digit.toNat)).map Key.usage

/-- An item plays on top of the held modifiers. -/
def SequenceItem.player (timing : Timing) (held : Modifiers) : SequenceItem → Player Unit
  | wait ms => waitMs ms
  | digits ds =>
      (ds.filterMap keypadUsage?).forM fun key =>
        tap held key timing.sequenceHold timing.keySettle
  | press key extra => tap (held ∪ extra) key timing.sequenceHold timing.keySettle

/-- Hold the modifiers, play the content and release everything. The host takes a
released Alt for the end of a number, so a burst releases nothing before its end. -/
def HoldContent.player (timing : Timing) (held : Modifiers) : HoldContent → Player Unit
  | altCode ds => do
      let phase ← enter .idle .modifiersDown
      burst held 0
      let phase ← enter phase .emitting
      (ds.filterMap keypadUsage?).forM fun key => do
        burst held key
        burst held 0
      let phase ← enter phase .modifiersUp
      burst .none 0
      let _ ← enter phase .idle
      pure ()
  | sequence items => do
      let phase ← enter .idle .modifiersDown
      press held 0
      pause timing.modifierSettle
      let phase ← enter phase .emitting
      items.forM (SequenceItem.player timing held)
      let phase ← enter phase .modifiersUp
      press .none 0
      pause timing.modifierSettle
      let _ ← enter phase .idle
      pure ()

/-- Toggle NumLock. -/
def numLockToggle (timing : Timing) : Player Unit :=
  tap .none Key.numLock.usage timing.numLockHold timing.keySettle

/-- Numbers can only be typed with the keypad in numeric mode, so NumLock has to be turned on
while Alt is held. -/
def needsNumLock (held : Modifiers) : Player Bool := do
  if held.hasAlt then
    let on ← numLockOn
    pure !on
  else
    pure false

/-- NumLock is put back afterwards if it was turned on. -/
def holdPlayer (timing : Timing) (held : Modifiers) (content : HoldContent) : Player Unit := do
  let restore ← needsNumLock held
  if restore then
    note .numLockTurnedOn
    numLockToggle timing
    pause timing.numLockSettle
  content.player timing held
  if restore then
    note .numLockRestored
    pause timing.numLockSettle
    numLockToggle timing

/-! ## Plans -/

/-- Play a plan from beginning to end. -/
def Plan.player (timing : Timing) : Plan → Player Unit
  | keystroke steps => steps.forM (Step.player timing)
  | typing text perSecond =>
      text.toList.forM
        (characterPlayer timing.typingHold (timing.restAfterCharacter perSecond))
  | keybind key modifiers => tap modifiers key timing.keyHold timing.keySettle
  | holdSequence held content => holdPlayer timing held content

end MacroPad
