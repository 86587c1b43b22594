/-
`Timing.lean` -- how long playing dwells on each report.

Hosts miss keys that are released too quickly, so presses are held and releases
settle for a while. All durations are in microseconds and may be of any size; a
single wait is cut at the largest amount. The one sum of durations is made in 64 bits
(`Timing.FitsTyping`).
-/
import MacroPad.Number.Capped

set_option autoImplicit false

namespace MacroPad

/-- How a report is paced. -/
inductive Channel where
  /-- At the usual pace. -/
  | paced
  /-- At the quick pace of a number typed for one character. -/
  | burst
deriving DecidableEq, Repr

/-- The durations of playing, in microseconds. -/
structure Timing where
  /-- How long a chord is held in keystroke and keybind macros. -/
  keyHold : Nat
  /-- The pause after a key is released. -/
  keySettle : Nat
  /-- How long a character is held while typing. -/
  typingHold : Nat
  /-- How long a key is held inside a hold sequence. -/
  sequenceHold : Nat
  /-- The pause after a hold sequence presses or releases its modifiers. -/
  modifierSettle : Nat
  /-- How long NumLock is held when it is toggled. -/
  numLockHold : Nat
  /-- The pause around a toggle of NumLock. -/
  numLockSettle : Nat
  /-- The pause after every report. -/
  pacing : Nat
  /-- The pause after every report of a burst. -/
  burstPacing : Nat
deriving DecidableEq, Repr

namespace Timing

/-- The durations of a new pad. -/
def standard : Timing where
  keyHold := 15000
  keySettle := 8000
  typingHold := 5000
  sequenceHold := 8000
  modifierSettle := 6000
  numLockHold := 12000
  numLockSettle := 20000
  pacing := 6000
  burstPacing := 900

/-- The pause after a report of a channel. -/
def pacingOf (timing : Timing) : Channel → UInt32
  | .paced => Capped.ofNat timing.pacing
  | .burst => Capped.ofNat timing.burstPacing

/-- The time from one character to the next at a rate, which counts as 1 if it
is 0. -/
def interval (perSecond : UInt8) : Nat := 1000000 / max perSecond.toNat 1

/-- The time that a character takes up: its key is held, and both of its reports are paced.
The sum is made in 64 bits, and a pad that watches for overflow would stop here if it does not
fit. -/
def typingTime (timing : Timing) : Nat := (timing.typingHold + 2 * timing.pacing) % UInt64.size

/-- The time that a character takes up can be counted in 64 bits. No real duration comes close to
the bound: one of the two would have to be longer than a hundred thousand years. -/
def FitsTyping (timing : Timing) : Prop := timing.typingHold + 2 * timing.pacing < UInt64.size

instance (timing : Timing) : Decidable timing.FitsTyping :=
  inferInstanceAs (Decidable (_ < _))

/-- What is left of the interval of a character after that. -/
def restAfterCharacter (timing : Timing) (perSecond : UInt8) : Nat :=
  interval perSecond - timing.typingTime

theorem typingTime_eq {timing : Timing} (h : timing.FitsTyping) :
    timing.typingTime = timing.typingHold + 2 * timing.pacing :=
  Nat.mod_eq_of_lt h

end Timing

end MacroPad
