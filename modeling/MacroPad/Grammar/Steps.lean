/-
`Steps.lean` -- the grammar of keystroke macros.

A keystroke macro is a list of chords and waits, separated by commas. A wait
belongs to the step before it, and several waits add up; waits at the start make
up a step that presses nothing. There is room for 64 steps, and a wait after the
last of them still fits.
-/
import MacroPad.Grammar.Chord
import MacroPad.Grammar.Wait
import MacroPad.Macro.Plan

set_option autoImplicit false

namespace MacroPad.Step

/-- The room for the steps of a keystroke macro. -/
def limit : Nat := 64

/-- Lengthen the wait after a step. -/
def delay (step : Step) (ms : UInt32) : Step := { step with waitMs := Capped.add step.waitMs ms }

/-- Lengthen the wait after the last of the steps, which are given latest first. -/
def delayLatest (ms : UInt32) : List Step → List Step
  | [] => [pause ms]
  | latest :: earlier => latest.delay ms :: earlier

/-- Read one more token after some steps, which are given latest first. -/
def addToken (steps : List Step) (token : List Char) : Except GrammarFault (List Step) :=
  if Text.isAllBlank token then .error .emptyToken
  else
    match WaitReading.ofToken token with
    -- only a wait before the first chord takes room of its own, and there is room for it
    | .wait ms => .ok (delayLatest ms steps)
    | .malformed => .error .malformedWait
    | .notAWait =>
        match Chord.ofText token with
        | .error fault => .error fault
        | .ok chord =>
            if steps.length < limit then .ok (ofChord chord :: steps) else .error .tooManySteps

/-- Read the steps of a keystroke macro. -/
def listOfText (cs : List Char) : Except GrammarFault (List Step) :=
  ((cs.splitOn ',').foldlM addToken []).map List.reverse

end MacroPad.Step
