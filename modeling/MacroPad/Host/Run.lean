/-
`Run.lean` -- running a macro on the host.

A run first asks whether the host is ready, then reads the whole text of the
macro, and only then plays it. Both checks come before the first report, so a run
that fails has sent nothing; a run that starts is played to its end whatever
happens to its reports.
-/
import MacroPad.Grammar.Compile
import MacroPad.Host.Basic
import MacroPad.Playback.Playing

set_option autoImplicit false

namespace MacroPad

/-- Why a macro was not played. -/
inductive RunFault where
  | notReady
  | rejected (fault : GrammarFault)
deriving DecidableEq, Repr

def RunFault.message : RunFault → String
  | notReady => "BLE host not ready"
  | rejected fault => "invalid macro: " ++ fault.message

/-! ## Players of macros -/

namespace Player

/-- Go on if the host is ready, and turn down the macro if it is not. -/
def whenReady (kind : Kind) (run : Player (Except RunFault Unit)) :
    Player (Except RunFault Unit) := do
  let ready ← isReady
  if ready then
    run
  else
    note (.macroIgnored kind)
    pure (.error .notReady)

/-- Run a plan. -/
def runPlan (timing : Timing) (plan : Plan) : Player (Except RunFault Unit) :=
  whenReady plan.kind do
    plan.player timing
    pure (.ok ())

/-- Run the text of a macro. -/
def runText (timing : Timing) (kind : Kind) (text : String) : Player (Except RunFault Unit) :=
  whenReady kind do
    let reading := Plan.ofMacro kind text
    -- the notices of the grammar come first, whether or not it accepts the text
    reading.notices.forM note
    match reading.result with
    | .error fault =>
        note (.macroRejected kind fault)
        pure (.error (.rejected fault))
    | .ok plan =>
        plan.player timing
        pure (.ok ())

/-- Run a stored macro. -/
def runSlot (timing : Timing) (slot : Slot) : Player (Except RunFault Unit) := do
  note (.slotStarted slot.id)
  runText timing slot.kind slot.payload.text

end Player

/-! ## Runs -/

/-- The end of a run: the host afterwards, what happened, and whether the macro
was played. -/
structure Run where
  host : Host
  journal : Journal
  result : Except RunFault Unit

namespace Host

/-- Run what a player plays. -/
def run (timing : Timing) (host : Host) (player : Player (Except RunFault Unit)) : Run :=
  let (result, after, journal) := host.conduct timing player
  ⟨after, journal, result⟩

/-- Run a plan. -/
def runPlan (timing : Timing) (host : Host) (plan : Plan) : Run :=
  host.run timing (.runPlan timing plan)

/-- Run the text of a macro. -/
def runText (timing : Timing) (host : Host) (kind : Kind) (text : String) : Run :=
  host.run timing (.runText timing kind text)

/-- Run a stored macro. -/
def runSlot (timing : Timing) (host : Host) (slot : Slot) : Run :=
  host.run timing (.runSlot timing slot)

end Host

end MacroPad
