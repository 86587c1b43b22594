/-
`Session.lean` -- the pad at work.

A pad plays macros on one host, by request or from its queue. A session is a list
of commands, each with its reply and the record of what it brought about. Only
the worker takes macros from the queue, and it plays one to the end before it
takes the next.
-/
import MacroPad.Host.Run
import MacroPad.Pad.Queue

set_option autoImplicit false

namespace MacroPad

/-- A pad with its host. -/
structure Pad where
  timing : Timing
  host : Host
  queue : Queue
deriving DecidableEq

/-- What the pad can be told to do. -/
inductive Command where
  /-- Something happens on the side of the host. -/
  | event (event : HostEvent)
  | run (kind : Kind) (text : String)
  /-- Store a macro and run it; nothing is done if it does not fit. -/
  | runSlot (id : UInt8) (kind : Kind) (text : String)
  /-- Run one of the slots of a new pad. -/
  | runFactorySlot (place : Nat)
  | runPlan (plan : Plan)
  | send (channel : Channel) (modifiers : Modifiers) (key : UInt8)
  /-- Hold modifiers without a key. -/
  | holdModifiers (modifiers : Modifiers)
  /-- Release every key and modifier. -/
  | releaseAll
  | dropLink
  | askPacing
  | askTiming
  | enqueue (kind : Kind) (text : String)
  /-- Let the worker play the next macro of the queue. -/
  | workOnce
  /-- Let the worker play all macros of the queue. -/
  | work

/-- The answer to a command. -/
inductive Reply where
  | nothing
  | ran (result : Except RunFault Unit)
  | sent (result : Except SendFault Unit)
  | queued (result : Except QueueFault Unit)
  /-- The worker waits for the next macro. -/
  | waiting
  | pacing (us : Nat)
  | timing (timing : Timing)

/-- What a command brought about. -/
structure Outcome where
  pad : Pad
  reply : Reply
  journal : Journal

namespace Host

/-- Run a macro that waited in the queue. -/
def runMessage (timing : Timing) (host : Host) (message : Message) : Run :=
  let run := host.runText timing message.kind message.payload.text
  { run with journal := .note (.macroDispatched message.kind) :: run.journal }

/-- Run macros that waited in the queue, one after the other. -/
def runMessages (timing : Timing) (host : Host) : List Message → Host × Journal
  | [] => (host, [])
  | message :: rest =>
      let run := host.runMessage timing message
      let (host, later) := run.host.runMessages timing rest
      (host, run.journal ++ later)

end Host

namespace Pad

/-- A pad whose queue is empty. -/
def start (timing : Timing) (capacity : Nat) (host : Host) : Pad :=
  ⟨timing, host, .empty capacity⟩

/-- The end of a run that left the queue alone. -/
def afterRun (pad : Pad) (run : Run) : Outcome :=
  ⟨{ pad with host := run.host }, .ran run.result, run.journal⟩

/-- Nothing came of a command. -/
def idle (pad : Pad) (reply : Reply) : Outcome := ⟨pad, reply, []⟩

/-- Let a macro join the queue. -/
def enqueue (pad : Pad) (kind : Kind) (text : String) : Outcome :=
  match pad.queue.join kind text with
  | .ok queue => ⟨{ pad with queue := queue }, .queued (.ok ()), []⟩
  | .error fault => ⟨pad, .queued (.error fault), [.note (Queue.refusal kind text fault)]⟩

/-- Let the worker play the next macro. -/
def workOnce (pad : Pad) : Outcome :=
  match pad.queue.waiting with
  | [] => pad.idle .waiting
  | message :: rest =>
      let run := pad.host.runMessage pad.timing message
      ⟨{ pad with host := run.host, queue := { pad.queue with waiting := rest } },
        .ran run.result, run.journal⟩

/-- Let the worker play everything that waits. -/
def work (pad : Pad) : Outcome :=
  let (host, journal) := pad.host.runMessages pad.timing pad.queue.waiting
  ⟨{ pad with host := host, queue := { pad.queue with waiting := [] } }, .waiting,
    .note .workerStarted :: journal⟩

/-- Run a slot, if there is one. -/
def runSlot? (pad : Pad) : Option Slot → Outcome
  | some slot => pad.afterRun (pad.host.runSlot pad.timing slot)
  | none => pad.idle .nothing

/-- Send a single report. -/
def send (pad : Pad) (channel : Channel) (modifiers : Modifiers) (key : UInt8) : Outcome :=
  let (host, journal) := pad.host.send pad.timing channel modifiers key
  -- the answer is that of the host as it was before the pause
  ⟨{ pad with host := host }, .sent pad.host.fate.result, journal⟩

/-- Do what a command says. -/
def obey (pad : Pad) : Command → Outcome
  | .event event =>
      let (host, journal) := pad.host.apply event
      ⟨{ pad with host := host }, .nothing, journal⟩
  | .run kind text => pad.afterRun (pad.host.runText pad.timing kind text)
  | .runSlot id kind text => pad.runSlot? (Slot.ofText? id kind text)
  | .runFactorySlot place => pad.runSlot? Slot.factory[place]?
  | .runPlan plan => pad.afterRun (pad.host.runPlan pad.timing plan)
  | .send channel modifiers key => pad.send channel modifiers key
  | .holdModifiers modifiers => pad.send .paced modifiers 0
  | .releaseAll => pad.send .paced .none 0
  | .dropLink =>
      ⟨{ pad with host := { pad.host with drops := pad.host.drops + 1 } }, .nothing,
        [.note .linkDropped]⟩
  | .askPacing => pad.idle (.pacing pad.timing.pacing)
  | .askTiming => pad.idle (.timing pad.timing)
  | .enqueue kind text => pad.enqueue kind text
  | .workOnce => pad.workOnce
  | .work => pad.work

/-- What some commands bring about, one after the other. -/
def session (pad : Pad) : List Command → List Outcome
  | [] => []
  | command :: rest =>
      let outcome := pad.obey command
      outcome :: outcome.pad.session rest

end Pad

end MacroPad
