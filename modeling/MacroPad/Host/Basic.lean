/-
`Basic.lean` -- the host, and what it makes of the actions of the pad.

A host is known by its link and by how its writer answers. It has a clock, which
only moves while the pad waits, and an agenda of what will happen on its side. A
report is written if the link is ready and is paced if the writer accepts it;
nothing is ever repeated or made up for.
-/
import MacroPad.Host.Journal
import MacroPad.Host.Link

set_option autoImplicit false

namespace MacroPad

/-- What can happen on the side of the host. -/
inductive HostEvent where
  | link (event : LinkEvent)
  /-- From now on the writer refuses every report, or accepts it. -/
  | writer (fault : Option SendFault)
deriving DecidableEq, Repr

/-- An event at a time on the clock. -/
structure Appointment where
  time : Nat
  event : HostEvent
deriving DecidableEq, Repr

/-- The host and the radio in front of it. -/
structure Host where
  link : Link
  /-- What the writer answers, if it refuses reports. -/
  fault : Option SendFault
  /-- The time in microseconds. -/
  clock : Nat
  /-- What is still to happen. -/
  agenda : List Appointment
  /-- How many reports were written. -/
  attempts : Nat
  /-- How many times the pad dropped the link. -/
  drops : Nat
deriving DecidableEq

namespace Host

/-- A host at the beginning of its time, with a writer that accepts reports. -/
def start (link : Link) (agenda : List Appointment) : Host := ⟨link, none, 0, agenda, 0, 0⟩

/-! ## The side of the host -/

/-- Let an event happen. -/
def apply (host : Host) : HostEvent → Host × Journal
  | .link event =>
      ({ host with link := host.link.apply event }, (host.link.notices event).map .note)
  | .writer fault => ({ host with fault := fault }, [])

/-- Let events happen, one after the other. -/
def applyAll (host : Host) : List HostEvent → Host × Journal
  | [] => (host, [])
  | event :: rest =>
      let (host, first) := host.apply event
      let (host, later) := host.applyAll rest
      (host, first ++ later)

/-- Let everything happen that is due, in the order of the agenda. -/
def catchUp (host : Host) : Host × Journal :=
  let due := host.agenda.filter fun appointment => appointment.time ≤ host.clock
  let later := host.agenda.filter fun appointment => host.clock < appointment.time
  applyAll { host with agenda := later } (due.map Appointment.event)

/-- Let time pass. -/
def elapse (host : Host) (us : Nat) : Host × Journal :=
  catchUp { host with clock := host.clock + us }

/-! ## The actions of the pad -/

/-- What becomes of a report now. -/
def fate (host : Host) : Fate :=
  if host.link.ready then
    match host.fault with
    | none => .accepted
    | some fault => .refused fault
  else .skipped

/-- Send a report. -/
def send (timing : Timing) (host : Host) (channel : Channel) (modifiers : Modifiers)
    (key : UInt8) : Host × Journal :=
  -- the time of a report is that of its writing, before it is paced
  let sent := Entry.send host.clock channel modifiers key host.fate
  match host.fate with
  | .accepted =>
      let pause := timing.pacingOf channel
      let (host, later) := elapse { host with attempts := host.attempts + 1 } pause.toNat
      (host, sent :: .pacing pause :: later)
  | .refused fault =>
      ({ host with attempts := host.attempts + 1 }, [sent, .note (.reportRefused fault)])
  | .skipped => (host, [sent, .note (.reportSkipped modifiers key)])

/-- Do what an action asks for. -/
def perform (timing : Timing) (host : Host) : Action → Host × Journal
  | .send channel modifiers key => host.send timing channel modifiers key
  | .waitUs us =>
      let (host, later) := host.elapse us.toNat
      (host, .waitUs us :: later)
  | .waitMs ms =>
      let (host, later) := host.elapse (1000 * ms.toNat)
      (host, .waitMs ms :: later)
  | .note notice => (host, [.note notice])

/-- Do what some actions ask for, one after the other. -/
def performAll (timing : Timing) (host : Host) : List Action → Host × Journal
  | [] => (host, [])
  | action :: rest =>
      let (host, first) := host.perform timing action
      let (host, later) := host.performAll timing rest
      (host, first ++ later)

/-! ## The answers to a player -/

/-- What a player is told now. The answer about a report is that of the host as it was before the
report was paced. -/
def answer (host : Host) : (request : Request) → request.Answer
  | .act (.send _ _ _) => host.fate.result
  | .act (.waitUs _) | .act (.waitMs _) | .act (.note _) => ()
  | .isReady => host.link.ready
  | .numLockOn => host.link.lights.numLock

/-- Do what a player asks. A question is answered without anything happening. -/
def serve (timing : Timing) (host : Host) : Request → Host × Journal
  | .act action => host.perform timing action
  | .isReady | .numLockOn => (host, [])

/-- Let a player play to its end. -/
def conduct {α : Type} (timing : Timing) (host : Host) : Player α → α × Host × Journal
  | .done value => (value, host, [])
  | .ask request next =>
      let (left, first) := host.serve timing request
      let (value, after, later) := left.conduct timing (next (host.answer request))
      (value, after, first ++ later)

/-! ## One thing after another -/

@[simp] theorem performAll_nil (timing : Timing) (host : Host) :
    host.performAll timing [] = (host, []) := rfl

theorem performAll_cons (timing : Timing) (host : Host) (action : Action) (rest : List Action) :
    host.performAll timing (action :: rest) =
      (((host.perform timing action).1.performAll timing rest).1,
        (host.perform timing action).2 ++
          ((host.perform timing action).1.performAll timing rest).2) := rfl

theorem conduct_ask {α : Type} (timing : Timing) (host : Host) (request : Request)
    (next : request.Answer → Player α) :
    host.conduct timing (.ask request next) =
      let rest := (host.serve timing request).1.conduct timing (next (host.answer request))
      (rest.1, rest.2.1, (host.serve timing request).2 ++ rest.2.2) := rfl

theorem performAll_append (timing : Timing) (host : Host) (first later : List Action) :
    host.performAll timing (first ++ later) =
      (((host.performAll timing first).1.performAll timing later).1,
        (host.performAll timing first).2 ++
          ((host.performAll timing first).1.performAll timing later).2) := by
  induction first generalizing host with
  | nil => rfl
  | cons action rest ih => simp only [List.cons_append, performAll_cons, ih, List.append_assoc]

end Host

end MacroPad
