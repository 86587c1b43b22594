/-
`Gate.lean` -- nothing is written to a host that does not listen.

The link may change in every wait of the pad, so whether a report may be written is asked
anew for each of them. What happens at a host is cut into *moves* here: something on its own
side, or one thing that the pad does. Together with the events that come due in the waits of
the pad, the moves tell the whole history of the link. A report is written by a move only
where this history says that the host listens (`hostListens_of_attempt`), whatever the moves
are and in whatever order they come, and all that a session does are such moves
(`Pad.host_afterSession`).
-/
import MacroPad.Proofs.Dispatch
import MacroPad.Proofs.LinkHistory

set_option autoImplicit false

namespace MacroPad

/-! ## Moves -/

/-- One thing that happens at a host. -/
inductive Move where
  /-- Something happens on its own side. -/
  | event (event : HostEvent)
  /-- The pad does something. -/
  | action (action : Action)
  /-- The pad asks the radio to drop the link. -/
  | dropLink
deriving DecidableEq

/-- What the radio tells of an event; the answers of the writer are not told. -/
def HostEvent.link? : HostEvent → Option LinkEvent
  | link event => some event
  | writer _ => none

namespace Host

variable (timing : Timing) (host : Host)

/-- What a move makes of the host. -/
def move : Move → Host
  | .event event => (host.apply event).1
  | .action action => (host.perform timing action).1
  | .dropLink => { host with drops := host.drops + 1 }

/-- What some moves make of the host, one after the other. -/
def moveAll (moves : List Move) : Host := moves.foldl (move timing) host

/-- How long the pad waits in an action, if it waits in it at all. -/
def wait? : Action → Option Nat
  | .send channel _ _ =>
      match host.fate with
      | .accepted => some (timing.pacingOf channel).toNat
      | .refused _ | .skipped => none
  | .waitUs us => some us.toNat
  | .waitMs ms => some (1000 * ms.toNat)
  | .note _ => none

/-- The events that come due in a wait, in the order in which they happen. -/
def due (us : Nat) : List HostEvent :=
  (host.agenda.filter fun appointment => appointment.time ≤ host.clock + us).map
    Appointment.event

/-- What the radio tells in a move. -/
def told : Move → List LinkEvent
  | .event event => event.link?.toList
  | .action action => ((host.wait? timing action).elim [] host.due).filterMap HostEvent.link?
  | .dropLink => []

/-- What the radio tells in some moves. -/
def toldBy : Host → List Move → List LinkEvent
  | _, [] => []
  | host, move :: rest => host.told timing move ++ toldBy (host.move timing move) rest

/-! ## The link follows what is told -/

theorem link_applyAll (events : List HostEvent) :
    (host.applyAll events).1.link =
      (events.filterMap HostEvent.link?).foldl Link.apply host.link := by
  induction events generalizing host with
  | nil => rfl
  | cons event events ih =>
      have hrest := ih (host.apply event).1
      cases event with
      | link event => exact hrest
      | writer fault => exact hrest

theorem link_elapse (us : Nat) :
    (host.elapse us).1.link =
      ((host.due us).filterMap HostEvent.link?).foldl Link.apply host.link :=
  link_applyAll _ _

theorem link_perform (action : Action) :
    (host.perform timing action).1.link =
      (((host.wait? timing action).elim [] host.due).filterMap HostEvent.link?).foldl Link.apply
        host.link := by
  cases action with
  | send channel modifiers key =>
      simp only [perform, send, wait?]
      -- only an accepted report is paced, and only then anything can come due
      cases host.fate with
      | accepted => exact link_elapse { host with attempts := host.attempts + 1 } _
      | refused fault => rfl
      | skipped => rfl
  | waitUs us => exact host.link_elapse us.toNat
  | waitMs ms => exact host.link_elapse (1000 * ms.toNat)
  | note notice => rfl

theorem link_move (move : Move) :
    (host.move timing move).link = (host.told timing move).foldl Link.apply host.link := by
  cases move with
  | event event => cases event <;> rfl
  | action action => exact host.link_perform timing action
  | dropLink => rfl

theorem link_moveAll (moves : List Move) :
    (host.moveAll timing moves).link = (host.toldBy timing moves).foldl Link.apply host.link := by
  induction moves generalizing host with
  | nil => rfl
  | cons move moves ih =>
      rw [toldBy, List.foldl_append, ← link_move]
      exact ih (host.move timing move)

end Host

/-! ## Writing -/

/-- A report that is written was met by a link that is ready. -/
theorem Delivery.ready_of_attempt {timing : Timing} {channel : Channel} {modifiers : Modifiers}
    {key : UInt8} {met left : Host} {journal : Journal}
    (h : Delivery timing channel modifiers key met journal left)
    (hattempt : left.attempts ≠ met.attempts) : met.link.ready = true := by
  cases h with
  | accepted ready => exact ready
  | refused ready => exact ready
  | skipped => exact absurd rfl hattempt

namespace Host

variable (timing : Timing) (host : Host)

/-- **The gate.** A move that writes a report meets a link that is ready. -/
theorem ready_of_attempt {move : Move}
    (h : (host.move timing move).attempts ≠ host.attempts) : host.link.ready = true := by
  cases move with
  | event event => exact absurd (host.apply_attempts event) h
  | dropLink => exact absurd rfl h
  | action action =>
      cases action with
      | send channel modifiers key =>
          exact (host.delivery_send timing channel modifiers key).ready_of_attempt h
      | waitUs us => exact absurd (host.elapse_spec us.toNat).2.2 h
      | waitMs ms => exact absurd (host.elapse_spec (1000 * ms.toNat)).2.2 h
      | note notice => exact absurd rfl h

/-- **A report is written only where the host listens**, by all that was told until then. -/
theorem hostListens_of_attempt {history : List LinkEvent} (hlink : host.link = Link.after history)
    {before : List Move} {move : Move}
    (h : ((host.moveAll timing before).move timing move).attempts ≠
      (host.moveAll timing before).attempts) :
    HostListens (history ++ host.toldBy timing before) := by
  rw [← Link.ready_iff_hostListens, Link.after_append, ← hlink, ← link_moveAll]
  exact ready_of_attempt timing _ h

/-! ## What a session does -/

/-- The moves of a plan that is asked for. -/
def planMoves (plan : Plan) : List Move :=
  if host.link.ready then (plan.script timing host.link.lights.numLock).map .action else []

/-- The moves of a macro that is asked for. -/
def textMoves (kind : Kind) (text : String) : List Move :=
  match (Plan.ofMacro kind text).result with
  | .ok plan => host.planMoves timing plan
  | .error _ => []

/-- The moves of macros that waited in the queue. -/
def messageMoves : Host → List Message → List Move
  | _, [] => []
  | host, message :: rest =>
      host.textMoves timing message.kind message.payload.text ++
        messageMoves (host.runMessage timing message).host rest

theorem moveAll_append (first later : List Move) :
    host.moveAll timing (first ++ later) = (host.moveAll timing first).moveAll timing later :=
  List.foldl_append

theorem host_performAll (actions : List Action) :
    (host.performAll timing actions).1 = host.moveAll timing (actions.map .action) := by
  induction actions generalizing host with
  | nil => rfl
  | cons action actions ih => exact ih (host.perform timing action).1

theorem host_runReading (kind : Kind) (reading : Reading Plan) :
    (host.runReading kind reading fun plan =>
        host.performAll timing (plan.script timing host.link.lights.numLock)).host =
      host.moveAll timing
        (match reading.result with
        | .ok plan => host.planMoves timing plan
        | .error _ => []) := by
  cases hready : host.link.ready with
  | false =>
      -- a host that is not ready is not moved by a plan either
      rw [runReading_unready hready]
      cases reading.result with
      | error fault => rfl
      | ok plan =>
          simp only [planMoves, hready]
          rfl
  | true =>
      cases hread : reading.result with
      | error fault =>
          rw [runReading_error hready hread]
          rfl
      | ok plan =>
          simp only [runReading_ok hready hread, planMoves, if_pos hready]
          exact host.host_performAll timing _

theorem host_runPlan (plan : Plan) :
    (host.runPlan timing plan).host = host.moveAll timing (host.planMoves timing plan) := by
  rw [runPlan_eq, host_runReading]
  rfl

theorem host_runText (kind : Kind) (text : String) :
    (host.runText timing kind text).host =
      host.moveAll timing (host.textMoves timing kind text) := by
  rw [runText_eq, host_runReading]
  rfl

theorem host_runMessages (messages : List Message) :
    (host.runMessages timing messages).1 =
      host.moveAll timing (host.messageMoves timing messages) := by
  induction messages generalizing host with
  | nil => rfl
  | cons message messages ih =>
      rw [messageMoves, moveAll_append, ← host_runText]
      exact ih (host.runMessage timing message).host

end Host

namespace Pad

variable (pad : Pad)

/-- The moves of a slot, if there is one. -/
def slotMoves : Option Slot → List Move
  | some slot => pad.host.textMoves pad.timing slot.kind slot.payload.text
  | none => []

/-- The moves of a command. -/
def moves : Command → List Move
  | .event event => [.event event]
  | .run kind text => pad.host.textMoves pad.timing kind text
  | .runSlot id kind text => pad.slotMoves (Slot.ofText? id kind text)
  | .runFactorySlot place => pad.slotMoves Slot.factory[place]?
  | .runPlan plan => pad.host.planMoves pad.timing plan
  | .send channel modifiers key => [.action (.send channel modifiers key)]
  | .holdModifiers modifiers => [.action (.send .paced modifiers 0)]
  | .releaseAll => [.action (.send .paced .none 0)]
  | .dropLink => [.dropLink]
  | .workOnce => pad.host.messageMoves pad.timing (pad.queue.waiting.take 1)
  | .work => pad.host.messageMoves pad.timing pad.queue.waiting
  | .askPacing | .askTiming | .enqueue _ _ => []

/-- The moves of a session. -/
def sessionMoves : Pad → List Command → List Move
  | _, [] => []
  | pad, command :: rest => pad.moves command ++ sessionMoves (pad.obey command).pad rest

theorem host_runSlot? (slot : Option Slot) :
    (pad.runSlot? slot).pad.host = pad.host.moveAll pad.timing (pad.slotMoves slot) := by
  cases slot with
  | none => rfl
  | some slot => exact pad.host.host_runText pad.timing slot.kind slot.payload.text

/-- **A command moves the host by its moves**, and by nothing else. -/
theorem host_obey (command : Command) :
    (pad.obey command).pad.host = pad.host.moveAll pad.timing (pad.moves command) := by
  cases command with
  | run kind text => exact pad.host.host_runText pad.timing kind text
  | runSlot id kind text => exact pad.host_runSlot? (Slot.ofText? id kind text)
  | runFactorySlot place => exact pad.host_runSlot? Slot.factory[place]?
  | runPlan plan => exact pad.host.host_runPlan pad.timing plan
  | enqueue kind text => exact (pad.enqueue_same kind text).1
  | work => exact pad.host.host_runMessages pad.timing pad.queue.waiting
  | workOnce =>
      simp only [obey, workOnce, moves]
      split
      · next hnone =>
          rw [hnone]
          rfl
      · next message rest hwaiting =>
          rw [hwaiting]
          exact pad.host.host_runMessages pad.timing [message]
  | event _ | send _ _ _ | holdModifiers _ | releaseAll | dropLink | askPacing | askTiming => rfl

theorem timing_obey (command : Command) : (pad.obey command).pad.timing = pad.timing := by
  cases command with
  | runSlot id kind text =>
      simp only [obey]
      cases Slot.ofText? id kind text <;> rfl
  | runFactorySlot place =>
      simp only [obey]
      cases Slot.factory[place]? <;> rfl
  | enqueue kind text => exact (pad.enqueue_same kind text).2.1
  | workOnce =>
      simp only [obey, workOnce]
      split <;> rfl
  | _ => rfl

/-- **A session moves the host by its moves.** -/
theorem host_afterSession (commands : List Command) :
    (pad.afterSession commands).host =
      pad.host.moveAll pad.timing (pad.sessionMoves commands) := by
  induction commands generalizing pad with
  | nil => rfl
  | cons command commands ih =>
      rw [sessionMoves, Host.moveAll_append, ← host_obey, ← pad.timing_obey command]
      exact ih (pad.obey command).pad

end Pad

/-! ## The law -/

/-- What a pad knows of its link after a history. -/
structure Link.Knows (link : Link) (history : List LinkEvent) : Prop where
  ready : link.ready = true ↔ HostListens history
  /-- What was told before the host was gone is forgotten. -/
  forgets : ∀ earlier recent, history = earlier ++ .disconnect :: recent →
    link.ready = (Link.after recent).ready
  /-- An output report makes no difference to the reports of the pad. -/
  lightsApart : ∀ earlier bytes recent, history = earlier ++ .outputReport bytes :: recent →
    link.ready = (Link.after (earlier ++ recent)).ready
  /-- More subscriptions never wrap round to none. -/
  subscribed : ∀ n, (Link.after (history ++ .replicate n .subscribe)).subscriptions.toNat =
    min (link.subscriptions.toNat + n) 255
  /-- Fewer subscriptions never wrap round to many. -/
  unsubscribed : ∀ n, (Link.after (history ++ .replicate n .unsubscribe)).subscriptions.toNat =
    link.subscriptions.toNat - n
  lights : link.lights = ⟨lightsTold history⟩
  numLock : link.lights.numLock = true ↔ (lightsTold history).toNat % 2 = 1

theorem Link.knows_after (history : List LinkEvent) : (Link.after history).Knows history where
  ready := Link.ready_iff_hostListens history
  forgets := by
    rintro earlier recent rfl
    exact Link.ready_after_disconnect earlier recent
  lightsApart := by
    rintro earlier bytes recent rfl
    exact Link.ready_after_outputReport earlier recent bytes
  subscribed := Link.toNat_subscriptions_subscribe history
  unsubscribed := Link.toNat_subscriptions_unsubscribe history
  lights := Link.lights_after history
  numLock := by rw [Lights.numLock_iff, Link.lights_after]

/-- **Reports go to a host that listens, and to no other.** A link is ready exactly if its
history, from a new pad on, says so. Whatever happens at a host after some history, and in
whatever order, a report is written only if all that was told until that moment says that the
host listens. Sessions are made of such moves: of the reports and waits that they ask for, of
the events that are commands, and of those that come due in a wait. -/
theorem gate_follows_history (timing : Timing) (history : List LinkEvent) :
    (Link.after history).Knows history ∧
      (∀ (host : Host) (before : List Move) (move : Move), host.link = Link.after history →
        ((host.moveAll timing before).move timing move).attempts ≠
            (host.moveAll timing before).attempts →
          HostListens (history ++ host.toldBy timing before)) ∧
      ∀ (pad : Pad) (commands : List Command), pad.timing = timing →
        (pad.afterSession commands).host =
          pad.host.moveAll timing (pad.sessionMoves commands) := by
  refine ⟨Link.knows_after history, ?_, ?_⟩
  · intro host before move hlink hattempt
    exact host.hostListens_of_attempt timing hlink hattempt
  · rintro pad commands rfl
    exact pad.host_afterSession commands

/-- A host that listened before it was gone and connects again: no report is written until it
is subscribed again, and the one after that is. -/
theorem gate_follows_history_reconnect :
    let history := [.connect, .subscribe, .disconnect, .connect]
    let pad := Pad.start .standard 8 (Host.start (Link.after history) [])
    let told := Move.event (.link (.countSubscriptions 1))
    let press := Move.action (.send .burst .none 4)
    pad.sessionMoves [.run .keybind "F12", .event (.link (.countSubscriptions 1)),
        .send .burst .none 4] = [told, press] ∧
      ¬ HostListens history ∧
      ((pad.host.moveAll .standard [told]).move .standard press).attempts = 1 ∧
      HostListens (history ++ [.countSubscriptions 1]) := by
  intro history pad told press
  have hattempt : ((pad.host.moveAll .standard [told]).move .standard press).attempts = 1 := by
    decide +kernel
  obtain ⟨hknows, hgate, -⟩ := gate_follows_history .standard history
  refine ⟨by decide +kernel, ?_, hattempt, ?_⟩
  · rw [← hknows.ready]
    decide
  · refine hgate pad.host [told] press rfl ?_
    rw [hattempt]
    decide

end MacroPad
