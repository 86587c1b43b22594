/-
`Dispatch.lean` -- macros that wait for their turn, amid everything else.

The worker plays a macro report by report, and between two reports it waits. In each of
these waits anything may happen: someone asks for another macro, the link goes and comes
back, the lights change. Here the work of a pad is cut into its smallest turns, which may
follow each other in any order. Whatever the order is, the macros that were let into the
queue leave it once each and in the order in which they joined, and the host sees what it
would see if each of them had been run directly, one after the other. What happens to the
host in the middle of a wait stands on its agenda, and a macro that joins in the middle of
one could as well join before or after it, so a whole wait is one turn.

An order without interruptions is what the pad does when it is told to play the next
macro, or all of them (`Desk.exists_after_eq_finish`, `Pad.work_eq_session`).
-/
import MacroPad.Proofs.DirectRuns
import MacroPad.Proofs.Release

set_option autoImplicit false

namespace MacroPad

/-! ## A pad at work -/

/-- One turn of what goes on around a queue. -/
inductive Turn where
  /-- Someone asks for a macro. -/
  | enqueue (kind : Kind) (text : String)
  /-- Something happens on the side of the host. -/
  | event (event : HostEvent)
  /-- The worker goes on with the macro that it plays, or else takes the next one. -/
  | work

/-- A macro that is being played. -/
structure Playing where
  message : Message
  /-- The host as the macro was taken from the queue. -/
  met : Host
  /-- What was recorded since then. -/
  journal : Journal
  /-- What is still to be played. -/
  left : Player Unit

/-- A pad and its worker. What is over and what joined is bookkeeping: no turn reads it. -/
structure Desk where
  pad : Pad
  /-- The macro that the worker has taken and not finished. -/
  playing : Option Playing
  /-- The macros that are over, the first one first. -/
  jobs : List Job
  /-- The macros that were let into the queue, the first one first. -/
  joined : List Message

/-- The macro that joins the queue when it is asked for, as far as the reply tells. -/
def Pad.admitted (pad : Pad) (kind : Kind) (text : String) : List Message :=
  match (pad.enqueue kind text).reply, Payload.ofString? text with
  | .queued (.ok ()), some payload => [⟨kind, payload⟩]
  | _, _ => []

namespace Desk

/-- Nothing was asked for yet. -/
def start (timing : Timing) (capacity : Nat) (host : Host) : Desk :=
  ⟨.start timing capacity host, none, [], []⟩

/-- A macro is over. -/
def finish (desk : Desk) (message : Message) (run : Run) : Desk :=
  { desk with
    pad := { desk.pad with host := run.host }
    playing := none
    jobs := desk.jobs ++ [⟨message, run⟩] }

/-- Begin with a macro. One that is turned away is over at once. -/
def begin (desk : Desk) (message : Message) : Desk :=
  let host := desk.pad.host
  let reading := Plan.ofMacro message.kind message.payload.text
  match host.link.ready, reading.result with
  | true, .ok plan =>
      -- a question about the lights is answered now, whatever becomes of them
      let player := host.opening (plan.player desk.pad.timing)
      { desk with playing := some ⟨message, host, reading.notices.map Entry.note, player⟩ }
  | _, _ =>
      desk.finish message (host.runText desk.pad.timing message.kind message.payload.text)

/-- Go on with a macro by one request, which is answered at once. -/
def proceed (desk : Desk) (now : Playing) : Desk :=
  match now.left with
  | .done () => desk.finish now.message ⟨desk.pad.host, now.journal, .ok ()⟩
  | .ask request next =>
      let (host, entries) := desk.pad.host.serve desk.pad.timing request
      let left := next (desk.pad.host.answer request)
      { desk with
        pad := { desk.pad with host := host }
        playing := some { now with journal := now.journal ++ entries, left := left } }

/-- The worker's turn. -/
def work (desk : Desk) : Desk :=
  match desk.playing, desk.pad.queue.waiting with
  | some now, _ => desk.proceed now
  | none, message :: rest =>
      begin { desk with pad.queue.waiting := rest } message
  | none, [] => desk

/-- What a turn brings about. -/
def turn (desk : Desk) : Turn → Desk
  | .enqueue kind text =>
      { desk with
        pad := (desk.pad.enqueue kind text).pad
        joined := desk.joined ++ desk.pad.admitted kind text }
  | .event event =>
      let (host, entries) := desk.pad.host.apply event
      { desk with
        pad := { desk.pad with host := host }
        playing := desk.playing.map fun now => { now with journal := now.journal ++ entries } }
  | .work => desk.work

/-- What some turns bring about, one after the other. -/
def after (desk : Desk) (turns : List Turn) : Desk := turns.foldl turn desk

end Desk

/-- The event that happens on the side of the host. -/
def Turn.event? : Turn → Option HostEvent
  | .event happened => some happened
  | .enqueue _ _ | .work => none

/-! ## Order -/

/-- A macro is played up to some request: what the host has seen since the macro was taken
is a course of the first part of its script, and the player has the other part left. -/
structure Playing.UnderWay (timing : Timing) (now : Playing) (during : List HostEvent)
    (host : Host) : Prop where
  ready : now.met.link.ready = true
  course : ∃ (plan : Plan) (past rest : List Action) (journal : Journal),
    (Plan.ofMacro now.message.kind now.message.payload.text).result = .ok plan ∧
      plan.script timing now.met.link.lights.numLock = past ++ rest ∧
      now.left = .performing rest ∧
      CourseAmid timing during now.met past journal host ∧
      now.journal = (Plan.ofMacro now.message.kind now.message.payload.text).notices.map
        Entry.note ++ journal

/-- What is true of a desk that started with some host, once these events have happened. -/
structure Desk.Orderly (timing : Timing) (capacity : Nat) (host : Host)
    (events : List HostEvent) (desk : Desk) : Prop where
  sameTiming : desk.pad.timing = timing
  sameCapacity : desk.pad.queue.capacity = capacity
  /-- The macros that are over, the one that is played and those that wait are the macros
  that joined, in their order. -/
  inOrder : desk.jobs.map Job.message ++ desk.playing.toList.map Playing.message ++
    desk.pad.queue.waiting = desk.joined
  fits : desk.pad.queue.size ≤ capacity
  idle : desk.playing = none → RunsInTurn timing host events desk.jobs desk.pad.host
  busy : ∀ now, desk.playing = some now → ∃ earlier during, earlier ++ during = events ∧
    RunsInTurn timing host earlier desk.jobs now.met ∧
    now.UnderWay timing during desk.pad.host

/-- How a pad answers when a macro is asked for. -/
structure Pad.Admits (pad : Pad) (kind : Kind) (text : String) (outcome : Outcome) : Prop where
  tooLong : outcome.reply = .queued (.error .payloadTooLong) ↔ 256 < text.utf8ByteSize
  full : outcome.reply = .queued (.error .full) ↔
    text.utf8ByteSize ≤ 256 ∧ pad.queue.size = pad.queue.capacity
  joined : outcome.reply = .queued (.ok ()) ↔
    text.utf8ByteSize ≤ 256 ∧ pad.queue.size < pad.queue.capacity
  /-- Nothing is sent and no time passes. -/
  apart : outcome.pad.host = pad.host ∧ outcome.journal.actions = []
  /-- A macro that is turned away leaves a notice behind and nothing else. -/
  refused : ∀ fault, outcome.reply = .queued (.error fault) →
    outcome.pad = pad ∧ outcome.journal = [.note (Queue.refusal kind text fault)]

/-! ## Asking for a macro -/

namespace Pad

variable (pad : Pad) (kind : Kind) (text : String)

/-- A macro that is asked for joins the queue, or finds it full, or is too long. -/
theorem enqueue_cases :
    (∃ payload, Payload.ofString? text = some payload ∧ text.utf8ByteSize ≤ 256 ∧
      pad.queue.size < pad.queue.capacity ∧ pad.enqueue kind text =
        ⟨{ pad with queue.waiting := pad.queue.waiting ++ [⟨kind, payload⟩] },
          .queued (.ok ()), []⟩) ∨
    (text.utf8ByteSize ≤ 256 ∧ pad.queue.capacity ≤ pad.queue.size ∧
      pad.enqueue kind text =
        ⟨pad, .queued (.error .full), [.note (Queue.refusal kind text .full)]⟩) ∨
    (256 < text.utf8ByteSize ∧
      pad.enqueue kind text =
        ⟨pad, .queued (.error .payloadTooLong), [.note (Queue.refusal kind text .payloadTooLong)]⟩) := by
  cases hpayload : Payload.ofString? text with
  | none =>
      refine .inr (.inr ⟨Payload.ofString?_eq_none_iff.1 hpayload, ?_⟩)
      simp only [enqueue, Queue.join, hpayload]
  | some payload =>
      have hfits : text.utf8ByteSize ≤ 256 := by
        rw [← Payload.ofString?_eq_some_iff.1 hpayload]
        exact payload.fits
      by_cases hroom : pad.queue.size < pad.queue.capacity
      · refine .inl ⟨payload, rfl, hfits, hroom, ?_⟩
        simp only [enqueue, Queue.join, hpayload, if_pos hroom]
      · refine .inr (.inl ⟨hfits, Nat.not_lt.1 hroom, ?_⟩)
        simp only [enqueue, Queue.join, hpayload, if_neg hroom]

theorem admits_enqueue (hsize : pad.queue.size ≤ pad.queue.capacity) :
    pad.Admits kind text (pad.enqueue kind text) := by
  obtain ⟨payload, -, hfits, hroom, heq⟩ | ⟨hfits, hfull, heq⟩ | ⟨hlong, heq⟩ :=
    pad.enqueue_cases kind text
  · rw [heq]
    refine ⟨?_, ?_, ?_, ⟨rfl, rfl⟩, by simp⟩
    · simp [hfits]
    · simp [Nat.ne_of_lt hroom]
    · simp [hfits, hroom]
  · have hexact : pad.queue.size = pad.queue.capacity := by omega
    rw [heq]
    refine ⟨?_, ?_, ?_, ⟨rfl, rfl⟩, ?_⟩
    · simp [hfits]
    · simp [hfits, hexact]
    · simp [hexact]
    · intro fault hfault
      obtain rfl : fault = .full := by simpa using hfault.symm
      exact ⟨rfl, rfl⟩
  · rw [heq]
    refine ⟨?_, ?_, ?_, ⟨rfl, rfl⟩, ?_⟩
    · simp [hlong]
    · simp [hlong]
    · simp [hlong]
    · intro fault hfault
      obtain rfl : fault = .payloadTooLong := by simpa using hfault.symm
      exact ⟨rfl, rfl⟩

/-- The reply tells what joined the queue. -/
theorem waiting_enqueue : (pad.enqueue kind text).pad.queue.waiting =
    pad.queue.waiting ++ pad.admitted kind text := by
  obtain ⟨payload, hpayload, -, -, heq⟩ | ⟨-, -, heq⟩ | ⟨-, heq⟩ := pad.enqueue_cases kind text
  · simp only [admitted, heq, hpayload]
  · simp [admitted, heq]
  · simp [admitted, heq]

theorem size_enqueue_le (hsize : pad.queue.size ≤ pad.queue.capacity) :
    (pad.enqueue kind text).pad.queue.size ≤ pad.queue.capacity := by
  obtain ⟨payload, -, -, hroom, heq⟩ | ⟨-, -, heq⟩ | ⟨-, heq⟩ := pad.enqueue_cases kind text
  · rw [heq, Queue.size, List.length_append]
    exact hroom
  · rw [heq]
    exact hsize
  · rw [heq]
    exact hsize

theorem enqueue_same : (pad.enqueue kind text).pad.host = pad.host ∧
    (pad.enqueue kind text).pad.timing = pad.timing ∧
    (pad.enqueue kind text).pad.queue.capacity = pad.queue.capacity := by
  obtain ⟨payload, -, -, -, heq⟩ | ⟨-, -, heq⟩ | ⟨-, heq⟩ := pad.enqueue_cases kind text
  all_goals
    rw [heq]
    exact ⟨rfl, rfl, rfl⟩

end Pad

/-! ## Every turn keeps order -/

namespace Playing.UnderWay

variable {timing : Timing} {now : Playing} {during : List HostEvent} {host : Host}

theorem event (h : now.UnderWay timing during host) (event : HostEvent) :
    Playing.UnderWay timing { now with journal := now.journal ++ (host.apply event).2 }
      (during ++ [event]) (host.apply event).1 := by
  obtain ⟨plan, past, rest, journal, hplan, hscript, hleft, hcourse, hjournal⟩ := h.course
  refine ⟨h.ready, plan, past, rest, _, hplan, hscript, hleft, hcourse.event event, ?_⟩
  rw [hjournal, List.append_assoc]

theorem ask {request : Request} {next : request.Answer → Player Unit}
    (h : now.UnderWay timing during host) (hnext : now.left = .ask request next) :
    Playing.UnderWay timing
      { now with
        journal := now.journal ++ (host.serve timing request).2
        left := next (host.answer request) }
      during (host.serve timing request).1 := by
  obtain ⟨plan, past, rest, journal, hplan, hscript, hleft, hcourse, hjournal⟩ := h.course
  rw [hnext] at hleft
  cases rest with
  | nil => contradiction
  | cons action rest =>
      -- the request is the next action, and no answer to it makes a difference
      obtain ⟨rfl, hnext⟩ := Player.ask.inj hleft
      obtain rfl := eq_of_heq hnext
      refine ⟨h.ready, plan, past ++ [action], rest, _, hplan, ?_, rfl, hcourse.action action, ?_⟩
      · rw [hscript, List.append_assoc]
        rfl
      · rw [hjournal, List.append_assoc]
        rfl

/-- A macro that was played to its end was run. -/
theorem runsDirectly (h : now.UnderWay timing during host) (hdone : now.left = .done ()) :
    RunsDirectly timing now.met now.message during ⟨host, now.journal, .ok ()⟩ := by
  obtain ⟨plan, past, rest, journal, hplan, hscript, hleft, hcourse, hjournal⟩ := h.course
  rw [hdone] at hleft
  obtain rfl : rest = [] := by
    cases rest with
    | nil => rfl
    | cons _ _ => contradiction
  rw [List.append_nil] at hscript
  rw [← hscript] at hcourse
  rw [hjournal]
  exact .played h.ready hplan hcourse

end Playing.UnderWay

namespace Desk

variable {timing : Timing} {capacity : Nat} {host : Host} {desk : Desk}
  {events : List HostEvent}

theorem orderly_start (timing : Timing) (capacity : Nat) (host : Host) :
    (start timing capacity host).Orderly timing capacity host [] :=
  ⟨rfl, rfl, rfl, Nat.zero_le capacity, fun _ => .start, fun _ hnow => nomatch hnow⟩

namespace Orderly

/-- A macro that was taken is over after a direct run. -/
theorem finish {message : Message} {earlier during : List HostEvent} {met : Host} {run : Run}
    (htiming : desk.pad.timing = timing) (hcapacity : desk.pad.queue.capacity = capacity)
    (horder : desk.jobs.map Job.message ++ message :: desk.pad.queue.waiting = desk.joined)
    (hfits : desk.pad.queue.size ≤ capacity)
    (hbefore : RunsInTurn timing host earlier desk.jobs met)
    (hrun : RunsDirectly timing met message during run) :
    (desk.finish message run).Orderly timing capacity host (earlier ++ during) := by
  refine ⟨htiming, hcapacity, ?_, hfits, fun _ => hbefore.run hrun, fun _ hnow => nomatch hnow⟩
  change _ = desk.joined
  rw [← horder]
  simp [Desk.finish]

theorem begin {message : Message} (htiming : desk.pad.timing = timing)
    (hcapacity : desk.pad.queue.capacity = capacity)
    (horder : desk.jobs.map Job.message ++ message :: desk.pad.queue.waiting = desk.joined)
    (hfits : desk.pad.queue.size ≤ capacity)
    (hbefore : RunsInTurn timing host events desk.jobs desk.pad.host) :
    (desk.begin message).Orderly timing capacity host events := by
  unfold Desk.begin
  dsimp only
  split
  · next plan hready hplan =>
      refine ⟨htiming, hcapacity, ?_, hfits, (fun hnow => nomatch hnow), ?_⟩
      · rw [← horder]
        simp
      · intro now hnow
        obtain rfl := Option.some.inj hnow
        refine ⟨events, [], List.append_nil _, hbefore, hready, plan, [], _, [], hplan, rfl, ?_,
          .done _, ?_⟩
        · rw [htiming, Host.opening_player]
          rfl
        · rw [List.append_nil]
  · next hnot =>
      have hends := (desk.pad.host.runAmid_runText timing message.kind
        message.payload.text).endsRight
      rw [← List.append_nil events, htiming]
      refine finish htiming hcapacity horder hfits hbefore ?_
      cases hresult : (desk.pad.host.runText timing message.kind message.payload.text).result with
      | error fault => exact .turnedAway rfl hresult
      | ok _ =>
          obtain ⟨hready, plan, hplan⟩ := hends.played.1 hresult
          exact absurd hplan (hnot plan hready)

theorem proceed (h : desk.Orderly timing capacity host events) {now : Playing}
    (hnow : desk.playing = some now) :
    (desk.proceed now).Orderly timing capacity host events := by
  obtain ⟨earlier, during, rfl, hbefore, hunder⟩ := h.busy now hnow
  have horder := h.inOrder
  rw [hnow, Option.toList_some, List.map_singleton, List.append_assoc, List.singleton_append]
    at horder
  unfold Desk.proceed
  split
  · next hdone =>
      exact finish h.sameTiming h.sameCapacity horder h.fits hbefore (hunder.runsDirectly hdone)
  · next request player hask =>
      refine ⟨h.sameTiming, h.sameCapacity, ?_, h.fits, (fun hnone => nomatch hnone), ?_⟩
      · rw [← horder]
        simp
      · intro next hnext
        obtain rfl := Option.some.inj hnext
        have hlater := hunder.ask hask
        rw [← h.sameTiming] at hlater hbefore ⊢
        exact ⟨earlier, during, rfl, hbefore, hlater⟩

theorem enqueue (h : desk.Orderly timing capacity host events) (kind : Kind) (text : String) :
    (desk.turn (.enqueue kind text)).Orderly timing capacity host events := by
  obtain ⟨hhost, htiming, hcapacity⟩ := desk.pad.enqueue_same kind text
  have hsize : desk.pad.queue.size ≤ desk.pad.queue.capacity := by
    rw [h.sameCapacity]
    exact h.fits
  refine ⟨htiming.trans h.sameTiming, hcapacity.trans h.sameCapacity, ?_, ?_, ?_, ?_⟩
  · change desk.jobs.map Job.message ++ desk.playing.toList.map Playing.message ++
      (desk.pad.enqueue kind text).pad.queue.waiting = _
    rw [desk.pad.waiting_enqueue, ← List.append_assoc, h.inOrder]
    rfl
  · rw [← h.sameCapacity]
    exact desk.pad.size_enqueue_le kind text hsize
  · intro hidle
    change RunsInTurn timing host events desk.jobs (desk.pad.enqueue kind text).pad.host
    rw [hhost]
    exact h.idle hidle
  · intro now hnow
    obtain ⟨earlier, during, hevents, hbefore, hunder⟩ := h.busy now hnow
    rw [← hhost] at hunder
    exact ⟨earlier, during, hevents, hbefore, hunder⟩

theorem event (h : desk.Orderly timing capacity host events) (event : HostEvent) :
    (desk.turn (.event event)).Orderly timing capacity host (events ++ [event]) := by
  refine ⟨h.sameTiming, h.sameCapacity, ?_, h.fits, ?_, ?_⟩
  · change _ = desk.joined
    rw [← h.inOrder]
    cases hnow : desk.playing <;> simp [Desk.turn, hnow]
  · intro hidle
    exact .event (h.idle (Option.map_eq_none_iff.1 hidle)) event
  · intro next hnext
    -- the event belongs to the macro that is being played
    obtain ⟨now, hnow, rfl⟩ := Option.map_eq_some_iff.1 hnext
    obtain ⟨earlier, during, rfl, hbefore, hunder⟩ := h.busy now hnow
    exact ⟨earlier, during ++ [event], (List.append_assoc _ _ _).symm, hbefore,
      hunder.event event⟩

theorem work (h : desk.Orderly timing capacity host events) :
    desk.work.Orderly timing capacity host events := by
  unfold Desk.work
  split
  · next now _ hnow => exact h.proceed hnow
  · next message rest hidle hwaiting =>
      have horder := h.inOrder
      have hfits := h.fits
      rw [hidle, hwaiting] at horder
      rw [Queue.size, hwaiting] at hfits
      refine begin h.sameTiming h.sameCapacity ?_ ?_ (h.idle hidle)
      · rw [← horder]
        simp
      · exact Nat.le_of_succ_le hfits
  · exact h

/-- **One turn keeps order**, whichever it is. -/
theorem turn (h : desk.Orderly timing capacity host events) (turn : Turn) :
    (desk.turn turn).Orderly timing capacity host (events ++ turn.event?.toList) := by
  cases turn with
  | enqueue kind text =>
      have hnone : events ++ (Turn.enqueue kind text).event?.toList = events := by
        simp [Turn.event?]
      rw [hnone]
      exact h.enqueue kind text
  | event event => exact h.event event
  | work =>
      have hnone : events ++ Turn.work.event?.toList = events := by simp [Turn.event?]
      rw [hnone]
      exact h.work

/-- **Any number of turns keeps order.** -/
theorem after (h : desk.Orderly timing capacity host events) (turns : List Turn) :
    (desk.after turns).Orderly timing capacity host (events ++ turns.filterMap Turn.event?) := by
  induction turns generalizing desk events with
  | nil =>
      rw [List.filterMap_nil, List.append_nil]
      exact h
  | cons turn turns ih =>
      have hturn := ih (h.turn turn)
      rw [List.append_assoc] at hturn
      rw [List.filterMap_cons]
      cases hevent : turn.event? with
      | none =>
          rw [hevent] at hturn
          exact hturn
      | some event =>
          rw [hevent] at hturn
          exact hturn

theorem exists_runAmid (h : desk.Orderly timing capacity host events) :
    ∀ job ∈ desk.jobs, ∃ met, RunAmid timing met job.message.kind
      (Plan.ofMacro job.message.kind job.message.payload.text) job.run := by
  cases hnow : desk.playing with
  | none => exact (h.idle hnow).exists_runAmid
  | some now =>
      obtain ⟨_, _, _, hbefore, _⟩ := h.busy now hnow
      exact hbefore.exists_runAmid

end Orderly

/-! ## Turns of the worker without anything in between -/

theorem after_append (desk : Desk) (first later : List Turn) :
    desk.after (first ++ later) = (desk.after first).after later :=
  List.foldl_append

/-- A macro that is being played is played to its end. -/
theorem after_of_playing {message : Message} {met : Host} {journal : Journal}
    {actions : List Action}
    (hnow : desk.playing = some ⟨message, met, journal, .performing actions⟩) :
    desk.after (List.replicate (actions.length + 1) .work) =
      desk.finish message
        ⟨(desk.pad.host.performAll desk.pad.timing actions).1,
          journal ++ (desk.pad.host.performAll desk.pad.timing actions).2, .ok ()⟩ := by
  -- each turn takes the first action off what is left
  induction actions generalizing desk journal with
  | nil =>
      have hturn : desk.turn .work = desk.finish message ⟨desk.pad.host, journal, .ok ()⟩ := by
        rw [turn, work, hnow]
        rfl
      rw [Host.performAll_nil, List.append_nil]
      exact hturn
  | cons action rest ih =>
      have hturn : desk.turn .work =
          { desk with
            pad.host := (desk.pad.host.perform desk.pad.timing action).1
            playing := some ⟨message, met,
              journal ++ (desk.pad.host.perform desk.pad.timing action).2, .performing rest⟩ } := by
        rw [turn, work, hnow]
        rfl
      change (desk.turn .work).after (List.replicate (rest.length + 1) .work) = _
      rw [hturn, ih rfl, Host.performAll_cons, ← List.append_assoc]
      rfl

theorem exists_after_begin (desk : Desk) (message : Message) :
    ∃ n, (desk.begin message).after (List.replicate n .work) =
      desk.finish message
        (desk.pad.host.runText desk.pad.timing message.kind message.payload.text) := by
  unfold begin
  dsimp only
  split
  · next plan hready hplan =>
      -- one turn for each action and one for the end
      rw [Host.opening_player, Host.runText_eq, Host.runReading_ok hready hplan]
      exact ⟨_, after_of_playing rfl⟩
  · exact ⟨0, rfl⟩

/-- **The worker left alone runs the next macro directly.** -/
theorem exists_after_eq_finish {message : Message} {rest : List Message}
    (hidle : desk.playing = none) (hnext : desk.pad.queue.waiting = message :: rest) :
    ∃ n, desk.after (List.replicate n .work) =
      ({ desk with pad.queue.waiting := rest } : Desk).finish message
        (desk.pad.host.runText desk.pad.timing message.kind message.payload.text) := by
  have hturn : desk.turn .work = ({ desk with pad.queue.waiting := rest } : Desk).begin message := by
    rw [turn, work, hidle, hnext]
  obtain ⟨n, hn⟩ := exists_after_begin { desk with pad.queue.waiting := rest } message
  refine ⟨n + 1, ?_⟩
  rw [List.replicate_succ]
  change (desk.turn .work).after _ = _
  rw [hturn, hn]

end Desk

/-! ## Sessions -/

/-- The pad after some commands. -/
def Pad.afterSession (pad : Pad) (commands : List Command) : Pad :=
  commands.foldl (fun pad command => (pad.obey command).pad) pad

namespace Pad

/-- Playing macros one by one on demand is playing them all. -/
theorem replicate_workOnce {messages : List Message} {pad : Pad}
    (hwaiting : pad.queue.waiting = messages) :
    pad.afterSession (List.replicate messages.length .workOnce) =
        { pad with
          host := (pad.host.runMessages pad.timing messages).1
          queue.waiting := [] } ∧
      pad.sessionJournal (List.replicate messages.length .workOnce) =
        (pad.host.runMessages pad.timing messages).2 := by
  induction messages generalizing pad with
  | nil =>
      refine ⟨?_, rfl⟩
      change pad = { pad with queue.waiting := [] }
      rw [← hwaiting]
  | cons message messages ih =>
      let run := pad.host.runMessage pad.timing message
      have hfirst : pad.obey .workOnce =
          ⟨{ pad with host := run.host, queue.waiting := messages }, .ran run.result,
            run.journal⟩ := by
        rw [obey, workOnce, hwaiting]
      have hrest : (pad.obey .workOnce).pad.queue.waiting = messages := by rw [hfirst]
      obtain ⟨hpad, hjournal⟩ := ih hrest
      constructor
      · change (pad.obey .workOnce).pad.afterSession _ = _
        rw [hpad, hfirst]
        rfl
      · change (pad.obey .workOnce).journal ++ (pad.obey .workOnce).pad.sessionJournal _ = _
        rw [hjournal, hfirst]
        rfl

/-- **Playing all is playing the next one until none waits.** -/
theorem work_eq_session (pad : Pad) :
    pad.work =
      ⟨pad.afterSession (List.replicate pad.queue.size .workOnce), .waiting,
        .note .workerStarted ::
          pad.sessionJournal (List.replicate pad.queue.size .workOnce)⟩ := by
  have hwaiting : pad.queue.waiting = pad.queue.waiting := rfl
  obtain ⟨hpad, hjournal⟩ := replicate_workOnce hwaiting
  rw [Queue.size, hpad, hjournal]
  rfl

end Pad

/-- The command tells of the host, asks for a macro through the queue, or tells the worker
to play. -/
def Command.isDispatch : Command → Bool
  | event _ | enqueue _ _ | workOnce | work => true
  | run _ _ | runSlot _ _ _ | runFactorySlot _ | runPlan _ | send _ _ _ | holdModifiers _ |
      releaseAll | dropLink | askPacing | askTiming => false

namespace Desk

/-- Some turns lead to a pad on which nothing is played at that moment. -/
def Reaches (desk : Desk) (pad : Pad) : Prop :=
  ∃ turns, (desk.after turns).playing = none ∧ (desk.after turns).pad = pad

variable {desk : Desk} {commands : List Command}

theorem reaches_session
    (h : ∀ command ∈ commands, ∀ desk : Desk, desk.playing = none →
      desk.Reaches (desk.pad.obey command).pad)
    (hidle : desk.playing = none) : desk.Reaches (desk.pad.afterSession commands) := by
  induction commands generalizing desk with
  | nil => exact ⟨[], hidle, rfl⟩
  | cons command commands ih =>
      obtain ⟨hcommand, hrest⟩ := List.forall_mem_cons.1 h
      obtain ⟨first, hfirst, hpad⟩ := hcommand desk hidle
      obtain ⟨later, hlater, hend⟩ := ih hrest hfirst
      refine ⟨first ++ later, ?_, ?_⟩
      · rw [after_append]
        exact hlater
      · rw [after_append, hend, hpad]
        rfl

theorem reaches_workOnce (desk : Desk) (hidle : desk.playing = none) :
    desk.Reaches (desk.pad.obey .workOnce).pad := by
  cases hwaiting : desk.pad.queue.waiting with
  | nil =>
      refine ⟨[], hidle, ?_⟩
      rw [Pad.obey, Pad.workOnce, hwaiting]
      rfl
  | cons message rest =>
      obtain ⟨n, hn⟩ := exists_after_eq_finish hidle hwaiting
      refine ⟨List.replicate n .work, ?_, ?_⟩
      · rw [hn]
        rfl
      · rw [hn, Pad.obey, Pad.workOnce, hwaiting]
        rfl

/-- What the pad does at once on a command, it does in turns. -/
theorem reaches_obey {command : Command} (h : command.isDispatch = true) (desk : Desk)
    (hidle : desk.playing = none) : desk.Reaches (desk.pad.obey command).pad := by
  cases command with
  | event event =>
      refine ⟨[.event event], ?_, rfl⟩
      exact Option.map_eq_none_iff.2 hidle
  | enqueue kind text => exact ⟨[.enqueue kind text], hidle, rfl⟩
  | workOnce => exact desk.reaches_workOnce hidle
  | work =>
      rw [Pad.obey, Pad.work_eq_session]
      -- all that wait, one by one
      refine reaches_session (fun command hmem => ?_) hidle
      rw [List.eq_of_mem_replicate hmem]
      exact reaches_workOnce
  | _ => contradiction

end Desk

/-! ## The law -/

/-- How the worker of an idle desk plays the next macro if nothing comes in between. -/
structure Desk.RunsNext (desk : Desk) (message : Message) (rest : List Message) (run : Run) :
    Prop where
  inTurns : ∃ n, desk.after (List.replicate n .work) =
    ({ desk with pad.queue.waiting := rest } : Desk).finish message run
  atOnce : desk.pad.workOnce =
    ⟨{ desk.pad with host := run.host, queue.waiting := rest }, .ran run.result,
      .note (.macroDispatched message.kind) :: run.journal⟩

/-- **The queue runs what joined it, directly and in order.** Whatever turns follow each
other, a macro that is asked for is let in or turned away by its length and the room that
is left, nothing is lost, doubled or passed, and the host sees direct runs, one after the
other, amid the events that happen to it. Without events a direct run is the run on
request. Left alone, the worker runs the next macro exactly as it would be run on request,
and playing everything is playing the next one until none waits. Every session of such
commands is one of the orders of turns. -/
theorem dispatch_runs_directly (timing : Timing) (capacity : Nat) (host : Host)
    (turns : List Turn) :
    let desk := (Desk.start timing capacity host).after turns
    desk.Orderly timing capacity host (turns.filterMap Turn.event?) ∧
      (∀ kind text, desk.pad.Admits kind text (desk.pad.enqueue kind text)) ∧
      (∀ job ∈ desk.jobs, ∃ met, RunAmid timing met job.message.kind
        (Plan.ofMacro job.message.kind job.message.payload.text) job.run) ∧
      (∀ (met : Host) (message : Message) (run : Run), RunsDirectly timing met message [] run ↔
        run = met.runText timing message.kind message.payload.text) ∧
      (∀ message rest, desk.playing = none → desk.pad.queue.waiting = message :: rest →
        desk.RunsNext message rest
          (desk.pad.host.runText timing message.kind message.payload.text)) ∧
      (desk.pad.queue.waiting = [] → desk.pad.workOnce = ⟨desk.pad, .waiting, []⟩) ∧
      desk.pad.work =
        ⟨desk.pad.afterSession (List.replicate desk.pad.queue.size .workOnce), .waiting,
          .note .workerStarted ::
            desk.pad.sessionJournal (List.replicate desk.pad.queue.size .workOnce)⟩ ∧
      desk.pad.work.pad.queue.waiting = [] ∧
      ∀ commands : List Command, (∀ command ∈ commands, command.isDispatch = true) →
        (Desk.start timing capacity host).Reaches
          ((Pad.start timing capacity host).afterSession commands) := by
  intro desk
  have horderly : desk.Orderly timing capacity host (turns.filterMap Turn.event?) :=
    (Desk.orderly_start timing capacity host).after turns
  refine ⟨horderly, ?_, horderly.exists_runAmid, fun met message run => runsDirectly_nil_iff,
    ?_, ?_, desk.pad.work_eq_session, rfl, ?_⟩
  · intro kind text
    have hsize : desk.pad.queue.size ≤ desk.pad.queue.capacity := by
      rw [horderly.sameCapacity]
      exact horderly.fits
    exact desk.pad.admits_enqueue kind text hsize
  · intro message rest hidle hwaiting
    rw [← horderly.sameTiming]
    refine ⟨Desk.exists_after_eq_finish hidle hwaiting, ?_⟩
    rw [Pad.workOnce, hwaiting]
    rfl
  · intro hwaiting
    rw [Pad.workOnce, hwaiting]
    rfl
  · intro commands hcommands
    exact Desk.reaches_session (fun command hmem => Desk.reaches_obey (hcommands command hmem)) rfl

/-- The queue has room for two macros, so a third one is turned away. The first is taken, and
while it is played another one joins and the writer begins to refuse reports: its press arrives and
its release is lost. The second one is no macro; it is taken and over at once. The one that joined
meanwhile is next. -/
theorem dispatch_runs_directly_f12 :
    let host := Host.start Link.start.listening []
    let full := (Desk.start .standard 2 host).after
      [.enqueue .keybind "F12", .enqueue .keybind "F13"]
    let desk := (Desk.start .standard 2 host).after
      [.enqueue .keybind "F12", .enqueue .keybind "F13", .enqueue .keybind "Tab", .work,
        .enqueue .typing "a", .work, .event (.writer (some .notificationFailed)), .work, .work,
        .work, .work, .work]
    (full.pad.enqueue .keybind "Tab").reply = .queued (.error .full) ∧
      desk.joined.map (fun message => message.payload.text) = ["F12", "F13", "a"] ∧
      (desk.jobs.map fun job => (job.message.payload.text, job.run.result, job.run.journal.fates)) =
        [("F12", .ok (), [.accepted, .refused .notificationFailed]),
          ("F13", .error (.rejected .unknownKey), [])] ∧
      RunsInTurn .standard host [.writer (some .notificationFailed)] desk.jobs desk.pad.host ∧
      (∀ job ∈ desk.jobs, ∃ met, RunAmid .standard met job.message.kind
        (Plan.ofMacro job.message.kind job.message.payload.text) job.run) ∧
      ∃ message, desk.pad.queue.waiting = [message] ∧ message.payload.text = "a" ∧
        desk.RunsNext message [] (desk.pad.host.runText .standard .typing "a") := by
  intro host full desk
  have hidle : desk.playing = none := by
    rw [← Option.isNone_iff_eq_none]
    decide +kernel
  have hwaiting : desk.pad.queue.waiting = [⟨.typing, "a", by decide⟩] := by decide +kernel
  have hfull : full.pad.queue.size = full.pad.queue.capacity := by decide +kernel
  have hafter : desk = (Desk.start .standard 2 host).after _ := rfl
  obtain ⟨-, hadmits, -⟩ := dispatch_runs_directly .standard 2 host
    [.enqueue .keybind "F12", .enqueue .keybind "F13"]
  have hlaw := dispatch_runs_directly .standard 2 host
    [.enqueue .keybind "F12", .enqueue .keybind "F13", .enqueue .keybind "Tab", .work,
      .enqueue .typing "a", .work, .event (.writer (some .notificationFailed)), .work, .work,
      .work, .work, .work]
  dsimp only at hlaw
  rw [← hafter] at hlaw
  obtain ⟨horderly, -, hruns, -, hnext, -⟩ := hlaw
  refine ⟨(hadmits .keybind "Tab").full.2 ⟨by decide, hfull⟩, ?_, ?_, horderly.idle hidle, hruns,
    _, hwaiting, rfl, hnext _ _ hidle hwaiting⟩
  · decide +kernel
  · decide +kernel

end MacroPad
