/-
`Endings.lean` -- how asking for a macro ends.

A macro that is asked for is played, or turned away because the host is not ready, or
turned away because of its text, and which of the three it is depends on two things
only: whether the host is ready at that moment, and what is read of the text. The host
is looked at first. A macro that is turned away leaves nothing behind but notices. The
length of a text is checked before any grammar, and no grammar finds a text too long
that fits into a slot.
-/
import MacroPad.Pad.Session
import MacroPad.Proofs.Course
import MacroPad.Proofs.HoldGrammar
import MacroPad.Proofs.StepGrammar

set_option autoImplicit false

namespace MacroPad

/-! ## Text that is too long -/

section Length

variable {cs : List Char}

/-- A part of a text takes no more bytes than the text. -/
theorem utf8ByteSize_le_of_append (a text b : List Char) :
    (String.ofList text).utf8ByteSize ≤ (String.ofList (a ++ text ++ b)).utf8ByteSize := by
  rw [String.ofList_append, String.ofList_append, String.utf8ByteSize_append,
    String.utf8ByteSize_append]
  omega

theorem Chord.add_ne_payloadTooLong (p : Chord.Partial) (word : List Char) :
    p.add word ≠ .error .payloadTooLong := by
  unfold Chord.Partial.add
  split
  · simp
  · split
    · simp
    · simp
    · split <;> simp

theorem Chord.foldlM_add_ne_payloadTooLong (words : List (List Char)) (p : Chord.Partial) :
    words.foldlM Chord.Partial.add p ≠ .error .payloadTooLong := by
  induction words generalizing p with
  | nil => simp [pure, Except.pure]
  | cons word words ih =>
      rw [List.foldlM_cons]
      cases hnext : p.add word with
      | ok next => exact ih next
      | error fault =>
          intro h
          obtain rfl : fault = .payloadTooLong := Except.error.inj h
          exact Chord.add_ne_payloadTooLong p word hnext

theorem Chord.ofText_ne_payloadTooLong : Chord.ofText cs ≠ .error .payloadTooLong := by
  unfold Chord.ofText
  cases hfold : (cs.splitOn '+').foldlM Chord.Partial.add .start with
  | error fault =>
      intro h
      obtain rfl : fault = .payloadTooLong := Except.error.inj h
      exact Chord.foldlM_add_ne_payloadTooLong _ _ hfold
  | ok last =>
      change last.finish ≠ .error .payloadTooLong
      unfold Chord.Partial.finish
      split <;> simp

theorem Step.listOfText_ne_payloadTooLong : Step.listOfText cs ≠ .error .payloadTooLong := by
  intro h
  have htext := Step.stepText_listOfText cs
  rw [h] at htext
  cases htext with
  | rejected _ _ hoffends =>
      cases hoffends with
      | badChord _ _ _ hfault => exact Chord.ofText_ne_payloadTooLong hfault

theorem Hold.ofText_ne_payloadTooLong : (Hold.ofText cs).result ≠ .error .payloadTooLong := by
  intro h
  obtain ⟨notices, hholds⟩ := Hold.holdText_ofText cs
  rw [h] at hholds
  cases hholds

namespace PacedText

theorem rateOfText_ne_payloadTooLong : rateOfText cs ≠ .error .payloadTooLong := by
  unfold rateOfText
  split
  · simp
  · dsimp only
    split
    · simp
    · split <;> simp

theorem cutRate_ne_payloadTooLong : cutRate cs ≠ .error .payloadTooLong := by
  unfold cutRate
  split
  · simp
  · split
    · simp
    · split
      · next fault hrate =>
          intro h
          obtain rfl := Except.error.inj h
          exact rateOfText_ne_payloadTooLong hrate
      · split <;> simp

/-- The text to type is a part of the text that is read. -/
theorem exists_append_of_cutRate {text : List Char} {rate : UInt8}
    (h : cutRate cs = .ok (text, rate)) : ∃ a b, cs = a ++ text ++ b := by
  unfold cutRate at h
  split at h
  · obtain ⟨rfl, -⟩ := Prod.mk.inj (Except.ok.inj h)
    exact ⟨[], [], by simp⟩
  · next before tail hcut =>
      obtain ⟨rfl, -⟩ := Text.cutLast?_eq_some_iff.1 hcut
      split at h
      · contradiction
      · split at h
        · contradiction
        · split at h
          · obtain ⟨rfl, -⟩ := Prod.mk.inj (Except.ok.inj h)
            obtain ⟨a, b, hbefore, -, -⟩ := Text.exists_trim_eq before
            refine ⟨a, b ++ '(' :: tail, ?_⟩
            rw [← List.append_assoc, ← hbefore]
          · contradiction

/-- Only a text that is too long for a slot leaves too much to type. -/
theorem payloadLimit_lt_of_ofText (h : ofText cs = .error .payloadTooLong) :
    payloadLimit < (String.ofList cs).utf8ByteSize := by
  unfold ofText at h
  split at h
  · next fault hcut =>
      obtain rfl := Except.error.inj h
      exact absurd hcut cutRate_ne_payloadTooLong
  · next text rate hcut =>
      dsimp only at h
      split at h
      · contradiction
      · next hlong =>
          obtain ⟨a, b, htrim⟩ := exists_append_of_cutRate hcut
          obtain ⟨c, d, hcs, -, -⟩ := Text.exists_trim_eq cs
          have hinner := utf8ByteSize_le_of_append a text b
          have houter := utf8ByteSize_le_of_append c (Text.trim cs) d
          rw [← htrim] at hinner
          rw [← hcs] at houter
          omega

end PacedText

/-- **Length is decided before grammar.** A text is found too long exactly if it does
not fit into a slot. -/
theorem Plan.ofMacro_eq_payloadTooLong_iff (kind : Kind) (text : String) :
    (Plan.ofMacro kind text).result = .error .payloadTooLong ↔ payloadLimit < text.utf8ByteSize := by
  constructor
  · intro h
    obtain ⟨hlong, -⟩ | hgrammar := Plan.fault_of_ofMacro h
    · exact hlong
    cases kind with
    | keystroke => exact absurd hgrammar Step.listOfText_ne_payloadTooLong
    | typing =>
        have hlong := PacedText.payloadLimit_lt_of_ofText hgrammar
        rwa [String.ofList_toList] at hlong
    | keybind => exact absurd hgrammar Chord.ofText_ne_payloadTooLong
    | holdSequence => exact absurd hgrammar Hold.ofText_ne_payloadTooLong
  · intro hlong
    rw [Plan.ofMacro, if_neg (Nat.not_le.2 hlong)]
    rfl

end Length

/-! ## The three endings -/

/-- How a run ends that was asked for on a host, given what is read of the text. -/
structure EndsRight (timing : Timing) (host : Host) (read : Except GrammarFault Plan)
    (run : Run) : Prop where
  /-- It is turned away first if the host is not ready, whatever the text is. -/
  notReady : run.result = .error .notReady ↔ host.link.ready = false
  rejected : ∀ fault, run.result = .error (.rejected fault) ↔
    host.link.ready = true ∧ read = .error fault
  played : run.result = .ok () ↔ host.link.ready = true ∧ ∃ plan, read = .ok plan
  /-- Turned away, it leaves the host as it was, with no report and no wait asked for. -/
  untouched : ∀ fault, run.result = .error fault →
    run.host = host ∧ ∀ entry ∈ run.journal, ∃ notice, entry = .note notice
  /-- Played, it is a course of the whole script, after notices of what was read. -/
  playedOut : ∀ plan, run.result = .ok () → read = .ok plan →
    ∃ (notices : List Notice) (journal : Journal), run.journal = notices.map Entry.note ++ journal ∧
      Course timing host (plan.script timing host.link.lights.numLock) journal run.host

section Endings

variable {timing : Timing} {host : Host} {kind : Kind} {reading : Reading Plan} {run : Run}

/-- **A run amid events has one of the three endings.** What happens while a plan is
played does not matter. -/
theorem RunAmid.endsRight (h : RunAmid timing host kind reading run) :
    EndsRight timing host reading.result run := by
  cases h with
  | ignored unready =>
      refine ⟨?_, ?_, ?_, ?_, ?_⟩
      · exact ⟨fun _ => unready, fun _ => rfl⟩
      · simp [Host.ignore, unready]
      · simp [Host.ignore, unready]
      · intro fault _
        exact ⟨rfl, List.forall_mem_singleton.2 ⟨_, rfl⟩⟩
      · intro plan hplayed
        contradiction
  | @rejected fault ready bad =>
      refine ⟨?_, ?_, ?_, ?_, ?_⟩
      · simp [ready]
      · simp [ready, bad]
      · simp [bad]
      · intro _ _
        refine ⟨rfl, List.forall_mem_append.2 ⟨?_, List.forall_mem_singleton.2 ⟨_, rfl⟩⟩⟩
        intro entry hentry
        obtain ⟨notice, -, rfl⟩ := List.mem_map.1 hentry
        exact ⟨notice, rfl⟩
      · intro plan hplayed
        contradiction
  | @played plan journal _ ready good playing =>
      refine ⟨?_, ?_, ?_, ?_, ?_⟩
      · simp [ready]
      · simp [good]
      · exact ⟨fun _ => ⟨ready, plan, good⟩, fun _ => rfl⟩
      · intro fault hfault
        contradiction
      · intro other _ hread
        obtain rfl := Except.ok.inj (good.symm.trans hread)
        exact ⟨reading.notices, journal, rfl, performance_player_iff.1 playing⟩

/-- A notice in front of what a run records makes no difference to its ending. -/
theorem EndsRight.note {read : Except GrammarFault Plan} (h : EndsRight timing host read run)
    (notice : Notice) :
    EndsRight timing host read { run with journal := .note notice :: run.journal } := by
  refine ⟨h.notReady, h.rejected, h.played, ?_, ?_⟩
  · intro fault hfault
    obtain ⟨hhost, hjournal⟩ := h.untouched fault hfault
    exact ⟨hhost, List.forall_mem_cons.2 ⟨⟨notice, rfl⟩, hjournal⟩⟩
  · intro plan hplayed hread
    obtain ⟨notices, journal, hjournal, hcourse⟩ := h.playedOut plan hplayed hread
    exact ⟨notice :: notices, journal, congrArg (Entry.note notice :: ·) hjournal, hcourse⟩

end Endings

/-! ## The ways to ask -/

/-- The command asks for the macro of a text: at once, as a slot, or as the next macro
of the queue. -/
inductive Command.AsksFor (pad : Pad) (kind : Kind) (text : String) : Command → Prop
  | run : AsksFor pad kind text (.run kind text)
  | slot (id : UInt8) (hfits : text.utf8ByteSize ≤ payloadLimit) :
      AsksFor pad kind text (.runSlot id kind text)
  | factorySlot {place : Nat} {slot : Slot} (hslot : Slot.factory[place]? = some slot)
      (hkind : slot.kind = kind) (htext : slot.payload.text = text) :
      AsksFor pad kind text (.runFactorySlot place)
  | queued {message : Message} {rest : List Message}
      (hnext : pad.queue.waiting = message :: rest) (hkind : message.kind = kind)
      (htext : message.payload.text = text) : AsksFor pad kind text .workOnce

/-- The pad answers with the result of a run that ends as it should. -/
def Pad.AnswersRight (pad : Pad) (command : Command) (read : Except GrammarFault Plan) : Prop :=
  ∃ result, (pad.obey command).reply = .ran result ∧
    EndsRight pad.timing pad.host read
      ⟨(pad.obey command).pad.host, (pad.obey command).journal, result⟩

namespace Pad

variable (pad : Pad)

theorem endsRight_runSlot (slot : Slot) :
    EndsRight pad.timing pad.host (Plan.ofMacro slot.kind slot.payload.text).result
      (pad.host.runSlot pad.timing slot) :=
  (pad.host.runAmid_runText pad.timing slot.kind slot.payload.text).endsRight.note _

/-- **Every way to ask is answered by the same rule.** -/
theorem answersRight_of_asksFor {kind : Kind} {text : String} {command : Command}
    (h : command.AsksFor pad kind text) :
    pad.AnswersRight command (Plan.ofMacro kind text).result := by
  cases h with
  | run => exact ⟨_, rfl, (pad.host.runAmid_runText pad.timing kind text).endsRight⟩
  | slot id hfits =>
      have hslot : Slot.ofText? id kind text = some ⟨id, kind, text, hfits⟩ := by
        have hpayload : Payload.ofString? text = some ⟨text, hfits⟩ :=
          Payload.ofString?_eq_some_iff.2 rfl
        rw [Slot.ofText?, hpayload]
        rfl
      have hobey : pad.obey (.runSlot id kind text) =
          pad.afterRun (pad.host.runSlot pad.timing ⟨id, kind, text, hfits⟩) := by
        rw [obey, hslot]
        rfl
      rw [AnswersRight, hobey]
      exact ⟨_, rfl, pad.endsRight_runSlot ⟨id, kind, text, hfits⟩⟩
  | @factorySlot place slot hslot hkind htext =>
      have hobey : pad.obey (.runFactorySlot place) =
          pad.afterRun (pad.host.runSlot pad.timing slot) := by
        rw [obey, hslot]
        rfl
      rw [AnswersRight, hobey, ← hkind, ← htext]
      exact ⟨_, rfl, pad.endsRight_runSlot slot⟩
  | @queued message rest hnext hkind htext =>
      have hrun := (pad.host.runAmid_runText pad.timing message.kind message.payload.text).endsRight
      rw [AnswersRight, obey, workOnce, hnext, ← hkind, ← htext]
      exact ⟨_, rfl, hrun.note _⟩

theorem answersRight_runPlan (plan : Plan) : pad.AnswersRight (.runPlan plan) (.ok plan) :=
  ⟨_, rfl, (pad.host.runAmid_runPlan pad.timing plan).endsRight⟩

end Pad

/-- On a host that is ready, exactly the macros of a kind are played. -/
theorem Host.isMacro_iff_played (timing : Timing) {host : Host} (hready : host.link.ready = true)
    (kind : Kind) (text : String) :
    Plan.isMacro kind text = true ↔ (host.runText timing kind text).result = .ok () := by
  have hplayed := (host.runAmid_runText timing kind text).endsRight.played
  rw [hplayed, Plan.isMacro]
  cases hread : (Plan.ofMacro kind text).result with
  | ok plan => simp [hready, Except.isOk, Except.toBool]
  | error fault => simp [Except.isOk, Except.toBool]

theorem Queue.join_eq_payloadTooLong_iff (queue : Queue) (kind : Kind) (text : String) :
    queue.join kind text = .error .payloadTooLong ↔ payloadLimit < text.utf8ByteSize := by
  rw [← Payload.ofString?_eq_none_iff]
  unfold Queue.join
  split
  · next hnone => simp [hnone]
  · next payload hsome =>
      by_cases hroom : queue.size < queue.capacity
      · simp [hsome, hroom]
      · simp [hsome, hroom]

/-! ## The law -/

/-- **A macro is played or leaves nothing behind.** Whatever happens on the side of the
host, a macro that is asked for is turned away if the host is not ready, is rejected
with the fault of its text if it is, and is played otherwise, to the end of its script;
so are plans. A text is a macro of its kind exactly if it is played on a host that is
ready, and so is a slot. It is found too long exactly if it fits neither into a slot
nor into the queue. -/
theorem run_endsRight (timing : Timing) (kind : Kind) (text : String) :
    (∀ (host : Host) (run : Run), RunAmid timing host kind (Plan.ofMacro kind text) run →
        EndsRight timing host (Plan.ofMacro kind text).result run) ∧
      (∀ (pad : Pad) (command : Command), command.AsksFor pad kind text →
        pad.AnswersRight command (Plan.ofMacro kind text).result) ∧
      (∀ (pad : Pad) (plan : Plan), pad.AnswersRight (.runPlan plan) (.ok plan)) ∧
      (∀ host : Host, host.link.ready = true →
        (Plan.isMacro kind text = true ↔ (host.runText timing kind text).result = .ok ()) ∧
          ∀ slot : Slot, slot.isWellFormed = true ↔ (host.runSlot timing slot).result = .ok ()) ∧
      ((Plan.ofMacro kind text).result = .error .payloadTooLong ↔ 256 < text.utf8ByteSize) ∧
      (∀ id : UInt8, Slot.ofText? id kind text = none ↔ 256 < text.utf8ByteSize) ∧
      ∀ queue : Queue, queue.join kind text = .error .payloadTooLong ↔ 256 < text.utf8ByteSize := by
  refine ⟨fun host run h => h.endsRight, fun pad command h => pad.answersRight_of_asksFor h,
    fun pad plan => pad.answersRight_runPlan plan, ?_, ?_, ?_, ?_⟩
  · intro host hready
    refine ⟨Host.isMacro_iff_played timing hready kind text, fun slot => ?_⟩
    exact Host.isMacro_iff_played timing hready slot.kind slot.payload.text
  · exact Plan.ofMacro_eq_payloadTooLong_iff kind text
  · intro id
    rw [Slot.ofText?, Option.map_eq_none_iff, Payload.ofString?_eq_none_iff]
    rfl
  · intro queue
    exact queue.join_eq_payloadTooLong_iff kind text

/-- A text that is no macro is asked for while no host is there, and then again once one
listens, also as a slot. A text that is one is played on a host that refuses its first report
and is gone by the second, also from the queue; and a plan is turned away as texts are. -/
theorem run_endsRight_unknown_key :
    let absent := Host.start Link.start []
    let listening := Host.start Link.start.listening []
    let failing := { Host.start Link.start.listening [⟨10000, .link .disconnect⟩] with
      fault := some .notificationFailed }
    let played := failing.runText .standard .keybind "Tab"
    let pad := { Pad.start .standard 8 failing with
      queue.waiting := [⟨.keybind, "Tab", by decide⟩] }
    (absent.runText .standard .keybind "F13").result = .error .notReady ∧
      (listening.runText .standard .keybind "F13").result = .error (.rejected .unknownKey) ∧
      (listening.runText .standard .keybind "F13").host = listening ∧
      (pad.obey (.runSlot 3 .keybind "F13")).reply = .ran (.error (.rejected .unknownKey)) ∧
      played.result = .ok () ∧
      played.journal.fates = [.refused .notificationFailed, .skipped] ∧
      (∃ (notices : List Notice) (journal : Journal),
        played.journal = notices.map Entry.note ++ journal ∧
          Course .standard failing [.press .none 0x2B, .waitUs 15000, .release, .waitUs 8000]
            journal played.host) ∧
      (pad.obey .workOnce).reply = .ran (.ok ()) ∧
      ((Pad.start .standard 8 absent).obey (.runPlan (.keybind 0x2B .none))).reply =
        .ran (.error .notReady) := by
  intro absent listening failing played pad
  have hno : (Plan.ofMacro .keybind "F13").result = .error .unknownKey := by rfl
  have hyes : (Plan.ofMacro .keybind "Tab").result = .ok (.keybind 0x2B .none) := by rfl
  obtain ⟨hruns, hasks, hplans, -⟩ := run_endsRight .standard .keybind "F13"
  obtain ⟨hgoodRuns, hgoodAsks, -⟩ := run_endsRight .standard .keybind "Tab"
  have habsent := hruns absent _ (absent.runAmid_runText .standard .keybind "F13")
  have hlistening := hruns listening _ (listening.runAmid_runText .standard .keybind "F13")
  have hrejected := (hlistening.rejected .unknownKey).2 ⟨rfl, hno⟩
  obtain ⟨slotResult, hslot, hslotEnds⟩ := hasks pad _ (.slot 3 (by decide))
  have hplayed := hgoodRuns failing _ (failing.runAmid_runText .standard .keybind "Tab")
  have hdone : played.result = .ok () := hplayed.played.2 ⟨rfl, _, hyes⟩
  obtain ⟨queueResult, hqueue, hqueueEnds⟩ := hgoodAsks pad _ (.queued rfl rfl rfl)
  obtain ⟨planResult, hplan, hplanEnds⟩ :=
    hplans (Pad.start .standard 8 absent) (.keybind 0x2B .none)
  refine ⟨habsent.notReady.2 rfl, hrejected, (hlistening.untouched _ hrejected).1, ?_, hdone, ?_,
    hplayed.playedOut _ hdone hyes, ?_, ?_⟩
  · exact hslot.trans (congrArg Reply.ran ((hslotEnds.rejected .unknownKey).2 ⟨rfl, hno⟩))
  · decide +kernel
  · exact hqueue.trans (congrArg Reply.ran (hqueueEnds.played.2 ⟨rfl, _, hyes⟩))
  · exact hplan.trans (congrArg Reply.ran (hplanEnds.notReady.2 rfl))

end MacroPad
