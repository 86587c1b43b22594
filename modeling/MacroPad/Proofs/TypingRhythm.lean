/-
`TypingRhythm.lean` -- characters at an even pace.

What is left of the interval of a character is worked out once, from durations of any size, and
waited after each character, while the hold and the pauses around it are cut one by one. The two
agree: a duration that is cut is far longer than any interval, so nothing is left of it either
way. From one press to the next passes the interval of the rate, or the time for which a character
is busy, whichever is longer, and a character that the layout lacks takes no time at all. Only if
the durations are too long for a sum in 64 bits, a rest may be waited that is none.
-/
import MacroPad.Proofs.PlanShape
import MacroPad.Proofs.TapSchedule

set_option autoImplicit false

namespace MacroPad

/-- The times at which keys go down. -/
def Journal.pressTimes (journal : Journal) : List Nat :=
  (journal.arrivals.filter fun arrival => arrival.2.key != 0).map Prod.fst

/-- The time for which a character is busy: its key is held, and both of its reports are paced. -/
def Timing.busy (timing : Timing) : Nat := dwell timing.typingHold + 2 * dwell timing.pacing

/-- The time from one character to the next at a rate, which counts as 1 if it is 0. -/
def Timing.stride (timing : Timing) (perSecond : UInt8) : Nat :=
  timing.busy + (1000000 / max perSecond.toNat 1 - timing.typingTime)

section Characters

variable (timing : Timing) (perSecond : UInt8)

/-- A character is busy and rests for one stride. -/
theorem busy_add_rest :
    dwell timing.pacing + dwell timing.typingHold +
        (dwell timing.pacing + dwell (timing.restAfterCharacter perSecond)) =
      timing.stride perSecond := by
  rw [dwell_restAfterCharacter, Timing.stride, Timing.busy]
  omega

/-- **A stride is the interval or the busy time**, whichever is longer. Where the hold or a pause
is cut, that alone is longer than the interval, and nothing is left to rest. -/
theorem stride_eq_max (h : timing.FitsTyping) :
    timing.stride perSecond = max (1000000 / max perSecond.toNat 1) timing.busy := by
  have hinterval : 1000000 / max perSecond.toNat 1 ≤ 1000000 := Nat.div_le_self _ _
  rw [Timing.stride, Timing.typingTime_eq h, Timing.busy]
  generalize 1000000 / max perSecond.toNat 1 = interval at hinterval ⊢
  simp only [dwell]
  omega

/-- A stride is never shorter than the interval: durations too long for a sum in 64 bits are cut,
but not to less than that. -/
theorem interval_le_stride : 1000000 / max perSecond.toNat 1 ≤ timing.stride perSecond := by
  by_cases hfits : timing.FitsTyping
  · rw [stride_eq_max timing perSecond hfits]
    exact Nat.le_max_left ..
  · have hinterval : 1000000 / max perSecond.toNat 1 ≤ 1000000 := Nat.div_le_self _ _
    rw [Timing.FitsTyping, UInt64.size] at hfits
    rw [Timing.stride, Timing.busy]
    simp only [dwell]
    omega

/-- A character that is busy for less than the interval takes one interval. -/
theorem stride_eq_interval (h : timing.busy ≤ 1000000 / max perSecond.toNat 1) :
    timing.stride perSecond = 1000000 / max perSecond.toNat 1 := by
  have hinterval : 1000000 / max perSecond.toNat 1 ≤ 1000000 := Nat.div_le_self _ _
  -- nothing was cut, so the durations are small
  have hfits : timing.FitsTyping := by
    rw [Timing.busy] at h
    simp only [dwell] at h
    rw [Timing.FitsTyping, UInt64.size]
    omega
  rw [stride_eq_max timing perSecond hfits, Nat.max_eq_left h]

/-- What is typed of a text. -/
def typedScript (cs : List Char) : List Action :=
  cs.flatMap (characterScript timing.typingHold (timing.restAfterCharacter perSecond))

/-- A character of the layout is a tap, and any other one takes no time. -/
theorem schedule_typedScript_cons (start : Nat) (c : Char) (cs : List Char) :
    schedule timing start (typedScript timing perSecond (c :: cs)) =
      match Chord.ofChar? c with
      | some chord =>
          (start, chord.press) ::
            (start + dwell timing.pacing + dwell timing.typingHold, .release) ::
              schedule timing (start + timing.stride perSecond) (typedScript timing perSecond cs)
      | none => schedule timing start (typedScript timing perSecond cs) := by
  rw [typedScript, List.flatMap_cons, schedule_append, ← typedScript, characterScript]
  cases Chord.ofChar? c with
  | some chord =>
      simp only [schedule_tap, span_tap, busy_add_rest]
      rfl
  | none => rfl

theorem span_typedScript (cs : List Char) :
    span timing (typedScript timing perSecond cs) =
      (cs.filterMap Chord.ofChar?).length * timing.stride perSecond := by
  induction cs with
  | nil => exact (Nat.zero_mul _).symm
  | cons c cs ih =>
      rw [typedScript, List.flatMap_cons, span_append, ← typedScript, ih, characterScript,
        List.filterMap_cons]
      cases Chord.ofChar? c with
      | some chord =>
          simp only [span_tap, busy_add_rest, List.length_cons, Nat.add_mul, Nat.one_mul]
          omega
      | none => exact Nat.zero_add _

/-- **Characters are typed in strides**, those that the layout lacks left out. The induction is on
the text, with as many strides in front of it as characters were typed before. -/
theorem schedule_typedScript (start k : Nat) (cs : List Char) :
    schedule timing (start + k * timing.stride perSecond) (typedScript timing perSecond cs) =
      ((cs.filterMap Chord.ofChar?).zipIdx k).flatMap fun (chord, i) =>
        [(start + i * timing.stride perSecond, chord.press),
          (start + i * timing.stride perSecond + dwell timing.pacing + dwell timing.typingHold,
            .release)] := by
  induction cs generalizing k with
  | nil => rfl
  | cons c cs ih =>
      rw [schedule_typedScript_cons, List.filterMap_cons]
      cases Chord.ofChar? c with
      | some chord =>
          have hnext : start + k * timing.stride perSecond + timing.stride perSecond =
              start + (k + 1) * timing.stride perSecond := by
            rw [Nat.add_mul, Nat.one_mul, Nat.add_assoc]
          simp only [hnext, ih, List.zipIdx_cons, List.flatMap_cons]
          rfl
      | none => exact ih k

end Characters

/-! ## The law -/

/-- Chords that are pressed in equal steps press their keys in equal steps, whenever they are
released. -/
theorem presses_eq_range' (start step k : Nat) (released : Nat → Nat) (chords : List Chord) :
    (((chords.zipIdx k).flatMap fun (chord, i) =>
        [(start + i * step, chord.press),
          (released i, Report.release)]).filter fun arrival => arrival.2.key != 0).map Prod.fst =
      List.range' (start + k * step) chords.length step := by
  induction chords generalizing k with
  | nil => rfl
  | cons chord chords ih =>
      have hnext : start + k * step + step = start + (k + 1) * step := by
        rw [Nat.add_mul, Nat.one_mul, Nat.add_assoc]
      simp only [List.zipIdx_cons, List.flatMap_cons, List.filter_append, List.map_append, ih,
        List.length_cons, List.range'_succ, hnext]
      simp [Report.release]

/-- With the durations of a new pad a character is busy for less than the interval of any rate
that a text can ask for. -/
theorem busy_standard_le {payload typed : String} {rate : UInt8}
    (h : (Plan.ofMacro .typing payload).result = .ok (.typing typed rate)) :
    Timing.standard.busy ≤ 1000000 / max rate.toNat 1 := by
  obtain ⟨paced, hpaced, hplan⟩ := Plan.exists_read_of_ofMacro h
  obtain ⟨-, rfl⟩ := Plan.typing.inj hplan
  obtain ⟨hslowest, hfastest⟩ := (typingShape_of_ofText hpaced).rate
  have hbusy : Timing.standard.busy = 17000 := by decide
  rw [hbusy, Nat.le_div_iff_mul_le (by omega)]
  omega

/-- **Typing keeps its rhythm.** The text is played at a rate on a host that is ready, and every
report is accepted, whatever else happens. Then the characters that the layout has are pressed one
stride after the other, each is released when its press was paced and its key was held, and the
others take no time. A stride is the interval of the rate or the time for which a character is
busy, whichever is longer, as long as 64 bits can count the hold and the two pauses. Presses are
never closer than the interval, and they are exactly that far apart if a character is not busy for
longer, which no text can bring about on a new pad. -/
theorem typing_keeps_rhythm {timing : Timing} {host : Host} {text : String} {perSecond : UInt8}
    {run : Run} (h : PlaysAmid timing host (.typing text perSecond) run)
    (hall : run.journal.AllAccepted) :
    run.journal.arrivals =
        ((text.toList.filterMap Chord.ofChar?).zipIdx.flatMap fun (chord, i) =>
          [(host.clock + i * timing.stride perSecond, chord.press),
            (host.clock + i * timing.stride perSecond + dwell timing.pacing +
              dwell timing.typingHold, .release)]) ∧
      run.host.clock =
        host.clock + (text.toList.filterMap Chord.ofChar?).length * timing.stride perSecond ∧
      (timing.FitsTyping →
        timing.stride perSecond = max (1000000 / max perSecond.toNat 1) timing.busy) ∧
      run.journal.pressTimes.IsChain
        (fun time next => time + 1000000 / max perSecond.toNat 1 ≤ next) ∧
      (timing.busy ≤ 1000000 / max perSecond.toNat 1 →
        run.journal.pressTimes.IsChain
          fun time next => next = time + 1000000 / max perSecond.toNat 1) ∧
      ∀ (payload typed : String) (rate : UInt8),
        (Plan.ofMacro .typing payload).result = .ok (.typing typed rate) →
          Timing.standard.busy ≤ 1000000 / max rate.toNat 1 := by
  obtain ⟨harrivals, hclock⟩ := h.arrivals_eq hall
  have hscript : Plan.script timing host.link.lights.numLock (.typing text perSecond) =
      typedScript timing perSecond text.toList := rfl
  have hstart : host.clock = host.clock + 0 * timing.stride perSecond := by omega
  rw [hscript, hstart, schedule_typedScript] at harrivals
  rw [hscript, span_typedScript] at hclock
  -- the presses stand at equal steps, so they are apart by the step
  have hsteps : run.journal.pressTimes =
      List.range' host.clock (text.toList.filterMap Chord.ofChar?).length
        (timing.stride perSecond) := by
    have hpresses := presses_eq_range' host.clock (timing.stride perSecond) 0
      (fun i => host.clock + i * timing.stride perSecond + dwell timing.pacing +
        dwell timing.typingHold) (text.toList.filterMap Chord.ofChar?)
    rwa [← harrivals, ← hstart] at hpresses
  have happart := List.isChain_range' host.clock (text.toList.filterMap Chord.ofChar?).length
    (timing.stride perSecond)
  refine ⟨harrivals, hclock, stride_eq_max timing perSecond, ?_, ?_,
    fun payload typed rate => busy_standard_le⟩
  · rw [hsteps]
    refine happart.imp fun time next hnext => ?_
    rw [hnext]
    exact Nat.add_le_add_left (interval_le_stride timing perSecond) time
  · intro hbusy
    rw [hsteps]
    refine happart.imp fun time next hnext => ?_
    rw [hnext, stride_eq_interval timing perSecond hbusy]

/-- Three characters and one that the layout lacks, at 8 per second on a new pad. -/
theorem typing_keeps_rhythm_eight_per_second :
    let payload := "Hé-y (8/s)"
    let host := Host.start Link.start.listening []
    let run := host.runText .standard .typing payload
    host.link.ready = true ∧
      (Plan.ofMacro .typing payload).result = .ok (.typing "Hé-y" 8) ∧
      run.journal.AllAccepted ∧
      run.journal.arrivals =
        [(0, .press (.only .leftShift) 0x0B), (11000, .release), (125000, .press .none 0x2D),
          (136000, .release), (250000, .press .none 0x1C), (261000, .release)] ∧
      run.host.clock = 375000 ∧ Timing.standard.busy ≤ 125000 ∧
      run.journal.pressTimes.IsChain fun time next => next = time + 125000 := by
  intro payload host run
  have hplan : (Plan.ofMacro .typing payload).result = .ok (.typing "Hé-y" 8) := by
    decide +kernel
  have hall : run.journal.AllAccepted := by decide +kernel
  have hplays : PlaysAmid .standard host (.typing "Hé-y" 8) run := PlaysAmid.runText rfl hplan
  obtain ⟨harrivals, hclock, -, -, hapart, hstandard⟩ := typing_keeps_rhythm hplays hall
  have hbusy : Timing.standard.busy ≤ 125000 := hstandard payload "Hé-y" 8 hplan
  refine ⟨rfl, hplan, hall, harrivals.trans ?_, hclock.trans ?_, hbusy, hapart hbusy⟩
  · decide +kernel
  · decide +kernel

end MacroPad
