/-
`TapSchedule.lean` -- when the reports of a tap arrive.

A tap is four parts of a schedule: the press is paced, the key is held, the release is paced and
the host settles. Holding and settling are left out where they come to nothing, which moves no
report. Whatever is played tap by tap therefore has its times as soon as the taps are known.
-/
import MacroPad.Proofs.PlayingTime

set_option autoImplicit false

namespace MacroPad

variable {timing : Timing} {start : Nat} {first later : List Action}

/-! ## Spans -/

theorem span_append : span timing (first ++ later) = span timing first + span timing later := by
  induction first with
  | nil => exact (Nat.zero_add _).symm
  | cons action first ih => rw [List.cons_append, span, span, ih, Nat.add_assoc]

theorem duration_press (modifiers : Modifiers) (key : UInt8) :
    (Action.press modifiers key).duration timing = dwell timing.pacing :=
  toNat_ofNat_eq_dwell timing.pacing

/-- A pause that is left out would not have taken time. -/
@[simp] theorem span_pause (us : Nat) : span timing (Action.pause us) = dwell us := by
  unfold Action.pause
  split
  · next hzero =>
      rw [← toNat_ofNat_eq_dwell, hzero]
      rfl
  · exact toNat_ofNat_eq_dwell us

@[simp] theorem schedule_pause (us : Nat) : schedule timing start (Action.pause us) = [] := by
  unfold Action.pause
  split <;> rfl

/-! ## Taps -/

/-- The report that presses a chord. -/
def Chord.press (chord : Chord) : Report := .press chord.modifiers chord.key.usage

/-- By the key a press is told from a release. -/
@[simp] theorem Chord.key_press_bne (chord : Chord) : (chord.press.key != 0) = true :=
  bne_iff_ne.2 chord.key.usage_ne_zero

/-- A step with a chord is a tap, and then a wait if there is one. -/
theorem Step.script_chord (timing : Timing) (chord : Chord) (ms : UInt32) :
    (⟨chord.key.usage, chord.modifiers, ms⟩ : Step).script timing =
      Action.tap chord.modifiers chord.key.usage timing.keyHold timing.keySettle ++
        if ms = 0 then [] else [.waitMs ms] := by
  have hpress : ¬ (⟨chord.key.usage, chord.modifiers, ms⟩ : Step).isPause = true := by
    rw [isPause, beq_iff_eq]
    exact chord.key.usage_ne_zero
  rw [script, if_neg hpress]

section Taps

variable (modifiers : Modifiers) (key : UInt8) (hold settle : Nat)

/-- The release comes when the press was paced and the key was held. -/
theorem schedule_tap :
    schedule timing start (Action.tap modifiers key hold settle) =
      [(start, .press modifiers key), (start + dwell timing.pacing + dwell hold, .release)] := by
  have hpress : (Action.press modifiers key).arrival? start = some (start, .press modifiers key) :=
    rfl
  have hrelease : ∀ time, Action.release.arrival? time = some (time, .release) := fun time => rfl
  rw [Action.tap, List.cons_append, schedule, schedule_append, schedule_pause, span_pause, schedule,
    schedule_pause, duration_press, hpress, hrelease]
  rfl

/-- After the release everything is paced and settles. -/
theorem span_tap :
    span timing (Action.tap modifiers key hold settle) =
      dwell timing.pacing + dwell hold + (dwell timing.pacing + dwell settle) := by
  have hrelease : Action.release.duration timing = dwell timing.pacing := duration_press .none 0
  rw [Action.tap, List.cons_append, span, span_append, span_pause, span, span_pause, duration_press,
    hrelease, Nat.add_assoc]

end Taps

/-! ## Runs -/

/-- **A run without losses keeps to the schedule** of its plan, and ends when the plan has taken
its time. The notices of the grammar come first and bring nothing to the host. -/
theorem PlaysAmid.arrivals_eq {host : Host} {plan : Plan} {run : Run}
    (h : PlaysAmid timing host plan run) (hall : run.journal.AllAccepted) :
    run.journal.arrivals =
        schedule timing host.clock (plan.script timing host.link.lights.numLock) ∧
      run.host.clock =
        host.clock + span timing (plan.script timing host.link.lights.numLock) := by
  obtain ⟨notices, journal, hjournal, course⟩ := h.exists_course
  rw [hjournal] at hall ⊢
  obtain ⟨-, hrest⟩ := (Journal.allAccepted_append _ _).1 hall
  rw [Journal.arrivals_append, Journal.arrivals_map_note, List.nil_append]
  exact course.arrivals_eq hrest

end MacroPad
