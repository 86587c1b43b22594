/-
`Timetable.lean` -- when the chords of a keystroke macro are pressed, read off its text.

The parts of the text are gone through from the left, and it is enough to keep the time at which the
last chord was done and the exact sum of the waits since. The sum is cut once, when the next chord
comes. On the side of the player the waits have become part of the steps before them, and a wait at
the start has become a step that presses nothing; the two sides arrive at the same times.
-/
import MacroPad.Proofs.PlanShape
import MacroPad.Proofs.TapSchedule

set_option autoImplicit false

namespace MacroPad

/-! ## The timetable of a text -/

/-- The reports of some parts with their times, and the time at which all is done. The last chord
was done at `idle`, and the waits since then come to exactly `total` milliseconds. -/
inductive Timetable (timing : Timing) :
    Nat → Nat → List (List Char) → List (Nat × Report) → Nat → Prop
  | done (idle total : Nat) :
      Timetable timing idle total [] [] (idle + 1000 * min total 0xFFFFFFFF)
  | wait {idle total ms finish : Nat} {part : List Char} {parts : List (List Char)}
      {arrivals : List (Nat × Report)} (hwait : ExactWait part ms)
      (rest : Timetable timing idle (total + ms) parts arrivals finish) :
      Timetable timing idle total (part :: parts) arrivals finish
  | chord {idle total pressed released finish : Nat} {part : List Char} {chord : Chord}
      {parts : List (List Char)} {arrivals : List (Nat × Report)}
      (hchord : Chord.ofText part = .ok chord)
      (hpressed : pressed = idle + 1000 * min total 0xFFFFFFFF)
      (hreleased : released = pressed + dwell timing.pacing + dwell timing.keyHold)
      (rest : Timetable timing (released + dwell timing.pacing + dwell timing.keySettle) 0 parts
        arrivals finish) :
      Timetable timing idle total (part :: parts)
        ((pressed, chord.press) :: (released, .release) :: arrivals) finish

/-- The chords among some parts, in their order. -/
def chordsOf (parts : List (List Char)) : List Chord :=
  parts.filterMap fun part => (Chord.ofText part).toOption

section Chords

variable {part : List Char} {parts : List (List Char)}

/-- What is a wait is no chord. -/
theorem chordsOf_cons_of_isWait (h : IsWait part) : chordsOf (part :: parts) = chordsOf parts := by
  refine List.filterMap_cons_none ?_
  cases hread : Chord.ofText part with
  | ok chord => exact absurd h (IsChord.not_isWait ⟨chord, hread⟩)
  | error fault => rfl

theorem chordsOf_cons_of_chord {chord : Chord} (h : Chord.ofText part = .ok chord) :
    chordsOf (part :: parts) = chord :: chordsOf parts := by
  refine List.filterMap_cons_some ?_
  rw [h]
  rfl

theorem chordsOf_eq_nil (h : ∀ part ∈ parts, IsWait part) : chordsOf parts = [] := by
  induction parts with
  | nil => rfl
  | cons part parts ih =>
      obtain ⟨hpart, hparts⟩ := List.forall_mem_cons.1 h
      rw [chordsOf_cons_of_isWait hpart, ih hparts]

end Chords

/-! ## The times of steps -/

section Steps

variable {timing : Timing} {idle total finish start : Nat} {parts waits : List (List Char)}
  {steps : List Step} {arrivals : List (Nat × Report)}

/-- A wait of no length would not have taken time. -/
theorem span_waitMs (ms : UInt32) :
    span timing (if ms = 0 then [] else [.waitMs ms]) = 1000 * ms.toNat := by
  split
  · next hzero =>
      rw [hzero]
      rfl
  · rfl

theorem schedule_waitMs (ms : UInt32) :
    schedule timing start (if ms = 0 then [] else [.waitMs ms]) = [] := by
  split <;> rfl

namespace Step

theorem schedule_pause (ms : UInt32) :
    schedule timing start ((⟨0, .none, ms⟩ : Step).script timing) = [] :=
  schedule_waitMs ms

theorem span_pause (ms : UInt32) :
    span timing ((⟨0, .none, ms⟩ : Step).script timing) = 1000 * ms.toNat :=
  span_waitMs ms

section Chords

variable (chord : Chord) (ms : UInt32)

theorem schedule_chord :
    schedule timing start ((⟨chord.key.usage, chord.modifiers, ms⟩ : Step).script timing) =
      [(start, chord.press), (start + dwell timing.pacing + dwell timing.keyHold, .release)] := by
  rw [script_chord, schedule_append, schedule_tap, schedule_waitMs, List.append_nil]
  rfl

theorem span_chord :
    span timing ((⟨chord.key.usage, chord.modifiers, ms⟩ : Step).script timing) =
      dwell timing.pacing + dwell timing.keyHold + (dwell timing.pacing + dwell timing.keySettle) +
        1000 * ms.toNat := by
  rw [script_chord, span_append, span_tap, span_waitMs]

end Chords

end Step

/-- Waits add up until the next chord comes. -/
theorem Timetable.of_waitRow (hwaits : WaitRow waits total) {sum : Nat}
    (h : Timetable timing idle (sum + total) parts arrivals finish) :
    Timetable timing idle sum (waits ++ parts) arrivals finish := by
  induction hwaits generalizing sum with
  | nil => exact h
  | cons hwait _ ih => exact .wait hwait (ih (by rwa [Nat.add_assoc]))

/-- **The steps of chords keep the timetable of their parts**, after whatever wait. The wait that a
step ends with is the one that the next chord comes after. -/
theorem ChordRow.timetable (h : ChordRow parts steps) (idle total : Nat) :
    Timetable timing idle total parts
      (schedule timing (idle + 1000 * min total 0xFFFFFFFF)
        (steps.flatMap (Step.script timing)))
      (idle + 1000 * min total 0xFFFFFFFF + span timing (steps.flatMap (Step.script timing))) := by
  induction h generalizing idle total with
  | nil => exact .done idle total
  | @cons part chord waits parts sum waitMs steps hchord hwaits hms _ ih =>
      rw [List.cons_append, List.flatMap_cons, schedule_append, Step.schedule_chord, span_append,
        Step.span_chord, hms]
      refine .chord hchord rfl rfl (Timetable.of_waitRow hwaits ?_)
      have hrest := ih (idle + 1000 * min total 0xFFFFFFFF + dwell timing.pacing +
        dwell timing.keyHold + dwell timing.pacing + dwell timing.keySettle) (0 + sum)
      simp only [Nat.zero_add, Nat.add_assoc] at hrest ⊢
      exact hrest

/-- The steps of a macro keep the timetable of its parts. A step in front that presses nothing is
a wait like any other. -/
theorem StepsOf.timetable (h : StepsOf parts steps) (start : Nat) :
    Timetable timing start 0 parts (schedule timing start (steps.flatMap (Step.script timing)))
      (start + span timing (steps.flatMap (Step.script timing))) := by
  cases h with
  | chords h => exact h.timetable start 0
  | @pause waits parts total waitMs steps _ hwaits hms rest =>
      rw [List.flatMap_cons, schedule_append, Step.schedule_pause, span_append, Step.span_pause, hms,
        List.nil_append, ← Nat.add_assoc]
      refine Timetable.of_waitRow hwaits ?_
      rw [Nat.zero_add]
      exact rest.timetable start total

end Steps

/-! ## What a timetable says -/

/-- A wait has one exact length. -/
theorem ExactWait.unique {part : List Char} {m n : Nat} (hm : ExactWait part m)
    (hn : ExactWait part n) : m = n := by
  obtain ⟨digits, blanks, unit, scale, hform, -, hdigits, hblanks, hunit, rfl⟩ := hm
  obtain ⟨digits', blanks', unit', scale', hform', -, hdigits', hblanks', hunit', rfl⟩ := hn
  obtain ⟨hcut, htrim⟩ := WaitReading.cutUnit?_of_form hdigits hblanks hunit
  obtain ⟨hcut', htrim'⟩ := WaitReading.cutUnit?_of_form hdigits' hblanks' hunit'
  rw [← hform, hform', hcut', Option.some.injEq, Prod.mk.injEq] at hcut
  -- the unit is cut off in one way only, so the numbers in front of it are the same
  obtain ⟨hnumber, hscale⟩ := hcut
  rw [← htrim, ← hnumber, htrim']
  have hsame : scale' = scale := by
    cases hunit <;> cases hunit' <;> first | rfl | exact absurd hscale (by decide)
  rw [hsame]

namespace Timetable

variable {timing : Timing} {idle total finish : Nat} {part : List Char}
  {parts before waits : List (List Char)} {arrivals : List (Nat × Report)} {chord : Chord}

/-- The chords are pressed and released in their order, and nothing else is sent. -/
theorem reports_eq (h : Timetable timing idle total parts arrivals finish) :
    arrivals.map Prod.snd = (chordsOf parts).flatMap fun chord => [chord.press, .release] := by
  induction h with
  | done _ _ => rfl
  | wait hwait _ ih => rw [ih, chordsOf_cons_of_isWait ⟨_, hwait⟩]
  | chord hchord _ _ _ ih =>
      rw [List.map_cons, List.map_cons, ih, chordsOf_cons_of_chord hchord, List.flatMap_cons]
      rfl

/-- Where the next part is a chord, it is pressed when the waits before it are over. -/
theorem exists_of_chord (h : Timetable timing idle total (part :: parts) arrivals finish)
    (hchord : Chord.ofText part = .ok chord) :
    ∃ released later,
      arrivals = (idle + 1000 * min total 0xFFFFFFFF, chord.press) :: (released, .release) :: later ∧
        Timetable timing (released + dwell timing.pacing + dwell timing.keySettle) 0 parts later
          finish := by
  cases h with
  | wait hwait _ => exact absurd ⟨_, hwait⟩ (IsChord.not_isWait ⟨chord, hchord⟩)
  | chord hread hpressed _ rest =>
      obtain rfl := Except.ok.inj (hread.symm.trans hchord)
      subst hpressed
      exact ⟨_, _, rfl, rest⟩

/-- Waits in a row add to the sum. -/
theorem of_waits_append (hwaits : WaitRow waits total) {sum : Nat}
    (h : Timetable timing idle sum (waits ++ parts) arrivals finish) :
    Timetable timing idle (sum + total) parts arrivals finish := by
  induction hwaits generalizing sum with
  | nil => exact h
  | @cons part waits ms total hwait _ ih =>
      cases h with
      | wait hwait' rest =>
          obtain rfl := hwait.unique hwait'
          rw [← Nat.add_assoc]
          exact ih rest
      | chord hchord _ _ _ => exact absurd ⟨ms, hwait⟩ (IsChord.not_isWait ⟨_, hchord⟩)

/-- A timetable goes on behind any of its parts, with two reports for each chord before. -/
theorem exists_append (h : Timetable timing idle total (before ++ parts) arrivals finish) :
    ∃ (idle' total' : Nat) (first later : List (Nat × Report)), arrivals = first ++ later ∧
      first.length = 2 * chordCount before ∧ Timetable timing idle' total' parts later finish := by
  induction before generalizing idle total arrivals with
  | nil => exact ⟨idle, total, [], arrivals, rfl, rfl, h⟩
  | cons part before ih =>
      rw [chordCount_cons]
      cases h with
      | wait hwait rest =>
          obtain ⟨idle', total', first, later, rfl, hlength, hlater⟩ := ih rest
          have hnot : ¬ IsChord part := fun hchord => hchord.not_isWait ⟨_, hwait⟩
          rw [if_neg hnot]
          exact ⟨idle', total', first, later, rfl, hlength, hlater⟩
      | @chord _ _ pressed released _ _ chord _ _ hchord _ _ rest =>
          obtain ⟨idle', total', first, later, rfl, hlength, hlater⟩ := ih rest
          refine ⟨idle', total', (pressed, chord.press) :: (released, .release) :: first, later, rfl,
            ?_, hlater⟩
          rw [if_pos ⟨chord, hchord⟩, List.length_cons, List.length_cons, hlength]
          omega

/-- **Between two chords the waits are kept** that are written there, up to the largest wait. -/
theorem exists_gap {next : List Char} {after : List (List Char)}
    (h : Timetable timing idle total (before ++ part :: (waits ++ next :: after)) arrivals finish)
    (hpart : IsChord part) {sum : Nat} (hwaits : WaitRow waits sum)
    (hnext : Chord.ofText next = .ok chord) :
    ∃ earlier released pressed later,
      arrivals = earlier ++ (released, .release) :: (pressed, chord.press) :: later ∧
        earlier.length = 2 * chordCount before + 1 ∧
          pressed = released + dwell timing.pacing + dwell timing.keySettle +
            1000 * min sum 0xFFFFFFFF := by
  obtain ⟨idle', total', first, rest, rfl, hlength, hrest⟩ := h.exists_append
  obtain ⟨chord', hpart⟩ := hpart
  obtain ⟨released, behind, rfl, hbehind⟩ := hrest.exists_of_chord hpart
  obtain ⟨released', later, rfl, -⟩ := (of_waits_append hwaits hbehind).exists_of_chord hnext
  refine ⟨_, released, _, _, List.append_cons first _ _, ?_, ?_⟩
  · rw [List.length_append, List.length_singleton, hlength]
  · rw [Nat.zero_add]

end Timetable

/-! ## The law -/

/-- **Keystrokes keep the timetable of their text.** The text is accepted, the host is ready, and
every report is accepted, whatever else happens. Then the chords of the text are pressed and
released in their order, at the times of the timetable of its parts, and nothing else is sent.
From the release of one chord to the press of the next pass the pause, the settling and exactly the
waits that are written between the two, up to the largest wait. A text of waits only sends nothing.
-/
theorem keystrokes_keep_timetable {timing : Timing} {host : Host} {text : String} {plan : Plan}
    {run : Run} (hready : host.link.ready = true)
    (hplan : (Plan.ofMacro .keystroke text).result = .ok plan)
    (hrun : RunAmid timing host .keystroke (Plan.ofMacro .keystroke text) run)
    (hall : run.journal.AllAccepted) :
    Timetable timing host.clock 0 (commaParts text.toList) run.journal.arrivals run.host.clock ∧
      run.journal.reports =
        ((chordsOf (commaParts text.toList)).flatMap fun chord => [chord.press, .release]) ∧
      (∀ (before waits after : List (List Char)) (part next : List Char) (chord : Chord) (total : Nat),
        commaParts text.toList = before ++ part :: (waits ++ next :: after) → IsChord part →
          WaitRow waits total → Chord.ofText next = .ok chord →
            ∃ earlier released pressed later,
              run.journal.arrivals =
                  earlier ++ (released, .release) :: (pressed, chord.press) :: later ∧
                earlier.length = 2 * chordCount before + 1 ∧
                  pressed = released + dwell timing.pacing + dwell timing.keySettle +
                    1000 * min total 0xFFFFFFFF) ∧
      ((∀ part ∈ commaParts text.toList, IsWait part) → run.journal.requested = []) := by
  have htable : Timetable timing host.clock 0 (commaParts text.toList) run.journal.arrivals
      run.host.clock := by
    obtain ⟨steps, hsteps, rfl⟩ := Plan.exists_read_of_ofMacro hplan
    obtain ⟨harrivals, hclock⟩ := PlaysAmid.arrivals_eq ⟨hready, _, _, hplan, hrun⟩ hall
    rw [harrivals, hclock]
    have htext := Step.stepText_listOfText text.toList
    rw [hsteps] at htext
    cases htext with
    | accepted _ hsteps => exact hsteps.timetable host.clock
  refine ⟨htable, htable.reports_eq, ?_, ?_⟩
  · intro before waits after part next chord total hparts hpart hwaits hnext
    rw [hparts] at htable
    exact htable.exists_gap hpart hwaits hnext
  · intro hwaits
    rw [← hall.reports_eq, Journal.reports, htable.reports_eq, chordsOf_eq_nil hwaits]
    rfl

/-- Two chords after a wait, with waits between them that are longer than the largest wait. -/
theorem keystrokes_keep_timetable_longest_wait :
    let text := "500ms, 2 s, Ctrl+c, 4294967295ms, 1s, v"
    let host := Host.start Link.start.listening []
    let run := host.runText .standard .keystroke text
    host.link.ready = true ∧
      (Plan.ofMacro .keystroke text).result =
        .ok (.keystroke [⟨0, .none, 2500⟩, ⟨6, .only .leftCtrl, 4294967295⟩, ⟨25, .none, 0⟩]) ∧
      run.journal.AllAccepted ∧
      run.journal.reports =
        [.press (.only .leftCtrl) 6, .release, .press .none 25, .release] ∧
      ∃ earlier released pressed later,
        run.journal.arrivals =
            earlier ++ (released, .release) :: (pressed, .press .none 25) :: later ∧
          earlier.length = 1 ∧ pressed = released + 6000 + 8000 + 1000 * 4294967295 := by
  intro text host run
  have hplan : (Plan.ofMacro .keystroke text).result =
      .ok (.keystroke [⟨0, .none, 2500⟩, ⟨6, .only .leftCtrl, 4294967295⟩, ⟨25, .none, 0⟩]) := by
    decide +kernel
  have hall : run.journal.AllAccepted := by decide +kernel
  have hready : host.link.ready = true := rfl
  obtain ⟨-, hreports, hgap, -⟩ := keystrokes_keep_timetable hready hplan
    (host.runAmid_runText .standard .keystroke text) hall
  have hlongest : ExactWait "4294967295ms".toList 4294967295 :=
    ⟨"4294967295".toList, [], ['m', 's'], 1, by decide, by decide, List.all_eq_true.1 rfl, by simp,
      .ms rfl, by decide⟩
  have hsecond : ExactWait "1s".toList 1000 :=
    ⟨['1'], [], ['s'], 1000, by decide, by decide, List.all_eq_true.1 rfl, by simp, .s rfl,
      by decide⟩
  have hwaits := WaitRow.cons hlongest (.cons hsecond .nil)
  have hchords : chordsOf (commaParts text.toList) =
      [⟨.letter 2, .only .leftCtrl⟩, .plain (.letter 21)] := by decide +kernel
  rw [hchords] at hreports
  exact ⟨hready, hplan, hall, hreports, hgap ["500ms".toList, "2 s".toList] _ [] "Ctrl+c".toList
    "v".toList (.plain (.letter 21)) _ (by decide +kernel)
    ⟨⟨.letter 2, .only .leftCtrl⟩, by decide +kernel⟩ hwaits (by decide +kernel)⟩

end MacroPad
