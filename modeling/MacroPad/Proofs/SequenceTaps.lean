/-
`SequenceTaps.lean` -- what a hold sequence taps, and when.

The items of a sequence are of three kinds, and a number is several taps. Taken apart they are one
list of strokes, each a tap or a wait, and the times of the taps can be read off that list: a tap
takes as long as its two reports are paced and its key is held and settles, and a wait takes its
own time. On the side of the text every token has the presses that it stands for, with the held
modifiers and those that are written in the token itself.
-/
import MacroPad.Proofs.NumberEntry
import MacroPad.Proofs.SharedNames
import MacroPad.Proofs.TapSchedule

set_option autoImplicit false

namespace MacroPad

/-! ## Strokes -/

/-- One thing that a sequence does: it taps a key, or it waits. -/
inductive Stroke where
  | tap (modifiers : Modifiers) (key : UInt8)
  | wait (ms : UInt32)
deriving DecidableEq

/-- An item in strokes, on top of the held modifiers: a number taps the keypad once for each of
its digits. -/
def SequenceItem.strokes (held : Modifiers) : SequenceItem → List Stroke
  | wait ms => [.wait ms]
  | digits ds => (ds.filterMap digitOfByte?).map fun digit => .tap held (Key.keypad digit).usage
  | press key extra => [.tap (held ∪ extra) key]

namespace Stroke

/-- The report with which a tap begins. -/
def press? : Stroke → Option Report
  | tap modifiers key => some (.press modifiers key)
  | wait _ => none

/-- What playing a stroke asks for. -/
def script (timing : Timing) : Stroke → List Action
  | tap modifiers key => Action.tap modifiers key timing.sequenceHold timing.keySettle
  | wait ms => [.waitMs ms]

end Stroke

/-- The reports of strokes with their times, and everything is released at the end. -/
def beats (timing : Timing) : Nat → List Stroke → List (Nat × Report)
  | now, [] => [(now, .release)]
  | now, .wait ms :: strokes => beats timing (now + 1000 * ms.toNat) strokes
  | now, .tap modifiers key :: strokes =>
      let released := now + dwell timing.pacing + dwell timing.sequenceHold
      (now, .press modifiers key) :: (released, .release) ::
        beats timing (released + dwell timing.pacing + dwell timing.keySettle) strokes

/-- The report that comes next, if there is no wait before it. -/
def nextReport? : List Stroke → Option Report
  | [] => some .release
  | stroke :: _ => stroke.press?

/-! ## Beats -/

section Beats

variable {strokes : List Stroke} {next : Report} (timing : Timing) (now : Nat)

/-- Every tap is pressed and released before the next one. -/
theorem map_snd_beats (strokes : List Stroke) :
    (beats timing now strokes).map Prod.snd =
      (strokes.filterMap Stroke.press?).flatMap (fun press => [press, .release]) ++ [.release] := by
  induction strokes generalizing now with
  | nil => rfl
  | cons stroke strokes ih =>
      cases stroke with
      | wait ms => exact ih _
      | tap modifiers key =>
          rw [beats, List.map_cons, List.map_cons, ih]
          rfl

/-- Waits add up. -/
theorem beats_waits (waits : List UInt32) (strokes : List Stroke) :
    beats timing now (waits.map .wait ++ strokes) =
      beats timing (now + 1000 * (waits.map UInt32.toNat).sum) strokes := by
  induction waits generalizing now with
  | nil => rfl
  | cons ms waits ih =>
      rw [List.map_cons, List.cons_append, beats, ih, List.map_cons, List.sum_cons, Nat.mul_add,
        Nat.add_assoc]

theorem exists_beats_eq_cons (hnext : nextReport? strokes = some next) :
    ∃ later, beats timing now strokes = (now, next) :: later := by
  cases strokes with
  | nil =>
      obtain rfl := Option.some.inj hnext
      exact ⟨[], rfl⟩
  | cons stroke strokes =>
      cases stroke with
      | wait ms => contradiction
      | tap modifiers key =>
          obtain rfl := Option.some.inj hnext
          exact ⟨_, rfl⟩

/-- Strokes behind others have their beats behind theirs, with two reports for each tap before. -/
theorem exists_beats_append (front strokes : List Stroke) :
    ∃ earlier time, beats timing now (front ++ strokes) = earlier ++ beats timing time strokes ∧
      earlier.length = 2 * (front.filterMap Stroke.press?).length := by
  induction front generalizing now with
  | nil => exact ⟨[], now, rfl, rfl⟩
  | cons stroke front ih =>
      cases stroke with
      | wait ms => exact ih (now + 1000 * ms.toNat)
      | tap modifiers key =>
          obtain ⟨earlier, time, hbeats, hlength⟩ := ih (now + dwell timing.pacing +
            dwell timing.sequenceHold + dwell timing.pacing + dwell timing.keySettle)
          refine ⟨(now, .press modifiers key) ::
            (now + dwell timing.pacing + dwell timing.sequenceHold, .release) :: earlier, time,
            ?_, ?_⟩
          · rw [List.cons_append, beats, hbeats]
            rfl
          · have hpress : (Stroke.tap modifiers key).press? = some (.press modifiers key) := rfl
            rw [List.filterMap_cons_some hpress, List.length_cons, List.length_cons,
              List.length_cons, hlength]
            omega

/-- **After a tap the waits are kept** that stand before what comes next. -/
theorem exists_beats_gap (front strokes : List Stroke) (waits : List UInt32) (modifiers : Modifiers)
    (key : UInt8) (hnext : nextReport? strokes = some next) :
    ∃ earlier released later,
      beats timing now (front ++ .tap modifiers key :: (waits.map .wait ++ strokes)) =
          earlier ++ (released, .release) ::
            (released + dwell timing.pacing + dwell timing.keySettle +
              1000 * (waits.map UInt32.toNat).sum, next) :: later ∧
        earlier.length = 2 * (front.filterMap Stroke.press?).length + 1 := by
  obtain ⟨earlier, time, hbeats, hlength⟩ := exists_beats_append timing now front
    (.tap modifiers key :: (waits.map .wait ++ strokes))
  obtain ⟨later, hlater⟩ := exists_beats_eq_cons timing (time + dwell timing.pacing +
    dwell timing.sequenceHold + dwell timing.pacing + dwell timing.keySettle +
      1000 * (waits.map UInt32.toNat).sum) hnext
  refine ⟨earlier ++ [(time, .press modifiers key)],
    time + dwell timing.pacing + dwell timing.sequenceHold, later, ?_, ?_⟩
  · rw [hbeats, beats, beats_waits, hlater, List.append_assoc, List.singleton_append]
  · rw [List.length_append, hlength, List.length_singleton]

end Beats

/-! ## Items -/

section Items

variable (timing : Timing) (held : Modifiers)

theorem SequenceItem.strokes_digits (ds : List UInt8) :
    strokes held (.digits ds) = (ds.filterMap keypadUsage?).map (.tap held) := by
  rw [strokes, funext keypadUsage?_eq, ← List.map_filterMap, List.map_map]
  rfl

/-- Playing an item is playing its strokes. -/
theorem SequenceItem.script_eq (item : SequenceItem) :
    item.script timing held = (item.strokes held).flatMap (Stroke.script timing) := by
  cases item with
  | wait ms => rfl
  | digits ds =>
      rw [strokes_digits, List.flatMap_map]
      rfl
  | press key extra => exact (List.append_nil _).symm

/-- The strokes keep their beats, and the end comes when they have taken their time. -/
theorem schedule_strokes (strokes : List Stroke) (now : Nat) :
    schedule timing now (strokes.flatMap (Stroke.script timing)) ++
        [(now + span timing (strokes.flatMap (Stroke.script timing)), .release)] =
      beats timing now strokes := by
  induction strokes generalizing now with
  | nil => rfl
  | cons stroke strokes ih =>
      rw [List.flatMap_cons, schedule_append, span_append, ← Nat.add_assoc, List.append_assoc, ih]
      cases stroke with
      | wait ms => rfl
      | tap modifiers key =>
          rw [Stroke.script, schedule_tap, span_tap, beats]
          simp only [Nat.add_assoc, List.cons_append, List.nil_append]

/-- To enter a phase takes no time. -/
@[simp] theorem schedule_enter (now : Nat) (before after : HoldPhase) (actions : List Action) :
    schedule timing now (Action.enter before after :: actions) = schedule timing now actions :=
  rfl

@[simp] theorem span_enter (before after : HoldPhase) (actions : List Action) :
    span timing (Action.enter before after :: actions) = span timing actions :=
  Nat.zero_add _

/-- A report, and then a pause. -/
theorem schedule_press_pause (now : Nat) (modifiers : Modifiers) (key : UInt8) (us : Nat) :
    schedule timing now (Action.press modifiers key :: Action.pause us) =
      [(now, .press modifiers key)] := by
  rw [schedule, schedule_pause]
  rfl

theorem span_press_pause (modifiers : Modifiers) (key : UInt8) (us : Nat) :
    span timing (Action.press modifiers key :: Action.pause us) =
      dwell timing.pacing + dwell us := by
  rw [span, span_pause, duration_press]

/-- **A sequence starts with the held modifiers, and its strokes keep their beats** once these have
settled. -/
theorem schedule_sequence (items : List SequenceItem) (start : Nat) :
    schedule timing start ((HoldContent.sequence items).script timing held) =
      (start, .press held 0) ::
        beats timing (start + (dwell timing.pacing + dwell timing.modifierSettle))
          (items.flatMap (SequenceItem.strokes held)) := by
  have hitems : items.flatMap (SequenceItem.script timing held) =
      (items.flatMap (SequenceItem.strokes held)).flatMap (Stroke.script timing) := by
    rw [List.flatMap_assoc, funext (SequenceItem.script_eq timing held)]
  -- the modifiers go down, the strokes are played, and everything is released
  rw [HoldContent.script, hitems, schedule_append, schedule_append, schedule_append, schedule_enter,
    schedule_enter, schedule_enter, span_append, span_enter, span_enter, schedule_press_pause,
    span_press_pause, Action.release, schedule_press_pause, schedule_enter, schedule,
    List.append_nil, ← schedule_strokes, Nat.add_assoc start]
  rfl

end Items

/-! ## Tokens -/

/-- The presses that a token of the text stands for: one for each digit of a number and one for a
key. A wait and a token that means nothing have none. -/
inductive TokenPresses (held : Modifiers) (token : List Char) : List Report → Prop
  | wait {ms : UInt32} (hmeans : TokenMeans held token (some (.wait ms))) :
      TokenPresses held token []
  | digits {ds : List UInt8} (hmeans : TokenMeans held token (some (.digits ds))) :
      TokenPresses held token
        ((token.filterMap Text.digit?).map fun digit => .press held (Key.keypad digit).usage)
  | key {usage : UInt8} {extra : Modifiers}
      (hmeans : TokenMeans held token (some (.press usage extra))) :
      TokenPresses held token [.press (held ∪ extra) usage]
  | nothing (hmeans : TokenMeans held token none) : TokenPresses held token []

section Tokens

variable {held extra : Modifiers} {token : List Char} {tokens skipped : List (List Char)}
  {item : SequenceItem} {items : List SequenceItem} {key : Key} {modifier : ModifierKey}
  {press : Report} {presses : List Report}

theorem filterMap_press?_taps (held : Modifiers) (usages : List UInt8) :
    (usages.map (Stroke.tap held)).filterMap Stroke.press? = usages.map (.press held) := by
  rw [List.filterMap_map]
  exact congrFun List.filterMap_eq_map usages

/-- The taps of an item begin with the presses of its token. -/
theorem TokenMeans.tokenPresses (h : TokenMeans held token (some item)) :
    TokenPresses held token ((item.strokes held).filterMap Stroke.press?) := by
  cases item with
  | wait ms => exact .wait h
  | digits ds =>
      have hpresses := TokenPresses.digits h
      cases h with
      | digits _ _ _ =>
          rw [SequenceItem.strokes_digits, keypadUsages_digitBytes, filterMap_press?_taps,
            List.map_map]
          exact hpresses
  | press usage extra => exact .key h

/-- **The presses of a sequence are those of its tokens**, token by token. -/
theorem Compiles.exists_presses (h : Compiles held tokens items skipped) :
    ∃ presses, List.Forall₂ (TokenPresses held) tokens presses ∧
      (items.flatMap (SequenceItem.strokes held)).filterMap Stroke.press? = presses.flatten := by
  induction h with
  | nil => exact ⟨[], .nil, rfl⟩
  | kept htoken _ _ ih =>
      obtain ⟨presses, hrest, hflat⟩ := ih
      refine ⟨_ :: presses, .cons htoken.tokenPresses hrest, ?_⟩
      rw [List.flatMap_cons, List.filterMap_append, hflat, List.flatten_cons]
  | skipped htoken _ ih =>
      obtain ⟨presses, hrest, hflat⟩ := ih
      exact ⟨[] :: presses, .cons (.nothing htoken) hrest, hflat⟩

/-- The name of a key names no modifier, so the modifiers of a key are all that its token names. -/
theorem KeyForm.has_iff (h : KeyForm token key extra) :
    extra.has modifier = true ↔ ∃ piece ∈ token.splitOn '+', NamesModifier piece modifier := by
  obtain ⟨before, name, hsplit, hname, -, hunion⟩ := h
  have hlast : ¬ NamesModifier name modifier := by
    intro hmodifier
    have hnone := Vocabulary.sequenceKey?_eq_none_of_modifier
      (Vocabulary.modifier?_eq_some_iff.2 hmodifier)
    rw [Vocabulary.sequenceKey?_eq_some_iff.2 hname] at hnone
    contradiction
  rw [hunion modifier, hsplit]
  simp [or_and_right, exists_or, hlast]

/-- A number names no modifier. -/
theorem not_namesModifier_of_digits (hne : token ≠ []) (hdigits : ∀ c ∈ token, c.isDigit = true) :
    ¬ ∃ piece ∈ token.splitOn '+', NamesModifier piece modifier := by
  have hplus : '+' ∉ token := fun hmem => absurd (hdigits _ hmem) (by decide)
  rw [List.splitOn_eq_singleton hplus]
  obtain ⟨c, rest, rfl⟩ := List.exists_cons_of_ne_nil hne
  have hdigit : c.isDigit = true := hdigits c List.mem_cons_self
  have hhead : (Text.trim (c :: rest)).head? = some c := by
    rw [Text.head?_trim_eq_find?, List.find?_cons_of_pos]
    rw [Text.isBlank_eq_false_of_isDigit hdigit]
    rfl
  rintro ⟨piece, hmem, hmodifier⟩
  rw [List.mem_singleton.1 hmem] at hmodifier
  exact Vocabulary.not_namesModifier_of_isDigit hhead hdigit hmodifier

/-- **A press has the held modifiers and those of its token**, and no others. -/
theorem TokenPresses.press_spec (h : TokenPresses held token presses) (hmem : press ∈ presses) :
    press.key ≠ 0 ∧ ∀ modifier, press.modifiers.has modifier = true ↔
      held.has modifier = true ∨ ∃ piece ∈ token.splitOn '+', NamesModifier piece modifier := by
  cases h with
  | wait _ => exact absurd hmem List.not_mem_nil
  | digits hmeans =>
      obtain ⟨digit, hdigit, rfl⟩ := List.mem_map.1 hmem
      refine ⟨Key.usage_ne_zero (.keypad digit), fun modifier => ?_⟩
      have hne : token ≠ [] := by
        rintro rfl
        exact absurd hdigit List.not_mem_nil
      cases hmeans with
      | digits _ _ hdigits =>
          rw [or_iff_left (not_namesModifier_of_digits hne hdigits)]
          rfl
  | key hmeans =>
      rw [List.mem_singleton] at hmem
      subst hmem
      cases hmeans with
      | press _ _ hkey =>
          refine ⟨Key.usage_ne_zero _, fun modifier => ?_⟩
          rw [Report.modifiers_press, Modifiers.has_union, Bool.or_eq_true, hkey.has_iff]
  | nothing _ => exact absurd hmem List.not_mem_nil

theorem key_ne_zero_of_tokenPresses {lists : List (List Report)}
    (h : List.Forall₂ (TokenPresses held) tokens lists) :
    ∀ press ∈ lists.flatten, press.key ≠ 0 := by
  induction h with
  | nil => exact fun press hmem => absurd hmem List.not_mem_nil
  | cons htoken _ ih =>
      rw [List.flatten_cons, List.forall_mem_append]
      exact ⟨fun press hmem => (htoken.press_spec hmem).1, ih⟩

/-- Presses stand out among the reports of their taps by their keys. -/
theorem filter_key_eq (h : ∀ press ∈ presses, press.key ≠ 0) :
    (presses.flatMap (fun press => [press, Report.release]) ++ [Report.release]).filter
        (fun report => report.key != 0) = presses := by
  induction presses with
  | nil => rfl
  | cons press presses ih =>
      obtain ⟨hpress, hpresses⟩ := List.forall_mem_cons.1 h
      have hkey : (press.key != 0) = true := bne_iff_ne.2 hpress
      rw [List.flatMap_cons, List.append_assoc, List.filter_append, ih hpresses, List.filter_cons,
        if_pos hkey]
      rfl

end Tokens

/-! ## The law -/

/-- **A sequence keeps its beat.** It is played on a host that is ready, and every report is
accepted, whatever else happens. Then between the taps of NumLock, if there are any, the held
modifiers are pressed alone, each stroke is tapped in its turn, and everything is released at the
end. After each tap comes what stands behind it, when the report was paced, the key has settled and
the waits in between are over. If the plan was read from a text, the presses of keys are those of
its tokens, in their order; each has the held modifiers, those that its own token names, and no
others. -/
theorem sequence_keeps_its_beat {timing : Timing} {host : Host} {held : Modifiers}
    {items : List SequenceItem} {run : Run}
    (h : PlaysAmid timing host (.holdSequence held (.sequence items)) run)
    (hall : run.journal.AllAccepted) :
    ∃ (before taps after : List (Nat × Report)) (start : Nat),
      run.journal.arrivals = before ++ (start, .press held 0) :: taps ++ after ∧
      before.map Prod.snd = numLockTaps (host.link.lights.numLock || !held.hasAlt) ∧
      after.map Prod.snd = numLockTaps (host.link.lights.numLock || !held.hasAlt) ∧
      taps = beats timing (start + (dwell timing.pacing + dwell timing.modifierSettle))
        (items.flatMap (SequenceItem.strokes held)) ∧
      taps.map Prod.snd =
        ((items.flatMap (SequenceItem.strokes held)).filterMap Stroke.press?).flatMap
          (fun press => [press, .release]) ++ [.release] ∧
      (∀ (front strokes : List Stroke) (waits : List UInt32) (modifiers : Modifiers) (key : UInt8)
          (next : Report),
        items.flatMap (SequenceItem.strokes held) =
            front ++ .tap modifiers key :: (waits.map .wait ++ strokes) →
          nextReport? strokes = some next →
            ∃ earlier released later,
              taps = earlier ++ (released, .release) ::
                  (released + dwell timing.pacing + dwell timing.keySettle +
                    1000 * (waits.map UInt32.toNat).sum, next) :: later ∧
                earlier.length = 2 * (front.filterMap Stroke.press?).length + 1) ∧
      ∀ text, (Plan.ofMacro .holdSequence text).result =
          .ok (.holdSequence held (.sequence items)) →
        ∃ left right presses, HoldSides text.toList left right held ∧
          List.Forall₂ (TokenPresses held) (commaPieces (Text.trim right)) presses ∧
          (taps.map Prod.snd).filter (fun report => report.key != 0) = presses.flatten ∧
          ∀ token ofToken, TokenPresses held token ofToken → ∀ press ∈ ofToken, ∀ modifier,
            (press.modifiers.has modifier = true ↔ held.has modifier = true ∨
              ∃ piece ∈ token.splitOn '+', NamesModifier piece modifier) := by
  obtain ⟨before, after, hwith, hbefore, hafter, -, -⟩ := exists_withNumLock timing held
    host.link.lights.numLock ((HoldContent.sequence items).script timing held)
  have harrivals := (h.arrivals_eq hall).1
  rw [Plan.script, hwith, schedule_append, schedule_append, schedule_sequence] at harrivals
  refine ⟨_, _, _, _, harrivals, map_snd_schedule.trans hbefore, map_snd_schedule.trans hafter, rfl,
    map_snd_beats _ _ _, ?_, ?_⟩
  · intro front strokes waits modifiers key next hstrokes hnext
    rw [hstrokes]
    exact exists_beats_gap timing _ front strokes waits modifiers key hnext
  · intro text hplan
    obtain ⟨notices, htext⟩ := Hold.holdText_ofText text.toList
    rw [holdSequence_of_ofMacro hplan] at htext
    cases htext with
    | @sequence left right _ _ skipped sides _ _ hitems _ =>
        obtain ⟨presses, htokens, hflat⟩ := hitems.exists_presses
        refine ⟨left, right, presses, sides, htokens, ?_, ?_⟩
        · rw [map_snd_beats, hflat, filter_key_eq (key_ne_zero_of_tokenPresses htokens)]
        · exact fun token ofToken htoken press hmem => (htoken.press_spec hmem).2

/-- Two digits, two waits and a key with Shift, on a host whose NumLock is off. A token that means
nothing is passed over. -/
theorem sequence_keeps_its_beat_two_waits :
    let text := "RAlt | 12, 1s, 200ms, bogus, Shift+Tab"
    let items := [.digits [49, 50], .wait 1000, .wait 200, .press 43 (.only .leftShift)]
    let host := Host.start Link.start.listening []
    let run := host.runText .standard .holdSequence text
    let tab := Report.press (.only .rightAlt ∪ .only .leftShift) 43
    (Plan.ofMacro .holdSequence text).result =
        .ok (.holdSequence (.only .rightAlt) (.sequence items)) ∧
      PlaysAmid .standard host (.holdSequence (.only .rightAlt) (.sequence items)) run ∧
      run.journal.AllAccepted ∧
      ∃ (before taps after earlier later : List (Nat × Report)) (start released : Nat),
        run.journal.arrivals = before ++ (start, .press (.only .rightAlt) 0) :: taps ++ after ∧
        before.map Prod.snd = [.press .none 0x53, .release] ∧
        after.map Prod.snd = [.press .none 0x53, .release] ∧
        taps.map Prod.snd = [.press (.only .rightAlt) 0x59, .release,
          .press (.only .rightAlt) 0x5A, .release, tab, .release, .release] ∧
        taps = earlier ++ (released, .release) ::
          (released + 6000 + 8000 + 1000 * 1200, tab) :: later ∧
        (taps.map Prod.snd).filter (fun report => report.key != 0) =
          [.press (.only .rightAlt) 0x59, .press (.only .rightAlt) 0x5A, tab] := by
  intro text items host run tab
  have hplan : (Plan.ofMacro .holdSequence text).result =
      .ok (.holdSequence (.only .rightAlt) (.sequence items)) := by decide +kernel
  have hplays : PlaysAmid .standard host (.holdSequence (.only .rightAlt) (.sequence items)) run :=
    PlaysAmid.runText rfl hplan
  have hall : run.journal.AllAccepted := by decide +kernel
  obtain ⟨before, taps, after, start, harrivals, hbefore, hafter, -, hreports, hgap, htext⟩ :=
    sequence_keeps_its_beat hplays hall
  have hpresses : taps.map Prod.snd = [.press (.only .rightAlt) 0x59, .release,
      .press (.only .rightAlt) 0x5A, .release, tab, .release, .release] := by
    rw [hreports]
    decide +kernel
  obtain ⟨earlier, released, later, htaps, -⟩ := hgap [.tap (.only .rightAlt) 0x59]
    [.tap (.only .rightAlt ∪ .only .leftShift) 43] [1000, 200] (.only .rightAlt) 0x5A tab
    (by decide +kernel) rfl
  have hpaces : dwell Timing.standard.pacing = 6000 ∧ dwell Timing.standard.keySettle = 8000 ∧
      ([1000, 200].map UInt32.toNat).sum = 1200 := by decide
  rw [hpaces.1, hpaces.2.1, hpaces.2.2] at htaps
  refine ⟨hplan, hplays, hall, before, taps, after, earlier, later, start, released, harrivals, ?_,
    ?_, hpresses, htaps, ?_⟩
  · rw [hbefore]
    decide +kernel
  · rw [hafter]
    decide +kernel
  · rw [hpresses]
    decide +kernel

end MacroPad
