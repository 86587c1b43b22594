/-
`KeybindAsKeystroke.lean` -- nothing is shadowed by the waits, so a keybind is a keystroke macro.

Two grammars try a token as a wait before they try it as a key. No key is lost by that: a token that
can be read as a chord, or as a key of a hold sequence, is not taken for a wait, nor passed over as a
malformed one. A chord has no comma either, so the text of a keybind is a keystroke macro of one
part, with the same chord in it. The two plans ask for the same things, and whatever happens on the
side of the host in the meantime, running the text as the one or as the other does the same.
-/
import MacroPad.Proofs.Meanwhile
import MacroPad.Proofs.RespelledText
import MacroPad.Proofs.StepGrammar
import MacroPad.Proofs.TapSchedule

set_option autoImplicit false

namespace MacroPad

/-! ## Doing the same -/

/-- What was done: the reports with their fates and the waits, but no notices. -/
def Journal.doings (journal : Journal) : Journal := journal.filter fun entry => entry.notice?.isNone

/-- The runs write the same reports at the same times with the same answers, wait alike, leave the
host in the same state and come to the same result. -/
structure Run.SameDoings (run₁ run₂ : Run) : Prop where
  doings : run₁.journal.doings = run₂.journal.doings
  host : run₁.host = run₂.host
  result : run₁.result = run₂.result

/-! ## Keys and waits -/

namespace Hold

variable {token : List Char} {item : SequenceItem}

/-- **No key of a hold sequence is read as a wait**, nor as a malformed one. -/
theorem ofToken_eq_notAWait (h : press? (Text.trim token) = some item) :
    WaitReading.ofToken token = .notAWait := by
  obtain ⟨key, extra, hform, -⟩ := press?_eq_some_iff.1 h
  rw [WaitReading.ofToken_eq_notAWait_iff]
  rintro ⟨hstart, hends⟩
  obtain ⟨c, hc, hdigit⟩ := WaitReading.startsWithDigit_iff.1 hstart
  rw [← Text.trim_trim] at hc hends
  exact not_endsInS_of_keyForm hform hc hdigit hends

/-- A key that is made of digits is a single one. -/
theorem exists_digit_of_press? (h : press? (Text.trim token) = some item)
    (hdigits : ∀ c ∈ Text.trim token, c.isDigit = true) :
    ∃ c, c.isDigit = true ∧ Text.trim token = [c] := by
  obtain ⟨key, extra, ⟨before, name, hsplit, hname, -⟩, -⟩ := press?_eq_some_iff.1 h
  have hplus : '+' ∉ Text.trim token := fun hmem => absurd (hdigits _ hmem) (by decide)
  rw [List.splitOn_eq_singleton hplus, ← List.nil_append [Text.trim token]] at hsplit
  obtain rfl := List.singleton_inj.1 (List.append_inj' hsplit rfl).2
  cases hhead : (Text.trim token).head? with
  | none =>
      -- nothing at all is no name
      rw [List.head?_eq_none_iff.1 hhead, ← Vocabulary.sequenceKey?_eq_some_iff] at hname
      contradiction
  | some c =>
      have hdigit := hdigits c (List.mem_of_head? hhead)
      rw [← Text.trim_trim] at hhead
      refine ⟨c, hdigit, ?_⟩
      rw [← Text.trim_trim]
      exact Vocabulary.trim_eq_singleton_of_namesKey hname hhead hdigit

/-- **No key is passed over.** It is played as itself, or on the keypad if it is a digit and Alt is
held. -/
theorem exists_item?_eq (h : press? (Text.trim token) = some item) (altHeld : Bool) :
    ∃ read, item? altHeld (Text.trim token) = .ok (some read) ∧
      (read = item ∨ altHeld = true ∧ ∃ c, c.isDigit = true ∧ Text.trim token = [c] ∧
        read = .digits [UInt8.ofNat c.toNat]) := by
  have hread : WaitReading.ofToken (Text.trim token) = .notAWait :=
    ofToken_eq_notAWait (by rw [Text.trim_trim, h])
  by_cases hnumber : (altHeld && (Text.trim token).all Char.isDigit) = true
  · obtain ⟨halt, hall⟩ := Bool.and_eq_true_iff.1 hnumber
    obtain ⟨c, hdigit, htoken⟩ := exists_digit_of_press? h (List.all_eq_true.1 hall)
    refine ⟨.digits [UInt8.ofNat c.toNat], ?_, .inr ⟨halt, c, hdigit, htoken, rfl⟩⟩
    rw [item?, hread]
    simp only
    rw [if_pos hnumber, htoken, digitsOf_eq_ok (by simp [digitBytes, hdigit]), digitBytes,
      List.filter_cons_of_pos hdigit]
    rfl
  · refine ⟨item, ?_, .inl rfl⟩
    rw [item?, hread]
    simp only
    rw [if_neg hnumber, h]

end Hold

/-! ## Chords and commas -/

/-- A separator is inside every word that it stands in, whatever is trimmed. -/
theorem IsBroken.of_mem {sep : Char} {word : List Char} (hsep : sep ∈ separators) (h : sep ∈ word) :
    IsBroken word := by
  have hkept : (Text.trim word).filter (· == sep) = word.filter (· == sep) := by
    refine Text.filter_trim (fun c hblank => beq_eq_false_iff_ne.2 ?_) word
    rintro rfl
    rw [isBlank_separator _ hsep] at hblank
    contradiction
  have hmem : sep ∈ (Text.trim word).filter (· == sep) := by
    rw [hkept]
    exact List.mem_filter.2 ⟨h, beq_self_eq_true sep⟩
  refine ⟨sep, hsep, List.mem_map.2 ⟨sep, (List.mem_filter.1 hmem).1, toUpper_separator _ hsep⟩⟩

namespace Chord

variable {token : List Char} {words : List (List Char)} {chord : Chord} {before after : Partial}

/-- No word of a chord has a separator inside. -/
theorem not_isBroken_of_foldlM (h : words.foldlM Partial.add before = .ok after) :
    ∀ word ∈ words, ¬ IsBroken word := by
  induction words generalizing before with
  | nil => exact fun word hmem => absurd hmem List.not_mem_nil
  | cons first words ih =>
      obtain ⟨next, hfirst, hrest⟩ := foldlM_add_cons_eq_ok h
      refine List.forall_mem_cons.2 ⟨fun hbroken => ?_, ih hrest⟩
      obtain ⟨-, ⟨modifier, hnames, -⟩ | ⟨key, hnames, -⟩⟩ := add_eq_ok hfirst
      · exact hbroken.not_namesModifier modifier hnames
      · exact hbroken.not_namesKey key hnames

/-- A character that is neither in the words nor between them is not in the text. -/
theorem not_mem_intercalate {c sep : Char} (hsep : c ≠ sep) (hwords : ∀ word ∈ words, c ∉ word) :
    c ∉ [sep].intercalate words := by
  induction words with
  | nil => exact List.not_mem_nil
  | cons first words ih =>
      obtain ⟨hfirst, hrest⟩ := List.forall_mem_cons.1 hwords
      cases words with
      | nil =>
          rw [List.intercalate_singleton]
          exact hfirst
      | cons second words =>
          rw [List.intercalate_cons_cons, List.mem_append, List.mem_append, List.mem_singleton]
          exact not_or.2 ⟨not_or.2 ⟨hfirst, hsep⟩, ih hrest⟩

/-- **There is no comma in a chord.** -/
theorem comma_not_mem (h : ofText token = .ok chord) : ',' ∉ token := by
  obtain ⟨last, hfold, -⟩ := exists_foldlM_of_ofText h
  have hwords : ∀ word ∈ token.splitOn '+', ',' ∉ word := fun word hmem hcomma =>
    not_isBroken_of_foldlM hfold word hmem (.of_mem (by decide) hcomma)
  have hparts : ',' ∉ ['+'].intercalate (token.splitOn '+') :=
    not_mem_intercalate (by decide) hwords
  rwa [List.intercalate_splitOn] at hparts

end Chord

/-- **The text of a keybind is a keystroke macro of one step.** -/
theorem Step.listOfText_of_chord {cs : List Char} {chord : Chord} (h : Chord.ofText cs = .ok chord) :
    listOfText cs = .ok [ofChord chord] := by
  rw [listOfText, List.splitOn_eq_singleton (Chord.comma_not_mem h),
    foldlM_cons_of_ok (addToken_chord h (by decide))]
  rfl

/-! ## Playing -/

/-- **The two plans ask for the same things.** -/
theorem Plan.script_ofChord (timing : Timing) (numLock : Bool) (chord : Chord) :
    (keystroke [Step.ofChord chord]).script timing numLock =
      (keybind chord.key.usage chord.modifiers).script timing numLock := by
  rw [script, script, List.flatMap_singleton, Step.ofChord, Step.script_chord, if_pos rfl,
    List.append_nil]

section Runs

variable {text : String} {chord : Chord}

/-- What is made of the text of a keybind, read in the one way and in the other. -/
theorem Plan.ofMacro_of_chord (h : Chord.ofText text.toList = .ok chord) :
    payloadLimit < text.utf8ByteSize ∧
        (∀ kind, ofMacro kind text = .silent (.error .payloadTooLong)) ∨
      ofMacro .keybind text = .silent (.ok (.keybind chord.key.usage chord.modifiers)) ∧
        ofMacro .keystroke text = .silent (.ok (.keystroke [Step.ofChord chord])) := by
  by_cases hfits : text.utf8ByteSize ≤ payloadLimit
  · right
    simp only [ofMacro, if_pos hfits, ofText, h, Step.listOfText_of_chord h]
    exact ⟨rfl, rfl⟩
  · left
    exact ⟨Nat.not_le.1 hfits, fun kind => if_neg hfits⟩

/-- **A keybind runs as a keystroke macro does**, while the same things happen. -/
theorem Host.sameDoings_runTextAmid (h : Chord.ofText text.toList = .ok chord) (timing : Timing)
    (meanwhile : Meanwhile) (host : Host) :
    (host.runTextAmid timing meanwhile .keybind text).SameDoings
      (host.runTextAmid timing meanwhile .keystroke text) := by
  rw [runTextAmid_eq, runTextAmid_eq]
  cases hready : host.link.ready with
  | false =>
      rw [runReading_unready hready, runReading_unready hready]
      exact ⟨rfl, rfl, rfl⟩
  | true =>
      obtain ⟨-, hlong⟩ | ⟨hkeybind, hkeystroke⟩ := Plan.ofMacro_of_chord h
      · -- both are too long, and the notices differ in the kind only
        rw [hlong, hlong, runReading_error hready rfl, runReading_error hready rfl]
        exact ⟨rfl, rfl, rfl⟩
      · rw [hkeybind, hkeystroke, runReading_ok hready rfl, runReading_ok hready rfl,
          Plan.script_ofChord]
        exact ⟨rfl, rfl, rfl⟩

end Runs

/-- **Waits shadow no key, and a keybind is a keystroke macro.** A token that can be read as a chord
or as a key of a hold sequence is not taken for a wait, so it is never swallowed and never passed
over. The text of a keybind reads as a keystroke macro that taps its chord, and to run it as the one
or as the other comes to the same, from any state and whatever happens in the meantime. -/
theorem keybind_runs_as_keystroke :
    (∀ (token : List Char) (chord : Chord), Chord.ofText token = .ok chord →
      WaitReading.ofToken token = .notAWait ∧
        ∀ steps, Step.addToken steps token =
          if steps.length < Step.limit then .ok (Step.ofChord chord :: steps)
          else .error .tooManySteps) ∧
    (∀ (token : List Char) (item : SequenceItem), Hold.press? (Text.trim token) = some item →
      WaitReading.ofToken token = .notAWait ∧
        ∀ altHeld, ∃ read, Hold.item? altHeld (Text.trim token) = .ok (some read) ∧
          (read = item ∨ altHeld = true ∧ ∃ c, c.isDigit = true ∧ Text.trim token = [c] ∧
            read = .digits [UInt8.ofNat c.toNat])) ∧
    ∀ (text : String) (chord : Chord), Chord.ofText text.toList = .ok chord →
      Step.listOfText text.toList = .ok [Step.ofChord chord] ∧
        ∀ (timing : Timing) (host : Host),
          (host.runText timing .keybind text).SameDoings (host.runText timing .keystroke text) ∧
            ∀ meanwhile, (host.runTextAmid timing meanwhile .keybind text).SameDoings
              (host.runTextAmid timing meanwhile .keystroke text) := by
  refine ⟨fun token chord h => ?_, fun token item h => ?_, fun text chord h => ?_⟩
  · exact ⟨Chord.ofToken_eq_notAWait h, Step.addToken_ofText h⟩
  · exact ⟨Hold.ofToken_eq_notAWait h, Hold.exists_item?_eq h⟩
  · refine ⟨Step.listOfText_of_chord h, fun timing host => ?_⟩
    have hsame := fun meanwhile => Host.sameDoings_runTextAmid h timing meanwhile host
    refine ⟨?_, hsame⟩
    rw [← Host.runTextAmid_nothing, ← Host.runTextAmid_nothing]
    exact hsame .nothing

/-- A digit that ends in a modifier is no wait, nor is a function key. The chord runs alike on a host
that goes away after its release, and on one that begins to refuse reports before its release:
either way the same reports are written and the same waits waited. -/
theorem keybind_runs_as_keystroke_control_5 :
    let text := "5 + LCtrl"
    let refusing : Meanwhile := fun place _ =>
      if place = 2 then [.writer (some .notificationFailed)] else []
    let host := Host.start Link.start.listening [⟨30000, .link .disconnect⟩]
    let doings := [Entry.send 0 .paced (.only .leftCtrl) 34 .accepted, .pacing 6000, .waitUs 15000,
      .send 21000 .paced .none 0 .accepted, .pacing 6000, .waitUs 8000]
    let doingsAmid := [Entry.send 0 .paced (.only .leftCtrl) 34 .accepted, .pacing 6000,
      .waitUs 15000, .send 21000 .paced .none 0 (.refused .notificationFailed), .waitUs 8000]
    WaitReading.ofToken text.toList = .notAWait ∧ WaitReading.ofToken " f5 ".toList = .notAWait ∧
      Step.listOfText text.toList = .ok [⟨34, .only .leftCtrl, 0⟩] ∧
      (host.runText .standard .keybind text).SameDoings
        (host.runText .standard .keystroke text) ∧
      (host.runText .standard .keybind text).journal.doings = doings ∧
      (host.runText .standard .keystroke text).journal.doings = doings ∧
      (host.runTextAmid .standard refusing .keybind text).SameDoings
        (host.runTextAmid .standard refusing .keystroke text) ∧
      (host.runTextAmid .standard refusing .keybind text).journal.doings = doingsAmid ∧
      (host.runTextAmid .standard refusing .keystroke text).journal.doings = doingsAmid := by
  intro text refusing host doings doingsAmid
  have hchord : Chord.ofText text.toList = .ok ⟨.digit 5, .only .leftCtrl⟩ := by decide +kernel
  have hkey : Hold.press? (Text.trim " f5 ".toList) = some (.press 62 .none) := by decide +kernel
  obtain ⟨hchords, hkeys, htexts⟩ := keybind_runs_as_keystroke
  obtain ⟨hlist, hrun⟩ := htexts text _ hchord
  obtain ⟨hsame, hsameAmid⟩ := hrun .standard host
  have hdoings : (host.runText .standard .keybind text).journal.doings = doings := by
    decide +kernel
  have hdoingsAmid :
      (host.runTextAmid .standard refusing .keybind text).journal.doings = doingsAmid := by
    decide +kernel
  -- what the keystroke macro does is known from what the keybind does
  exact ⟨(hchords _ _ hchord).1, (hkeys _ _ hkey).1, hlist, hsame, hdoings,
    hsame.doings.symm.trans hdoings, hsameAmid refusing, hdoingsAmid,
    (hsameAmid refusing).doings.symm.trans hdoingsAmid⟩

end MacroPad
