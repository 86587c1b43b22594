/-
`StepGrammar.lean` -- the grammar of keystroke macros as relations.

A keystroke macro is cut at its commas, and each part is a wait or a chord. What the
parts come to is written down without an order of reading: every chord makes a step,
and the waits behind it lengthen that step by their exact sum, which is cut once, at
the end. Waits in front of the first chord make a step of their own. The first part
that is neither, or that finds no room, decides why the text is turned away. The
statement at the end says that reading a text gives what the grammar says.
-/
import MacroPad.Grammar.Compile
import MacroPad.Proofs.ChordForm
import MacroPad.Proofs.LeftToRight

set_option autoImplicit false

namespace MacroPad

/-! ## Parts -/

/-- The parts of a text between its commas, trimmed. -/
def commaParts (cs : List Char) : List (List Char) := (cs.splitOn ',').map Text.trim

/-- The part is a number, blanks and a unit, and asks for exactly `ms` milliseconds,
however many that are. -/
def ExactWait (part : List Char) (ms : Nat) : Prop :=
  ∃ (digits blanks unit : List Char) (scale : Nat),
    Text.trim part = digits ++ blanks ++ unit ∧ digits ≠ [] ∧
      (∀ c ∈ digits, c.isDigit = true) ∧ (∀ c ∈ blanks, Text.isBlank c = true) ∧
        WaitUnit unit scale ∧ ms = Text.Decimal.value digits * scale

/-- The part is a wait. -/
def IsWait (part : List Char) : Prop := ∃ ms, ExactWait part ms

/-- The part has both ends of a wait and is none. -/
def IsMalformedWait (part : List Char) : Prop :=
  (∃ c ∈ (Text.trim part).head?, c.isDigit = true) ∧ EndsInS (Text.trim part) ∧ ¬ IsWait part

/-- The part is read as a chord. -/
def IsChord (part : List Char) : Prop := ∃ chord, Chord.ofText part = .ok chord

section Parts

variable {part : List Char}

/-- What is read of a wait is its exact length, cut at the largest amount. -/
theorem waitForm_iff_exactWait {amount : UInt32} :
    WaitForm part amount ↔ ∃ ms, ExactWait part ms ∧ amount.toNat = min ms 0xFFFFFFFF := by
  constructor
  · rintro ⟨digits, blanks, unit, scale, hform, hne, hdigits, hblanks, hunit, hamount⟩
    exact ⟨_, ⟨digits, blanks, unit, scale, hform, hne, hdigits, hblanks, hunit, rfl⟩, hamount⟩
  · rintro ⟨ms, ⟨digits, blanks, unit, scale, hform, hne, hdigits, hblanks, hunit, rfl⟩, hamount⟩
    exact ⟨digits, blanks, unit, scale, hform, hne, hdigits, hblanks, hunit, hamount⟩

theorem ExactWait.ofToken_eq {ms : Nat} (h : ExactWait part ms) :
    WaitReading.ofToken part = .wait (Capped.ofNat ms) := by
  have hamount : (Capped.ofNat ms).toNat = min ms 0xFFFFFFFF := Capped.toNat_ofNat ms
  exact WaitReading.ofToken_eq_wait_iff.2 (waitForm_iff_exactWait.2 ⟨ms, h, hamount⟩)

theorem isWait_iff_waitForm : IsWait part ↔ ∃ amount, WaitForm part amount := by
  constructor
  · rintro ⟨ms, h⟩
    exact ⟨_, WaitReading.ofToken_eq_wait_iff.1 h.ofToken_eq⟩
  · rintro ⟨amount, h⟩
    obtain ⟨ms, hms, -⟩ := waitForm_iff_exactWait.1 h
    exact ⟨ms, hms⟩

theorem isMalformedWait_iff : IsMalformedWait part ↔ WaitReading.ofToken part = .malformed := by
  rw [WaitReading.ofToken_eq_malformed_iff, WaitReading.startsWithDigit_iff, IsMalformedWait,
    isWait_iff_waitForm, not_exists]

theorem ofToken_eq_notAWait (hwait : ¬ IsWait part) (hmalformed : ¬ IsMalformedWait part) :
    WaitReading.ofToken part = .notAWait := by
  cases hread : WaitReading.ofToken part with
  | wait amount =>
      exact absurd (isWait_iff_waitForm.2 ⟨amount, WaitReading.ofToken_eq_wait_iff.1 hread⟩) hwait
  | malformed => exact absurd (isMalformedWait_iff.2 hread) hmalformed
  | notAWait => rfl

/-- **No part is a wait and a chord.** -/
theorem IsChord.not_isWait (h : IsChord part) : ¬ IsWait part := by
  rintro ⟨ms, hms⟩
  obtain ⟨chord, hchord⟩ := h
  have hread := Chord.ofToken_eq_notAWait hchord
  rw [hms.ofToken_eq] at hread
  contradiction

instance : Decidable (IsWait part) :=
  match hread : WaitReading.ofToken part with
  | .wait amount =>
      isTrue (isWait_iff_waitForm.2 ⟨amount, WaitReading.ofToken_eq_wait_iff.1 hread⟩)
  | .malformed => isFalse (isMalformedWait_iff.2 hread).2.2
  | .notAWait => isFalse (by
      rintro ⟨ms, hms⟩
      rw [hms.ofToken_eq] at hread
      contradiction)

instance : Decidable (IsChord part) :=
  match hread : Chord.ofText part with
  | .ok chord => isTrue ⟨chord, hread⟩
  | .error fault => isFalse (by
      rintro ⟨chord, hchord⟩
      rw [hread] at hchord
      contradiction)

end Parts

/-! ## What the parts come to -/

/-- Some waits in a row and the exact sum of their lengths. -/
inductive WaitRow : List (List Char) → Nat → Prop
  | nil : WaitRow [] 0
  | cons {part : List Char} {parts : List (List Char)} {ms total : Nat}
      (hwait : ExactWait part ms) (rest : WaitRow parts total) : WaitRow (part :: parts) (ms + total)

/-- Some chords, each with the waits between it and the next one. -/
inductive ChordRow : List (List Char) → List Step → Prop
  | nil : ChordRow [] []
  | cons {part : List Char} {chord : Chord} {waits parts : List (List Char)} {total : Nat}
      {waitMs : UInt32} {steps : List Step} (hchord : Chord.ofText part = .ok chord)
      (hwaits : WaitRow waits total) (hms : waitMs.toNat = min total 0xFFFFFFFF)
      (rest : ChordRow parts steps) :
      ChordRow (part :: waits ++ parts) (⟨chord.key.usage, chord.modifiers, waitMs⟩ :: steps)

/-- The steps of the parts of a macro. Waits in front make a step without a chord. -/
inductive StepsOf : List (List Char) → List Step → Prop
  | chords {parts : List (List Char)} {steps : List Step} (h : ChordRow parts steps) :
      StepsOf parts steps
  | pause {waits parts : List (List Char)} {total : Nat} {waitMs : UInt32} {steps : List Step}
      (hsome : waits ≠ []) (hwaits : WaitRow waits total)
      (hms : waitMs.toNat = min total 0xFFFFFFFF) (rest : ChordRow parts steps) :
      StepsOf (waits ++ parts) (⟨0, .none, waitMs⟩ :: steps)

/-- How many of the parts are chords. -/
def chordCount (parts : List (List Char)) : Nat := parts.countP fun part => IsChord part

/-- The room for waits in front: one step, if there are any. -/
def leadingRoom : List (List Char) → Nat
  | [] => 0
  | first :: _ => if IsWait first then 1 else 0

/-- The room that parts take: a step for each chord, and one for waits in front. -/
def room (parts : List (List Char)) : Nat := chordCount parts + leadingRoom parts

/-- Every part is a wait or a chord, and there is room for the steps. -/
def WellFormed (parts : List (List Char)) : Prop :=
  (∀ part ∈ parts, Text.isAllBlank part = false ∧ (IsWait part ∨ IsChord part)) ∧ room parts ≤ 64

/-- Why a part is turned away that stands behind some others. -/
inductive Offends (before : List (List Char)) (part : List Char) : GrammarFault → Prop
  | blank (hblank : Text.isAllBlank part = true) : Offends before part .emptyToken
  | malformedWait (hmalformed : IsMalformedWait part) : Offends before part .malformedWait
  | badChord {fault : GrammarFault} (hblank : Text.isAllBlank part = false)
      (hwait : ¬ IsWait part) (hmalformed : ¬ IsMalformedWait part)
      (hfault : Chord.ofText part = .error fault) : Offends before part fault
  | noRoom (hchord : IsChord part) (hfull : room before = 64) : Offends before part .tooManySteps

/-- What becomes of a text that is read as a keystroke macro. -/
inductive StepText (cs : List Char) : Except GrammarFault (List Step) → Prop
  | accepted {steps : List Step} (hparts : WellFormed (commaParts cs))
      (hsteps : StepsOf (commaParts cs) steps) : StepText cs (.ok steps)
  | rejected {before after : List (List Char)} {part : List Char} {fault : GrammarFault}
      (hsplit : commaParts cs = before ++ part :: after) (hbefore : WellFormed before)
      (hoffends : Offends before part fault) : StepText cs (.error fault)

/-! ## Reading a part -/

namespace Step

variable {part : List Char} {parts waits : List (List Char)} {latest : Step}
  {earlier steps : List Step} {fault : GrammarFault} {total : Nat}

/-- A wait or a chord is no blank part. -/
theorem isAllBlank_eq_false (h : IsWait part ∨ IsChord part) : Text.isAllBlank part = false := by
  rw [← Bool.not_eq_true]
  intro hblank
  have htrim : Text.trim part = [] := Text.trim_eq_nil_iff.2 hblank
  rcases h with ⟨ms, digits, blanks, unit, scale, hform, hne, -⟩ | ⟨chord, hchord⟩
  · rw [htrim] at hform
    have hdigits : digits = [] := by simpa using congrArg (List.take digits.length) hform
    exact hne hdigits
  · rw [← Chord.ofText_trim, htrim] at hchord
    contradiction

theorem addToken_trim (steps : List Step) (token : List Char) :
    addToken steps (Text.trim token) = addToken steps token := by
  rw [addToken, Text.isAllBlank_trim, WaitReading.ofToken, Text.trim_trim, ← WaitReading.ofToken,
    Chord.ofText_trim, addToken]

theorem addToken_wait {ms : Nat} (h : ExactWait part ms) :
    addToken steps part = .ok (delayLatest (Capped.ofNat ms) steps) := by
  rw [addToken, isAllBlank_eq_false (.inl ⟨ms, h⟩), h.ofToken_eq]
  rfl

/-- No chord is lost by trying waits first: it makes a step, if there is room for one. -/
theorem addToken_ofText {chord : Chord} (h : Chord.ofText part = .ok chord) (steps : List Step) :
    addToken steps part =
      if steps.length < limit then .ok (ofChord chord :: steps) else .error .tooManySteps := by
  rw [addToken, isAllBlank_eq_false (.inr ⟨chord, h⟩), Chord.ofToken_eq_notAWait h]
  simp only [h]
  rfl

theorem addToken_chord {chord : Chord} (h : Chord.ofText part = .ok chord)
    (hroom : steps.length < 64) : addToken steps part = .ok (ofChord chord :: steps) := by
  rw [addToken_ofText h]
  exact if_pos hroom

theorem addToken_offends {before : List (List Char)} (h : Offends before part fault)
    (hroom : steps.length = room before) : addToken steps part = .error fault := by
  cases h with
  | blank hblank => rw [addToken, if_pos hblank]
  | malformedWait hmalformed =>
      obtain ⟨c, hc, -⟩ := hmalformed.1
      rw [addToken, Text.isAllBlank_eq_false hc, isMalformedWait_iff.1 hmalformed]
      rfl
  | badChord hblank hwait hmalformed hfault =>
      rw [addToken, hblank, ofToken_eq_notAWait hwait hmalformed]
      simp only [hfault]
      rfl
  | noRoom hchord hfull =>
      obtain ⟨chord, hchord⟩ := hchord
      have hnot : ¬ steps.length < 64 := by omega
      rw [addToken_ofText hchord]
      exact if_neg hnot

/-! ## Reading rows of parts -/

/-- Lengthening a wait twice is lengthening it by the sum. -/
theorem delay_delay (step : Step) (ms total : Nat) :
    (step.delay (Capped.ofNat ms)).delay (Capped.ofNat total) =
      step.delay (Capped.ofNat (ms + total)) := by
  have hsum : Capped.add (Capped.add step.waitMs (Capped.ofNat ms)) (Capped.ofNat total) =
      Capped.add step.waitMs (Capped.ofNat (ms + total)) := by
    rw [← Capped.ofNat_toNat step.waitMs, Capped.add_ofNat_ofNat, Capped.add_ofNat_ofNat,
      Capped.add_ofNat_ofNat, Nat.add_assoc]
  rw [delay, delay, delay, hsum]

/-- Waits lengthen the latest step by their exact sum. -/
theorem foldlM_of_waitRow (h : WaitRow waits total) :
    waits.foldlM addToken (latest :: earlier) =
      .ok (latest.delay (Capped.ofNat total) :: earlier) := by
  induction h generalizing latest with
  | nil =>
      have hsame : latest.delay (Capped.ofNat 0) = latest := by
        have hzero : Capped.add latest.waitMs (Capped.ofNat 0) = latest.waitMs := by
          rw [← Capped.ofNat_toNat latest.waitMs, Capped.add_ofNat_ofNat, Nat.add_zero]
        rw [delay, hzero]
      rw [hsame]
      rfl
  | @cons part waits ms total hwait _ ih =>
      have hfirst : addToken (latest :: earlier) part =
          .ok (latest.delay (Capped.ofNat ms) :: earlier) := addToken_wait hwait
      rw [foldlM_cons_of_ok hfirst, ← delay_delay]
      exact ih

/-- Each chord makes a step, and its waits end up in that step. -/
theorem foldlM_of_chordRow (h : ChordRow parts steps) (hroom : earlier.length + steps.length ≤ 64) :
    parts.foldlM addToken earlier = .ok (steps.reverse ++ earlier) := by
  induction h generalizing earlier with
  | nil => rfl
  | @cons part chord waits parts total waitMs steps hchord hwaits hms _ ih =>
      rw [List.length_cons] at hroom
      have hfirst : addToken earlier part = .ok (ofChord chord :: earlier) :=
        addToken_chord hchord (by omega)
      have hstep : (ofChord chord).delay (Capped.ofNat total) =
          ⟨chord.key.usage, chord.modifiers, waitMs⟩ := by
        have hwait : Capped.add 0 (Capped.ofNat total) = waitMs := by
          apply UInt32.toNat_inj.1
          rw [hms, Capped.toNat_add, Capped.toNat_ofNat]
          simp [Capped.top]
        rw [delay, ofChord, hwait]
      have hnext : (⟨chord.key.usage, chord.modifiers, waitMs⟩ :: earlier : List Step).length +
          steps.length ≤ 64 := by
        rw [List.length_cons]
        omega
      have hrest := ih hnext
      rw [List.cons_append, foldlM_cons_of_ok hfirst,
        foldlM_append_of_ok (foldlM_of_waitRow hwaits), hstep, hrest, List.reverse_cons,
        List.append_assoc, List.singleton_append]

theorem foldlM_of_stepsOf (h : StepsOf parts steps) (hroom : steps.length ≤ 64) :
    parts.foldlM addToken [] = .ok steps.reverse := by
  cases h with
  | chords h =>
      have hempty : ([] : List Step).length + steps.length ≤ 64 := by
        rw [List.length_nil]
        omega
      rw [foldlM_of_chordRow h hempty, List.append_nil]
  | @pause waits parts total waitMs steps hsome hwaits hms rest =>
      cases hwaits with
      | nil => contradiction
      | @cons part waits ms total hwait hwaits =>
          have hfirst : addToken [] part = .ok [pause (Capped.ofNat ms)] := addToken_wait hwait
          have hstep : (pause (Capped.ofNat ms)).delay (Capped.ofNat total) =
              ⟨0, .none, waitMs⟩ := by
            have hwait : Capped.add (Capped.ofNat ms) (Capped.ofNat total) = waitMs := by
              apply UInt32.toNat_inj.1
              rw [hms, Capped.add_ofNat_ofNat, Capped.toNat_ofNat, Capped.top]
            rw [delay, pause, hwait]
          rw [List.length_cons] at hroom
          have hnext : ([⟨0, .none, waitMs⟩] : List Step).length + steps.length ≤ 64 := by
            rw [List.length_singleton]
            omega
          have hrest := foldlM_of_chordRow rest hnext
          rw [List.cons_append, foldlM_cons_of_ok hfirst,
            foldlM_append_of_ok (foldlM_of_waitRow hwaits), hstep, hrest, List.reverse_cons]

end Step

/-! ## Room -/

section Room

variable {part : List Char} {parts waits : List (List Char)} {steps : List Step} {total : Nat}

theorem WaitRow.forall_isWait (h : WaitRow waits total) : ∀ part ∈ waits, IsWait part := by
  induction h with
  | nil => exact fun part hmem => absurd hmem List.not_mem_nil
  | cons hwait _ ih => exact List.forall_mem_cons.2 ⟨⟨_, hwait⟩, ih⟩

theorem chordCount_cons (part : List Char) (parts : List (List Char)) :
    chordCount (part :: parts) = chordCount parts + if IsChord part then 1 else 0 := by
  simp only [chordCount, List.countP_cons, decide_eq_true_eq]

theorem chordCount_append (parts later : List (List Char)) :
    chordCount (parts ++ later) = chordCount parts + chordCount later :=
  List.countP_append

theorem chordCount_eq_zero (h : ∀ part ∈ waits, IsWait part) : chordCount waits = 0 := by
  rw [chordCount, List.countP_eq_zero]
  intro part hmem hchord
  exact (of_decide_eq_true hchord).not_isWait (h part hmem)

theorem ChordRow.length_eq (h : ChordRow parts steps) : steps.length = chordCount parts := by
  induction h with
  | nil => rfl
  | @cons part chord waits parts total waitMs steps hchord hwaits _ _ ih =>
      have hfirst : IsChord part := ⟨chord, hchord⟩
      have hnone : chordCount waits = 0 := chordCount_eq_zero hwaits.forall_isWait
      rw [List.cons_append, chordCount_cons, chordCount_append, if_pos hfirst, hnone,
        List.length_cons, ih, Nat.zero_add]

/-- **The steps take up the room of the parts.** -/
theorem StepsOf.length_eq (h : StepsOf parts steps) : steps.length = room parts := by
  cases h with
  | chords h =>
      have hleading : leadingRoom parts = 0 := by
        cases h with
        | nil => rfl
        | @cons part chord waits parts _ _ _ hchord _ _ _ =>
            have hnot : ¬ IsWait part := IsChord.not_isWait ⟨chord, hchord⟩
            exact if_neg hnot
      rw [room, hleading, h.length_eq, Nat.add_zero]
  | @pause waits parts total waitMs steps hsome hwaits hms rest =>
      have hleading : leadingRoom (waits ++ parts) = 1 := by
        cases hwaits with
        | nil => contradiction
        | cons hwait _ => exact if_pos ⟨_, hwait⟩
      have hnone : chordCount waits = 0 := chordCount_eq_zero hwaits.forall_isWait
      rw [room, hleading, chordCount_append, hnone, List.length_cons, rest.length_eq,
        Nat.zero_add]

theorem room_concat_chord (h : IsChord part) : room (parts ++ [part]) = room parts + 1 := by
  have hleading : leadingRoom (parts ++ [part]) = leadingRoom parts := by
    cases parts with
    | nil => exact if_neg h.not_isWait
    | cons first parts => rfl
  have hcount : chordCount [part] = 1 := by
    rw [chordCount_cons, if_pos h]
    rfl
  rw [room, hleading, chordCount_append, hcount, room]
  omega

theorem room_concat_wait (h : IsWait part) (hroom : room parts ≤ 64) :
    room (parts ++ [part]) ≤ 64 := by
  have hcount : chordCount [part] = 0 :=
    chordCount_eq_zero (List.forall_mem_singleton.2 h)
  cases parts with
  | nil =>
      have hleading : leadingRoom [part] = 1 := if_pos h
      rw [room, List.nil_append, hleading, hcount]
      omega
  | cons first parts =>
      rw [room, chordCount_append, hcount]
      exact hroom

end Room

/-! ## Texts -/

section Texts

variable {part : List Char} {parts : List (List Char)} {steps : List Step}

/-- Waits and chords are waits in front and then chords with waits behind them. -/
theorem exists_rows (h : ∀ part ∈ parts, IsWait part ∨ IsChord part) :
    ∃ waits rest total steps, parts = waits ++ rest ∧ WaitRow waits total ∧ ChordRow rest steps := by
  induction parts with
  | nil => exact ⟨[], [], 0, [], rfl, .nil, .nil⟩
  | cons part parts ih =>
      obtain ⟨hpart, hparts⟩ := List.forall_mem_cons.1 h
      obtain ⟨waits, rest, total, steps, rfl, hwaits, hrest⟩ := ih hparts
      rcases hpart with ⟨ms, hms⟩ | ⟨chord, hchord⟩
      · exact ⟨part :: waits, rest, ms + total, steps, rfl, .cons hms hwaits, hrest⟩
      · -- the chord takes the waits behind it, and there are none in front
        have htotal : (Capped.ofNat total).toNat = min total 0xFFFFFFFF := Capped.toNat_ofNat total
        exact ⟨[], part :: waits ++ rest, 0, _, rfl, .nil, .cons hchord hwaits htotal hrest⟩

theorem exists_stepsOf (h : ∀ part ∈ parts, IsWait part ∨ IsChord part) :
    ∃ steps, StepsOf parts steps := by
  obtain ⟨waits, rest, total, steps, rfl, hwaits, hrest⟩ := exists_rows h
  by_cases hsome : waits = []
  · rw [hsome, List.nil_append]
    exact ⟨steps, .chords hrest⟩
  · have htotal : (Capped.ofNat total).toNat = min total 0xFFFFFFFF := Capped.toNat_ofNat total
    exact ⟨_, .pause hsome hwaits htotal hrest⟩

/-- A part behind well-formed ones offends, or it is well-formed as well. -/
theorem WellFormed.concat (h : WellFormed parts) (part : List Char) :
    WellFormed (parts ++ [part]) ∨ ∃ fault, Offends parts part fault := by
  obtain ⟨hparts, hroom⟩ := h
  have hextend : Text.isAllBlank part = false → IsWait part ∨ IsChord part →
      ∀ part' ∈ parts ++ [part], Text.isAllBlank part' = false ∧ (IsWait part' ∨ IsChord part') := by
    intro hblank hpart
    exact List.forall_mem_append.2 ⟨hparts, List.forall_mem_singleton.2 ⟨hblank, hpart⟩⟩
  by_cases hwait : IsWait part
  · have hblank := Step.isAllBlank_eq_false (.inl hwait)
    exact .inl ⟨hextend hblank (.inl hwait), room_concat_wait hwait hroom⟩
  by_cases hchord : IsChord part
  · have hblank := Step.isAllBlank_eq_false (.inr hchord)
    by_cases hfull : room parts = 64
    · exact .inr ⟨_, .noRoom hchord hfull⟩
    · refine .inl ⟨hextend hblank (.inr hchord), ?_⟩
      rw [room_concat_chord hchord]
      omega
  -- what is neither is blank, a malformed wait or a bad chord
  by_cases hblank : Text.isAllBlank part = true
  · exact .inr ⟨_, .blank hblank⟩
  by_cases hmalformed : IsMalformedWait part
  · exact .inr ⟨_, .malformedWait hmalformed⟩
  cases hread : Chord.ofText part with
  | ok chord => exact absurd ⟨chord, hread⟩ hchord
  | error fault => exact .inr ⟨fault, .badChord (Bool.eq_false_iff.2 hblank) hwait hmalformed hread⟩

/-- Parts are well-formed, or a first one of them offends. -/
theorem wellFormed_or_exists_offends (parts : List (List Char)) :
    WellFormed parts ∨ ∃ before part after fault,
      parts = before ++ part :: after ∧ WellFormed before ∧ Offends before part fault := by
  refine fits_or_exists_first ?_ (fun before part hbefore => hbefore.concat part) parts
  exact ⟨fun part hmem => absurd hmem List.not_mem_nil, Nat.zero_le 64⟩

namespace Step

/-- Well-formed parts are read as their steps. -/
theorem exists_foldlM_of_wellFormed (h : WellFormed parts) :
    ∃ steps, StepsOf parts steps ∧ steps.length = room parts ∧
      parts.foldlM addToken [] = .ok steps.reverse := by
  obtain ⟨steps, hsteps⟩ := exists_stepsOf fun part hmem => (h.1 part hmem).2
  have hlength : steps.length = room parts := hsteps.length_eq
  have hroom : room parts ≤ 64 := h.2
  exact ⟨steps, hsteps, hlength, foldlM_of_stepsOf hsteps (by omega)⟩

theorem listOfText_eq (cs : List Char) :
    listOfText cs = ((commaParts cs).foldlM addToken []).map List.reverse := by
  rw [listOfText, commaParts, List.foldlM_map]
  simp only [addToken_trim]

/-- What the grammar says of a text is read from it. -/
theorem listOfText_eq_of_stepText {cs : List Char} {result : Except GrammarFault (List Step)}
    (h : StepText cs result) : listOfText cs = result := by
  rw [listOfText_eq]
  cases h with
  | @accepted steps hparts hsteps =>
      have hroom : steps.length ≤ 64 := by
        rw [hsteps.length_eq]
        exact hparts.2
      rw [foldlM_of_stepsOf hsteps hroom]
      exact congrArg Except.ok (List.reverse_reverse steps)
  | @rejected before after part fault hsplit hbefore hoffends =>
      -- the parts before it are read, and nothing behind it is looked at
      obtain ⟨steps, -, hlength, hread⟩ := exists_foldlM_of_wellFormed hbefore
      have hpart : addToken steps.reverse part = .error fault := by
        refine addToken_offends hoffends ?_
        rw [List.length_reverse, hlength]
      rw [hsplit, foldlM_eq_error_of_first hread hpart]
      rfl

/-- The grammar says something of every text. -/
theorem exists_stepText (cs : List Char) : ∃ result, StepText cs result := by
  rcases wellFormed_or_exists_offends (commaParts cs) with
    h | ⟨before, part, after, fault, hsplit, hbefore, hoffends⟩
  · obtain ⟨steps, hsteps, -⟩ := exists_foldlM_of_wellFormed h
    exact ⟨_, .accepted h hsteps⟩
  · exact ⟨_, .rejected hsplit hbefore hoffends⟩

/-- What is read of a text is what the grammar says of it. -/
theorem stepText_listOfText (cs : List Char) : StepText cs (listOfText cs) := by
  obtain ⟨result, htext⟩ := exists_stepText cs
  rwa [listOfText_eq_of_stepText htext]

end Step

end Texts

/-! ## The law -/

/-- **The grammar of keystroke macros.** Of every text, what is read is what the
grammar says, and the text is accepted exactly if its parts are well-formed. Text that
is too long for a slot is turned away, and any other is read by this grammar. -/
theorem stepText_iff_read (text : String) (result : Except GrammarFault (List Step)) :
    (StepText text.toList result ↔ Step.listOfText text.toList = result) ∧
      ((∃ steps, Step.listOfText text.toList = .ok steps) ↔ WellFormed (commaParts text.toList)) ∧
      Plan.ofMacro .keystroke text = .silent
        (if text.utf8ByteSize ≤ 256 then (Step.listOfText text.toList).map .keystroke
          else .error .payloadTooLong) := by
  refine ⟨⟨Step.listOfText_eq_of_stepText, ?_⟩, ⟨?_, ?_⟩, ?_⟩
  · intro h
    -- the grammar says something of the text, and by the other half it is what was read
    obtain ⟨result', htext⟩ := Step.exists_stepText text.toList
    rw [Step.listOfText_eq_of_stepText htext] at h
    rwa [← h]
  · rintro ⟨steps, h⟩
    obtain ⟨result', htext⟩ := Step.exists_stepText text.toList
    rw [Step.listOfText_eq_of_stepText htext] at h
    subst h
    cases htext with
    | accepted hparts _ => exact hparts
  · intro h
    obtain ⟨steps, hsteps, -⟩ := Step.exists_foldlM_of_wellFormed h
    exact ⟨steps, Step.listOfText_eq_of_stepText (.accepted h hsteps)⟩
  · unfold Plan.ofMacro
    split
    · next hfits =>
        have hfits : text.utf8ByteSize ≤ 256 := hfits
        rw [if_pos hfits]
        rfl
    · next hlong =>
        have hlong : ¬ text.utf8ByteSize ≤ 256 := hlong
        rw [if_neg hlong]

/-- Waits in front make a step, and waits behind a chord are added up and cut. -/
example : Step.listOfText "500ms, 2 s, Ctrl+c, 4294967295ms, 1s, v".toList =
    .ok [⟨0, .none, 2500⟩, ⟨6, .only .leftCtrl, 4294967295⟩, ⟨25, .none, 0⟩] := by
  rfl

end MacroPad
