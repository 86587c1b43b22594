/-
`TypedText.lean` -- what a host makes of typed text.

A host with a US keyboard knows a key by its usage and by whether Shift is held. It is modelled
here with a table of usages of its own, and the reports of a typing macro are read with it. What is
read is the text, with every character left out that the pad cannot type. That no two characters
are typed alike is part of this, and so is that every press is followed by a release, since a host
takes two reports of the same key in a row for one press.
-/
import MacroPad.Proofs.Respelling
import MacroPad.Proofs.TypingRhythm

set_option autoImplicit false

namespace MacroPad

/-! ## Characters -/

/-- The characters that the pad can type: letters, digits, the space, the line feed, the tab, the
hyphen and the equals sign. -/
def isTypable (c : Char) : Bool :=
  c.isLower || c.isUpper || c.isDigit || [' ', '\n', '\t', '-', '='].contains c

/-- What a host with a US keyboard types for a key alone, or for a letter while Shift is held. -/
def charOfKey? (modifiers : Modifiers) (usage : UInt8) : Option Char :=
  let n := usage.toNat
  if modifiers = .none then
    if 0x04 ≤ n ∧ n ≤ 0x1D then some (Char.ofNat ('a'.toNat + (n - 0x04)))
    -- the row of digits runs from 1 to 9 and then 0
    else if 0x1E ≤ n ∧ n ≤ 0x27 then some (Char.ofNat ('0'.toNat + (n - 0x1D) % 10))
    else
      match n with
      | 0x28 => some '\n'
      | 0x2B => some '\t'
      | 0x2C => some ' '
      | 0x2D => some '-'
      | 0x2E => some '='
      | _ => none
  else if modifiers = .only .leftShift ∧ 0x04 ≤ n ∧ n ≤ 0x1D then
    some (Char.ofNat ('A'.toNat + (n - 0x04)))
  else none

/-- The chord types the character: the characters of the layout one by one. -/
inductive Types : Char → Chord → Prop
  | small (place : Fin 26) : Types (Char.ofNat ('a'.toNat + place)) (.plain (.letter place))
  | capital (place : Fin 26) :
      Types (Char.ofNat ('A'.toNat + place)) ⟨.letter place, .only .leftShift⟩
  | digit (value : Fin 10) : Types (Char.ofNat ('0'.toNat + value)) (.plain (.digit value))
  | space : Types ' ' (.plain .space)
  | newline : Types '\n' (.plain .enter)
  | tab : Types '\t' (.plain .tab)
  | hyphen : Types '-' (.plain .minus)
  | equals : Types '=' (.plain .equal)

section Characters

variable {c : Char} {chord : Chord}

theorem isLower_iff : c.isLower = true ↔ 97 ≤ c.toNat ∧ c.toNat ≤ 122 := by
  have hrange : c.isLower = true ↔ 'a'.val ≤ c.val ∧ c.val ≤ 'z'.val := by
    delta Char.isLower
    rw [Bool.and_eq_true, decide_eq_true_iff, decide_eq_true_iff]
  rw [hrange, UInt32.le_iff_toNat_le, UInt32.le_iff_toNat_le]
  exact Iff.rfl

/-- A key for a letter is the one of its place behind `A`, in upper case. -/
theorem exists_place_of_ofLetter? {key : Key} (h : Key.ofLetter? c = some key) :
    ∃ place : Fin 26, key = .letter place ∧ c.toUpper.toNat = 'A'.toNat + place := by
  unfold Key.ofLetter? at h
  dsimp only at h
  split at h
  · next hrange =>
      refine ⟨⟨c.toUpper.toNat - 'A'.toNat, by omega⟩, (Option.some.inj h).symm, ?_⟩
      exact (Nat.add_sub_cancel' hrange.1).symm
  · contradiction

/-- A key for a digit is the one of its value. -/
theorem exists_value_of_ofDigit? {key : Key} (h : Key.ofDigit? c = some key) :
    ∃ value : Fin 10, key = .digit value ∧ c.toNat = '0'.toNat + value := by
  obtain ⟨value, hvalue, rfl⟩ := Option.map_eq_some_iff.1 h
  unfold Text.digit? at hvalue
  split at hvalue
  · next hrange =>
      obtain rfl := Option.some.inj hvalue
      exact ⟨_, rfl, (Nat.add_sub_cancel' hrange.1).symm⟩
  · contradiction

/-- The chord that the layout has for a character types it. -/
theorem types_of_ofChar? (h : Chord.ofChar? c = some chord) : Types c chord := by
  have hself : c = Char.ofNat c.toNat := (Char.ofNat_toNat c).symm
  unfold Chord.ofChar? at h
  split at h
  case h_1 => exact Option.some.inj h ▸ .space
  case h_2 => exact Option.some.inj h ▸ .newline
  case h_3 => exact Option.some.inj h ▸ .tab
  case h_4 => exact Option.some.inj h ▸ .hyphen
  case h_5 => exact Option.some.inj h ▸ .equals
  case h_6 =>
    split at h
    · next hlower =>
        obtain ⟨key, hletter, rfl⟩ := Option.map_eq_some_iff.1 h
        obtain ⟨place, rfl, hplace⟩ := exists_place_of_ofLetter? hletter
        have hcode : c.toNat = 'a'.toNat + place := by
          have hrange := isLower_iff.1 hlower
          have hbase : 'A'.toNat = 65 ∧ 'a'.toNat = 97 := ⟨rfl, rfl⟩
          rcases Vocabulary.toUpper_cases c with ⟨-, hnot⟩ | ⟨-, -, hupper⟩
          · exact absurd hrange hnot
          · omega
        rw [hself, hcode]
        exact .small place
    · split at h
      · next hupper =>
          obtain ⟨key, hletter, rfl⟩ := Option.map_eq_some_iff.1 h
          obtain ⟨place, rfl, hplace⟩ := exists_place_of_ofLetter? hletter
          have hcode : c.toNat = 'A'.toNat + place := by
            have hrange := isUpper_iff.1 hupper
            rcases Vocabulary.toUpper_cases c with ⟨hsame, -⟩ | ⟨hsmall, -, -⟩
            · rwa [hsame] at hplace
            · omega
          rw [hself, hcode]
          exact .capital place
      · obtain ⟨key, hdigit, rfl⟩ := Option.map_eq_some_iff.1 h
        obtain ⟨value, rfl, hcode⟩ := exists_value_of_ofDigit? hdigit
        rw [hself, hcode]
        exact .digit value

/-- **The layout has exactly the chords that type a character.** -/
theorem ofChar?_eq_some_iff : Chord.ofChar? c = some chord ↔ Types c chord := by
  refine ⟨types_of_ofChar?, fun h => ?_⟩
  cases h with
  | small place => revert place; decide
  | capital place => revert place; decide
  | digit value => revert value; decide
  | space | newline | tab | hyphen | equals => rfl

/-- **The host types the character of a chord.** -/
theorem Types.charOfKey?_eq (h : Types c chord) :
    charOfKey? chord.modifiers chord.key.usage = some c := by
  cases h with
  | small place => revert place; decide
  | capital place => revert place; decide
  | digit value => revert value; decide
  | space | newline | tab | hyphen | equals => rfl

theorem Types.isTypable (h : Types c chord) : isTypable c = true := by
  cases h with
  | small place => revert place; decide
  | capital place => revert place; decide
  | digit value => revert value; decide
  | space | newline | tab | hyphen | equals => rfl

/-- Every character that can be typed has a chord. -/
theorem exists_types (h : isTypable c = true) : ∃ chord, Types c chord := by
  have hself : c = Char.ofNat c.toNat := (Char.ofNat_toNat c).symm
  simp only [MacroPad.isTypable, Bool.or_eq_true, or_assoc] at h
  rcases h with hlower | hupper | hdigit | hother
  · obtain ⟨h₁, h₂⟩ := isLower_iff.1 hlower
    have hcode : c.toNat = 'a'.toNat + (c.toNat - 97) := (Nat.add_sub_cancel' h₁).symm
    rw [hself, hcode]
    exact ⟨_, .small ⟨c.toNat - 97, by omega⟩⟩
  · obtain ⟨h₁, h₂⟩ := isUpper_iff.1 hupper
    have hcode : c.toNat = 'A'.toNat + (c.toNat - 65) := (Nat.add_sub_cancel' h₁).symm
    rw [hself, hcode]
    exact ⟨_, .capital ⟨c.toNat - 65, by omega⟩⟩
  · obtain ⟨h₁, h₂⟩ := Text.isDigit_iff.1 hdigit
    have hcode : c.toNat = '0'.toNat + (c.toNat - 48) := (Nat.add_sub_cancel' h₁).symm
    rw [hself, hcode]
    exact ⟨_, .digit ⟨c.toNat - 48, by omega⟩⟩
  · simp only [List.contains_eq_mem, decide_eq_true_eq, List.mem_cons, List.not_mem_nil,
      or_false] at hother
    rcases hother with rfl | rfl | rfl | rfl | rfl
    · exact ⟨_, .space⟩
    · exact ⟨_, .newline⟩
    · exact ⟨_, .tab⟩
    · exact ⟨_, .hyphen⟩
    · exact ⟨_, .equals⟩

end Characters

/-! ## Texts -/

section Texts

variable (timing : Timing) (perSecond : UInt8)

/-- Each character that the layout has is pressed and released. -/
theorem reports_typedScript (cs : List Char) :
    Action.reports (typedScript timing perSecond cs) =
      (cs.filterMap Chord.ofChar?).flatMap fun chord => [chord.press, .release] := by
  induction cs with
  | nil => rfl
  | cons c cs ih =>
      rw [typedScript, List.flatMap_cons, Action.reports_append, ← typedScript, ih,
        characterScript, List.filterMap_cons]
      cases Chord.ofChar? c with
      | some chord =>
          simp only [Action.reports_tap]
          rfl
      | none => rfl

/-- Of chords that are pressed and released, the reports with a key are the presses. -/
theorem filter_key_presses (chords : List Chord) :
    (chords.flatMap fun chord => [chord.press, .release]).filter (fun report => report.key != 0) =
      chords.map Chord.press := by
  induction chords with
  | nil => rfl
  | cons chord chords ih =>
      have hrelease : (Report.release.key != 0) = false := rfl
      rw [List.flatMap_cons, List.filter_append, ih, List.filter_cons, if_pos chord.key_press_bne,
        List.filter_cons, hrelease]
      rfl

/-- **The host reads the text**, without the characters that the pad cannot type. -/
theorem map_charOfKey?_chords (cs : List Char) :
    (cs.filterMap Chord.ofChar?).map (fun chord => charOfKey? chord.modifiers chord.key.usage) =
      (cs.filter isTypable).map some := by
  induction cs with
  | nil => rfl
  | cons c cs ih =>
      cases hchord : Chord.ofChar? c with
      | some chord =>
          have htypes := ofChar?_eq_some_iff.1 hchord
          rw [List.filterMap_cons_some hchord, List.filter_cons_of_pos htypes.isTypable,
            List.map_cons, List.map_cons, htypes.charOfKey?_eq, ih]
      | none =>
          have hnot : ¬ isTypable c = true := by
            intro htypable
            obtain ⟨chord, htypes⟩ := exists_types htypable
            rw [ofChar?_eq_some_iff.2 htypes] at hchord
            contradiction
          rw [List.filterMap_cons_none hchord, List.filter_cons_of_neg hnot, ih]

end Texts

/-! ## The law -/

/-- **Typed text arrives.** A text is played on a host that is ready, and every report is accepted,
whatever else happens. Then the host reads the text from the reports that press a key, in its order
and in its case, with exactly the characters left out that the pad cannot type. Each of these
reports is followed by the release of everything, and there are no others. No two characters are
typed alike, and none is typed by pressing no key. -/
theorem typed_text_arrives {timing : Timing} {host : Host} {text : String} {perSecond : UInt8}
    {run : Run} (h : PlaysAmid timing host (.typing text perSecond) run)
    (hall : run.journal.AllAccepted) :
    let presses := run.journal.reports.filter fun report => report.key != 0
    presses.map (fun report => charOfKey? report.modifiers report.key) =
        (text.toList.filter isTypable).map some ∧
      run.journal.reports = presses.flatMap (fun report => [report, .release]) ∧
      ∀ (c d : Char) (a b : Chord), Chord.ofChar? c = some a → Chord.ofChar? d = some b →
        a.key.usage ≠ 0 ∧ (a.modifiers = b.modifiers ∧ a.key.usage = b.key.usage → c = d) := by
  intro presses
  have hreports : run.journal.reports =
      (text.toList.filterMap Chord.ofChar?).flatMap fun chord => [chord.press, .release] := by
    rw [Journal.reports, (h.arrivals_eq hall).1, map_snd_schedule]
    exact reports_typedScript timing perSecond text.toList
  have hpresses : presses = (text.toList.filterMap Chord.ofChar?).map Chord.press := by
    rw [← filter_key_presses, ← hreports]
  refine ⟨?_, ?_, ?_⟩
  · rw [hpresses, List.map_map]
    exact map_charOfKey?_chords text.toList
  · rw [hreports, hpresses, List.flatMap_map]
  · intro c d a b hc hd
    refine ⟨a.key.usage_ne_zero, ?_⟩
    rintro ⟨hmodifiers, husage⟩
    -- the host reads both characters from the same report
    have hread := (ofChar?_eq_some_iff.1 hc).charOfKey?_eq
    rw [hmodifiers, husage, (ofChar?_eq_some_iff.1 hd).charOfKey?_eq] at hread
    exact (Option.some.inj hread).symm

/-- The same letter in both cases and twice in a row, among characters that the pad cannot type. -/
theorem typed_text_arrives_twice :
    let payload := " aAa, 0é\n1=¿- (20/s)"
    let typed := "aAa, 0é\n1=¿-"
    let host := Host.start Link.start.listening [⟨70000, .link (.outputReport [1])⟩]
    let run := host.runText .standard .typing payload
    let presses := run.journal.reports.filter fun report => report.key != 0
    host.link.ready = true ∧ (Plan.ofMacro .typing payload).result = .ok (.typing typed 20) ∧
      run.journal.AllAccepted ∧
      presses.map (fun report => charOfKey? report.modifiers report.key) =
        "aAa 0\n1=-".toList.map some ∧
      run.journal.reports = presses.flatMap (fun report => [report, .release]) ∧
      (Chord.plain (.letter 0)).key.usage ≠ 0 := by
  intro payload typed host run presses
  have hplan : (Plan.ofMacro .typing payload).result = .ok (.typing typed 20) := by decide +kernel
  have hall : run.journal.AllAccepted := by decide +kernel
  have hplays : PlaysAmid .standard host (.typing typed 20) run := PlaysAmid.runText rfl hplan
  obtain ⟨hread, hreleased, hdistinct⟩ := typed_text_arrives hplays hall
  have hkept : typed.toList.filter isTypable = "aAa 0\n1=-".toList := by decide +kernel
  rw [hkept] at hread
  exact ⟨rfl, hplan, hall, hread, hreleased, (hdistinct 'a' 'A' _ _ rfl rfl).1⟩

end MacroPad
