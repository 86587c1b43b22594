/-
`CheckedReaders.lean` -- reading a macro never goes wrong.

The readers of waits and rates look for an ending or a parenthesis by its bytes, cut the text at the
offset that they find and add up the digits of what is left. Here they are written with these steps
checked, and so is everything that calls them, up to the four grammars. Each of them gives what the
reader without the checks gives, whatever the text. So no check ever fails: a text is cut between
characters, digits are digits, and every text is read or turned away with a fault.
-/
import MacroPad.Grammar.Compile
import MacroPad.Proofs.CheckedKeys
import MacroPad.Proofs.HoldGrammar

set_option autoImplicit false

namespace MacroPad

namespace Checked

open Text

/-- The endings that are looked for are ASCII. -/
theorem forall_ascii_endings :
    ∀ ending ∈ [['m', 's'], ['s'], ['/', 's']], ∀ c ∈ ending, c.toNat < 128 := by
  simp only [List.forall_mem_cons, List.not_mem_nil, false_implies, implies_true, and_true]
  decide

/-! ## Waits -/

/-- The text before the unit and the unit in milliseconds. A wait is cut once: 2 bytes before its end
if it ends with `ms`, and 1 byte before it if it ends with `s` only. -/
def cutUnit? (cs : List Char) : Checked (Option (List Char × UInt32)) := do
  match ← withoutEnding? ['m', 's'] cs with
  | some number => return some (number, 1)
  | none => return (← withoutEnding? ['s'] cs).map fun number => (number, 1000)

theorem cutUnit?_eq (cs : List Char) : cutUnit? cs = .ok (WaitReading.cutUnit? cs) := by
  rw [cutUnit?, withoutEnding?_eq (forall_ascii_endings _ (by simp)), ok_bind,
    withoutEnding?_eq (forall_ascii_endings _ (by simp)), WaitReading.cutUnit?]
  cases Text.withoutEnding? ['m', 's'] cs with
  | some number => rfl
  | none => rfl

/-- Read a token as a wait. Its digits are added up only if all that stands before the unit are
digits. -/
def waitOfToken (token : List Char) : Checked WaitReading :=
  if (bytes (trim token)).head?.any isDigitByte then do
    match ← cutUnit? (trim token) with
    | some (number, unit) =>
        if (bytes (trimEnd number)).all isDigitByte then
          return .wait (Capped.mul (← amount (bytes (trimEnd number))) unit)
        else return .malformed
    | none => return .notAWait
  else return .notAWait

/-- **Waits are read without a mishap.** -/
theorem waitOfToken_eq (token : List Char) :
    waitOfToken token = .ok (WaitReading.ofToken token) := by
  have hstart : WaitReading.startsWithDigit (trim token) = (trim token).head?.any Char.isDigit := by
    cases trim token <;> rfl
  rw [waitOfToken, WaitReading.ofToken, hstart, toldByByte_isDigit.any_head?_bytes]
  split
  · rw [cutUnit?_eq, ok_bind]
    cases WaitReading.cutUnit? (trim token) with
    | some sides =>
        obtain ⟨number, unit⟩ := sides
        simp only [toldByByte_isDigit.all_bytes]
        split
        · next hdigits =>
            rw [amount_bytes hdigits]
            rfl
        · rfl
    | none => rfl
  · rfl

/-! ## Typing macros -/

/-- Read what stands between the parentheses. It is cut once, 2 bytes before its end, and its digits
are added up only if there is nothing else before the unit. -/
def rateOfText (cs : List Char) : Checked (Except GrammarFault UInt8) := do
  match ← withoutEnding? ['/', 's'] (trim cs) with
  | none => return .error .malformedRate
  | some number =>
      if (trim number).isEmpty || !(bytes (trim number)).all isDigitByte then
        return .error .malformedRate
      else
        let rate := (← amount (bytes (trim number))).toNat
        if 1 ≤ rate && rate ≤ PacedText.fastestRate.toNat then return .ok (UInt8.ofNat rate)
        else return .error .rateOutOfRange

theorem rateOfText_eq (cs : List Char) : rateOfText cs = .ok (PacedText.rateOfText cs) := by
  rw [rateOfText, PacedText.rateOfText, withoutEnding?_eq (forall_ascii_endings _ (by simp)),
    ok_bind]
  cases Text.withoutEnding? ['/', 's'] (trim cs) with
  | some number =>
      simp only [toldByByte_isDigit.all_bytes]
      split
      · rfl
      · next hnumber =>
          have hdigits : (trim number).all Char.isDigit = true := by
            simp only [Bool.or_eq_true, Bool.not_eq_true', not_or, Bool.not_eq_false] at hnumber
            exact hnumber.2
          rw [amount_bytes hdigits, ok_bind]
          split <;> rfl
  | none => rfl

/-- The text to type and its rate, cut out around the last `(` and the first `)` after it. The four
cuts are made in this order: behind `(`, before `)`, behind `)` and before `(`. The last two are made
only if there is a rate, and the last one only if nothing follows it. -/
def cutRate (cs : List Char) : Checked (Except GrammarFault (List Char × UInt8)) :=
  match lastOffset? '(' cs with
  | none => return .ok (cs, PacedText.usualRate)
  | some opening => do
      let (_, tail) ← cutAt cs (← next cs opening)
      match firstOffset? ')' tail with
      | none => return .error .unclosedParen
      | some closing =>
          let (inner, _) ← cutAt tail closing
          match ← rateOfText inner with
          | .error fault => return .error fault
          | .ok rate =>
              let (_, rest) ← cutAt tail (← next tail closing)
              if isAllBlank rest then
                let (text, _) ← cutAt cs opening
                return .ok (trim text, rate)
              else return .error .trailingText

/-- **A text is cut around its rate without a mishap.** -/
theorem cutRate_eq (cs : List Char) : cutRate cs = .ok (PacedText.cutRate cs) := by
  rw [cutRate, PacedText.cutRate, lastOffset?_eq]
  cases hopen : cutLast? '(' cs with
  | none => rfl
  | some sides =>
      obtain ⟨text, tail⟩ := sides
      obtain ⟨rfl, -⟩ := cutLast?_eq_some_iff.1 hopen
      simp only [Option.map_some]
      rw [next_eq (by decide), ok_bind, cutAt_byteLength_concat, ok_bind]
      simp only [firstOffset?_eq]
      cases hclose : cutFirst? ')' tail with
      | none => rfl
      | some sides =>
          obtain ⟨inner, rest⟩ := sides
          obtain ⟨rfl, -⟩ := cutFirst?_eq_some_iff.1 hclose
          simp only [Option.map_some]
          rw [cutAt_byteLength, ok_bind]
          simp only [rateOfText_eq, ok_bind]
          cases PacedText.rateOfText inner with
          | error fault => rfl
          | ok rate =>
              simp only
              rw [next_eq (by decide), ok_bind, cutAt_byteLength_concat, ok_bind]
              simp only
              split
              · rw [cutAt_byteLength]
                rfl
              · rfl

/-- Read a typing macro. -/
def pacedText (cs : List Char) : Checked (Except GrammarFault PacedText) := do
  match ← cutRate (trim cs) with
  | .error fault => return .error fault
  | .ok (text, rate) =>
      if byteLength text ≤ payloadLimit then return .ok ⟨String.ofList text, rate⟩
      else return .error .payloadTooLong

theorem pacedText_eq (cs : List Char) : pacedText cs = .ok (PacedText.ofText cs) := by
  rw [pacedText, PacedText.ofText, cutRate_eq, ok_bind]
  cases PacedText.cutRate (trim cs) with
  | error fault => rfl
  | ok sides =>
      simp only [utf8ByteSize_ofList]
      split <;> rfl

/-! ## Keystrokes -/

/-- Read one part after the other, until one is turned away. -/
def readAll {σ : Type} (read : σ → List Char → Checked (Except GrammarFault σ)) :
    σ → List (List Char) → Checked (Except GrammarFault σ)
  | state, [] => return .ok state
  | state, part :: parts => do
      match ← read state part with
      | .error fault => return .error fault
      | .ok after => readAll read after parts

theorem readAll_eq {σ : Type} {read : σ → List Char → Checked (Except GrammarFault σ)}
    {plain : σ → List Char → Except GrammarFault σ}
    (h : ∀ state part, read state part = .ok (plain state part)) (state : σ)
    (parts : List (List Char)) : readAll read state parts = .ok (parts.foldlM plain state) := by
  induction parts generalizing state with
  | nil => rfl
  | cons part parts ih =>
      rw [readAll, h, ok_bind, List.foldlM_cons]
      cases plain state part with
      | error fault => rfl
      | ok next => exact ih next

/-- Read one more word of a chord. -/
def addWord (chord : Chord.Partial) (word : List Char) :
    Checked (Except GrammarFault Chord.Partial) :=
  if isAllBlank word then return .error .emptyToken
  else do
    match ← chordWord? word with
    | none => return .error .unknownKey
    | some (.modifier key) => return .ok ⟨chord.key, chord.modifiers ∪ .only key⟩
    | some (.key key) =>
        match chord.key with
        | some _ => return .error .severalKeys
        | none => return .ok ⟨some key, chord.modifiers⟩

theorem addWord_eq (chord : Chord.Partial) (word : List Char) :
    addWord chord word = .ok (chord.add word) := by
  rw [addWord, Chord.Partial.add]
  split
  · rfl
  · rw [chordWord?_eq, ok_bind]
    cases Vocabulary.chordWord? word with
    | none => rfl
    | some meaning =>
        cases meaning with
        | modifier key => rfl
        | key key => cases hkey : chord.key <;> rfl

/-- Read a chord. -/
def chord (cs : List Char) : Checked (Except GrammarFault Chord) := do
  match ← readAll addWord .start (cs.splitOn '+') with
  | .error fault => return .error fault
  | .ok chord => return chord.finish

theorem chord_eq (cs : List Char) : chord cs = .ok (Chord.ofText cs) := by
  rw [chord, readAll_eq addWord_eq, ok_bind, Chord.ofText]
  cases (cs.splitOn '+').foldlM Chord.Partial.add Chord.Partial.start with
  | error fault => rfl
  | ok chord => rfl

/-- Read one more token after some steps, which are given latest first. -/
def addToken (steps : List Step) (token : List Char) : Checked (Except GrammarFault (List Step)) :=
  if isAllBlank token then return .error .emptyToken
  else do
    match ← waitOfToken token with
    | .wait ms => return .ok (Step.delayLatest ms steps)
    | .malformed => return .error .malformedWait
    | .notAWait =>
        match ← chord token with
        | .error fault => return .error fault
        | .ok chord =>
            if steps.length < Step.limit then return .ok (.ofChord chord :: steps)
            else return .error .tooManySteps

theorem addToken_eq (steps : List Step) (token : List Char) :
    addToken steps token = .ok (Step.addToken steps token) := by
  rw [addToken, Step.addToken]
  split
  · rfl
  · rw [waitOfToken_eq, ok_bind]
    cases WaitReading.ofToken token with
    | wait ms => rfl
    | malformed => rfl
    | notAWait =>
        simp only [chord_eq, ok_bind]
        cases Chord.ofText token with
        | error fault => rfl
        | ok chord =>
            simp only
            split <;> rfl

/-- Read the steps of a keystroke macro. -/
def steps (cs : List Char) : Checked (Except GrammarFault (List Step)) := do
  return (← readAll addToken [] (cs.splitOn ',')).map List.reverse

theorem steps_eq (cs : List Char) : steps cs = .ok (Step.listOfText cs) := by
  rw [steps, readAll_eq addToken_eq]
  rfl

/-! ## Hold sequences -/

/-- ASCII digits, as the bytes that are typed. -/
def digitsOf (cs : List Char) : Except GrammarFault (List UInt8) :=
  let digits := (bytes cs).filter isDigitByte
  if digits.length ≤ Hold.digitLimit then .ok digits else .error .tooManySteps

theorem digitsOf_eq (cs : List Char) : digitsOf cs = Hold.digitsOf cs := by
  rw [digitsOf, Hold.digitsOf, toldByByte_isDigit.filter_bytes, List.length_map]

/-- Digits, commas and spaces, with at least one digit. -/
def isAltCode (cs : List Char) : Bool :=
  (bytes cs).any isDigitByte &&
    (bytes cs).all fun byte => isDigitByte byte || byte == 44 || byte == 32

theorem isAltCode_eq (cs : List Char) : isAltCode cs = Hold.isAltCode cs := by
  have htold : ToldByByte (fun byte => isDigitByte byte || byte == 44 || byte == 32)
      (fun c => c.isDigit || c == ',' || c == ' ') :=
    (toldByByte_isDigit.or (toldByByte_beq ',' (by decide))).or (toldByByte_beq ' ' (by decide))
  rw [isAltCode, Hold.isAltCode, toldByByte_isDigit.any_bytes, htold.all_bytes]

/-- A key with any number of modifiers before it. -/
def press? (token : List Char) : Checked (Option SequenceItem) :=
  let (before, name) := (cutLast? '+' token).getD ([], token)
  match ((before.splitOn '+').filter fun name => !isAllBlank name).mapM Vocabulary.modifier? with
  | none => return none
  | some keys => do
      return (← sequenceKey? name).map fun key => .press key.usage (.join (keys.map .only))

theorem press?_eq (token : List Char) : press? token = .ok (Hold.press? token) := by
  rw [press?, Hold.press?]
  obtain ⟨before, name⟩ := (cutLast? '+' token).getD ([], token)
  simp only [sequenceKey?_eq, ok_bind]
  cases ((before.splitOn '+').filter fun name => !isAllBlank name).mapM Vocabulary.modifier? with
  | none => rfl
  | some keys =>
      cases Vocabulary.sequenceKey? name with
      | none => rfl
      | some key => rfl

/-- Read one token of the sequence; `none` if it means nothing. -/
def item? (altHeld : Bool) (token : List Char) :
    Checked (Except GrammarFault (Option SequenceItem)) := do
  match ← waitOfToken token with
  | .wait ms => return .ok (some (.wait ms))
  | .malformed => return .ok none
  | .notAWait =>
      if altHeld && (bytes token).all isDigitByte then
        return (digitsOf token).map fun ds => some (.digits ds)
      else return .ok (← press? token)

theorem item?_eq (altHeld : Bool) (token : List Char) :
    item? altHeld token = .ok (Hold.item? altHeld token) := by
  rw [item?, Hold.item?, waitOfToken_eq, ok_bind]
  cases WaitReading.ofToken token with
  | wait ms => rfl
  | malformed => rfl
  | notAWait =>
      simp only [toldByByte_isDigit.all_bytes, digitsOf_eq, press?_eq, ok_bind]
      split <;> rfl

/-- Read the tokens of the sequence while there is room for their items. -/
def items (altHeld : Bool) : Nat → List (List Char) → Checked (Reading (List SequenceItem))
  | _, [] => return .silent (.ok [])
  | room, token :: rest => do
      match ← item? altHeld token with
      | .error fault => return .silent (.error fault)
      | .ok none => return (← items altHeld room rest).after [.unknownToken (String.ofList token)]
      | .ok (some item) =>
          match room with
          | 0 => return .silent (.error .tooManySteps)
          | room + 1 => return (← items altHeld room rest).map (item :: ·)

theorem items_eq (altHeld : Bool) (room : Nat) (tokens : List (List Char)) :
    items altHeld room tokens = .ok (Hold.items altHeld room tokens) := by
  induction tokens generalizing room with
  | nil =>
      rw [items, Hold.items]
      rfl
  | cons token tokens ih =>
      rw [items, Hold.items, item?_eq, ok_bind]
      cases Hold.item? altHeld token with
      | error fault => rfl
      | ok meaning =>
          cases meaning with
          | none =>
              simp only [ih, ok_bind]
              rfl
          | some item =>
              cases room with
              | zero => rfl
              | succ room =>
                  simp only [ih, ok_bind]
                  rfl

/-- Read the right side. -/
def content (altHeld : Bool) (cs : List Char) : Checked (Reading HoldContent) :=
  if altHeld && isAltCode cs then return .silent ((digitsOf cs).map .altCode)
  else do return (← items altHeld Hold.itemLimit (Hold.tokens cs)).map .sequence

theorem content_eq (altHeld : Bool) (cs : List Char) :
    content altHeld cs = .ok (Hold.content altHeld cs) := by
  rw [content, Hold.content, isAltCode_eq, digitsOf_eq, items_eq]
  split <;> rfl

/-- Read a hold sequence. -/
def hold (cs : List Char) : Checked (Reading (Modifiers × HoldContent)) :=
  match cutFirst? '|' cs with
  | none => return .silent (.error .missingSeparator)
  | some (left, right) =>
      let names := left.splitOn '+'
      let held := Hold.heldModifiers names
      let ignored := (Hold.strangers names).map fun name =>
        Notice.notAModifier (String.ofList (trim name))
      if held.isNone then return ⟨ignored, .error .noModifier⟩
      else do
        let body ← content held.hasAlt (trim right)
        return (body.map fun content => (held, content)).after ignored

/-- **Hold sequences are read without a mishap.** -/
theorem hold_eq (cs : List Char) : hold cs = .ok (Hold.ofText cs) := by
  rw [hold, Hold.ofText]
  cases cutFirst? '|' cs with
  | none => rfl
  | some sides =>
      simp only [content_eq, ok_bind]
      split <;> rfl

/-! ## Macros -/

/-- Read text by the grammar of its kind, whatever its length. -/
def plan (kind : Kind) (cs : List Char) : Checked (Reading Plan) := do
  match kind with
  | .keystroke => return .silent ((← steps cs).map .keystroke)
  | .typing =>
      return .silent ((← pacedText cs).map fun paced => .typing paced.text paced.perSecond)
  | .keybind =>
      return .silent ((← chord cs).map fun chord => .keybind chord.key.usage chord.modifiers)
  | .holdSequence => return (← hold cs).map fun (held, content) => .holdSequence held content

theorem plan_eq (kind : Kind) (cs : List Char) : plan kind cs = .ok (Plan.ofText kind cs) := by
  cases kind with
  | keystroke =>
      rw [plan, steps_eq]
      rfl
  | typing =>
      rw [plan, pacedText_eq]
      rfl
  | keybind =>
      rw [plan, chord_eq]
      rfl
  | holdSequence =>
      rw [plan, hold_eq]
      rfl

/-- Read the text of a macro. -/
def macroPlan (kind : Kind) (text : String) : Checked (Reading Plan) :=
  if byteLength text.toList ≤ payloadLimit then plan kind text.toList
  else return .silent (.error .payloadTooLong)

theorem macroPlan_eq (kind : Kind) (text : String) :
    macroPlan kind text = .ok (Plan.ofMacro kind text) := by
  rw [macroPlan, Plan.ofMacro, plan_eq, ← utf8ByteSize_ofList, String.ofList_toList]
  split <;> rfl

/-! ## Where texts are cut -/

/-- Before an ending there is a place to cut. -/
theorem isValid_of_ending {ending cs : List Char} {front tail : List UInt8}
    (hascii : ∀ c ∈ ending, c.toNat < 128) (hsplit : bytes cs = front ++ tail)
    (htail : tail.map lowerByte = bytes ending) :
    String.Pos.Raw.IsValid (String.ofList cs) ⟨front.length⟩ := by
  obtain ⟨body, last, rfl, rfl, -⟩ :=
    exists_append_of_bytes_eq hsplit (toNat_lt_of_map_lowerByte hascii htail)
  exact exists_cutAt_iff.1 ⟨_, cutAt_byteLength body last⟩

/-- Before and behind a separator there is a place to cut. -/
theorem isValid_of_separator {a b : List Char} {sep : Char} (hsep : sep.toNat < 128) :
    String.Pos.Raw.IsValid (String.ofList (a ++ sep :: b)) ⟨byteLength a⟩ ∧
      String.Pos.Raw.IsValid (String.ofList (a ++ sep :: b)) ⟨byteLength a + 1⟩ := by
  refine ⟨exists_cutAt_iff.1 ⟨_, cutAt_byteLength a (sep :: b)⟩, ?_⟩
  rw [← byteLength_concat hsep]
  exact exists_cutAt_iff.1 ⟨_, cutAt_byteLength_concat a b sep⟩

end Checked

/-! ## The law -/

open Checked in
/-- **Reading never goes wrong.** Every text of every kind is read with each cut, each digit and
each sum checked, and no check fails: what is read is what is read without the checks, a plan or a
fault.
The checks are no weaker than they should be. A text is cut only where its string has a boundary
between characters, as it has before each ending that is found by its bytes and on both sides of the
last opening and the first closing parenthesis, and only the byte of a digit is taken for one. -/
theorem reads_without_mishap :
    (∀ (kind : Kind) (text : String),
      Checked.plan kind text.toList = .ok (Plan.ofText kind text.toList) ∧
        Checked.macroPlan kind text = .ok (Plan.ofMacro kind text)) ∧
    (∀ (cs : List Char) (offset : Nat), (∃ sides, Checked.cutAt cs offset = .ok sides) ↔
      String.Pos.Raw.IsValid (String.ofList cs) ⟨offset⟩) ∧
    (∀ ending ∈ [['m', 's'], ['s'], ['/', 's']], ∀ (cs : List Char) (front tail : List UInt8),
      Text.bytes cs = front ++ tail → tail.map lowerByte = Text.bytes ending →
        String.Pos.Raw.IsValid (String.ofList cs) ⟨front.length⟩) ∧
    (∀ (cs : List Char) (offset : Nat),
      Text.lastOffset? '(' cs = some offset ∨ Text.firstOffset? ')' cs = some offset →
        String.Pos.Raw.IsValid (String.ofList cs) ⟨offset⟩ ∧
          String.Pos.Raw.IsValid (String.ofList cs) ⟨offset + 1⟩) ∧
    ∀ byte, (∃ value, Checked.digit byte = .ok value) ↔ 48 ≤ byte.toNat ∧ byte.toNat ≤ 57 := by
  refine ⟨fun kind text => ⟨plan_eq kind _, macroPlan_eq kind text⟩,
    fun cs offset => exists_cutAt_iff, ?_, ?_, ?_⟩
  · intro ending hmem cs front tail hsplit htail
    exact isValid_of_ending (forall_ascii_endings ending hmem) hsplit htail
  · rintro cs offset (hopen | hclose)
    · rw [Text.lastOffset?_eq] at hopen
      obtain ⟨⟨text, tail⟩, hcut, rfl⟩ := Option.map_eq_some_iff.1 hopen
      obtain ⟨rfl, -⟩ := Text.cutLast?_eq_some_iff.1 hcut
      exact isValid_of_separator (by decide)
    · rw [Text.firstOffset?_eq] at hclose
      obtain ⟨⟨inner, rest⟩, hcut, rfl⟩ := Option.map_eq_some_iff.1 hclose
      obtain ⟨rfl, -⟩ := Text.cutFirst?_eq_some_iff.1 hcut
      exact isValid_of_separator (by decide)
  · intro byte
    exact exists_digit_iff

/-- Two characters of two bytes each, and places to cut behind them but not inside. -/
theorem reads_without_mishap_two_bytes :
    let text := "Grüße (8/S)"
    (∃ reading, Checked.macroPlan .typing text = .ok reading ∧
        reading.result = .ok (.typing "Grüße" 8)) ∧
      Text.lastOffset? '(' text.toList = some 8 ∧
      String.Pos.Raw.IsValid (String.ofList text.toList) ⟨8⟩ ∧
      ¬ String.Pos.Raw.IsValid (String.ofList text.toList) ⟨3⟩ := by
  intro text
  obtain ⟨hreads, hcuts, -, hparens, -⟩ := reads_without_mishap
  have hread : (Plan.ofMacro .typing text).result = .ok (.typing "Grüße" 8) := by decide +kernel
  have hopen : Text.lastOffset? '(' text.toList = some 8 := by decide +kernel
  have hinside : Checked.cutAt text.toList 3 = .error .insideCharacter := by decide +kernel
  refine ⟨⟨_, (hreads .typing text).2, hread⟩, hopen, (hparens _ 8 (.inl hopen)).1, ?_⟩
  rw [← hcuts, hinside]
  simp

end MacroPad
