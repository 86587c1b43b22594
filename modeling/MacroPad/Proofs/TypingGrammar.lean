/-
`TypingGrammar.lean` -- the grammar of typing macros as relations.

A typing macro ends in a rate if it has an opening parenthesis, and the last one counts. Where
the text is cut, what a rate is and which fault comes first are written down here without an
order of reading, with the exact number that the digits of the rate stand for. The statement
at the end says that reading a text gives what the grammar says, and that a text with a rate
written behind it is read as the text and that rate, also where the text itself looks like one.
-/
import MacroPad.Proofs.Endings

set_option autoImplicit false

namespace MacroPad

/-! ## The grammar -/

/-- What stands between the parentheses is a number and the unit `/s`, with no blanks but
around the two. -/
def RateForm (inner digits : List Char) : Prop :=
  digits ≠ [] ∧ (∀ c ∈ digits, c.isDigit = true) ∧ ∃ blanks unit,
    Text.trim inner = digits ++ blanks ++ unit ∧ (∀ c ∈ blanks, Text.isBlank c = true) ∧
      (unit = ['/', 's'] ∨ unit = ['/', 'S'])

/-- The number is a rate at which a macro can be typed. -/
def InRange (n : Nat) : Prop := 1 ≤ n ∧ n ≤ 20

instance (n : Nat) : Decidable (InRange n) := inferInstanceAs (Decidable (1 ≤ n ∧ n ≤ 20))

/-- The text is cut at its last opening parenthesis, and what follows at the first closing
one. -/
structure CutAtRate (cs before inner rest : List Char) : Prop where
  split : cs = before ++ '(' :: (inner ++ ')' :: rest)
  lastOpening : '(' ∉ inner ++ ')' :: rest
  firstClosing : ')' ∉ inner

/-- What becomes of a text that is trimmed: the text to type and the exact rate, or a fault. -/
inductive RatedText (cs : List Char) : Except GrammarFault (List Char × Nat) → Prop
  | plain (h : '(' ∉ cs) : RatedText cs (.ok (cs, 10))
  | unclosed {before tail : List Char} (hsplit : cs = before ++ '(' :: tail) (hlast : '(' ∉ tail)
      (hopen : ')' ∉ tail) : RatedText cs (.error .unclosedParen)
  | malformedRate {before inner rest : List Char} (hcut : CutAtRate cs before inner rest)
      (hrate : ∀ digits, ¬ RateForm inner digits) : RatedText cs (.error .malformedRate)
  | outOfRange {before inner rest digits : List Char} (hcut : CutAtRate cs before inner rest)
      (hrate : RateForm inner digits) (hrange : ¬ InRange (Text.Decimal.value digits)) :
      RatedText cs (.error .rateOutOfRange)
  | trailing {before inner rest digits : List Char} (hcut : CutAtRate cs before inner rest)
      (hrate : RateForm inner digits) (hrange : InRange (Text.Decimal.value digits))
      (hrest : ∃ c ∈ rest, Text.isBlank c = false) : RatedText cs (.error .trailingText)
  | rated {before inner rest digits : List Char} (hcut : CutAtRate cs before inner rest)
      (hrate : RateForm inner digits) (hrange : InRange (Text.Decimal.value digits))
      (hrest : ∀ c ∈ rest, Text.isBlank c = true) :
      RatedText cs (.ok (Text.trim before, Text.Decimal.value digits))

/-- What becomes of a text that is read as a typing macro. -/
inductive TypingText (cs : List Char) : Except GrammarFault PacedText → Prop
  | rejected {fault : GrammarFault} (h : RatedText (Text.trim cs) (.error fault)) :
      TypingText cs (.error fault)
  | accepted {text : List Char} {n : Nat} {perSecond : UInt8}
      (h : RatedText (Text.trim cs) (.ok (text, n)))
      (hfits : (String.ofList text).utf8ByteSize ≤ 256) (hrate : perSecond.toNat = n) :
      TypingText cs (.ok ⟨String.ofList text, perSecond⟩)
  | tooLong {text : List Char} {n : Nat} (h : RatedText (Text.trim cs) (.ok (text, n)))
      (hlong : 256 < (String.ofList text).utf8ByteSize) : TypingText cs (.error .payloadTooLong)

/-! ## Rates -/

section Rates

variable {inner digits : List Char}

/-- The unit in either case. -/
theorem map_toLower_eq_unit_iff {unit : List Char} :
    unit.map Char.toLower = ['/', 's'] ↔ unit = ['/', 's'] ∨ unit = ['/', 'S'] := by
  constructor
  · intro h
    obtain ⟨slash, rest, rfl, hslash, hrest⟩ := List.map_eq_cons_iff.1 h
    obtain ⟨letter, rfl, hletter⟩ := List.map_eq_singleton_iff.1 hrest
    -- a slash is the lower case of no capital letter
    have hself : slash = '/' := by
      obtain hsame | ⟨hcapital, -, hcode⟩ := toLower_cases slash
      · exact hsame.symm.trans hslash
      · rw [hslash, show '/'.toNat = 47 from rfl] at hcode
        omega
    rw [hself]
    exact (toLower_eq_s_iff.1 hletter).imp (congrArg (['/', ·])) (congrArg (['/', ·]))
  · rintro (rfl | rfl) <;> rfl

/-- A rate is cut off before its unit, and what is left is a number and blanks. -/
theorem rateForm_iff :
    RateForm inner digits ↔ digits ≠ [] ∧ (∀ c ∈ digits, c.isDigit = true) ∧
      ∃ number, Text.withoutEnding? ['/', 's'] (Text.trim inner) = some number ∧
        Text.trim number = digits := by
  constructor
  · rintro ⟨hne, hdigits, blanks, unit, hform, hblanks, hunit⟩
    refine ⟨hne, hdigits, digits ++ blanks, ?_, ?_⟩
    · exact Text.withoutEnding?_eq_some_iff.2 ⟨unit, hform, map_toLower_eq_unit_iff.2 hunit⟩
    · rw [Text.trim_append_right (Text.isAllBlank_iff.2 hblanks)]
      apply Text.trim_eq_self
      · intro c hc
        exact Text.isBlank_eq_false_of_isDigit (hdigits c (List.mem_of_head? hc))
      · intro c hc
        exact Text.isBlank_eq_false_of_isDigit (hdigits c (List.mem_of_getLast? hc))
  · rintro ⟨hne, hdigits, number, hcut, rfl⟩
    obtain ⟨unit, hform, hunit⟩ := Text.withoutEnding?_eq_some_iff.1 hcut
    obtain ⟨a, b, hnumber, ha, hb⟩ := Text.exists_trim_eq number
    -- the text between the parentheses is trimmed, so there are no blanks in front
    have hfront : a = [] := by
      cases a with
      | nil => rfl
      | cons c a =>
          have hhead : (Text.trim inner).head? = some c := by
            rw [hform, hnumber]
            rfl
          have hblank := Text.isAllBlank_iff.1 ha c List.mem_cons_self
          rw [Text.head?_trim inner c hhead] at hblank
          contradiction
    refine ⟨hne, hdigits, b, unit, ?_, Text.isAllBlank_iff.1 hb, map_toLower_eq_unit_iff.1 hunit⟩
    rw [hform]
    congr 1
    rwa [hfront] at hnumber

namespace PacedText

theorem rateOfText_eq_of_rateForm (h : RateForm inner digits) :
    rateOfText inner =
      if InRange (Text.Decimal.value digits) then .ok (UInt8.ofNat (Text.Decimal.value digits))
      else .error .rateOutOfRange := by
  obtain ⟨hne, hdigits, number, hcut, rfl⟩ := rateForm_iff.1 h
  have hnumber : ((Text.trim number).isEmpty || !(Text.trim number).all Char.isDigit) = false := by
    rw [Bool.or_eq_false_iff, List.isEmpty_eq_false_iff, Bool.not_eq_false', List.all_eq_true]
    exact ⟨hne, hdigits⟩
  -- a number that is cut is far out of range, as its exact value is
  have hamount : (Text.Decimal.amount (Text.trim number)).toNat =
      min (Text.Decimal.value (Text.trim number)) 0xFFFFFFFF := Text.Decimal.toNat_amount _
  have hfastest : fastestRate.toNat = 20 := rfl
  rw [rateOfText, hcut]
  simp only [hnumber, Bool.false_eq_true, if_false, hamount, hfastest, Bool.and_eq_true,
    decide_eq_true_eq]
  by_cases hrange : InRange (Text.Decimal.value (Text.trim number))
  · have hsame : min (Text.Decimal.value (Text.trim number)) 0xFFFFFFFF =
        Text.Decimal.value (Text.trim number) := by
      have hle := hrange.2
      omega
    rw [hsame, if_pos hrange]
    exact if_pos hrange
  · rw [if_neg hrange, if_neg]
    rintro ⟨hlow, hhigh⟩
    exact hrange ⟨by omega, by omega⟩

theorem rateOfText_eq_of_not_rateForm (h : ∀ digits, ¬ RateForm inner digits) :
    rateOfText inner = .error .malformedRate := by
  rw [rateOfText]
  cases hcut : Text.withoutEnding? ['/', 's'] (Text.trim inner) with
  | none => rfl
  | some number =>
      refine if_pos ?_
      by_contra hnot
      rw [Bool.not_eq_true, Bool.or_eq_false_iff, List.isEmpty_eq_false_iff,
        Bool.not_eq_false', List.all_eq_true] at hnot
      exact h _ (rateForm_iff.2 ⟨hnot.1, hnot.2, number, hcut, rfl⟩)

end PacedText

end Rates

/-! ## Texts with a rate -/

section Texts

variable {cs before inner rest : List Char} {text : List Char} {n : Nat}

/-- A rate in a text is a number in range. -/
theorem RatedText.inRange (h : RatedText cs (.ok (text, n))) : InRange n := by
  cases h with
  | plain _ => decide
  | rated _ _ hrange _ => exact hrange

/-- Where the text is cut, the rate decides first, and then what stands behind it. -/
theorem PacedText.cutRate_eq (h : CutAtRate cs before inner rest) :
    cutRate cs = (rateOfText inner).bind fun rate =>
      if Text.isAllBlank rest then .ok (Text.trim before, rate) else .error .trailingText := by
  have hopening : Text.cutLast? '(' cs = some (before, inner ++ ')' :: rest) :=
    Text.cutLast?_eq_some_iff.2 ⟨h.split, h.lastOpening⟩
  have hclosing : Text.cutFirst? ')' (inner ++ ')' :: rest) = some (inner, rest) :=
    Text.cutFirst?_eq_some_iff.2 ⟨rfl, h.firstClosing⟩
  simp only [cutRate, hopening, hclosing]
  cases rateOfText inner with
  | error fault => rfl
  | ok rate => rfl

/-- What the grammar says of a trimmed text is read from it, and its rate fits into a byte. -/
theorem RatedText.cutRate_eq {result : Except GrammarFault (List Char × Nat)}
    (h : RatedText cs result) :
    PacedText.cutRate cs = result.map fun rated => (rated.1, UInt8.ofNat rated.2) := by
  cases h with
  | plain h =>
      rw [PacedText.cutRate, Text.cutLast?_eq_none_iff.2 h]
      rfl
  | unclosed hsplit hlast hopen =>
      simp only [PacedText.cutRate, Text.cutLast?_eq_some_iff.2 ⟨hsplit, hlast⟩,
        Text.cutFirst?_eq_none_iff.2 hopen]
      rfl
  | malformedRate hcut hrate =>
      rw [PacedText.cutRate_eq hcut, PacedText.rateOfText_eq_of_not_rateForm hrate]
      rfl
  | outOfRange hcut hrate hrange =>
      rw [PacedText.cutRate_eq hcut, PacedText.rateOfText_eq_of_rateForm hrate, if_neg hrange]
      rfl
  | trailing hcut hrate hrange hrest =>
      rw [PacedText.cutRate_eq hcut, PacedText.rateOfText_eq_of_rateForm hrate, if_pos hrange]
      refine if_neg ?_
      rw [Text.isAllBlank_iff]
      obtain ⟨c, hc, hblank⟩ := hrest
      intro hall
      rw [hall c hc] at hblank
      contradiction
  | rated hcut hrate hrange hrest =>
      rw [PacedText.cutRate_eq hcut, PacedText.rateOfText_eq_of_rateForm hrate, if_pos hrange]
      exact if_pos (Text.isAllBlank_iff.2 hrest)

/-- The grammar says something of every trimmed text. -/
theorem exists_ratedText (cs : List Char) : ∃ result, RatedText cs result := by
  cases hopening : Text.cutLast? '(' cs with
  | none => exact ⟨_, .plain (Text.cutLast?_eq_none_iff.1 hopening)⟩
  | some sides =>
      obtain ⟨before, tail⟩ := sides
      obtain ⟨hsplit, hlast⟩ := Text.cutLast?_eq_some_iff.1 hopening
      cases hclosing : Text.cutFirst? ')' tail with
      | none => exact ⟨_, .unclosed hsplit hlast (Text.cutFirst?_eq_none_iff.1 hclosing)⟩
      | some sides =>
          obtain ⟨inner, rest⟩ := sides
          obtain ⟨rfl, hfirst⟩ := Text.cutFirst?_eq_some_iff.1 hclosing
          have hcut : CutAtRate cs before inner rest := ⟨hsplit, hlast, hfirst⟩
          by_cases hrate : ∃ digits, RateForm inner digits
          · obtain ⟨digits, hrate⟩ := hrate
            by_cases hrange : InRange (Text.Decimal.value digits)
            · by_cases hrest : ∀ c ∈ rest, Text.isBlank c = true
              · exact ⟨_, .rated hcut hrate hrange hrest⟩
              · have hsome : ∃ c ∈ rest, Text.isBlank c = false := by simpa using hrest
                exact ⟨_, .trailing hcut hrate hrange hsome⟩
            · exact ⟨_, .outOfRange hcut hrate hrange⟩
          · exact ⟨_, .malformedRate hcut fun digits hdigits => hrate ⟨digits, hdigits⟩⟩

/-- What the grammar says of a text is read from it. -/
theorem TypingText.ofText_eq {result : Except GrammarFault PacedText} (h : TypingText cs result) :
    PacedText.ofText cs = result := by
  cases h with
  | rejected h =>
      rw [PacedText.ofText, h.cutRate_eq]
      rfl
  | @accepted text n perSecond h hfits hrate =>
      have hbyte : UInt8.ofNat n = perSecond := by rw [← hrate, UInt8.ofNat_toNat]
      rw [PacedText.ofText, h.cutRate_eq, ← hbyte]
      exact if_pos hfits
  | tooLong h hlong =>
      rw [PacedText.ofText, h.cutRate_eq]
      exact if_neg (Nat.not_le.2 hlong)

/-- The grammar says something of every text. -/
theorem exists_typingText (cs : List Char) : ∃ result, TypingText cs result := by
  obtain ⟨result, h⟩ := exists_ratedText (Text.trim cs)
  cases result with
  | error fault => exact ⟨_, .rejected h⟩
  | ok rated =>
      obtain ⟨text, n⟩ := rated
      by_cases hfits : (String.ofList text).utf8ByteSize ≤ 256
      · have hrate : (UInt8.ofNat n).toNat = n := by
          have hle := h.inRange.2
          rw [UInt8.toNat_ofNat']
          omega
        exact ⟨_, .accepted h hfits hrate⟩
      · exact ⟨_, .tooLong h (Nat.not_le.1 hfits)⟩

/-- What is read of a text is what the grammar says of it. -/
theorem PacedText.typingText_ofText (cs : List Char) : TypingText cs (ofText cs) := by
  obtain ⟨result, htext⟩ := exists_typingText cs
  rwa [htext.ofText_eq]

end Texts

/-! ## Rates behind a text -/

/-- A text with a rate written behind it is cut there, whatever the text is. -/
theorem ratedText_append (text : List Char) {n : Nat} (hrange : InRange n) :
    RatedText (Text.trim (text ++ ' ' :: '(' :: (Nat.toDigits 10 n ++ ['/', 's', ')'])))
      (.ok (Text.trim text, n)) := by
  have hdigits : ∀ c ∈ Nat.toDigits 10 n, c.isDigit = true := fun c hc =>
    Nat.isDigit_of_mem_toDigits (by decide) (by decide) hc
  have hnone : ∀ paren : Char, paren.isDigit = false → paren ∉ Nat.toDigits 10 n := by
    intro paren hparen hmem
    rw [hdigits paren hmem] at hparen
    contradiction
  have hrate : RateForm (Nat.toDigits 10 n ++ ['/', 's']) (Nat.toDigits 10 n) := by
    refine ⟨Nat.toDigits_ne_nil, hdigits, [], ['/', 's'], ?_, by simp, .inl rfl⟩
    rw [List.append_nil]
    apply Text.trim_eq_self
    · rw [List.head?_append_of_ne_nil _ Nat.toDigits_ne_nil]
      intro c hc
      exact Text.isBlank_eq_false_of_isDigit (hdigits c (List.mem_of_head? hc))
    · intro c hc
      rw [List.getLast?_append] at hc
      obtain rfl : 's' = c := Option.some.inj hc
      rfl
  -- the parenthesis starts and ends what stands behind the text, so the trim leaves it alone
  obtain ⟨before, hsplit, hbefore⟩ : ∃ before,
      Text.trim (text ++ [' '] ++ '(' :: (Nat.toDigits 10 n ++ ['/', 's', ')'])) =
          before ++ '(' :: (Nat.toDigits 10 n ++ ['/', 's', ')']) ∧
        Text.trim before = Text.trim (text ++ [' ']) := by
    apply Text.exists_trim_append
    · exact List.cons_ne_nil _ _
    · rintro c hc
      obtain rfl : '(' = c := Option.some.inj hc
      rfl
    · intro c hc
      rw [← List.cons_append, List.getLast?_append] at hc
      obtain rfl : ')' = c := Option.some.inj hc
      rfl
  have hcut : CutAtRate (before ++ '(' :: (Nat.toDigits 10 n ++ ['/', 's', ')'])) before
      (Nat.toDigits 10 n ++ ['/', 's']) [] := by
    refine ⟨by simp, ?_, ?_⟩
    · simp [hnone '(' rfl]
    · simp [hnone ')' rfl]
  have htext : Text.trim before = Text.trim text :=
    hbefore.trans (Text.trim_append_right rfl text)
  have hrated := RatedText.rated hcut hrate
    (by rwa [Text.Decimal.value_toDigits]) (fun c hc => absurd hc List.not_mem_nil)
  rwa [htext, Text.Decimal.value_toDigits, ← hsplit, List.append_assoc,
    List.singleton_append] at hrated

/-! ## The law -/

/-- **The grammar of typing macros.** Of every text, what is read is what the grammar says.
Text that is too long for a slot is turned away, any other is read by this grammar, and no
other is found too long. A rate that is written behind a text is read as that rate, and the
text as it was, whatever parentheses it has. -/
theorem typingText_iff_read (text : String) (result : Except GrammarFault PacedText) :
    (TypingText text.toList result ↔ PacedText.ofText text.toList = result) ∧
      Plan.ofMacro .typing text = .silent
        (if text.utf8ByteSize ≤ 256 then
          (PacedText.ofText text.toList).map fun paced => .typing paced.text paced.perSecond
        else .error .payloadTooLong) ∧
      (text.utf8ByteSize ≤ 256 → PacedText.ofText text.toList ≠ .error .payloadTooLong) ∧
      ∀ n, 1 ≤ n → n ≤ 20 → (String.ofList (Text.trim text.toList)).utf8ByteSize ≤ 256 →
        PacedText.ofText (text ++ " (" ++ Nat.repr n ++ "/s)").toList =
          .ok ⟨String.ofList (Text.trim text.toList), UInt8.ofNat n⟩ := by
  refine ⟨⟨TypingText.ofText_eq, ?_⟩, ?_, ?_, ?_⟩
  · rintro rfl
    exact PacedText.typingText_ofText text.toList
  · exact (apply_ite Reading.silent _ _ _).symm
  · intro hfits hread
    have hlong := PacedText.payloadLimit_lt_of_ofText hread
    rw [String.ofList_toList] at hlong
    exact Nat.not_lt.2 hfits hlong
  · intro n hlow hhigh hfits
    have hwritten : (text ++ " (" ++ Nat.repr n ++ "/s)").toList =
        text.toList ++ ' ' :: '(' :: (Nat.toDigits 10 n ++ ['/', 's', ')']) := by
      simp [String.toList_append, Nat.toList_repr]
    have hrate : (UInt8.ofNat n).toNat = n := by
      rw [UInt8.toNat_ofNat']
      omega
    rw [hwritten]
    exact (TypingText.accepted (ratedText_append text.toList ⟨hlow, hhigh⟩) hfits hrate).ofText_eq

/-- A rate out of range comes before the text behind it, and of two rates the last one counts;
the other is typed. -/
theorem typingText_iff_read_two_rates :
    TypingText "Hi (4294967304/s) you".toList (.error .rateOutOfRange) ∧
      (String.ofList (Text.trim " Hi ( 8 /S)".toList)).utf8ByteSize ≤ 256 ∧
      PacedText.ofText " Hi ( 8 /S) (20/s)".toList = .ok ⟨"Hi ( 8 /S)", 20⟩ := by
  have hfits : (String.ofList (Text.trim " Hi ( 8 /S)".toList)).utf8ByteSize ≤ 256 := by
    decide +kernel
  obtain ⟨hfirst, -⟩ := typingText_iff_read "Hi (4294967304/s) you" (.error .rateOutOfRange)
  obtain ⟨-, -, -, hwritten⟩ := typingText_iff_read " Hi ( 8 /S)" (.ok ⟨"Hi ( 8 /S)", 20⟩)
  refine ⟨hfirst.2 (by rfl), hfits, ?_⟩
  exact hwritten 20 (by decide) (by decide) hfits

end MacroPad
