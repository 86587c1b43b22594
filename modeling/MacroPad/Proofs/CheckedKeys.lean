/-
`CheckedKeys.lean` -- keys that are found by arithmetic.

The usages of letters, of digits and of function keys lie in blocks, and a key is found in its block
by a difference and a sum of bytes. Neither may leave its range. What is looked up by a word of a
chord or by a key of a hold sequence is the same as without the checks.
-/
import Mathlib.Algebra.Group.Nat.Defs
import MacroPad.Proofs.Bytes
import MacroPad.Proofs.Names

set_option autoImplicit false

namespace MacroPad

/-- The keys of a chord that are named by a word. -/
def chordKeyWords : List (String × Key) :=
  [("ENTER", .enter), ("ESC", .escape), ("ESCAPE", .escape), ("TAB", .tab), ("SPACE", .space)]

/-- A word of a chord is looked for among the names, then as a modifier, then as a number after `F`
or a single character. -/
theorem Vocabulary.chordWord?_eq (token : List Char) :
    chordWord? token =
      match chordKeyWords.lookup (String.ofList (folded token)) with
      | some key => some (.key key)
      | none =>
          match modifier? token with
          | some modifier => some (.modifier modifier)
          | none =>
              match functionNumber? (folded token) with
              | some n => if n ≤ 12 then (Key.ofFunctionNumber? n).map .key else none
              | none => (printed? (folded token)).map .key := by
  unfold chordWord?
  generalize String.ofList (folded token) = name
  split
  case h_6 =>
    have hnone : chordKeyWords.lookup name = none := by
      rw [List.lookup_eq_none_iff]
      simp_all [chordKeyWords]
    exact hnone ▸ rfl
  all_goals rfl

namespace Checked

/-! ## Blocks of keys -/

/-- The sum of two bytes: the usage at which a block begins, and a place in the block. -/
def add (a b : UInt8) : Checked UInt8 :=
  if a.toNat + b.toNat < 256 then .ok (a + b) else .error .overflow

/-- The difference of two bytes: what is looked for, and the first that is in the block. -/
def sub (a b : UInt8) : Checked UInt8 := if b ≤ a then .ok (a - b) else .error .overflow

/-- The key as far behind the usage `first` as the byte is behind `low`. It is used five times: for
small letters, for capitals, for the digits from 1 on, and for the two rows of function keys. -/
def keyBehind (first low byte : UInt8) : Checked (Option Key) := do
  return Key.ofUsage? (← add first (← sub byte low))

/-- The key of an ASCII letter in either case: `a` or `A` is taken off, and the usage of the first
letter is added. -/
def letterKey? (c : Char) : Checked (Option Key) :=
  if 'a' ≤ c ∧ c ≤ 'z' then keyBehind 0x04 (UInt8.ofNat 'a'.toNat) (UInt8.ofNat c.toNat)
  else if 'A' ≤ c ∧ c ≤ 'Z' then keyBehind 0x04 (UInt8.ofNat 'A'.toNat) (UInt8.ofNat c.toNat)
  else .ok none

/-- The top-row key of an ASCII digit: `1` is taken off, and the usage of that digit is added. The
key of `0` is the last one of the row and is found without a sum. -/
def digitKey? (c : Char) : Checked (Option Key) :=
  if c = '0' then .ok (Key.ofUsage? 0x27)
  else if '1' ≤ c ∧ c ≤ '9' then keyBehind 0x1E (UInt8.ofNat '1'.toNat) (UInt8.ofNat c.toNat)
  else .ok none

/-- The function key of a number: 1 is taken off and the usage of `F1` is added. The keys from `F13`
on lie in a block of their own, where 13 is taken off. -/
def functionKey? (n : UInt8) : Checked (Option Key) :=
  if 1 ≤ n ∧ n ≤ 12 then keyBehind 0x3A 1 n
  else if 13 ≤ n ∧ n ≤ 24 then keyBehind 0x68 13 n
  else .ok none

/-! ## Words -/

/-- The number in `F` and one or two digits. -/
def functionNumber? : List Char → Option UInt8
  | 'F' :: digits =>
      if Text.byteLength digits = 0 ∨ 2 < Text.byteLength digits ∨
          (Text.bytes digits).all isDigitByte = false then none
      else if Text.Decimal.value digits < 256 then some (UInt8.ofNat (Text.Decimal.value digits))
      else none
  | _ => none

/-- The key of a single letter or digit. -/
def printed? : List Char → Checked (Option Key)
  | [c] => do
      match ← letterKey? c with
      | some key => return some key
      | none => digitKey? c
  | _ => .ok none

/-- The function key of a number up to `last`, or the key of a single letter or digit. -/
def numberedOrPrinted? (last : UInt8) (word : List Char) : Checked (Option Key) :=
  match functionNumber? word with
  | some n => if n ≤ last then functionKey? n else .ok none
  | none => printed? word

/-- The meaning of a word of a chord. -/
def chordWord? (token : List Char) : Checked (Option Vocabulary.ChordWord) :=
  match chordKeyWords.lookup (String.ofList (Vocabulary.folded token)) with
  | some key => .ok (some (.key key))
  | none =>
      match Vocabulary.modifier? token with
      | some modifier => .ok (some (.modifier modifier))
      | none => do return (← numberedOrPrinted? 12 (Vocabulary.folded token)).map .key

/-- The key of a name in a hold sequence. -/
def sequenceKey? (token : List Char) : Checked (Option Key) :=
  match keyWords.lookup (String.ofList (Vocabulary.folded token)) with
  | some key => .ok (some key)
  | none => numberedOrPrinted? 24 (Vocabulary.folded token)

/-! ## Nothing goes wrong -/

section

variable {c : Char} {cs word : List Char}

/-- What holds of the characters of a range of codes holds of every character in it. -/
theorem forall_of_range (p : Char → Prop) (low count : Nat)
    (h : ∀ place : Fin count, p (Char.ofNat (low + place))) (hlow : low ≤ c.toNat)
    (hhigh : c.toNat < low + count) : p c := by
  have hc := h ⟨c.toNat - low, by omega⟩
  rwa [Nat.add_sub_cancel' hlow, Char.ofNat_toNat] at hc

theorem letterKey?_eq (c : Char) : letterKey? c = .ok (Key.ofLetter? c) := by
  by_cases hlower : 97 ≤ c.toNat ∧ c.toNat ≤ 122
  · exact forall_of_range (fun c => letterKey? c = .ok (Key.ofLetter? c)) 97 26
      (by decide +kernel) hlower.1 (by omega)
  · by_cases hupper : 65 ≤ c.toNat ∧ c.toNat ≤ 90
    · exact forall_of_range (fun c => letterKey? c = .ok (Key.ofLetter? c)) 65 26
        (by decide +kernel) hupper.1 (by omega)
    · -- any other character is its own capital
      have hself : c.toUpper = c := by
        obtain ⟨hself, -⟩ | ⟨hlow, hhigh, -⟩ := Vocabulary.toUpper_cases c
        · exact hself
        · exact absurd ⟨hlow, hhigh⟩ hlower
      have hletter : Key.ofLetter? c = none := by
        simp only [Key.ofLetter?, hself]
        exact dif_neg fun hrange => hupper ⟨hrange.1, Nat.le_of_lt_succ hrange.2⟩
      have hsmall : ¬ ('a' ≤ c ∧ c ≤ 'z') := hlower
      have hcapital : ¬ ('A' ≤ c ∧ c ≤ 'Z') := hupper
      rw [letterKey?, if_neg hsmall, if_neg hcapital, hletter]

theorem digitKey?_eq (c : Char) : digitKey? c = .ok (Key.ofDigit? c) := by
  by_cases hdigit : 48 ≤ c.toNat ∧ c.toNat ≤ 57
  · exact forall_of_range (fun c => digitKey? c = .ok (Key.ofDigit? c)) 48 10 (by decide +kernel)
      hdigit.1 (by omega)
  · have hnone : Text.digit? c = none := by
      rw [Text.digit?, dif_neg]
      exact fun hrange => hdigit ⟨hrange.1, Nat.le_of_lt_succ hrange.2⟩
    have hzero : c ≠ '0' := by
      rintro rfl
      exact hdigit (by decide)
    have hrange : ¬ ('1' ≤ c ∧ c ≤ '9') := by
      rintro ⟨hlow, hhigh⟩
      have hlow : 49 ≤ c.toNat := hlow
      exact hdigit ⟨by omega, hhigh⟩
    rw [digitKey?, if_neg hzero, if_neg hrange, Key.ofDigit?, hnone]
    rfl

theorem functionKey?_eq (n : UInt8) : functionKey? n = .ok (Key.ofFunctionNumber? n.toNat) := by
  have hall : ∀ n : Fin 256, functionKey? (UInt8.ofNat n) = .ok (Key.ofFunctionNumber? n) := by
    decide +kernel
  have hn := hall ⟨n.toNat, n.toNat_lt⟩
  rwa [UInt8.ofNat_toNat] at hn

theorem printed?_eq (word : List Char) : printed? word = .ok (Vocabulary.printed? word) := by
  cases word with
  | nil => rfl
  | cons c rest =>
      cases rest with
      | nil =>
          rw [printed?, letterKey?_eq, ok_bind, digitKey?_eq, Vocabulary.printed?]
          cases Key.ofLetter? c with
          | none => rfl
          | some key => rfl
      | cons d rest => rfl

/-- A run of digits stays below the power of ten of its length. -/
theorem value_lt_of_digits (hdigits : cs.all Char.isDigit = true) :
    Text.Decimal.value cs < 10 ^ cs.length := by
  induction cs using List.reverseRecOn with
  | nil => decide
  | append_singleton cs c ih =>
      rw [List.all_append, Bool.and_eq_true] at hdigits
      have hc : c.toNat ≤ 57 := (Text.isDigit_iff.1 (by simpa using hdigits.2)).2
      have hweight : Text.Decimal.weight c ≤ 9 := Nat.sub_le_sub_right hc 48
      have hvalue := ih hdigits.1
      rw [Text.Decimal.value_concat, List.length_append, List.length_singleton, Nat.pow_succ]
      omega

/-- One or two digits are a byte. -/
theorem value_lt_of_short (hdigits : cs.all Char.isDigit = true) (hshort : cs.length ≤ 2) :
    Text.Decimal.value cs < 256 :=
  calc Text.Decimal.value cs < 10 ^ cs.length := value_lt_of_digits hdigits
    _ ≤ 10 ^ 2 := Nat.pow_le_pow_right (by decide) hshort
    _ ≤ 256 := by decide

/-- The digits are counted in bytes, and their value is a byte. -/
theorem functionNumber?_cons (digits : List Char) :
    (functionNumber? ('F' :: digits)).map UInt8.toNat =
      Vocabulary.functionNumber? ('F' :: digits) := by
  rw [functionNumber?, Vocabulary.functionNumber?, Text.toldByByte_isDigit.all_bytes]
  by_cases hdigits : digits.all Char.isDigit = true
  · have hascii : ∀ c ∈ digits, c.toNat < 128 := fun c hc =>
      Text.toldByByte_isDigit.char c (List.all_eq_true.1 hdigits c hc)
    have hlengths : (digits.length == 1 || digits.length == 2) = true ↔
        digits.length = 1 ∨ digits.length = 2 := by
      rw [Bool.or_eq_true, beq_iff_eq, beq_iff_eq]
    rw [Text.byteLength_of_ascii hascii, hdigits, Bool.and_true]
    by_cases hroom : digits.length = 1 ∨ digits.length = 2
    · have hsmall : Text.Decimal.value digits < 256 := value_lt_of_short hdigits (by omega)
      have hfits : ¬ (digits.length = 0 ∨ 2 < digits.length ∨ true = false) := by
        simp only [Bool.true_eq_false, or_false]
        omega
      rw [if_neg hfits, if_pos hsmall, if_pos (hlengths.2 hroom), Option.map_some,
        UInt8.toNat_ofNat', Nat.mod_eq_of_lt hsmall]
    · rw [if_pos (by omega), if_neg fun hone => hroom (hlengths.1 hone)]
      rfl
  · rw [Bool.not_eq_true] at hdigits
    rw [if_pos (.inr (.inr hdigits)), hdigits, Bool.and_false]
    rfl

theorem functionNumber?_eq (word : List Char) :
    (functionNumber? word).map UInt8.toNat = Vocabulary.functionNumber? word := by
  cases word with
  | nil => rfl
  | cons c digits =>
      by_cases hc : c = 'F'
      · subst hc
        exact functionNumber?_cons digits
      · have hother : ∀ rest, c :: digits ≠ 'F' :: rest := fun rest h => hc (List.cons.inj h).1
        rw [functionNumber?, Vocabulary.functionNumber?, Option.map_none]
        · exact hother
        · exact hother

theorem numberedOrPrinted?_eq (last : UInt8) (word : List Char) :
    numberedOrPrinted? last word =
      .ok (match Vocabulary.functionNumber? word with
        | some n => if n ≤ last.toNat then Key.ofFunctionNumber? n else none
        | none => Vocabulary.printed? word) := by
  rw [← functionNumber?_eq, numberedOrPrinted?]
  cases functionNumber? word with
  | some n =>
      simp only [Option.map_some, ← UInt8.le_iff_toNat_le]
      split
      · exact functionKey?_eq n
      · rfl
  | none => exact printed?_eq word

/-- **Words of chords are looked up without a mishap.** -/
theorem chordWord?_eq (token : List Char) :
    chordWord? token = .ok (Vocabulary.chordWord? token) := by
  rw [chordWord?, Vocabulary.chordWord?_eq]
  cases chordKeyWords.lookup (String.ofList (Vocabulary.folded token)) with
  | some key => rfl
  | none =>
      cases Vocabulary.modifier? token with
      | some modifier => rfl
      | none =>
          simp only [numberedOrPrinted?_eq, ok_bind]
          cases Vocabulary.functionNumber? (Vocabulary.folded token) with
          | some n =>
              exact congrArg Except.ok
                (apply_ite (Option.map Vocabulary.ChordWord.key) (n ≤ 12) _ _)
          | none => rfl

/-- **So are the keys of hold sequences.** -/
theorem sequenceKey?_eq (token : List Char) :
    sequenceKey? token = .ok (Vocabulary.sequenceKey? token) := by
  rw [sequenceKey?, Vocabulary.sequenceKey?_eq]
  cases keyWords.lookup (String.ofList (Vocabulary.folded token)) with
  | some key => rfl
  | none =>
      refine (numberedOrPrinted?_eq 24 _).trans (congrArg Except.ok ?_)
      rw [Option.none_or]
      cases Vocabulary.functionNumber? (Vocabulary.folded token) with
      | some n =>
          -- there are no function keys with larger numbers
          simp only [Key.ofFunctionNumber?]
          split
          · rfl
          · next hlarge =>
              rw [dif_neg fun hrange => hlarge hrange.2]
      | none => rfl

end

end Checked

end MacroPad
