/-
`WaitGrammar.lean` -- the grammar of waits as a relation.

Every token is one of three things: a wait if it has the form of one, a malformed wait if it has
only the two ends of one, and no wait at all otherwise. The statement at the end says that reading a
token gives what the grammar says, and that a time that is written out is read as that time, however
long it is, cut once at the largest amount.
-/
import MacroPad.Proofs.WaitForm

set_option autoImplicit false

namespace MacroPad

/-! ## The grammar -/

/-- The token starts with a digit and ends in `s`, blanks around it apart. -/
def HasWaitEnds (token : List Char) : Prop :=
  (∃ c ∈ (Text.trim token).head?, c.isDigit = true) ∧ EndsInS (Text.trim token)

/-- What becomes of a token that is read as a wait. -/
inductive WaitText (token : List Char) : WaitReading → Prop
  | wait {ms : UInt32} (hform : WaitForm token ms) : WaitText token (.wait ms)
  | malformed (hends : HasWaitEnds token) (hform : ∀ ms, ¬ WaitForm token ms) :
      WaitText token .malformed
  | notAWait (hends : ¬ HasWaitEnds token) (hform : ∀ ms, ¬ WaitForm token ms) :
      WaitText token .notAWait

section Tokens

variable {token : List Char} {reading : WaitReading}

theorem hasWaitEnds_iff :
    HasWaitEnds token ↔
      WaitReading.startsWithDigit (Text.trim token) = true ∧ EndsInS (Text.trim token) := by
  rw [HasWaitEnds, WaitReading.startsWithDigit_iff]

/-- What the grammar says of a token is read from it. -/
theorem WaitText.ofToken_eq (h : WaitText token reading) : WaitReading.ofToken token = reading := by
  cases h with
  | wait hform => exact WaitReading.ofToken_eq_wait_iff.2 hform
  | malformed hends hform =>
      obtain ⟨hstart, hend⟩ := hasWaitEnds_iff.1 hends
      exact WaitReading.ofToken_eq_malformed_iff.2 ⟨hstart, hend, hform⟩
  | notAWait hends hform =>
      rw [hasWaitEnds_iff] at hends
      exact WaitReading.ofToken_eq_notAWait_iff.2 hends

/-- What is read of a token is what the grammar says of it. -/
theorem WaitReading.waitText_ofToken (token : List Char) : WaitText token (ofToken token) := by
  cases hread : ofToken token with
  | wait ms => exact .wait (ofToken_eq_wait_iff.1 hread)
  | malformed =>
      obtain ⟨hstart, hend, hform⟩ := ofToken_eq_malformed_iff.1 hread
      exact .malformed (hasWaitEnds_iff.2 ⟨hstart, hend⟩) hform
  | notAWait =>
      refine .notAWait ?_ fun ms hform => ?_
      · rw [hasWaitEnds_iff]
        exact ofToken_eq_notAWait_iff.1 hread
      · rw [ofToken_eq_wait_iff.2 hform] at hread
        contradiction

end Tokens

/-! ## Times that are written out -/

section Written

variable {before digits blanks unit after : List Char} {scale : Nat}

/-- Zeros and a written number are digits only. -/
theorem isDigit_of_mem_written {n zeros : Nat} {c : Char}
    (h : c ∈ List.replicate zeros '0' ++ Nat.toDigits 10 n) : c.isDigit = true := by
  rcases List.mem_append.1 h with hzero | hdigit
  · rw [List.eq_of_mem_replicate hzero]
    rfl
  · exact Nat.isDigit_of_mem_toDigits (by decide) (by decide) hdigit

/-- A number, blanks and a unit are a wait, whatever blanks stand around them. -/
theorem WaitForm.of_written (hbefore : Text.isAllBlank before = true) (hne : digits ≠ [])
    (hdigits : ∀ c ∈ digits, c.isDigit = true) (hblanks : Text.isAllBlank blanks = true)
    (hunit : WaitUnit unit scale) (hafter : Text.isAllBlank after = true) :
    WaitForm (before ++ (digits ++ blanks ++ unit) ++ after)
      (Capped.ofNat (Text.Decimal.value digits * scale)) := by
  have htrim : Text.trim (before ++ (digits ++ blanks ++ unit) ++ after) =
      digits ++ blanks ++ unit := by
    rw [Text.trim_append_right hafter, Text.trim_append_left hbefore]
    apply Text.trim_eq_self
    · obtain ⟨digit, rest, rfl⟩ := List.exists_cons_of_ne_nil hne
      intro c hc
      obtain rfl : digit = c := Option.some.inj hc
      exact Text.isBlank_eq_false_of_isDigit (hdigits digit List.mem_cons_self)
    · -- the unit ends in a letter, and no letter is a blank
      obtain ⟨init, letter, rfl, hletter⟩ := hunit.exists_last
      intro c hc
      rw [← List.append_assoc, List.getLast?_concat] at hc
      obtain rfl : letter = c := Option.some.inj hc
      rw [← Bool.not_eq_true]
      exact fun hblank => WaitReading.toLower_ne (.inr hblank) (.inr rfl) hletter
  exact ⟨digits, blanks, unit, scale, htrim, hne, hdigits, Text.isAllBlank_iff.1 hblanks, hunit,
    Capped.toNat_ofNat _⟩

end Written

/-! ## The law -/

/-- **The grammar of waits.** Of every token, what is read is what the grammar says: a wait of the
exact value of its number, cut at the largest amount, if it has the form of one, and otherwise a
malformed wait or none, as it has both ends of a wait or not. A number that is written out with
either unit is read as that time, whatever zeros are in front of it and whatever blanks are around
it and before its unit. -/
theorem waitText_iff_read :
    (∀ (token : List Char) (reading : WaitReading),
      WaitText token reading ↔ WaitReading.ofToken token = reading) ∧
    ∀ (n zeros scale : Nat) (before blanks unit after : List Char),
      Text.isAllBlank before = true → Text.isAllBlank blanks = true → WaitUnit unit scale →
        Text.isAllBlank after = true →
          WaitReading.ofToken
              (before ++ (List.replicate zeros '0' ++ Nat.toDigits 10 n ++ blanks ++ unit) ++ after) =
            .wait (UInt32.ofNat (min (n * scale) 0xFFFFFFFF)) := by
  refine ⟨fun token reading => ⟨WaitText.ofToken_eq, ?_⟩, ?_⟩
  · rintro rfl
    exact WaitReading.waitText_ofToken token
  · intro n zeros scale before blanks unit after hbefore hblanks hunit hafter
    have hne : List.replicate zeros '0' ++ Nat.toDigits 10 n ≠ [] :=
      List.append_ne_nil_of_right_ne_nil _ Nat.toDigits_ne_nil
    have hform := WaitForm.of_written hbefore hne (fun c => isDigit_of_mem_written) hblanks hunit
      hafter
    rw [Text.Decimal.value_zeros_append, Text.Decimal.value_toDigits] at hform
    exact (WaitText.wait hform).ofToken_eq

/-- Blanks inside a number make a malformed wait and a unit alone is none; a time of more than
`2 ^ 32` milliseconds is cut. -/
theorem waitText_iff_read_cut :
    WaitText "5 0ms".toList .malformed ∧ WaitText "mS".toList .notAWait ∧
      WaitUnit ['S'] 1000 ∧ Text.isAllBlank ['\u2003'] = true ∧
      WaitReading.ofToken " 004294968\u2003S\n".toList = .wait 4294967295 := by
  obtain ⟨hread, hwritten⟩ := waitText_iff_read
  have hunit : WaitUnit ['S'] 1000 := .s rfl
  have hblank : Text.isAllBlank ['\u2003'] = true := by decide
  refine ⟨(hread _ _).2 (by decide +kernel), (hread _ _).2 (by decide +kernel), hunit, hblank, ?_⟩
  exact hwritten 4294968 2 1000 [' '] ['\u2003'] ['S'] ['\n'] (by decide) hblank hunit (by decide)

end MacroPad
