/-
`WaitForm.lean` -- the tokens that are waits.

A wait is written as a number, blanks and a unit. The statements at the end say
that this form is exactly what is read as a wait, and that a token which starts
with a digit and ends in `s` without having it is exactly what is read as a
malformed one. The unit `ms` also ends in `s`; that no token can be cut in both
ways is because what stands before the unit ends in a digit or a blank.
-/
import MacroPad.Grammar.Wait
import MacroPad.Proofs.Trimming

set_option autoImplicit false

namespace MacroPad

/-- The units of a wait in any ASCII case, and how many milliseconds each is. -/
inductive WaitUnit : List Char → Nat → Prop
  | ms {unit : List Char} (h : unit.map Char.toLower = ['m', 's']) : WaitUnit unit 1
  | s {unit : List Char} (h : unit.map Char.toLower = ['s']) : WaitUnit unit 1000

/-- The token is a run of digits, blanks and a unit, with blanks around it. It
asks for the exact value in milliseconds, cut at the largest amount. -/
def WaitForm (token : List Char) (ms : UInt32) : Prop :=
  ∃ (digits blanks unit : List Char) (scale : Nat),
    Text.trim token = digits ++ blanks ++ unit ∧ digits ≠ [] ∧
      (∀ c ∈ digits, c.isDigit = true) ∧ (∀ c ∈ blanks, Text.isBlank c = true) ∧
        WaitUnit unit scale ∧ ms.toNat = min (Text.Decimal.value digits * scale) 0xFFFFFFFF

/-- The text ends in `s` in either case. -/
def EndsInS (cs : List Char) : Prop := ∃ c ∈ cs.getLast?, c.toLower = 's'

/-! ## Lower case -/

/-- Only a capital letter has a lower case of its own, 32 places further. -/
theorem toLower_cases (c : Char) :
    c.toLower = c ∨ 65 ≤ c.toNat ∧ c.toNat ≤ 90 ∧ c.toLower.toNat = c.toNat + 32 := by
  unfold Char.toLower
  split
  · next hupper =>
      have h₁ : 65 ≤ c.toNat := hupper.1
      have h₂ : c.toNat ≤ 90 := hupper.2
      refine .inr ⟨h₁, h₂, ?_⟩
      rw [Char.toNat, UInt32.toNat_add]
      have hval : c.val.toNat = c.toNat := rfl
      have hstep : ('a'.val - 'A'.val).toNat = 32 := rfl
      rw [hval, hstep]
      omega
  · exact .inl rfl

theorem toLower_eq_s_iff {c : Char} : c.toLower = 's' ↔ c = 's' ∨ c = 'S' := by
  constructor
  · intro h
    obtain hsame | ⟨-, -, hcode⟩ := toLower_cases c
    · exact .inl (hsame.symm.trans h)
    · rw [h, show 's'.toNat = 115 from rfl] at hcode
      exact .inr (Char.toNat_inj.1 (show c.toNat = 83 by omega))
  · rintro (rfl | rfl) <;> rfl

/-! ## Units -/

namespace WaitUnit

variable {unit : List Char} {scale : Nat}

theorem exists_first (hunit : WaitUnit unit scale) :
    ∃ c rest, unit = c :: rest ∧ (c.toLower = 'm' ∨ c.toLower = 's') := by
  cases hunit with
  | ms h =>
      obtain ⟨c, rest, hunit, hc, -⟩ := List.map_eq_cons_iff.1 h
      exact ⟨c, rest, hunit, .inl hc⟩
  | s h =>
      obtain ⟨c, hunit, hc⟩ := List.map_eq_singleton_iff.1 h
      exact ⟨c, [], hunit, .inr hc⟩

theorem exists_last (hunit : WaitUnit unit scale) :
    ∃ init c, unit = init ++ [c] ∧ c.toLower = 's' := by
  cases hunit with
  | ms h =>
      obtain ⟨b, rest, rfl, -, hrest⟩ := List.map_eq_cons_iff.1 h
      obtain ⟨c, rfl, hc⟩ := List.map_eq_singleton_iff.1 hrest
      exact ⟨[b], c, rfl, hc⟩
  | s h =>
      obtain ⟨c, hunit, hc⟩ := List.map_eq_singleton_iff.1 h
      exact ⟨[], c, hunit, hc⟩

end WaitUnit

namespace WaitReading

variable {token cs body number unit : List Char} {scale : Nat} {factor ms : UInt32}

/-! ## Cutting the unit -/

/-- A letter is neither a digit nor a blank, in either case. -/
private theorem toLower_eq_self {c : Char} (h : c.isDigit = true ∨ Text.isBlank c = true) :
    c.toLower = c := by
  obtain hsame | ⟨h₁, h₂, -⟩ := toLower_cases c
  · exact hsame
  · exfalso
    rcases h with hdigit | hblank
    · have h₃ := (Text.isDigit_iff.1 hdigit).2
      omega
    · simp only [Text.isBlank, Bool.or_eq_true, Bool.and_eq_true, decide_eq_true_eq,
        beq_iff_eq] at hblank
      omega

theorem toLower_ne {c letter : Char} (h : c.isDigit = true ∨ Text.isBlank c = true)
    (hletter : letter = 'm' ∨ letter = 's') : c.toLower ≠ letter := by
  rw [toLower_eq_self h]
  rintro rfl
  rcases hletter with rfl | rfl <;> exact absurd h (by decide)

theorem exists_unit_of_cutUnit? (h : cutUnit? cs = some (number, factor)) :
    ∃ unit, cs = number ++ unit ∧ WaitUnit unit factor.toNat := by
  unfold cutUnit? at h
  split at h
  · next hcut =>
      obtain ⟨rfl, rfl⟩ := Prod.mk.inj (Option.some.inj h)
      obtain ⟨unit, hcs, hunit⟩ := Text.withoutEnding?_eq_some_iff.1 hcut
      exact ⟨unit, hcs, .ms hunit⟩
  · obtain ⟨body, hcut, hpair⟩ := Option.map_eq_some_iff.1 h
    obtain ⟨rfl, rfl⟩ := Prod.mk.inj hpair
    obtain ⟨unit, hcs, hunit⟩ := Text.withoutEnding?_eq_some_iff.1 hcut
    exact ⟨unit, hcs, .s hunit⟩

/-- The unit is cut off where the text before it does not end in `m`. -/
theorem cutUnit?_append (hunit : WaitUnit unit scale)
    (hlast : ∀ c ∈ body.getLast?, c.toLower ≠ 'm') :
    cutUnit? (body ++ unit) = some (body, UInt32.ofNat scale) := by
  have hcut : ∀ {ending : List Char}, unit.map Char.toLower = ending →
      Text.withoutEnding? ending (body ++ unit) = some body := fun h =>
    Text.withoutEnding?_eq_some_iff.2 ⟨unit, rfl, h⟩
  cases hunit with
  | ms h =>
      rw [cutUnit?, hcut h]
      rfl
  | s h =>
      have hnone : Text.withoutEnding? ['m', 's'] (body ++ unit) = none := by
        rw [Option.eq_none_iff_forall_ne_some]
        intro before hms
        obtain ⟨tail, hsplit, htail⟩ := Text.withoutEnding?_eq_some_iff.1 hms
        obtain ⟨z, rfl, -⟩ := List.map_eq_singleton_iff.1 h
        obtain ⟨x, rest, rfl, hx, hrest⟩ := List.map_eq_cons_iff.1 htail
        obtain ⟨y, rfl, -⟩ := List.map_eq_singleton_iff.1 hrest
        -- both cuts end the text, so `x` is the last character before the unit
        rw [List.append_cons before x] at hsplit
        have hbody : body = before ++ [x] := (List.append_inj' hsplit rfl).1
        exact hlast x (by simp [hbody]) hx
      rw [cutUnit?, hnone, hcut h]
      rfl

theorem cutUnit?_eq_none_iff : cutUnit? cs = none ↔ ¬ EndsInS cs := by
  constructor
  · rintro hnone ⟨c, hc, hs⟩
    obtain ⟨init, rfl⟩ := List.getLast?_eq_some_iff.1 hc
    have hcut : Text.withoutEnding? ['s'] (init ++ [c]) = some init :=
      Text.withoutEnding?_eq_some_iff.2 ⟨[c], rfl, by rw [List.map_singleton, hs]⟩
    unfold cutUnit? at hnone
    split at hnone
    · contradiction
    · rw [hcut] at hnone
      contradiction
  · intro hnot
    rw [Option.eq_none_iff_forall_ne_some]
    rintro ⟨number, factor⟩ hsome
    obtain ⟨unit, rfl, hunit⟩ := exists_unit_of_cutUnit? hsome
    obtain ⟨init, c, rfl, hc⟩ := hunit.exists_last
    exact hnot ⟨c, by simp, hc⟩

/-! ## The form -/

theorem startsWithDigit_iff : startsWithDigit cs = true ↔ ∃ c ∈ cs.head?, c.isDigit = true := by
  cases cs <;> simp [startsWithDigit]

/-- A number, blanks and a unit are cut before the unit, and trimming leaves the number. -/
theorem cutUnit?_of_form {digits blanks : List Char} (hdigits : ∀ c ∈ digits, c.isDigit = true)
    (hblanks : ∀ c ∈ blanks, Text.isBlank c = true) (hunit : WaitUnit unit scale) :
    cutUnit? (digits ++ blanks ++ unit) = some (digits ++ blanks, UInt32.ofNat scale) ∧
      Text.trimEnd (digits ++ blanks) = digits := by
  constructor
  · refine cutUnit?_append hunit fun c hc => toLower_ne ?_ (.inl rfl)
    rcases List.mem_append.1 (List.mem_of_getLast? hc) with h | h
    · exact .inl (hdigits c h)
    · exact .inr (hblanks c h)
  · rw [Text.trimEnd_append_of_isAllBlank (Text.isAllBlank_iff.2 hblanks)]
    refine Text.trimEnd_eq_self fun c hc => ?_
    exact Text.isBlank_eq_false_of_isDigit (hdigits c (List.mem_of_getLast? hc))

/-- A wait is a text that is cut before its unit, with a number left of the cut. -/
theorem waitForm_iff :
    WaitForm token ms ↔ startsWithDigit (Text.trim token) = true ∧
      ∃ number factor, cutUnit? (Text.trim token) = some (number, factor) ∧
        (Text.trimEnd number).all Char.isDigit = true ∧
          ms = Capped.mul (Text.Decimal.amount (Text.trimEnd number)) factor := by
  constructor
  · rintro ⟨digits, blanks, unit, scale, hform, hne, hdigits, hblanks, hunit, hms⟩
    obtain ⟨hcut, htrim⟩ := cutUnit?_of_form hdigits hblanks hunit
    refine ⟨?_, digits ++ blanks, UInt32.ofNat scale, ?_, ?_, ?_⟩
    · obtain ⟨c, rest, rfl⟩ := List.exists_cons_of_ne_nil hne
      rw [hform]
      exact hdigits c List.mem_cons_self
    · rw [hform]
      exact hcut
    · rw [htrim]
      exact List.all_eq_true.2 hdigits
    · rw [htrim]
      apply UInt32.toNat_inj.1
      have hscale : (UInt32.ofNat scale).toNat = scale := by cases hunit <;> rfl
      rw [hms, Text.Decimal.amount_eq, Capped.mul_ofNat, Capped.toNat_ofNat, hscale]
      rfl
  · rintro ⟨hstart, number, factor, hcut, hdigits, rfl⟩
    obtain ⟨unit, hform, hunit⟩ := exists_unit_of_cutUnit? hcut
    obtain ⟨blanks, hnumber, hblanks⟩ := Text.exists_trimEnd_eq number
    refine ⟨Text.trimEnd number, blanks, unit, factor.toNat, ?_, ?_, List.all_eq_true.1 hdigits,
      Text.isAllBlank_iff.1 hblanks, hunit, ?_⟩
    · rw [← hnumber]
      exact hform
    · -- the first character is a digit, so it is neither the unit's nor a blank
      intro hnil
      rw [hnil, List.nil_append] at hnumber
      obtain ⟨c, hc, hdigit⟩ := startsWithDigit_iff.1 hstart
      rw [hform, hnumber] at hc
      cases blanks with
      | nil =>
          obtain ⟨u, rest, rfl, hu⟩ := hunit.exists_first
          obtain rfl : u = c := Option.some.inj hc
          exact toLower_ne (.inl hdigit) hu rfl
      | cons b blanks =>
          obtain rfl : b = c := Option.some.inj hc
          have hblank := Text.isAllBlank_iff.1 hblanks b List.mem_cons_self
          rw [Text.isBlank_eq_false_of_isDigit hdigit] at hblank
          contradiction
    · rw [Text.Decimal.amount_eq, Capped.mul_ofNat, Capped.toNat_ofNat]
      rfl

/-- **The waits are the tokens of the form.** -/
theorem ofToken_eq_wait_iff : ofToken token = .wait ms ↔ WaitForm token ms := by
  rw [waitForm_iff, ofToken]
  by_cases hstart : startsWithDigit (Text.trim token) = true
  · rw [if_pos hstart]
    cases hcut : cutUnit? (Text.trim token) with
    | none => simp
    | some pair =>
        obtain ⟨number, factor⟩ := pair
        by_cases hdigits : (Text.trimEnd number).all Char.isDigit = true
        · simp only [hdigits, if_true, WaitReading.wait.injEq, Option.some.injEq, Prod.mk.injEq]
          constructor
          · rintro rfl
            exact ⟨hstart, number, factor, ⟨rfl, rfl⟩, hdigits, rfl⟩
          · rintro ⟨-, _, _, ⟨rfl, rfl⟩, -, rfl⟩
            rfl
        · simp only [hdigits, Option.some.injEq, Prod.mk.injEq]
          constructor
          · intro h
            contradiction
          · rintro ⟨-, _, _, ⟨rfl, rfl⟩, hall, -⟩
            exact absurd hall hdigits
  · rw [if_neg hstart]
    simp [hstart]

/-- **A malformed wait** starts with a digit and ends in `s`, and is no wait. -/
theorem ofToken_eq_malformed_iff :
    ofToken token = .malformed ↔ startsWithDigit (Text.trim token) = true ∧
      EndsInS (Text.trim token) ∧ ∀ ms, ¬ WaitForm token ms := by
  have hends : cutUnit? (Text.trim token) ≠ none ↔ EndsInS (Text.trim token) := by
    rw [Ne, cutUnit?_eq_none_iff, Classical.not_not]
  simp only [← hends, ← ofToken_eq_wait_iff]
  simp only [ofToken]
  by_cases hstart : startsWithDigit (Text.trim token) = true
  · rw [if_pos hstart]
    cases cutUnit? (Text.trim token) with
    | none => simp
    | some pair =>
        by_cases hdigits : (Text.trimEnd pair.1).all Char.isDigit = true
        · simp [hstart, hdigits]
        · simp [hstart, hdigits]
  · simp [hstart]

/-- **Any other token** misses one of the two ends. -/
theorem ofToken_eq_notAWait_iff :
    ofToken token = .notAWait ↔
      ¬ (startsWithDigit (Text.trim token) = true ∧ EndsInS (Text.trim token)) := by
  have hends : cutUnit? (Text.trim token) = none ↔ ¬ EndsInS (Text.trim token) :=
    cutUnit?_eq_none_iff
  rw [not_and, ← hends, ofToken]
  by_cases hstart : startsWithDigit (Text.trim token) = true
  · rw [if_pos hstart]
    cases cutUnit? (Text.trim token) with
    | none => simp
    | some pair =>
        by_cases hdigits : (Text.trimEnd pair.1).all Char.isDigit = true
        · simp [hstart, hdigits]
        · simp [hstart, hdigits]
  · rw [if_neg hstart]
    simp [hstart]

end WaitReading

end MacroPad
