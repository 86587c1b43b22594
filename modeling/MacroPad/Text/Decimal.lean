/-
`Decimal.lean` -- numbers written in ASCII digits.

A run of digits has an exact value of any size. What the pad works with is the
amount: the value cut at the largest 32-bit number, computed digit by digit
without ever holding a larger number. The main statement says that the two agree.
-/
import MacroPad.Number.Capped

set_option autoImplicit false

namespace MacroPad.Text

/-- The digit that an ASCII digit character stands for. -/
def digit? (c : Char) : Option (Fin 10) :=
  if h : '0'.toNat ≤ c.toNat ∧ c.toNat < '0'.toNat + 10 then
    some ⟨c.toNat - '0'.toNat, by omega⟩
  else none

namespace Decimal

/-- How far a character lies above `'0'`; the digit itself for a digit. -/
def weight (c : Char) : Nat := c.toNat - '0'.toNat

/-- The exact value of a run of digits, the most significant one first. -/
def value (cs : List Char) : Nat := cs.foldl (fun n c => 10 * n + weight c) 0

/-- The value of a run of digits, cut at the largest amount. -/
def amount (cs : List Char) : UInt32 :=
  cs.foldl (fun n c => Capped.add (Capped.mul n 10) (Capped.ofNat (weight c))) 0

/-! ## The amount is the cut value -/

@[simp] theorem value_nil : value [] = 0 := rfl

theorem value_concat (cs : List Char) (c : Char) : value (cs ++ [c]) = 10 * value cs + weight c := by
  simp [value]

theorem amount_concat (cs : List Char) (c : Char) :
    amount (cs ++ [c]) = Capped.add (Capped.mul (amount cs) 10) (Capped.ofNat (weight c)) := by
  simp [amount]

/-- **Digit by digit, the cut value.** The induction is on the last digit: a
prefix that was cut stays at the top whatever follows it. -/
theorem amount_eq (cs : List Char) : amount cs = Capped.ofNat (value cs) := by
  suffices h : ∀ rs : List Char, amount rs.reverse = Capped.ofNat (value rs.reverse) by
    simpa using h cs.reverse
  intro rs
  induction rs with
  | nil => rfl
  | cons c rs ih =>
      rw [List.reverse_cons, amount_concat, value_concat, ih, Capped.mul_ofNat,
        Capped.add_ofNat_ofNat]
      congr 2
      exact Nat.mul_comm _ _

theorem toNat_amount (cs : List Char) : (amount cs).toNat = min (value cs) Capped.top := by
  rw [amount_eq, Capped.toNat_ofNat]

/-! ## Numbers that are written out -/

/-- The digits of a number stand for it. -/
theorem value_toDigits (n : Nat) : value (Nat.toDigits 10 n) = n :=
  Nat.ofDigitChars_toDigits (by decide) (by decide)

/-- Zeros in front count for nothing. -/
theorem value_zeros_append (zeros : Nat) (cs : List Char) :
    value (List.replicate zeros '0' ++ cs) = value cs := by
  induction zeros with
  | zero => rfl
  | succ zeros ih =>
      -- the value so far is still 0 behind a zero
      rw [List.replicate_succ, List.cons_append]
      exact ih

end Decimal

end MacroPad.Text
