/-
`Capped.lean` -- 32-bit amounts that stop at the top of their range.

Waits are written by people and durations are configured by people, so any of
them may be absurdly large. No amount here ever wraps round: a sum or a product
that leaves the range is cut to the largest amount. Cutting early and cutting
late agree, so a chain of these operations is one cut of the exact result.
-/
set_option autoImplicit false

namespace MacroPad.Capped

/-- The largest amount. -/
def top : Nat := 0xFFFFFFFF

/-- `n`, or the largest amount if `n` exceeds it. -/
def ofNat (n : Nat) : UInt32 := UInt32.ofNat (min n top)

/-- The sum, cut at the largest amount. -/
def add (a b : UInt32) : UInt32 := ofNat (a.toNat + b.toNat)

/-- The product, cut at the largest amount. -/
def mul (a b : UInt32) : UInt32 := ofNat (a.toNat * b.toNat)

/-! ## What a cut amount is worth -/

@[simp] theorem toNat_ofNat (n : Nat) : (ofNat n).toNat = min n top := by
  simp only [ofNat, top, UInt32.toNat_ofNat']
  omega

@[simp] theorem toNat_add (a b : UInt32) : (add a b).toNat = min (a.toNat + b.toNat) top :=
  toNat_ofNat _

@[simp] theorem toNat_mul (a b : UInt32) : (mul a b).toNat = min (a.toNat * b.toNat) top :=
  toNat_ofNat _

theorem toNat_le_top (a : UInt32) : a.toNat ≤ top := by
  have := a.toNat_lt
  simp only [top]
  omega

/-- An amount that is in range is not changed by a cut. -/
@[simp] theorem ofNat_toNat (a : UInt32) : ofNat a.toNat = a := by
  apply UInt32.toNat_inj.1
  rw [toNat_ofNat, Nat.min_eq_left (toNat_le_top a)]

/-- **Cutting a summand first changes nothing.** -/
theorem add_ofNat_ofNat (m n : Nat) : add (ofNat m) (ofNat n) = ofNat (m + n) := by
  apply UInt32.toNat_inj.1
  simp only [toNat_add, toNat_ofNat]
  omega

/-- **Cutting a factor first changes nothing.** A factor that was cut is at the
top already, and so is its product with anything but zero. -/
theorem mul_ofNat (m : Nat) (b : UInt32) : mul (ofNat m) b = ofNat (m * b.toNat) := by
  apply UInt32.toNat_inj.1
  simp only [toNat_mul, toNat_ofNat]
  rcases Nat.le_total m top with h | h
  · rw [Nat.min_eq_left h]
  · rw [Nat.min_eq_right h]
    rcases Nat.eq_zero_or_pos b.toNat with hb | hb
    · simp [hb]
    · rw [Nat.min_eq_right (Nat.le_mul_of_pos_right top hb),
        Nat.min_eq_right (Nat.le_trans h (Nat.le_mul_of_pos_right m hb))]

end MacroPad.Capped
