/-
`Varint.lean` -- numbers in groups of seven bits.

A number is stored lowest group first, and every byte but the last has its high
bit set. A reader is told how many bits a number may have: that bounds the bytes
it takes and what the last of them may hold. It accepts a number that is written
with more groups than it needs.
-/
set_option autoImplicit false

namespace MacroPad.Stored

/-- Why stored bytes are not a value. -/
inductive PackedFault where
  /-- The bytes end too early. -/
  | unexpectedEnd
  /-- A number has no end or more bits than it may have. -/
  | badNumber
  /-- Text is not UTF-8. -/
  | badText
  /-- A value that its type does not have. -/
  | unknownValue
deriving DecidableEq, Repr

/-- What is read from the start of some bytes, and the bytes after it. -/
abbrev Reader (α : Type) := StateT (List UInt8) (Except PackedFault) α

namespace Varint

/-- The bytes of a number. -/
def write (n : Nat) : List UInt8 :=
  if n < 128 then [UInt8.ofNat n] else UInt8.ofNat (n % 128 + 128) :: write (n / 128)

/-- Read a number of at most `bits` bits. -/
def readFrom (bits : Nat) : List UInt8 → Except PackedFault (Nat × List UInt8)
  | [] => .error .unexpectedEnd
  | byte :: rest =>
      if bits ≤ 7 then
        -- the last byte that is allowed, with room for no more than the bits that are left
        if byte.toNat < Nat.pow 2 bits then .ok (byte.toNat, rest) else .error .badNumber
      else if byte.toNat < 128 then .ok (byte.toNat, rest)
      else (readFrom (bits - 7) rest).map fun (n, rest) => (byte.toNat - 128 + 128 * n, rest)

/-- Read a number of at most `bits` bits. -/
def read (bits : Nat) : Reader Nat := readFrom bits

/-! ## Reading what was written -/

theorem write_of_lt {n : Nat} (h : n < 128) : write n = [UInt8.ofNat n] := by
  rw [write, if_pos h]

theorem write_of_le {n : Nat} (h : 128 ≤ n) :
    write n = UInt8.ofNat (n % 128 + 128) :: write (n / 128) := by
  rw [write, if_neg (by omega)]

/-- **A number is read back whatever follows it.** -/
theorem readFrom_write_append (bits n : Nat) (h : n < Nat.pow 2 bits) (rest : List UInt8) :
    readFrom bits (write n ++ rest) = .ok (n, rest) := by
  induction bits using Nat.strongRecOn generalizing n with
  | ind bits ih =>
      by_cases hb : bits ≤ 7
      · have hn : n < 128 := Nat.lt_of_lt_of_le h (Nat.pow_le_pow_right (by omega) hb)
        rw [write_of_lt hn, List.singleton_append, readFrom, if_pos hb]
        have hbyte : (UInt8.ofNat n).toNat = n := by
          rw [UInt8.toNat_ofNat']
          omega
        rw [hbyte, if_pos h]
      · by_cases hn : n < 128
        · rw [write_of_lt hn, List.singleton_append, readFrom, if_neg hb]
          have hbyte : (UInt8.ofNat n).toNat = n := by
            rw [UInt8.toNat_ofNat']
            omega
          rw [hbyte, if_pos hn]
        · rw [write_of_le (by omega), List.cons_append, readFrom, if_neg hb]
          have hbyte : (UInt8.ofNat (n % 128 + 128)).toNat = n % 128 + 128 := by
            rw [UInt8.toNat_ofNat']
            omega
          have hdiv : n / 128 < 2 ^ (bits - 7) := by
            rw [Nat.div_lt_iff_lt_mul (by omega)]
            calc n < 2 ^ bits := h
              _ = 2 ^ (bits - 7 + 7) := by rw [Nat.sub_add_cancel (by omega)]
              _ = 2 ^ (bits - 7) * 128 := by rw [Nat.pow_add]
          rw [hbyte, if_neg (by omega), ih (bits - 7) (by omega) _ hdiv]
          simp only [Except.map]
          congr 2
          omega

end Varint

end MacroPad.Stored
