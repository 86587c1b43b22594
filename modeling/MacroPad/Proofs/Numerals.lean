/-
`Numerals.lean` -- the bytes that are read as a number.

The groups of a number say what it is without a reader: every byte but the last has its high
bit set, and the lowest group comes first. Groups of zeros at the end change nothing, so a
number has many numerals; the one that is written is the only shortest one. A reader of some
number of bits takes the numerals that are no longer than these bits need, and whose value has
no more bits. Any other bytes end too early, or have a group too many or one that is too large;
a part of what is written always ends too early.
-/
import Mathlib.Algebra.Group.Nat.Defs
import MacroPad.Stored.Varint

set_option autoImplicit false

namespace MacroPad.Stored.Varint

/-! ## Numerals -/

/-- The bytes are the groups of the number, the lowest one first. -/
inductive Denotes : List UInt8 → Nat → Prop
  | last {byte : UInt8} (h : byte.toNat < 128) : Denotes [byte] byte.toNat
  | more {byte : UInt8} {rest : List UInt8} {n : Nat} (h : 128 ≤ byte.toNat)
      (hrest : Denotes rest n) : Denotes (byte :: rest) (byte.toNat - 128 + 128 * n)

/-- How many groups a number of so many bits may have: 5 for 32 bits and 10 for 64. -/
def room (bits : Nat) : Nat := (bits + 6) / 7

/-- The bytes are groups of the number that a reader of so many bits takes. -/
structure Numeral (bits : Nat) (bytes : List UInt8) (n : Nat) : Prop where
  denotes : Denotes bytes n
  inBits : n < 2 ^ bits
  inRoom : bytes.length ≤ room bits

/-- No numeral of the same number is shorter. -/
def IsShortest (bytes : List UInt8) : Prop :=
  ∀ n other, Denotes bytes n → Denotes other n → bytes.length ≤ other.length

/-- What is wrong with bytes that start with no numeral of so many bits. -/
inductive Fault (bits : Nat) : List UInt8 → PackedFault → Prop
  /-- There is room for another group, and no byte left. -/
  | cut {bytes : List UInt8} (hmore : ∀ byte ∈ bytes, 128 ≤ byte.toNat)
      (hroom : bytes.length < room bits) : Fault bits bytes .unexpectedEnd
  /-- The last group that there is room for has more bits than are left, or says that another
  one follows. -/
  | large {lead rest : List UInt8} {last : UInt8} (hmore : ∀ byte ∈ lead, 128 ≤ byte.toNat)
      (hroom : lead.length + 1 = room bits)
      (hlast : 2 ^ (bits - 7 * lead.length) ≤ last.toNat) :
      Fault bits (lead ++ last :: rest) .badNumber

/-! ## The shortest numeral -/

section Shortest

variable {bytes : List UInt8} {n : Nat}

theorem Denotes.ne_nil (h : Denotes bytes n) : bytes ≠ [] := by
  cases h <;> exact List.cons_ne_nil _ _

/-- What is written is a numeral. -/
theorem denotes_write (n : Nat) : Denotes (write n) n := by
  induction n using Nat.strongRecOn with
  | ind n ih =>
      by_cases hn : n < 128
      · have hbyte : (UInt8.ofNat n).toNat = n := by
          rw [UInt8.toNat_ofNat']
          omega
        have hsmall : (UInt8.ofNat n).toNat < 128 := by omega
        have hlast := Denotes.last hsmall
        rwa [hbyte, ← write_of_lt hn] at hlast
      · have hbyte : (UInt8.ofNat (n % 128 + 128)).toNat = n % 128 + 128 := by
          rw [UInt8.toNat_ofNat']
          omega
        have hlarge : 128 ≤ (UInt8.ofNat (n % 128 + 128)).toNat := by omega
        have hmore := Denotes.more hlarge (ih (n / 128) (by omega))
        rw [hbyte, ← write_of_le (by omega)] at hmore
        have hvalue : n % 128 + 128 - 128 + 128 * (n / 128) = n := by omega
        rwa [hvalue] at hmore

/-- **No numeral is shorter than the one that is written**, and no other one is as short. -/
theorem Denotes.length_write (h : Denotes bytes n) :
    (write n).length ≤ bytes.length ∧ (bytes.length ≤ (write n).length → bytes = write n) := by
  induction h with
  | @last byte hbyte =>
      rw [write_of_lt hbyte, UInt8.ofNat_toNat]
      exact ⟨Nat.le_refl _, fun _ => rfl⟩
  | @more byte rest n hbyte hrest ih =>
      have hlt := byte.toNat_lt
      have hpos : 0 < rest.length := List.length_pos_iff.2 hrest.ne_nil
      by_cases hn : n = 0
      · -- the groups behind the first one are all zero
        subst hn
        rw [write_of_lt (by omega)]
        simp only [List.length_cons, List.length_nil]
        exact ⟨by omega, fun hle => by omega⟩
      · have hmod : (byte.toNat - 128 + 128 * n) % 128 + 128 = byte.toNat := by omega
        have hdiv : (byte.toNat - 128 + 128 * n) / 128 = n := by omega
        rw [write_of_le (by omega), hmod, hdiv, UInt8.ofNat_toNat, List.length_cons,
          List.length_cons]
        refine ⟨by omega, fun hle => ?_⟩
        rw [ih.2 (by omega)]

/-- **The shortest numeral is the one that is written.** -/
theorem IsShortest.eq_write (hshort : IsShortest bytes) (h : Denotes bytes n) : bytes = write n :=
  h.length_write.2 (hshort n (write n) h (denotes_write n))

end Shortest

/-! ## Group by group -/

section Groups

variable {bits n : Nat} {byte : UInt8} {tail rest : List UInt8} {fault : PackedFault}

private theorem room_of_le (hbits : 0 < bits) (h : bits ≤ 7) : room bits = 1 := by
  unfold room
  omega

private theorem room_of_lt (h : 7 < bits) : room bits = room (bits - 7) + 1 := by
  unfold room
  omega

private theorem two_pow_of_lt (h : 7 < bits) : 2 ^ bits = 128 * 2 ^ (bits - 7) := by
  calc 2 ^ bits = 2 ^ (7 + (bits - 7)) := by rw [Nat.add_sub_cancel' (by omega)]
    _ = 128 * 2 ^ (bits - 7) := by rw [Nat.pow_add]

/-- A byte with its high bit clear is the last group. -/
theorem readFrom_cons_of_lt (h : byte.toNat < 128) (tail : List UInt8) :
    readFrom bits (byte :: tail) =
      if byte.toNat < 2 ^ bits then .ok (byte.toNat, tail) else .error .badNumber := by
  rw [readFrom]
  by_cases hbits : bits ≤ 7
  · rw [if_pos hbits]
    rfl
  · have hpow : 2 ^ 7 ≤ 2 ^ bits := Nat.pow_le_pow_right (by omega) (by omega)
    rw [if_neg hbits, if_pos h, if_pos (by omega)]

/-- Behind any other byte there is one group more, if there is room for it. -/
theorem readFrom_cons_of_le (h : 128 ≤ byte.toNat) (tail : List UInt8) :
    readFrom bits (byte :: tail) =
      if bits ≤ 7 then .error .badNumber
      else (readFrom (bits - 7) tail).map fun (n, rest) => (byte.toNat - 128 + 128 * n, rest) := by
  rw [readFrom]
  by_cases hbits : bits ≤ 7
  · have hpow : Nat.pow 2 bits ≤ 2 ^ 7 := Nat.pow_le_pow_right (by omega) hbits
    rw [if_pos hbits, if_pos hbits, if_neg (by omega)]
  · rw [if_neg hbits, if_neg hbits, if_neg (by omega)]

theorem exists_numeral_cons_of_lt (hbits : 0 < bits) (h : byte.toNat < 128) :
    (∃ numeral, byte :: tail = numeral ++ rest ∧ Numeral bits numeral n) ↔
      byte.toNat < 2 ^ bits ∧ n = byte.toNat ∧ rest = tail := by
  constructor
  · rintro ⟨numeral, hsplit, hdenotes, hvalue, -⟩
    cases hdenotes with
    | last _ =>
        obtain ⟨rfl, rfl⟩ := List.cons.inj hsplit
        exact ⟨hvalue, rfl, rfl⟩
    | more hmore _ =>
        obtain ⟨rfl, -⟩ := List.cons.inj hsplit
        omega
  · rintro ⟨hvalue, rfl, rfl⟩
    refine ⟨[byte], rfl, .last h, hvalue, ?_⟩
    unfold room
    rw [List.length_singleton]
    omega

theorem exists_numeral_cons_of_le (hbits : 7 < bits) (h : 128 ≤ byte.toNat) :
    (∃ numeral, byte :: tail = numeral ++ rest ∧ Numeral bits numeral n) ↔
      ∃ m, n = byte.toNat - 128 + 128 * m ∧
        ∃ numeral, tail = numeral ++ rest ∧ Numeral (bits - 7) numeral m := by
  have hlt := byte.toNat_lt
  have hpow := two_pow_of_lt hbits
  have hroom := room_of_lt hbits
  constructor
  · rintro ⟨numeral, hsplit, hdenotes, hvalue, hlength⟩
    cases hdenotes with
    | last hlast =>
        obtain ⟨rfl, -⟩ := List.cons.inj hsplit
        omega
    | @more _ numeral m _ hrest =>
        obtain ⟨rfl, htail⟩ := List.cons.inj hsplit
        rw [List.length_cons] at hlength
        exact ⟨m, rfl, numeral, htail, hrest, by omega, by omega⟩
  · rintro ⟨m, rfl, numeral, rfl, hdenotes, hvalue, hlength⟩
    refine ⟨byte :: numeral, rfl, .more h hdenotes, by omega, ?_⟩
    rw [List.length_cons]
    omega

theorem not_numeral_cons (hbits : 0 < bits) (hle : bits ≤ 7) (h : 128 ≤ byte.toNat) :
    ¬ ∃ numeral, byte :: tail = numeral ++ rest ∧ Numeral bits numeral n := by
  rintro ⟨numeral, hsplit, hdenotes, -, hlength⟩
  rw [room_of_le hbits hle] at hlength
  cases hdenotes with
  | last hlast =>
      obtain ⟨rfl, -⟩ := List.cons.inj hsplit
      omega
  | more _ hrest =>
      have hpos := List.length_pos_iff.2 hrest.ne_nil
      rw [List.length_cons] at hlength
      omega

/-- With room for a single group, the first byte may be too large already. -/
private theorem fault_of_first (hroom : room bits = 1) (hlarge : 2 ^ bits ≤ byte.toNat) :
    Fault bits (byte :: tail) .badNumber := by
  have hnone : ∀ byte ∈ ([] : List UInt8), 128 ≤ byte.toNat := fun _ hmem =>
    absurd hmem List.not_mem_nil
  exact .large hnone hroom.symm hlarge

theorem fault_cons_of_lt (hbits : 0 < bits) (h : byte.toNat < 128) :
    Fault bits (byte :: tail) fault ↔ 2 ^ bits ≤ byte.toNat ∧ fault = .badNumber := by
  constructor
  · intro hfault
    generalize hbytes : byte :: tail = bytes at hfault
    cases hfault with
    | cut hmore _ =>
        have hfirst := hmore byte (hbytes ▸ List.mem_cons_self)
        omega
    | @large lead _ last hmore _ hlast =>
        cases lead with
        | nil =>
            obtain ⟨rfl, -⟩ := List.cons.inj hbytes
            exact ⟨hlast, rfl⟩
        | cons first lead =>
            obtain ⟨rfl, -⟩ := List.cons.inj hbytes
            have hfirst := hmore byte List.mem_cons_self
            omega
  · rintro ⟨hlarge, rfl⟩
    have hle : bits ≤ 7 := by
      by_cases hle : bits ≤ 7
      · exact hle
      · have hpow : 2 ^ 7 ≤ 2 ^ bits := Nat.pow_le_pow_right (by omega) (by omega)
        omega
    exact fault_of_first (room_of_le hbits hle) hlarge

theorem fault_cons_of_le (hbits : 7 < bits) (h : 128 ≤ byte.toNat) :
    Fault bits (byte :: tail) fault ↔ Fault (bits - 7) tail fault := by
  have hroom := room_of_lt hbits
  constructor
  · intro hfault
    generalize hbytes : byte :: tail = bytes at hfault
    cases hfault with
    | cut hmore hshort =>
        subst hbytes
        rw [List.length_cons] at hshort
        exact .cut (List.forall_mem_cons.1 hmore).2 (by omega)
    | @large lead rest last hmore hlength hlast =>
        cases lead with
        | nil =>
            -- this group would be the only one, but there is room for more
            rw [List.length_nil] at hlength
            unfold room at hlength hroom
            omega
        | cons first lead =>
            obtain ⟨rfl, rfl⟩ := List.cons.inj hbytes
            rw [List.length_cons] at hlength hlast
            have hleft : bits - 7 - 7 * lead.length = bits - 7 * (lead.length + 1) := by omega
            exact .large (List.forall_mem_cons.1 hmore).2 (by omega) (hleft ▸ hlast)
  · intro hfault
    cases hfault with
    | cut hmore hshort =>
        refine .cut (List.forall_mem_cons.2 ⟨h, hmore⟩) ?_
        rw [List.length_cons]
        omega
    | @large lead rest last hmore hlength hlast =>
        have hleft : bits - 7 - 7 * lead.length = bits - 7 * (lead.length + 1) := by omega
        rw [← List.cons_append]
        refine .large (List.forall_mem_cons.2 ⟨h, hmore⟩) ?_ ?_
        · rw [List.length_cons]
          omega
        · rw [List.length_cons, ← hleft]
          exact hlast

theorem fault_cons_of_full (hbits : 0 < bits) (hle : bits ≤ 7) (h : 128 ≤ byte.toNat) :
    Fault bits (byte :: tail) fault ↔ fault = .badNumber := by
  have hroom := room_of_le hbits hle
  constructor
  · intro hfault
    generalize hbytes : byte :: tail = bytes at hfault
    cases hfault with
    | cut _ hshort =>
        subst hbytes
        rw [List.length_cons] at hshort
        omega
    | large _ _ _ => rfl
  · rintro rfl
    have hpow : 2 ^ bits ≤ 2 ^ 7 := Nat.pow_le_pow_right (by omega) hle
    exact fault_of_first hroom (by omega)

end Groups

/-! ## Reading -/

section Reading

variable {bits n : Nat} {bytes rest : List UInt8} {fault : PackedFault}

/-- **A reader takes exactly the numerals of its bits.** -/
theorem readFrom_eq_ok_iff (hbits : 0 < bits) :
    readFrom bits bytes = .ok (n, rest) ↔
      ∃ numeral, bytes = numeral ++ rest ∧ Numeral bits numeral n := by
  induction bits using Nat.strongRecOn generalizing n bytes with
  | ind bits ih =>
      -- the last group decides by its value; any other one leaves seven bits fewer
      cases bytes with
      | nil =>
          rw [readFrom]
          constructor
          · intro h
            contradiction
          · rintro ⟨numeral, hsplit, hnumeral⟩
            exact absurd (List.append_eq_nil_iff.1 hsplit.symm).1 hnumeral.denotes.ne_nil
      | cons byte tail =>
          by_cases hlast : byte.toNat < 128
          · rw [exists_numeral_cons_of_lt hbits hlast, readFrom_cons_of_lt hlast]
            by_cases hvalue : byte.toNat < 2 ^ bits
            · simp [hvalue, eq_comm]
            · simp [hvalue]
          · have hmore : 128 ≤ byte.toNat := by omega
            rw [readFrom_cons_of_le hmore]
            by_cases hfull : bits ≤ 7
            · rw [if_pos hfull]
              exact ⟨fun h => by contradiction, fun h => absurd h (not_numeral_cons hbits hfull hmore)⟩
            · rw [if_neg hfull, exists_numeral_cons_of_le (by omega) hmore]
              constructor
              · intro h
                cases hread : readFrom (bits - 7) tail with
                | error fault =>
                    rw [hread] at h
                    contradiction
                | ok pair =>
                    obtain ⟨m, rest'⟩ := pair
                    rw [hread] at h
                    obtain ⟨rfl, rfl⟩ := Prod.mk.inj (Except.ok.inj h)
                    exact ⟨m, rfl, (ih (bits - 7) (by omega) (by omega)).1 hread⟩
              · rintro ⟨m, rfl, hnumeral⟩
                rw [(ih (bits - 7) (by omega) (by omega)).2 hnumeral]
                rfl

/-- **A reader turns away all other bytes**, for the reason that holds of them. -/
theorem readFrom_eq_error_iff (hbits : 0 < bits) :
    readFrom bits bytes = .error fault ↔ Fault bits bytes fault := by
  induction bits using Nat.strongRecOn generalizing bytes with
  | ind bits ih =>
      cases bytes with
      | nil =>
          rw [readFrom]
          constructor
          · intro h
            obtain rfl := Except.error.inj h
            refine .cut (fun _ hmem => absurd hmem List.not_mem_nil) ?_
            unfold room
            rw [List.length_nil]
            omega
          · intro h
            generalize hbytes : ([] : List UInt8) = bytes at h
            cases h with
            | cut _ _ => rfl
            | large _ _ _ => exact absurd hbytes (by simp)
      | cons byte tail =>
          by_cases hlast : byte.toNat < 128
          · rw [fault_cons_of_lt hbits hlast, readFrom_cons_of_lt hlast]
            by_cases hvalue : byte.toNat < 2 ^ bits
            · simp [hvalue, Nat.not_le.2 hvalue]
            · simp [hvalue, Nat.not_lt.1 hvalue, eq_comm]
          · have hmore : 128 ≤ byte.toNat := by omega
            rw [readFrom_cons_of_le hmore]
            by_cases hfull : bits ≤ 7
            · rw [if_pos hfull, fault_cons_of_full hbits hfull hmore]
              simp [eq_comm]
            · rw [if_neg hfull, fault_cons_of_le (by omega) hmore,
                ← ih (bits - 7) (by omega) (by omega)]
              cases readFrom (bits - 7) tail with
              | error fault => rfl
              | ok pair => simp [Except.map]

/-- What is written has room in as many bits as the number needs. -/
theorem numeral_write (hbits : 0 < bits) (hn : n < 2 ^ bits) : Numeral bits (write n) n := by
  obtain ⟨numeral, hsplit, hnumeral⟩ :=
    (readFrom_eq_ok_iff hbits).1 (readFrom_write_append bits n hn [])
  rwa [List.append_cancel_right hsplit]

/-- Every byte of what is written but the last says that another one follows. -/
theorem more_of_prefix_write {part : List UInt8} (hpart : part <+: write n) (hne : part ≠ write n) :
    ∀ byte ∈ part, 128 ≤ byte.toNat := by
  induction n using Nat.strongRecOn generalizing part with
  | ind n ih =>
      cases part with
      | nil => exact fun _ hmem => absurd hmem List.not_mem_nil
      | cons byte tail =>
          by_cases hn : n < 128
          · rw [write_of_lt hn] at hpart hne
            exact absurd (hpart.eq_of_length_le (by simp)) hne
          · rw [write_of_le (by omega)] at hpart hne
            obtain ⟨rfl, htail⟩ := List.cons_prefix_cons.1 hpart
            have hne' : tail ≠ write (n / 128) := fun hsame => hne (by rw [hsame])
            refine List.forall_mem_cons.2 ⟨?_, ih (n / 128) (by omega) htail hne'⟩
            rw [UInt8.toNat_ofNat']
            omega

/-- **A number that ends too early has no end.** -/
theorem readFrom_cut (hbits : 0 < bits) (hn : n < 2 ^ bits) {part : List UInt8}
    (hpart : part <+: write n) (hne : part ≠ write n) :
    readFrom bits part = .error .unexpectedEnd := by
  have hshort : part.length < (write n).length :=
    Nat.lt_of_not_le fun hle => hne (hpart.eq_of_length_le hle)
  have hroom := (numeral_write hbits hn).inRoom
  exact (readFrom_eq_error_iff hbits).2 (.cut (more_of_prefix_write hpart hne) (by omega))

end Reading

end MacroPad.Stored.Varint
