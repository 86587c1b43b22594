/-
`StoredParts.lean` -- the parts of stored values.

The types that are stored are made of bytes, places in a list of names, words and texts. The
forms of these parts, and all that can be wrong with one, are written down here without a
reader. A reader obeys them if it takes exactly the bytes that start with the form, and fails
on any others exactly for what is wrong with them. Of a text the missing bytes count first,
then bytes that are no UTF-8, then a length that does not fit.
-/
import MacroPad.Proofs.StoredRoundTrip

set_option autoImplicit false

namespace MacroPad.Stored

open Varint (Numeral)

/-! ## Forms and faults -/

/-- What the values of a type are made of. -/
inductive Part where
  | byte
  /-- The place in a list of so many names. -/
  | place (count : Nat)
  | word
  | payload

namespace Part

/-- The bytes are a part of this form. -/
inductive Form : Part → List UInt8 → Prop
  | byte (value : UInt8) : Form .byte [value]
  | place {count n : Nat} {numeral : List UInt8} (h : Numeral 32 numeral n) (hknown : n < count) :
      Form (.place count) numeral
  | word {n : Nat} {numeral : List UInt8} (h : Numeral 32 numeral n) : Form .word numeral
  | payload {size : List UInt8} {text : String} (h : Numeral 64 size text.utf8ByteSize)
      (hfits : text.utf8ByteSize ≤ 256) : Form .payload (size ++ Packed.utf8 text)

/-- What is wrong with bytes that start with no part of this form. -/
inductive Fault : Part → List UInt8 → PackedFault → Prop
  | noByte : Fault .byte [] .unexpectedEnd
  | badPlace {count : Nat} {bytes : List UInt8} {fault : PackedFault}
      (h : Varint.Fault 32 bytes fault) : Fault (.place count) bytes fault
  | unknownPlace {count n : Nat} {numeral rest : List UInt8} (h : Numeral 32 numeral n)
      (hunknown : count ≤ n) : Fault (.place count) (numeral ++ rest) .unknownValue
  | badWord {bytes : List UInt8} {fault : PackedFault} (h : Varint.Fault 32 bytes fault) :
      Fault .word bytes fault
  | badSize {bytes : List UInt8} {fault : PackedFault} (h : Varint.Fault 64 bytes fault) :
      Fault .payload bytes fault
  /-- The bytes are not all there, whatever they are. -/
  | missing {n : Nat} {size rest : List UInt8} (h : Numeral 64 size n) (hshort : rest.length < n) :
      Fault .payload (size ++ rest) .unexpectedEnd
  /-- The bytes are there and are no text, however many they are. -/
  | badText {size bytes rest : List UInt8} (h : Numeral 64 size bytes.length)
      (hbad : ∀ text, bytes ≠ Packed.utf8 text) : Fault .payload (size ++ bytes ++ rest) .badText
  | tooLong {size rest : List UInt8} {text : String} (h : Numeral 64 size text.utf8ByteSize)
      (hlong : 256 < text.utf8ByteSize) :
      Fault .payload (size ++ Packed.utf8 text ++ rest) .unknownValue

end Part

/-! ## Readers and what they read -/

/-- The reader reads exactly what has the form, and fails exactly where there is a fault. -/
structure Obeys {α : Type} (reader : Reader α) (form : List UInt8 → α → Prop)
    (wrong : List UInt8 → PackedFault → Prop) : Prop where
  ok : ∀ {bytes value rest}, reader.run bytes = .ok (value, rest) ↔
    ∃ read, bytes = read ++ rest ∧ form read value
  error : ∀ {bytes fault}, reader.run bytes = .error fault ↔ wrong bytes fault

namespace Obeys

variable {α β : Type} {reader : Reader α} {next : α → Reader β} {form form' : List UInt8 → α → Prop}
  {wrong wrong' : List UInt8 → PackedFault → Prop} {after : α → List UInt8 → β → Prop}

theorem congr (h : Obeys reader form wrong) (hform : ∀ read value, form read value ↔ form' read value)
    (hwrong : ∀ bytes fault, wrong bytes fault ↔ wrong' bytes fault) :
    Obeys reader form' wrong' where
  ok := by
    intro bytes value rest
    simp only [h.ok, hform]
  error := by
    intro bytes fault
    rw [h.error, hwrong]

theorem pure (value : α) :
    Obeys (pure value) (fun read a => read = [] ∧ a = value) fun _ _ => False where
  ok := by
    intro bytes a rest
    constructor
    · intro h
      obtain ⟨rfl, rfl⟩ := Prod.mk.inj (Except.ok.inj h)
      exact ⟨[], rfl, rfl, rfl⟩
    · rintro ⟨read, rfl, rfl, rfl⟩
      rfl
  error := by
    intro bytes fault
    constructor
    · intro h
      contradiction
    · exact False.elim

theorem require (fault : PackedFault) (found : Option α) :
    Obeys (Packed.require fault found) (fun read a => read = [] ∧ found = some a)
      fun _ other => found = none ∧ other = fault := by
  cases found with
  | none =>
      constructor
      · intro bytes a rest
        constructor
        · intro h
          contradiction
        · rintro ⟨_, _, _, h⟩
          contradiction
      · intro bytes other
        constructor
        · intro h
          exact ⟨rfl, (Except.error.inj h).symm⟩
        · rintro ⟨-, rfl⟩
          rfl
  | some value =>
      refine (Obeys.pure value).congr (fun read a => ?_) fun bytes other => ?_
      · rw [Option.some.injEq, eq_comm (a := a)]
      · simp

/-- **One reader after another.** The second starts where the first ends, and is asked only if
the first has found its form. -/
theorem bind {wrongNext : α → List UInt8 → PackedFault → Prop} (h : Obeys reader form wrong)
    (hnext : ∀ a, Obeys (next a) (after a) (wrongNext a)) :
    Obeys (reader >>= next)
      (fun read b => ∃ a first second, read = first ++ second ∧ form first a ∧ after a second b)
      fun bytes fault => wrong bytes fault ∨
        ∃ a read rest, bytes = read ++ rest ∧ form read a ∧ wrongNext a rest fault where
  ok := by
    intro bytes b rest
    rw [StateT.run_bind]
    constructor
    · intro hrun
      cases hfirst : reader.run bytes with
      | error fault =>
          rw [hfirst] at hrun
          contradiction
      | ok pair =>
          obtain ⟨a, middle⟩ := pair
          rw [hfirst] at hrun
          obtain ⟨first, rfl, hform⟩ := h.ok.1 hfirst
          obtain ⟨second, rfl, hsecond⟩ := (hnext a).ok.1 hrun
          exact ⟨first ++ second, (List.append_assoc ..).symm, a, first, second, rfl, hform, hsecond⟩
    · rintro ⟨read, rfl, a, first, second, rfl, hform, hsecond⟩
      rw [h.ok.2 ⟨first, List.append_assoc first second rest, hform⟩]
      exact (hnext a).ok.2 ⟨second, rfl, hsecond⟩
  error := by
    intro bytes fault
    rw [StateT.run_bind]
    constructor
    · intro hrun
      cases hfirst : reader.run bytes with
      | error other =>
          rw [hfirst] at hrun
          obtain rfl := Except.error.inj hrun
          exact .inl (h.error.1 hfirst)
      | ok pair =>
          obtain ⟨a, middle⟩ := pair
          rw [hfirst] at hrun
          obtain ⟨first, rfl, hform⟩ := h.ok.1 hfirst
          exact .inr ⟨a, first, middle, rfl, hform, (hnext a).error.1 hrun⟩
    · rintro (hwrong | ⟨a, read, rest, rfl, hform, hwrong⟩)
      · rw [h.error.2 hwrong]
        rfl
      · rw [h.ok.2 ⟨read, rfl, hform⟩]
        exact (hnext a).error.2 hwrong

theorem map {f : α → β} (h : Obeys reader form wrong) :
    Obeys (f <$> reader) (fun read b => ∃ a, form read a ∧ b = f a) wrong := by
  rw [map_eq_pure_bind]
  refine (h.bind fun a => Obeys.pure (f a)).congr (fun read b => ?_) fun bytes fault => ?_
  · constructor
    · rintro ⟨a, first, second, rfl, hform, rfl, rfl⟩
      rw [List.append_nil]
      exact ⟨a, hform, rfl⟩
    · rintro ⟨a, hform, rfl⟩
      exact ⟨a, read, [], (List.append_nil read).symm, hform, rfl, rfl⟩
  · constructor
    · rintro (hwrong | ⟨_, _, _, _, _, hfalse⟩)
      · exact hwrong
      · exact hfalse.elim
    · exact Or.inl

end Obeys

/-! ## The readers of the parts -/

theorem obeys_byte : Obeys Packed.readByte (fun read byte => read = [byte]) Part.byte.Fault where
  ok := by
    intro bytes byte rest
    cases bytes with
    | nil =>
        constructor
        · intro h
          contradiction
        · rintro ⟨read, hsplit, rfl⟩
          contradiction
    | cons first tail =>
        constructor
        · intro h
          obtain ⟨rfl, rfl⟩ := Prod.mk.inj (Except.ok.inj h)
          exact ⟨[first], rfl, rfl⟩
        · rintro ⟨read, hsplit, rfl⟩
          obtain ⟨rfl, rfl⟩ := List.cons.inj hsplit
          rfl
  error := by
    intro bytes fault
    cases bytes with
    | nil =>
        constructor
        · intro h
          obtain rfl := Except.error.inj h
          exact .noByte
        · intro h
          cases h
          rfl
    | cons first tail =>
        constructor
        · intro h
          contradiction
        · intro h
          cases h

theorem obeys_varint {bits : Nat} (hbits : 0 < bits) :
    Obeys (Varint.read bits) (Numeral bits) (Varint.Fault bits) where
  ok := Varint.readFrom_eq_ok_iff hbits
  error := Varint.readFrom_eq_error_iff hbits

theorem obeys_word : Obeys (Varint.read 32) (Numeral 32) Part.word.Fault := by
  have hbits : 0 < 32 := by decide
  refine (obeys_varint hbits).congr (fun _ _ => Iff.rfl) fun bytes fault => ?_
  constructor
  · exact .badWord
  · intro h
    cases h with
    | badWord hfault => exact hfault

/-- A name is read by its place in the list of the names. -/
theorem obeys_place {α : Type} {count : Nat} {find : Nat → Option α} {index : α → Nat}
    (hsome : ∀ n a, find n = some a ↔ n = index a) (hnone : ∀ n, find n = none ↔ count ≤ n) :
    Obeys (Packed.readPlace >>= fun place => Packed.require .unknownValue (find place))
      (fun read a => Numeral 32 read (index a)) (Part.place count).Fault := by
  have hbits : 0 < 32 := by decide
  refine ((obeys_varint hbits).bind fun place => Obeys.require .unknownValue (find place)).congr
    (fun read a => ?_) fun bytes fault => ?_
  · constructor
    · rintro ⟨n, first, second, rfl, hnumeral, rfl, hfound⟩
      obtain rfl := (hsome n a).1 hfound
      rwa [List.append_nil]
    · intro hnumeral
      exact ⟨index a, read, [], (List.append_nil read).symm, hnumeral, rfl, (hsome _ a).2 rfl⟩
  · constructor
    · rintro (hfault | ⟨n, numeral, rest, rfl, hnumeral, hunknown, rfl⟩)
      · exact .badPlace hfault
      · exact .unknownPlace hnumeral ((hnone n).1 hunknown)
    · intro h
      cases h with
      | badPlace hfault => exact .inl hfault
      | @unknownPlace _ n numeral rest hnumeral hunknown =>
          exact .inr ⟨n, numeral, rest, rfl, hnumeral, (hnone n).2 hunknown, rfl⟩

theorem obeys_kind : Obeys Packed.readKind (fun read kind => Numeral 32 read kind.index)
    (Part.place Kind.all.length).Fault :=
  obeys_place (fun _ _ => Kind.ofIndex?_eq_some_iff) fun _ => Kind.ofIndex?_eq_none_iff

theorem obeys_key : Obeys Packed.readKey (fun read key => Numeral 32 read key.index)
    (Part.place Key.all.length).Fault :=
  obeys_place (fun _ _ => Key.ofIndex?_eq_some_iff) fun _ => Key.ofIndex?_eq_none_iff

theorem obeys_bytes (n : Nat) :
    Obeys (Packed.readBytes n) (fun read bytes => read = bytes ∧ read.length = n)
      fun bytes fault => bytes.length < n ∧ fault = .unexpectedEnd where
  ok := by
    intro bytes value rest
    constructor
    · intro h
      by_cases hlong : n ≤ bytes.length
      · have hread : Packed.readBytes n bytes = .ok (bytes.take n, bytes.drop n) := if_pos hlong
        obtain ⟨rfl, rfl⟩ := Prod.mk.inj (Except.ok.inj (hread.symm.trans h))
        exact ⟨bytes.take n, (List.take_append_drop n bytes).symm, rfl, List.length_take_of_le hlong⟩
      · have hread : Packed.readBytes n bytes = .error .unexpectedEnd := if_neg hlong
        have hboth := hread.symm.trans h
        contradiction
    · rintro ⟨read, rfl, rfl, rfl⟩
      exact (Packed.reads_bytes read).whole rest
  error := by
    intro bytes fault
    by_cases hlong : n ≤ bytes.length
    · have hread : Packed.readBytes n bytes = .ok (bytes.take n, bytes.drop n) := if_pos hlong
      constructor
      · intro h
        have hboth := hread.symm.trans h
        contradiction
      · rintro ⟨hshort, -⟩
        omega
    · have hread : Packed.readBytes n bytes = .error .unexpectedEnd := if_neg hlong
      constructor
      · intro h
        exact ⟨by omega, Except.error.inj (h.symm.trans hread)⟩
      · rintro ⟨-, rfl⟩
        exact hread

theorem ofUtf8?_eq_none_iff {bytes : List UInt8} :
    Packed.ofUtf8? bytes = none ↔ ∀ text, bytes ≠ Packed.utf8 text := by
  rw [Option.eq_none_iff_forall_ne_some]
  exact forall_congr' fun text => not_congr Packed.ofUtf8?_eq_some_iff

/-- Text is its size and its bytes. -/
theorem obeys_payload : Obeys Packed.readPayload
    (fun read payload => ∃ size, read = size ++ Packed.utf8 payload.text ∧
      Numeral 64 size payload.text.utf8ByteSize) Part.payload.Fault := by
  have hbits : 0 < 64 := by decide
  have htext : Obeys Packed.readText _ _ := (obeys_varint hbits).bind fun n => (obeys_bytes n).bind
    fun bytes => Obeys.require .badText (Packed.ofUtf8? bytes)
  refine (htext.bind fun text => Obeys.require .unknownValue (Payload.ofString? text)).congr
    (fun read payload => ?_) fun bytes fault => ?_
  · constructor
    · rintro ⟨text, first, second, rfl, ⟨n, size, bytes, rfl, hsize, bytes', third, fourth, rfl,
        ⟨rfl, rfl⟩, rfl, hutf8⟩, rfl, hpayload⟩
      obtain rfl := Packed.ofUtf8?_eq_some_iff.1 hutf8
      obtain rfl := Payload.ofString?_eq_some_iff.1 hpayload
      rw [Packed.length_utf8] at hsize
      exact ⟨size, by rw [List.append_nil, List.append_nil], hsize⟩
    · rintro ⟨size, rfl, hsize⟩
      rw [← Packed.length_utf8] at hsize
      exact ⟨payload.text, _, [], (List.append_nil _).symm, ⟨_, size, _, rfl, hsize, _, _, [],
        (List.append_nil _).symm, ⟨rfl, rfl⟩, rfl, Packed.ofUtf8?_eq_some_iff.2 rfl⟩, rfl,
        Payload.ofString?_text payload⟩
  · constructor
    -- the reader asks for the size, the bytes, the text and its length, in this order
    · rintro ((hfault | ⟨n, size, rest, rfl, hsize, ⟨hshort, rfl⟩ | ⟨bytes', read, rest, rfl,
        ⟨rfl, rfl⟩, hbad, rfl⟩⟩) | ⟨text, read, rest, rfl, ⟨n, size, second, rfl, hsize, bytes',
        third, fourth, rfl, ⟨rfl, rfl⟩, rfl, hutf8⟩, hlong, rfl⟩)
      · exact .badSize hfault
      · exact .missing hsize hshort
      · rw [← List.append_assoc]
        exact .badText hsize (ofUtf8?_eq_none_iff.1 hbad)
      · obtain rfl := Packed.ofUtf8?_eq_some_iff.1 hutf8
        rw [Packed.length_utf8] at hsize
        rw [List.append_nil]
        exact .tooLong hsize (Payload.ofString?_eq_none_iff.1 hlong)
    · intro h
      cases h with
      | badSize hfault => exact .inl (.inl hfault)
      | missing hsize hshort => exact .inl (.inr ⟨_, _, _, rfl, hsize, .inl ⟨hshort, rfl⟩⟩)
      | @badText size bytes rest hsize hbad =>
          -- all the bytes are there, so it is the text that is wrong
          exact .inl (.inr ⟨_, size, bytes ++ rest, List.append_assoc .., hsize,
            .inr ⟨bytes, bytes, rest, rfl, ⟨rfl, rfl⟩, ofUtf8?_eq_none_iff.2 hbad, rfl⟩⟩)
      | @tooLong size rest text hsize hlong =>
          rw [← Packed.length_utf8] at hsize
          exact .inr ⟨text, _, rest, rfl, ⟨_, size, _, rfl, hsize, _, _, [],
            (List.append_nil _).symm, ⟨rfl, rfl⟩, rfl, Packed.ofUtf8?_eq_some_iff.2 rfl⟩,
            Payload.ofString?_eq_none_iff.2 hlong, rfl⟩

/-- A set of flags is read by its byte. -/
theorem obeys_flags {α : Type} {ofByte : UInt8 → α} {bits : α → UInt8}
    (hbyte : ∀ byte, bits (ofByte byte) = byte) (hbits : ∀ a, ofByte (bits a) = a) :
    Obeys (Packed.readByte >>= fun byte => pure (ofByte byte)) (fun read a => read = [bits a])
      Part.byte.Fault := by
  rw [← map_eq_pure_bind]
  refine obeys_byte.map.congr (fun read a => ?_) fun _ _ => Iff.rfl
  constructor
  · rintro ⟨byte, rfl, rfl⟩
    rw [hbyte]
  · rintro rfl
    exact ⟨bits a, rfl, (hbits a).symm⟩

theorem obeys_modifiers : Obeys Packed.readModifiers (fun read modifiers => read = [modifiers.bits])
    Part.byte.Fault :=
  obeys_flags (fun _ => rfl) fun _ => rfl

theorem obeys_lights : Obeys Packed.readLights (fun read lights => read = [lights.bits])
    Part.byte.Fault :=
  obeys_flags (fun _ => rfl) fun _ => rfl

/-! ## Forms and values -/

section Forms

variable {read : List UInt8}

theorem form_byte_iff : Part.byte.Form read ↔ ∃ byte, read = [byte] := by
  constructor
  · intro h
    cases h with
    | byte value => exact ⟨value, rfl⟩
  · rintro ⟨value, rfl⟩
    exact .byte value

theorem form_modifiers_iff : Part.byte.Form read ↔ ∃ modifiers : Modifiers, read = [modifiers.bits] := by
  constructor
  · intro h
    cases h with
    | byte value => exact ⟨⟨value⟩, rfl⟩
  · rintro ⟨modifiers, rfl⟩
    exact .byte modifiers.bits

theorem form_word_iff : Part.word.Form read ↔ ∃ n, Numeral 32 read n := by
  constructor
  · intro h
    cases h with
    | word h => exact ⟨_, h⟩
  · rintro ⟨n, h⟩
    exact .word h

theorem form_kind_iff :
    (Part.place Kind.all.length).Form read ↔ ∃ kind : Kind, Numeral 32 read kind.index := by
  constructor
  · intro h
    cases h with
    | @place _ n _ hnumeral hknown =>
        cases hfound : Kind.ofIndex? n with
        | none => exact absurd (Kind.ofIndex?_eq_none_iff.1 hfound) (Nat.not_le.2 hknown)
        | some kind => exact ⟨kind, Kind.ofIndex?_eq_some_iff.1 hfound ▸ hnumeral⟩
  · rintro ⟨kind, hnumeral⟩
    refine .place hnumeral (Nat.not_le.1 fun hunknown => ?_)
    have hnone := Kind.ofIndex?_eq_none_iff.2 hunknown
    rw [Kind.ofIndex?_index] at hnone
    contradiction

theorem form_payload_iff : Part.payload.Form read ↔ ∃ (payload : Payload) (size : List UInt8),
    read = size ++ Packed.utf8 payload.text ∧ Numeral 64 size payload.text.utf8ByteSize := by
  constructor
  · intro h
    cases h with
    | @payload size text hsize hfits => exact ⟨⟨text, hfits⟩, size, rfl, hsize⟩
  · rintro ⟨payload, size, rfl, hsize⟩
    exact .payload hsize payload.fits

end Forms

end MacroPad.Stored
