/-
`Decoding.lean` -- what is read off any bytes.

A stored value is a list of parts. A record is read off bytes exactly where they start with
its parts, whatever groups its numbers have, and they are turned away exactly for what is wrong
with the first part that has not its form. What is read can be written again: in no more bytes
than it was read from, and in the same ones where the numbers stood in their shortest form.
-/
import MacroPad.Proofs.StoredParts

set_option autoImplicit false

namespace MacroPad.Stored

open Varint (Numeral IsShortest)

/-! ## Values as parts -/

/-- The parts of the values of a type, in their order. -/
def RecordType.parts : RecordType → List Part
  | slot => [.byte, .place Kind.all.length, .payload]
  | step => [.byte, .byte, .word]
  | modifiers => [.byte]
  | lights => [.byte]
  | key => [.place Key.all.length]
  | kind => [.place Kind.all.length]

/-- The first part that has not its form, and what is wrong with it. -/
inductive Rejects : List Part → List UInt8 → PackedFault → Prop
  | here {part : Part} {parts : List Part} {bytes : List UInt8} {fault : PackedFault}
      (h : part.Fault bytes fault) : Rejects (part :: parts) bytes fault
  | later {part : Part} {parts : List Part} {read rest : List UInt8} {fault : PackedFault}
      (hread : part.Form read) (hrest : Rejects parts rest fault) :
      Rejects (part :: parts) (read ++ rest) fault

/-- The bytes are those of the record, written with these numerals. -/
inductive Spells : Record → List (List UInt8) → List UInt8 → Prop
  | slot {value : Slot} {place size : List UInt8} (hplace : Numeral 32 place value.kind.index)
      (hsize : Numeral 64 size value.payload.text.utf8ByteSize) :
      Spells (.slot value) [place, size]
        (value.id :: place ++ size ++ Packed.utf8 value.payload.text)
  | step {value : Step} {wait : List UInt8} (hwait : Numeral 32 wait value.waitMs.toNat) :
      Spells (.step value) [wait] (value.key :: value.modifiers.bits :: wait)
  | modifiers (value : Modifiers) : Spells (.modifiers value) [] [value.bits]
  | lights (value : Lights) : Spells (.lights value) [] [value.bits]
  | key {value : Key} {place : List UInt8} (hplace : Numeral 32 place value.index) :
      Spells (.key value) [place] place
  | kind {value : Kind} {place : List UInt8} (hplace : Numeral 32 place value.index) :
      Spells (.kind value) [place] place

/-! ## Part after part -/

section Order

variable {α β : Type} {reader : Reader α} {following : α → Reader β} {form : List UInt8 → α → Prop}
  {after : α → List UInt8 → β → Prop} {part : Part} {parts : List Part}

theorem rejects_cons_iff {bytes : List UInt8} {fault : PackedFault} :
    Rejects (part :: parts) bytes fault ↔ part.Fault bytes fault ∨
      ∃ read rest, bytes = read ++ rest ∧ part.Form read ∧ Rejects parts rest fault := by
  constructor
  · intro h
    cases h with
    | here h => exact .inl h
    | later hread hrest => exact .inr ⟨_, _, rfl, hread, hrest⟩
  · rintro (h | ⟨read, rest, rfl, hread, hrest⟩)
    · exact .here h
    · exact .later hread hrest

theorem not_rejects_nil {bytes : List UInt8} {fault : PackedFault} : ¬ Rejects [] bytes fault := by
  intro h
  cases h

/-- Without any parts nothing is read. -/
theorem Obeys.done (value : α) :
    Obeys (Pure.pure value) (fun read a => read = [] ∧ a = value) (Rejects []) := by
  refine (Obeys.pure value).congr (fun _ _ => Iff.rfl) fun bytes fault => ?_
  exact ⟨False.elim, not_rejects_nil⟩

/-- **The first part that has not its form decides.** -/
theorem Obeys.next (h : Obeys reader form part.Fault)
    (hform : ∀ read, part.Form read ↔ ∃ a, form read a)
    (hfollowing : ∀ a, Obeys (following a) (after a) (Rejects parts)) :
    Obeys (reader >>= following)
      (fun read b => ∃ a first second, read = first ++ second ∧ form first a ∧ after a second b)
      (Rejects (part :: parts)) := by
  refine (h.bind hfollowing).congr (fun _ _ => Iff.rfl) fun bytes fault => ?_
  rw [rejects_cons_iff]
  refine or_congr Iff.rfl ?_
  constructor
  · rintro ⟨a, read, rest, rfl, hread, hrest⟩
    exact ⟨read, rest, rfl, (hform read).2 ⟨a, hread⟩, hrest⟩
  · rintro ⟨read, rest, rfl, hread, hrest⟩
    obtain ⟨a, ha⟩ := (hform read).1 hread
    exact ⟨a, read, rest, rfl, ha, hrest⟩

theorem Obeys.last (h : Obeys reader form part.Fault) : Obeys reader form (Rejects [part]) := by
  refine h.congr (fun _ _ => Iff.rfl) fun bytes fault => ?_
  rw [rejects_cons_iff]
  constructor
  · exact Or.inl
  · rintro (hfault | ⟨_, _, _, _, hnone⟩)
    · exact hfault
    · exact absurd hnone not_rejects_nil

end Order

/-! ## Records -/

theorem obeys_slot : Obeys Packed.readSlot (fun read value => ∃ place size,
    Numeral 32 place value.kind.index ∧ Numeral 64 size value.payload.text.utf8ByteSize ∧
      read = value.id :: place ++ size ++ Packed.utf8 value.payload.text)
    (Rejects RecordType.slot.parts) := by
  have hread : Obeys Packed.readSlot _ (Rejects RecordType.slot.parts) :=
    obeys_byte.next (fun _ => form_byte_iff) fun id =>
      obeys_kind.next (fun _ => form_kind_iff) fun kind =>
        obeys_payload.next (fun _ => form_payload_iff) fun payload =>
          Obeys.done (Slot.mk id kind payload)
  refine hread.congr (fun read value => ?_) fun _ _ => Iff.rfl
  constructor
  · rintro ⟨id, _, _, rfl, rfl, kind, place, _, rfl, hplace, payload, _, _, rfl,
      ⟨size, rfl, hsize⟩, rfl, rfl⟩
    exact ⟨place, size, hplace, hsize, by simp⟩
  · rintro ⟨place, size, hplace, hsize, rfl⟩
    exact ⟨value.id, [value.id], _, rfl, rfl, value.kind, place, _, List.append_assoc .., hplace,
      value.payload, _, [], (List.append_nil _).symm, ⟨size, rfl, hsize⟩, rfl, rfl⟩

theorem obeys_step : Obeys Packed.readStep (fun read value => ∃ wait,
    Numeral 32 wait value.waitMs.toNat ∧ read = value.key :: value.modifiers.bits :: wait)
    (Rejects RecordType.step.parts) := by
  have hread : Obeys Packed.readStep _ (Rejects RecordType.step.parts) :=
    obeys_byte.next (fun _ => form_byte_iff) fun key =>
      obeys_modifiers.next (fun _ => form_modifiers_iff) fun modifiers =>
        obeys_word.next (fun _ => form_word_iff) fun waitMs =>
          Obeys.done (Step.mk key modifiers (UInt32.ofNat waitMs))
  refine hread.congr (fun read value => ?_) fun _ _ => Iff.rfl
  constructor
  · rintro ⟨key, _, _, rfl, rfl, modifiers, _, _, rfl, rfl, n, wait, _, rfl, hwait, rfl, rfl⟩
    rw [List.append_nil]
    refine ⟨wait, ?_, rfl⟩
    -- a number of 32 bits is the word that is made of it
    rwa [UInt32.toNat_ofNat_of_lt' hwait.inBits]
  · rintro ⟨wait, hwait, rfl⟩
    refine ⟨value.key, [value.key], _, rfl, rfl, value.modifiers, [value.modifiers.bits], _, rfl,
      rfl, value.waitMs.toNat, wait, [], (List.append_nil _).symm, hwait, rfl, ?_⟩
    rw [UInt32.ofNat_toNat]

/-- **A record is read exactly where its bytes stand**, whichever numerals they have, and what
is wrong with any others is what is wrong with their first part. -/
theorem Record.obeys_unpack (type : RecordType) :
    Obeys (unpack type)
      (fun read record => record.type = type ∧ ∃ numerals, Spells record numerals read)
      (Rejects type.parts) := by
  cases type with
  | slot =>
      refine obeys_slot.map.congr (fun read record => ?_) fun _ _ => Iff.rfl
      constructor
      · rintro ⟨value, ⟨place, size, hplace, hsize, rfl⟩, rfl⟩
        exact ⟨rfl, _, .slot hplace hsize⟩
      · rintro ⟨htype, numerals, hspells⟩
        cases hspells <;> cases htype
        case slot value place size hplace hsize =>
          exact ⟨value, ⟨place, size, hplace, hsize, rfl⟩, rfl⟩
  | step =>
      refine obeys_step.map.congr (fun read record => ?_) fun _ _ => Iff.rfl
      constructor
      · rintro ⟨value, ⟨wait, hwait, rfl⟩, rfl⟩
        exact ⟨rfl, _, .step hwait⟩
      · rintro ⟨htype, numerals, hspells⟩
        cases hspells <;> cases htype
        case step value wait hwait => exact ⟨value, ⟨wait, hwait, rfl⟩, rfl⟩
  | modifiers =>
      refine obeys_modifiers.last.map.congr (fun read record => ?_) fun _ _ => Iff.rfl
      constructor
      · rintro ⟨value, rfl, rfl⟩
        exact ⟨rfl, _, .modifiers value⟩
      · rintro ⟨htype, numerals, hspells⟩
        cases hspells <;> cases htype
        case modifiers value => exact ⟨value, rfl, rfl⟩
  | lights =>
      refine obeys_lights.last.map.congr (fun read record => ?_) fun _ _ => Iff.rfl
      constructor
      · rintro ⟨value, rfl, rfl⟩
        exact ⟨rfl, _, .lights value⟩
      · rintro ⟨htype, numerals, hspells⟩
        cases hspells <;> cases htype
        case lights value => exact ⟨value, rfl, rfl⟩
  | key =>
      refine obeys_key.last.map.congr (fun read record => ?_) fun _ _ => Iff.rfl
      constructor
      · rintro ⟨value, hplace, rfl⟩
        exact ⟨rfl, _, .key hplace⟩
      · rintro ⟨htype, numerals, hspells⟩
        cases hspells <;> cases htype
        case key value hplace => exact ⟨value, hplace, rfl⟩
  | kind =>
      refine obeys_kind.last.map.congr (fun read record => ?_) fun _ _ => Iff.rfl
      constructor
      · rintro ⟨value, hplace, rfl⟩
        exact ⟨rfl, _, .kind hplace⟩
      · rintro ⟨htype, numerals, hspells⟩
        cases hspells <;> cases htype
        case kind value hplace => exact ⟨value, hplace, rfl⟩

namespace Spells

variable {record : Record} {numerals : List (List UInt8)} {read : List UInt8}

/-- **No spelling of a record is shorter than its bytes.** -/
theorem length_pack_le (h : Spells record numerals read) : record.pack.length ≤ read.length := by
  cases h with
  | @slot value place size hplace hsize =>
      have hkind := hplace.denotes.length_write.1
      have htext := hsize.denotes.length_write.1
      simp only [Record.pack, Packed.writeSlot, Packed.writeKind, Packed.writePayload,
        Packed.writeText, List.length_append, List.length_cons]
      omega
  | @step value wait hwait =>
      have hlength := hwait.denotes.length_write.1
      simp only [Record.pack, Packed.writeStep, Packed.writeModifiers, List.length_append,
        List.length_cons, List.length_nil]
      omega
  | modifiers value => exact Nat.le_refl _
  | lights value => exact Nat.le_refl _
  | key hplace => exact hplace.denotes.length_write.1
  | kind hplace => exact hplace.denotes.length_write.1

/-- **The spelling in shortest numerals is the bytes of the record.** -/
theorem eq_pack (h : Spells record numerals read)
    (hshort : ∀ numeral ∈ numerals, IsShortest numeral) : read = record.pack := by
  cases h with
  | @slot value place size hplace hsize =>
      obtain rfl := (hshort place (by simp)).eq_write hplace.denotes
      obtain rfl := (hshort size (by simp)).eq_write hsize.denotes
      exact List.append_assoc ..
  | @step value wait hwait =>
      obtain rfl := (hshort wait (by simp)).eq_write hwait.denotes
      rfl
  | modifiers value => rfl
  | lights value => rfl
  | key hplace => exact (hshort _ List.mem_cons_self).eq_write hplace.denotes
  | kind hplace => exact (hshort _ List.mem_cons_self).eq_write hplace.denotes

end Spells

/-! ## The law -/

/-- **Whatever bytes are given, what is read off them is stored.** A record that is read
stands at the start of the bytes, in no fewer bytes than are written for it, and in exactly
these where its numerals are the shortest ones; its own bytes are read as it is. A slot that is
read holds a text that fits, and is a slot that could have been made of that text. Where no
record is read, one thing is wrong, and it is wrong with the first part that has not its form. -/
theorem unpack_sound (type : RecordType) (bytes : List UInt8) :
    (∀ record rest, (Record.unpack type).run bytes = .ok (record, rest) →
      record.type = type ∧
        (∃ read numerals, bytes = read ++ rest ∧ Spells record numerals read ∧
          record.pack.length ≤ read.length ∧
          ((∀ numeral ∈ numerals, IsShortest numeral) → read = record.pack)) ∧
        (Record.unpack type).run (record.pack ++ rest) = .ok (record, rest) ∧
        ∀ slot, record = .slot slot → slot.kind ∈ Kind.all ∧
          slot.payload.text.utf8ByteSize ≤ 256 ∧
          Slot.ofText? slot.id slot.kind slot.payload.text = some slot) ∧
      (∀ fault, (Record.unpack type).run bytes = .error fault ↔ Rejects type.parts bytes fault) ∧
      ((∃ record rest, (Record.unpack type).run bytes = .ok (record, rest)) ∨
        ∃ fault, Rejects type.parts bytes fault ∧
          ∀ other, Rejects type.parts bytes other → other = fault) := by
  have hunpack := Record.obeys_unpack type
  refine ⟨?_, fun fault => hunpack.error, ?_⟩
  · intro record rest hread
    obtain ⟨read, hbytes, htype, numerals, hspells⟩ := hunpack.ok.1 hread
    have hagain := record.reads_pack.whole rest
    rw [htype] at hagain
    refine ⟨htype, ⟨read, numerals, hbytes, hspells, hspells.length_pack_le, hspells.eq_pack⟩,
      hagain, ?_⟩
    -- the bound on a text is part of its type, so a slot that was read has it
    rintro ⟨id, kind, payload⟩ -
    refine ⟨List.mem_of_getElem? (Kind.ofIndex?_index kind), payload.fits, ?_⟩
    rw [Slot.ofText?, Payload.ofString?_text, Option.map_some]
  · cases hrun : (Record.unpack type).run bytes with
    | ok pair => exact .inl ⟨pair.1, pair.2, rfl⟩
    | error fault =>
        refine .inr ⟨fault, hunpack.error.1 hrun, fun other hother => ?_⟩
        -- two faults of the same bytes are both what the reader says
        have hboth := hrun.symm.trans (hunpack.error.2 hother)
        exact (Except.error.inj hboth).symm

/-- A slot whose kind stands in two groups where one would do, read and written again, and the
bytes of a slot with a kind that is not known and a text that is cut off. -/
theorem unpack_sound_long_kind :
    let payload : Payload := ⟨"Up", by decide +kernel⟩
    let record := Record.slot ⟨2, .keybind, payload⟩
    (Record.unpack .slot).run [2, 0x82, 0, 2, 85, 112, 7] = .ok (record, [7]) ∧
      record.pack = [2, 2, 2, 85, 112] ∧
      (Record.unpack .slot).run [2, 2, 2, 85, 112, 7] = .ok (record, [7]) ∧
      (Record.unpack .slot).run [2, 4, 2, 85] = .error .unknownValue := by
  intro payload record
  have hpack : record.pack = [2, 2, 2, 85, 112] := by decide +kernel
  have hread : (Record.unpack .slot).run [2, 0x82, 0, 2, 85, 112, 7] = .ok (record, [7]) := by
    rfl
  obtain ⟨-, -, hagain, -⟩ := (unpack_sound .slot [2, 0x82, 0, 2, 85, 112, 7]).1 record [7] hread
  rw [hpack] at hagain
  have hfour : Numeral 32 [4] 4 := ⟨.last (by decide), by decide, by decide⟩
  have hunknown : Rejects RecordType.slot.parts [2, 4, 2, 85] .unknownValue :=
    .later (.byte 2) (.here (.unknownPlace hfour (by decide)))
  exact ⟨hread, hpack, hagain, ((unpack_sound .slot [2, 4, 2, 85]).2.1 .unknownValue).2 hunknown⟩

end MacroPad.Stored
