/-
`StoredRoundTrip.lean` -- what is stored is read back.

The parts of a packed value follow one another without marks. A reader still ends where its
value ends, since every part says by itself how long it is: this is one property of a reader,
some bytes and a value, and it is composed part by part as the readers are. It has two halves.
Whatever follows the bytes is left alone, and bytes that end too early are refused as such, so
that no value is read off a part of another one. A document names its parts instead, and a
reader of documents finds them among any others.
-/
import MacroPad.Proofs.Numerals
import MacroPad.Stored.Record

set_option autoImplicit false

namespace MacroPad.Stored

/-! ## Readers that end by themselves -/

/-- The value is read off the bytes, and nothing is read off a part of them. -/
structure Reads {α : Type} (reader : Reader α) (bytes : List UInt8) (value : α) : Prop where
  /-- Whatever follows is left over. -/
  whole : ∀ rest, reader.run (bytes ++ rest) = .ok (value, rest)
  cut : ∀ part, part <+: bytes → part ≠ bytes → reader.run part = .error .unexpectedEnd

namespace Reads

variable {α β : Type} {reader : Reader α} {next : α → Reader β} {bytes more : List UInt8}
  {value : α} {result : β}

theorem pure (value : α) : Reads (pure value) [] value where
  whole _ := rfl
  cut _ hpart hne := absurd (List.prefix_nil.1 hpart) hne

/-- **One reader after another** reads the bytes of both. A part that ends in the bytes of the
first is refused by the first, and a longer one by the second. -/
theorem bind (h₁ : Reads reader bytes value) (h₂ : Reads (next value) more result) :
    Reads (reader >>= next) (bytes ++ more) result where
  whole rest := by
    rw [List.append_assoc, StateT.run_bind, h₁.whole]
    exact h₂.whole rest
  cut part hpart hne := by
    -- the part ends in the bytes of the second reader or in those of the first
    by_cases hlong : bytes.length ≤ part.length
    · obtain ⟨tail, rfl⟩ := List.prefix_of_prefix_length_le (List.prefix_append bytes more) hpart hlong
      have htail : tail <+: more := (List.prefix_append_right_inj bytes).1 hpart
      have hne' : tail ≠ more := fun hsame => hne (by rw [hsame])
      rw [StateT.run_bind, h₁.whole]
      exact h₂.cut tail htail hne'
    · have hshort : part.length ≤ bytes.length := by omega
      have hpart' : part <+: bytes :=
        List.prefix_of_prefix_length_le hpart (List.prefix_append bytes more) hshort
      have hne' : part ≠ bytes := by
        rintro rfl
        exact hlong (Nat.le_refl _)
      rw [StateT.run_bind, h₁.cut part hpart' hne']
      rfl

/-- A value that is made of what was read takes no bytes of its own. -/
theorem bind_pure {f : α → β} (h : Reads reader bytes value) :
    Reads (reader >>= fun a => Pure.pure (f a)) bytes (f value) := by
  have hboth : Reads (reader >>= fun a => Pure.pure (f a)) (bytes ++ []) (f value) :=
    h.bind (Reads.pure (f value))
  rwa [List.append_nil] at hboth

theorem map {f : α → β} (h : Reads reader bytes value) : Reads (f <$> reader) bytes (f value) := by
  rw [map_eq_pure_bind]
  exact h.bind_pure

/-- Nor does a value that is looked up in the end. -/
theorem bind_require {f : α → Option β} {fault : PackedFault} (h : Reads reader bytes value)
    (hf : f value = some result) :
    Reads (reader >>= fun a => Packed.require fault (f a)) bytes result := by
  have hrequire : Reads (Packed.require fault (f value)) [] result := by
    rw [hf]
    exact Reads.pure result
  have hboth : Reads (reader >>= fun a => Packed.require fault (f a)) (bytes ++ []) result :=
    h.bind hrequire
  rwa [List.append_nil] at hboth

end Reads

/-! ## The parts of packed values -/

namespace Packed

/-- The bytes of a text are as many as its size says. -/
theorem length_utf8 (text : String) : (utf8 text).length = text.utf8ByteSize := by
  rw [utf8, Array.length_toList]
  rfl

/-- **Bytes are the text whose bytes they are**, and no other. -/
theorem ofUtf8?_eq_some_iff {bytes : List UInt8} {text : String} :
    ofUtf8? bytes = some text ↔ bytes = utf8 text := by
  rw [ofUtf8?, String.fromUTF8?]
  constructor
  · intro h
    split at h
    · obtain rfl := Option.some.inj h
      rfl
    · contradiction
  · rintro rfl
    have hbytes : ByteArray.mk (utf8 text).toArray = text.toByteArray := by
      rw [utf8, Array.toArray_toList]
      rfl
    rw [hbytes, dif_pos text.isValidUTF8]
    rfl

theorem reads_byte (byte : UInt8) : Reads readByte [byte] byte where
  whole _ := rfl
  cut part hpart hne := by
    rcases List.prefix_cons_iff.1 hpart with rfl | ⟨rest, rfl, hrest⟩
    · rfl
    · rw [List.prefix_nil.1 hrest] at hne
      exact absurd rfl hne

theorem reads_varint {bits n : Nat} (hbits : 0 < bits) (h : n < 2 ^ bits) :
    Reads (Varint.read bits) (Varint.write n) n where
  whole := Varint.readFrom_write_append bits n h
  cut _ := Varint.readFrom_cut hbits h

theorem reads_bytes (bytes : List UInt8) : Reads (readBytes bytes.length) bytes bytes where
  whole rest := by
    have henough : bytes.length ≤ (bytes ++ rest).length := by simp
    have hsplit : readBytes bytes.length (bytes ++ rest) =
        .ok ((bytes ++ rest).take bytes.length, (bytes ++ rest).drop bytes.length) := if_pos henough
    rw [List.take_left, List.drop_left] at hsplit
    exact hsplit
  cut part hpart hne := by
    have hshort : ¬ bytes.length ≤ part.length := fun hle => hne (hpart.eq_of_length_le hle)
    exact if_neg hshort

theorem reads_text {text : String} (h : text.utf8ByteSize < 2 ^ 64) :
    Reads readText (writeText text) text := by
  have hbytes : Reads (readBytes text.utf8ByteSize) (utf8 text) (utf8 text) := by
    rw [← length_utf8]
    exact reads_bytes (utf8 text)
  exact (reads_varint (by decide) h).bind (hbytes.bind_require (ofUtf8?_eq_some_iff.2 rfl))

theorem reads_payload (payload : Payload) : Reads readPayload (writePayload payload) payload := by
  have hfits : payload.text.utf8ByteSize < 2 ^ 64 :=
    Nat.lt_of_le_of_lt payload.fits (by decide)
  exact (reads_text hfits).bind_require (Payload.ofString?_text payload)

/-! ## Values -/

theorem reads_kind (kind : Kind) : Reads readKind (writeKind kind) kind := by
  have hplace : kind.index < 2 ^ 32 := by cases kind <;> decide
  exact (reads_varint (by decide) hplace).bind_require (Kind.ofIndex?_index kind)

theorem reads_key (key : Key) : Reads readKey (writeKey key) key := by
  have hplace : key.index < 2 ^ 32 := Nat.lt_trans (Key.index_lt key) (by decide)
  exact (reads_varint (by decide) hplace).bind_require (Key.ofIndex?_index key)

theorem reads_modifiers (modifiers : Modifiers) :
    Reads readModifiers (writeModifiers modifiers) modifiers :=
  (reads_byte modifiers.bits).bind (Reads.pure modifiers)

theorem reads_lights (lights : Lights) : Reads readLights (writeLights lights) lights :=
  (reads_byte lights.bits).bind (Reads.pure lights)

theorem reads_slot (slot : Slot) : Reads readSlot (writeSlot slot) slot :=
  (reads_byte slot.id).bind ((reads_kind slot.kind).bind (reads_payload slot.payload).bind_pure)

theorem reads_step (step : Step) : Reads readStep (writeStep step) step := by
  have hwait : step.waitMs.toNat < 2 ^ 32 := step.waitMs.toNat_lt
  have hstep : Reads readStep (writeStep step)
      ⟨step.key, step.modifiers, UInt32.ofNat step.waitMs.toNat⟩ :=
    (reads_byte step.key).bind ((reads_modifiers step.modifiers).bind (reads_varint (by decide) hwait).bind_pure)
  rwa [UInt32.ofNat_toNat] at hstep

end Packed

/-- **A record is read off its bytes**, and off no part of them. -/
theorem Record.reads_pack (record : Record) : Reads (unpack record.type) record.pack record := by
  cases record with
  | slot value => exact (Packed.reads_slot value).map
  | step value => exact (Packed.reads_step value).map
  | modifiers value => exact (Packed.reads_modifiers value).map
  | lights value => exact (Packed.reads_lights value).map
  | key value => exact (Packed.reads_key value).map
  | kind value => exact (Packed.reads_kind value).map

/-! ## Documents -/

namespace Document

/-- The second document is the first one, with further fields anywhere among its own. -/
inductive Widens : Document → Document → Prop
  | same (document : Document) : Widens document document
  | fields {items more : List (String × Document)}
      (h : (more.filter fun item => item.1 ∈ items.map Prod.fst) = items) :
      Widens (.fields items) (.fields more)

/-- Fields of other names do not change what is found. -/
theorem lookup_filter {p : String → Bool} {name : String} (hp : p name = true)
    (items : List (String × Document)) :
    (items.filter fun item => p item.1).lookup name = items.lookup name := by
  induction items with
  | nil => rfl
  | cons item items ih =>
      obtain ⟨other, value⟩ := item
      rw [List.filter_cons]
      by_cases hother : name = other
      · subst hother
        rw [if_pos hp, List.lookup_cons_self, List.lookup_cons_self]
      · have hne : (name == other) = false := beq_false_of_ne hother
        rw [List.lookup_cons, hne, ← ih]
        split
        · rw [List.lookup_cons, hne]
        · rfl

/-- **The parts are found among further fields.** -/
theorem parts?_of_widens {items : List (String × Document)} {document : Document}
    (h : Widens (.fields items) document) :
    document.parts? (items.map Prod.fst) = (fields items).parts? (items.map Prod.fst) := by
  cases h with
  | same => rfl
  | @fields _ more hmore =>
      have hlookup : ∀ name ∈ items.map Prod.fst, more.lookup name = items.lookup name := by
        intro name hname
        have hfound := lookup_filter (p := fun name => decide (name ∈ items.map Prod.fst))
          (decide_eq_true hname) more
        rw [hmore] at hfound
        exact hfound.symm
      have hmapM : ∀ (names : List String) (find : String → Option Document),
          names.mapM find = (names.map find).mapM id := by
        intro names find
        rw [List.mapM_map]
        rfl
      rw [parts?, parts?, hmapM, List.map_congr_left hlookup, ← hmapM]

theorem byte?_ofNat (byte : UInt8) : (ofNat byte.toNat).byte? = some byte := by
  have hlt := byte.toNat_lt
  have hfound : (ofNat byte.toNat).natUpTo? 255 = some byte.toNat := by
    rw [ofNat, natUpTo?, if_pos (by omega), Int.toNat_natCast]
  rw [byte?, hfound, Option.map_some, UInt8.ofNat_toNat]

theorem word?_ofNat (word : UInt32) : (ofNat word.toNat).word? = some word := by
  have hlt := word.toNat_lt
  have hfound : (ofNat word.toNat).natUpTo? 0xFFFFFFFF = some word.toNat := by
    rw [ofNat, natUpTo?, if_pos (by omega), Int.toNat_natCast]
  rw [word?, hfound, Option.map_some, UInt32.ofNat_toNat]

theorem kind?_ofKind (kind : Kind) : (ofKind kind).kind? = some kind := Kind.ofExactName?_name kind

theorem key?_ofKey (key : Key) : (ofKey key).key? = some key := Key.ofName?_name key

theorem modifiers?_ofModifiers (modifiers : Modifiers) :
    (ofModifiers modifiers).modifiers? = some modifiers := by
  rw [modifiers?, ofModifiers, byte?_ofNat, Option.map_some]

theorem lights?_ofLights (lights : Lights) : (ofLights lights).lights? = some lights := by
  rw [lights?, ofLights, byte?_ofNat, Option.map_some]

theorem slot?_of_widens {slot : Slot} {document : Document} (h : (ofSlot slot).Widens document) :
    document.slot? = some slot := by
  have hparts : document.parts? ["id", "kind", "payload"] =
      some [ofNat slot.id.toNat, ofKind slot.kind, text slot.payload.text] := parts?_of_widens h
  rw [slot?, hparts]
  simp [byte?_ofNat, kind?_ofKind, text?]

theorem step?_of_widens {step : Step} {document : Document} (h : (ofStep step).Widens document) :
    document.step? = some step := by
  have hparts : document.parts? ["keycode", "modifiers", "wait_ms"] =
      some [ofNat step.key.toNat, ofModifiers step.modifiers, ofNat step.waitMs.toNat] :=
    parts?_of_widens h
  rw [step?, hparts]
  simp [byte?_ofNat, modifiers?_ofModifiers, word?_ofNat]

end Document

/-- **A record is found in its document**, also among fields of other names. -/
theorem Record.ofDocument?_of_widens {record : Record} {document : Document}
    (h : record.toDocument.Widens document) :
    ofDocument? record.type document = some record := by
  cases record with
  | slot value => exact congrArg (Option.map slot) (Document.slot?_of_widens h)
  | step value => exact congrArg (Option.map step) (Document.step?_of_widens h)
  -- a document without fields is not widened
  | modifiers value =>
      cases h
      exact congrArg (Option.map modifiers) (Document.modifiers?_ofModifiers value)
  | lights value =>
      cases h
      exact congrArg (Option.map lights) (Document.lights?_ofLights value)
  | key value =>
      cases h
      exact congrArg (Option.map key) (Document.key?_ofKey value)
  | kind value =>
      cases h
      exact congrArg (Option.map kind) (Document.kind?_ofKind value)

/-! ## The law -/

/-- **What is stored is read back**, in both forms. Whatever follows the bytes of a record, the
record is read and the rest is left; any part of the bytes that is not all of them ends too
early. The document of a record is read as that record, also where fields of other names are
added to it. So no two records of one type are stored alike, and where one of them ends is
known from its bytes. -/
theorem stored_round_trip (record : Record) :
    (∀ rest, (Record.unpack record.type).run (record.pack ++ rest) = .ok (record, rest)) ∧
      (∀ part, part <+: record.pack → part ≠ record.pack →
        (Record.unpack record.type).run part = .error .unexpectedEnd) ∧
      (∀ document, record.toDocument.Widens document →
        Record.ofDocument? record.type document = some record) ∧
      ∀ other rest rest', other.type = record.type →
        record.pack ++ rest = other.pack ++ rest' → record = other ∧ rest = rest' := by
  refine ⟨record.reads_pack.whole, record.reads_pack.cut,
    fun document h => Record.ofDocument?_of_widens h, ?_⟩
  intro other rest rest' htype hbytes
  have hread := record.reads_pack.whole rest
  have hother := other.reads_pack.whole rest'
  rw [htype, ← hbytes, hread] at hother
  exact Prod.mk.inj (Except.ok.inj hother)

/-- A slot with a byte behind it, the same slot cut off inside its text, and its document with
one more field. -/
theorem stored_round_trip_tab :
    let payload : Payload := ⟨"Tab", by decide +kernel⟩
    let record := Record.slot ⟨2, .keybind, payload⟩
    let document := Document.fields [("id", .integer 2), ("color", .null),
      ("kind", .text "keybind"), ("payload", .text "Tab")]
    record.pack = [2, 2, 3, 84, 97, 98] ∧
      (Record.unpack .slot).run [2, 2, 3, 84, 97, 98, 7] = .ok (record, [7]) ∧
      (Record.unpack .slot).run [2, 2, 3, 84] = .error .unexpectedEnd ∧
      Record.ofDocument? .slot document = some record := by
  intro payload record document
  have hpack : record.pack = [2, 2, 3, 84, 97, 98] := by decide +kernel
  have hpart : [2, 2, 3, 84] <+: record.pack := by
    rw [hpack]
    exact ⟨[97, 98], rfl⟩
  have hne : [2, 2, 3, 84] ≠ record.pack := by
    rw [hpack]
    decide
  have hwidens : record.toDocument.Widens document := .fields (by rfl)
  obtain ⟨hwhole, hcut, hdocument, -⟩ := stored_round_trip record
  have hseven := hwhole [7]
  rw [hpack] at hseven
  exact ⟨hpack, hseven, hcut _ hpart hne, hdocument document hwidens⟩

end MacroPad.Stored
