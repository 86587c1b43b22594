/-
`Bytes.lean` -- text as the bytes it is kept in.

A text is kept in UTF-8, and whatever is told of its ASCII characters can be told of its bytes: a
byte below 128 is a character of its own, and no other character has such a byte. Offsets count
bytes, so not every offset is a place to cut. Each step that can go wrong is *checked* here: it
gives its result, or says what went wrong. A text is cut between characters or not at all, only the
byte of a digit is taken for one, and no sum or difference leaves its range.
-/
import Mathlib.Data.List.Induction
import MacroPad.Proofs.WaitForm

set_option autoImplicit false

namespace MacroPad

/-! ## Steps that can go wrong -/

/-- What can go wrong. -/
inductive Mishap where
  /-- An offset lies behind the end. -/
  | outOfRange
  /-- A cut falls inside a character. -/
  | insideCharacter
  /-- A byte that is no digit is taken for one. -/
  | noDigit
  /-- A sum or a difference leaves its range. -/
  | overflow
deriving DecidableEq, Repr

/-- What a step gives, if nothing goes wrong. -/
abbrev Checked : Type → Type := Except Mishap

namespace Text

/-- The text in UTF-8. -/
def bytes (cs : List Char) : List UInt8 := cs.flatMap String.utf8EncodeChar

/-- The length of a text in bytes. -/
def byteLength (cs : List Char) : Nat := (bytes cs).length

end Text

/-- The byte is an ASCII digit. -/
def isDigitByte (byte : UInt8) : Bool := 48 ≤ byte.toNat && byte.toNat ≤ 57

/-- The byte of a letter in lower case; any other byte. -/
def lowerByte (byte : UInt8) : UInt8 := if 65 ≤ byte ∧ byte ≤ 90 then byte + 32 else byte

namespace Checked

theorem ok_bind {α β : Type} (a : α) (f : α → Checked β) : (.ok a : Checked α) >>= f = f a := rfl

/-- The difference of two offsets. A token that ends with its unit is as long as its number and the
unit together, so the unit of a wait (`ms` or `s`) and that of a rate (`/s`) begin at the length of
the token less 2 or 1. The difference is made twice: to look at the last bytes, and to cut before
them. -/
def back (offset n : Nat) : Checked Nat :=
  if n ≤ offset then .ok (offset - n) else .error .overflow

/-- The next offset in a text. This is the sum behind the last `(` of a typing macro and behind the
first `)` after it. The length of the text is in range, and so is what does not exceed it. -/
def next (cs : List Char) (offset : Nat) : Checked Nat :=
  if offset + 1 ≤ Text.byteLength cs then .ok (offset + 1) else .error .overflow

/-- The bytes from an offset on. These are the last bytes of a token, which are compared with a unit
in any case. They may begin inside a character: bytes are looked at before the text is cut. -/
def bytesFrom (bytes : List UInt8) (offset : Nat) : Checked (List UInt8) :=
  if offset ≤ bytes.length then .ok (bytes.drop offset) else .error .outOfRange

/-- The two sides of a text at an offset. Texts are cut before the unit of a wait, before the unit of
a rate, and in a typing macro before the last `(`, behind it, before the first `)` after it and
behind that. -/
def cutAt : List Char → Nat → Checked (List Char × List Char)
  | cs, 0 => .ok ([], cs)
  | [], _ + 1 => .error .outOfRange
  | c :: cs, offset + 1 =>
      if offset + 1 < c.utf8Size then .error .insideCharacter
      else (cutAt cs (offset + 1 - c.utf8Size)).map fun (before, after) => (c :: before, after)

/-- The digit of a byte, which is the byte less that of `0`. -/
def digit (byte : UInt8) : Checked UInt32 :=
  if isDigitByte byte then .ok (UInt32.ofNat (byte.toNat - 48)) else .error .noDigit

/-- The value of a run of digits, cut at the largest amount. It is the number of a wait or of a rate.
The products and sums stop at the largest amount, so only the digits have to be checked. -/
def amount (bytes : List UInt8) : Checked UInt32 :=
  bytes.foldlM (fun n byte => do return Capped.add (Capped.mul n 10) (← digit byte)) 0

/-- The text without `ending`, which may be written in any ASCII case, if its bytes end with it. A
text that is shorter than the ending is not cut at all. -/
def withoutEnding? (ending cs : List Char) : Checked (Option (List Char)) :=
  if Text.byteLength ending ≤ Text.byteLength cs then do
    let tail ← bytesFrom (Text.bytes cs) (← back (Text.byteLength cs) (Text.byteLength ending))
    if tail.map lowerByte = Text.bytes ending then
      let (body, _) ← cutAt cs (← back (Text.byteLength cs) (Text.byteLength ending))
      return some body
    else return none
  else return none

end Checked

/-! ## Offsets of characters -/

namespace Text

/-- The offset of the first `sep`. -/
def firstOffset? (sep : Char) : List Char → Option Nat
  | [] => none
  | c :: cs => if c = sep then some 0 else (firstOffset? sep cs).map (c.utf8Size + ·)

/-- The offset of the last `sep`. -/
def lastOffset? (sep : Char) : List Char → Option Nat
  | [] => none
  | c :: cs =>
      match lastOffset? sep cs with
      | some offset => some (c.utf8Size + offset)
      | none => if c = sep then some 0 else none

variable {a b cs : List Char} {c sep : Char} {byte : UInt8}

@[simp] theorem bytes_nil : bytes [] = [] := rfl

@[simp] theorem bytes_append (a b : List Char) : bytes (a ++ b) = bytes a ++ bytes b :=
  List.flatMap_append

theorem bytes_cons (c : Char) (cs : List Char) :
    bytes (c :: cs) = String.utf8EncodeChar c ++ bytes cs :=
  rfl

@[simp] theorem byteLength_append (a b : List Char) :
    byteLength (a ++ b) = byteLength a + byteLength b := by
  rw [byteLength, bytes_append, List.length_append, byteLength, byteLength]

@[simp] theorem byteLength_cons (c : Char) (cs : List Char) :
    byteLength (c :: cs) = c.utf8Size + byteLength cs := by
  rw [byteLength, bytes_cons, List.length_append, String.length_utf8EncodeChar, byteLength]

/-- The length in bytes is that of the string. -/
theorem utf8ByteSize_ofList (cs : List Char) : (String.ofList cs).utf8ByteSize = byteLength cs := by
  rw [← String.size_toByteArray, String.toByteArray_ofList, List.utf8Encode, List.size_toByteArray]
  rfl

/-- The first cut is made at the first offset. -/
theorem firstOffset?_eq :
    firstOffset? sep cs = (cutFirst? sep cs).map fun (before, _) => byteLength before := by
  induction cs with
  | nil => rfl
  | cons c cs ih =>
      rw [firstOffset?, cutFirst?, ih]
      split
      · rfl
      · cases cutFirst? sep cs with
        | none => rfl
        | some sides => simp

/-- The last cut is made at the last offset. -/
theorem lastOffset?_eq :
    lastOffset? sep cs = (cutLast? sep cs).map fun (before, _) => byteLength before := by
  induction cs with
  | nil => rfl
  | cons c cs ih =>
      rw [lastOffset?, cutLast?, ih]
      cases cutLast? sep cs with
      | none =>
          simp only [Option.map_none]
          split <;> rfl
      | some sides => simp

/-! ## ASCII -/

theorem utf8EncodeChar_ne_nil (c : Char) : String.utf8EncodeChar c ≠ [] := by
  rw [← List.length_pos_iff, String.length_utf8EncodeChar]
  exact c.utf8Size_pos

/-- An ASCII character is kept as one byte. -/
theorem utf8EncodeChar_of_lt (h : c.toNat < 128) :
    String.utf8EncodeChar c = [UInt8.ofNat c.toNat] := by
  have hle : c.val.toNat ≤ 127 := Nat.le_of_lt_succ h
  simp only [String.utf8EncodeChar, if_pos hle]
  rfl

private theorem le_toNat_ofNat {n k : Nat} (hk : 128 ≤ k) (hrange : n + k < 256) :
    128 ≤ (UInt8.ofNat (n + k)).toNat := by
  rw [UInt8.toNat_ofNat', Nat.mod_eq_of_lt hrange]
  omega

/-- No other character has a byte of an ASCII character. -/
theorem le_toNat_of_mem (h : 128 ≤ c.toNat) :
    ∀ byte ∈ String.utf8EncodeChar c, 128 ≤ byte.toNat := by
  have hlarge : ¬ c.val.toNat ≤ 127 := Nat.not_le.2 h
  simp only [String.utf8EncodeChar, if_neg hlarge]
  split
  · simp only [List.mem_cons, List.not_mem_nil, or_false, forall_eq_or_imp, forall_eq]
    exact ⟨le_toNat_ofNat (by decide) (by omega), le_toNat_ofNat (by decide) (by omega)⟩
  · split
    · simp only [List.mem_cons, List.not_mem_nil, or_false, forall_eq_or_imp, forall_eq]
      exact ⟨le_toNat_ofNat (by decide) (by omega), le_toNat_ofNat (by decide) (by omega),
        le_toNat_ofNat (by decide) (by omega)⟩
    · simp only [List.mem_cons, List.not_mem_nil, or_false, forall_eq_or_imp, forall_eq]
      exact ⟨le_toNat_ofNat (by decide) (by omega), le_toNat_ofNat (by decide) (by omega),
        le_toNat_ofNat (by decide) (by omega), le_toNat_ofNat (by decide) (by omega)⟩

/-- A character is ASCII as soon as one of its bytes is. -/
theorem utf8EncodeChar_eq_of_mem (hmem : byte ∈ String.utf8EncodeChar c)
    (hbyte : byte.toNat < 128) : c.toNat < 128 ∧ String.utf8EncodeChar c = [byte] := by
  have hlt : c.toNat < 128 := by
    by_contra hle
    exact absurd (le_toNat_of_mem (Nat.not_lt.1 hle) byte hmem) (Nat.not_le.2 hbyte)
  refine ⟨hlt, ?_⟩
  rw [utf8EncodeChar_of_lt hlt] at hmem ⊢
  rw [List.mem_singleton.1 hmem]

/-- **ASCII bytes at the end are characters at the end.** The induction is on the text from its
last character, which is the last byte or has nothing to do with the ending. -/
theorem exists_append_of_bytes_eq {front ending : List UInt8} (h : bytes cs = front ++ ending)
    (hascii : ∀ byte ∈ ending, byte.toNat < 128) :
    ∃ body tail, cs = body ++ tail ∧ bytes body = front ∧ bytes tail = ending := by
  induction cs using List.reverseRecOn generalizing ending with
  | nil =>
      obtain ⟨rfl, rfl⟩ := List.append_eq_nil_iff.1 h.symm
      exact ⟨[], [], rfl, rfl, rfl⟩
  | append_singleton cs c ih =>
      rcases List.eq_nil_or_concat ending with rfl | ⟨init, byte, rfl⟩
      · exact ⟨cs ++ [c], [], (List.append_nil _).symm, h.trans (List.append_nil _), rfl⟩
      · -- the last byte is ASCII, so it is the last character
        rw [bytes_append, bytes_cons, bytes_nil, List.append_nil, List.concat_eq_append,
          ← List.append_assoc] at h
        have hmem : byte ∈ String.utf8EncodeChar c := by
          have hlast := congrArg List.getLast? h
          rw [List.getLast?_append_of_ne_nil _ (utf8EncodeChar_ne_nil c),
            List.getLast?_concat] at hlast
          exact List.mem_of_getLast? hlast
        rw [List.concat_eq_append, List.forall_mem_append, List.forall_mem_singleton] at hascii
        obtain ⟨-, hchar⟩ := utf8EncodeChar_eq_of_mem hmem hascii.2
        rw [hchar] at h
        obtain ⟨body, tail, rfl, hbody, htail⟩ := ih (List.append_inj' h rfl).1 hascii.1
        refine ⟨body, tail ++ [c], (List.append_assoc ..), hbody, ?_⟩
        rw [bytes_append, bytes_cons, hchar, htail, List.concat_eq_append]
        rfl

/-! ## What is told by bytes -/

/-- A property of ASCII characters, told by their bytes. -/
structure ToldByByte (p : UInt8 → Bool) (q : Char → Bool) : Prop where
  ascii : ∀ c : Char, c.toNat < 128 → q c = p (UInt8.ofNat c.toNat)
  byte : ∀ byte, p byte = true → byte.toNat < 128
  char : ∀ c, q c = true → c.toNat < 128

namespace ToldByByte

variable {p : UInt8 → Bool} {q : Char → Bool}

/-- A character is one byte that tells of it, or it does not have the property, and nor has any of
its bytes. -/
theorem of_char (h : ToldByByte p q) (c : Char) :
    String.utf8EncodeChar c = [UInt8.ofNat c.toNat] ∧ p (UInt8.ofNat c.toNat) = q c ∨
      q c = false ∧ ∀ byte ∈ String.utf8EncodeChar c, p byte = false := by
  by_cases hc : c.toNat < 128
  · exact .inl ⟨utf8EncodeChar_of_lt hc, (h.ascii c hc).symm⟩
  · refine .inr ⟨Bool.eq_false_iff.2 fun htold => hc (h.char c htold), fun byte hmem => ?_⟩
    exact Bool.eq_false_iff.2 fun htold => hc (utf8EncodeChar_eq_of_mem hmem (h.byte byte htold)).1

theorem any_bytes (h : ToldByByte p q) (cs : List Char) : (bytes cs).any p = cs.any q := by
  rw [bytes, List.any_flatMap]
  congr 1
  funext c
  obtain ⟨hchar, htold⟩ | ⟨hnot, hbytes⟩ := h.of_char c
  · rw [hchar, ← htold, List.any_cons, List.any_nil, Bool.or_false]
  · rw [hnot, List.any_eq_false]
    exact fun byte hmem => Bool.eq_false_iff.1 (hbytes byte hmem)

theorem all_bytes (h : ToldByByte p q) (cs : List Char) : (bytes cs).all p = cs.all q := by
  rw [bytes, List.all_flatMap]
  congr 1
  funext c
  obtain ⟨hchar, htold⟩ | ⟨hnot, hbytes⟩ := h.of_char c
  · rw [hchar, ← htold, List.all_cons, List.all_nil, Bool.and_true]
  · obtain ⟨byte, rest, hcons⟩ := List.exists_cons_of_ne_nil (utf8EncodeChar_ne_nil c)
    rw [hcons] at hbytes ⊢
    rw [List.all_cons, hbytes byte List.mem_cons_self, hnot, Bool.false_and]

theorem any_head?_bytes (h : ToldByByte p q) (cs : List Char) :
    (bytes cs).head?.any p = cs.head?.any q := by
  cases cs with
  | nil => rfl
  | cons c cs =>
      rw [bytes_cons, List.head?_append_of_ne_nil _ (utf8EncodeChar_ne_nil c), List.head?_cons,
        Option.any_some]
      obtain ⟨hchar, htold⟩ | ⟨hnot, hbytes⟩ := h.of_char c
      · rw [hchar, ← htold, List.head?_cons, Option.any_some]
      · obtain ⟨byte, rest, hcons⟩ := List.exists_cons_of_ne_nil (utf8EncodeChar_ne_nil c)
        rw [hcons] at hbytes ⊢
        rw [List.head?_cons, Option.any_some, hbytes byte List.mem_cons_self, hnot]

theorem filter_bytes (h : ToldByByte p q) (cs : List Char) :
    (bytes cs).filter p = (cs.filter q).map fun c => UInt8.ofNat c.toNat := by
  induction cs with
  | nil => rfl
  | cons c cs ih =>
      rw [bytes_cons, List.filter_append, ih, List.filter_cons]
      obtain ⟨hchar, htold⟩ | ⟨hnot, hbytes⟩ := h.of_char c
      · rw [hchar, ← htold, List.filter_singleton]
        cases p (UInt8.ofNat c.toNat) <;> rfl
      · rw [hnot, List.filter_eq_nil_iff.2 fun byte hmem => Bool.eq_false_iff.1 (hbytes byte hmem)]
        rfl

/-- Two properties that are told by bytes make one. -/
theorem or {p' : UInt8 → Bool} {q' : Char → Bool} (h : ToldByByte p q) (h' : ToldByByte p' q') :
    ToldByByte (fun byte => p byte || p' byte) (fun c => q c || q' c) where
  ascii c hc := by rw [h.ascii c hc, h'.ascii c hc]
  byte byte htold := (Bool.or_eq_true_iff.1 htold).elim (h.byte byte) (h'.byte byte)
  char c htold := (Bool.or_eq_true_iff.1 htold).elim (h.char c) (h'.char c)

end ToldByByte

/-- An ASCII character is known by its byte. -/
theorem toldByByte_beq (sep : Char) (hsep : sep.toNat < 128) :
    ToldByByte (fun byte => byte == UInt8.ofNat sep.toNat) (fun c => c == sep) where
  ascii c hc := by
    rw [Bool.eq_iff_iff, beq_iff_eq, beq_iff_eq, ← Char.toNat_inj, ← UInt8.toNat_inj,
      UInt8.toNat_ofNat', UInt8.toNat_ofNat', Nat.mod_eq_of_lt (by omega),
      Nat.mod_eq_of_lt (by omega)]
  byte byte htold := by
    rw [beq_iff_eq.1 htold, UInt8.toNat_ofNat', Nat.mod_eq_of_lt (by omega)]
    exact hsep
  char c htold := by
    rw [beq_iff_eq.1 htold]
    exact hsep

theorem toldByByte_isDigit : ToldByByte isDigitByte Char.isDigit where
  ascii c hc := by
    rw [Bool.eq_iff_iff, isDigit_iff, isDigitByte, Bool.and_eq_true, decide_eq_true_eq,
      decide_eq_true_eq, UInt8.toNat_ofNat', Nat.mod_eq_of_lt (by omega)]
  byte byte hdigit := by
    rw [isDigitByte, Bool.and_eq_true, decide_eq_true_eq, decide_eq_true_eq] at hdigit
    omega
  char c hdigit := by
    have hle := (isDigit_iff.1 hdigit).2
    omega

/-- Different texts are kept as different bytes. -/
theorem bytes_injective (h : bytes a = bytes b) : a = b := by
  have hkept : (String.ofList a).toByteArray = (String.ofList b).toByteArray := by
    rw [String.toByteArray_ofList, String.toByteArray_ofList]
    exact congrArg List.toByteArray h
  exact String.ofList_injective (String.toByteArray_inj.1 hkept)

/-- A text is ASCII if its bytes are. -/
theorem forall_ascii_iff :
    (∀ byte ∈ bytes cs, byte.toNat < 128) ↔ ∀ c ∈ cs, c.toNat < 128 := by
  constructor
  · intro h c hc
    obtain ⟨byte, rest, hcons⟩ := List.exists_cons_of_ne_nil (utf8EncodeChar_ne_nil c)
    have hmem : byte ∈ String.utf8EncodeChar c := by
      rw [hcons]
      exact List.mem_cons_self
    exact (utf8EncodeChar_eq_of_mem hmem (h byte (List.mem_flatMap.2 ⟨c, hc, hmem⟩))).1
  · intro h byte hbyte
    obtain ⟨c, hc, hmem⟩ := List.mem_flatMap.1 hbyte
    rw [utf8EncodeChar_of_lt (h c hc), List.mem_singleton] at hmem
    rw [hmem, UInt8.toNat_ofNat', Nat.mod_eq_of_lt (Nat.lt_trans (h c hc) (by decide))]
    exact h c hc

theorem byteLength_of_ascii (h : ∀ c ∈ cs, c.toNat < 128) : byteLength cs = cs.length := by
  induction cs with
  | nil => rfl
  | cons c cs ih =>
      obtain ⟨hc, hcs⟩ := List.forall_mem_cons.1 h
      rw [byteLength, bytes_cons, utf8EncodeChar_of_lt hc, List.length_append, ← byteLength, ih hcs,
        List.length_singleton, List.length_cons, Nat.add_comm]

theorem byteLength_concat (h : c.toNat < 128) : byteLength (a ++ [c]) = byteLength a + 1 := by
  rw [byteLength_append, byteLength_of_ascii (List.forall_mem_singleton.2 h)]
  rfl

/-- Lower case is a matter of ASCII. -/
theorem toNat_toLower_lt_iff : c.toLower.toNat < 128 ↔ c.toNat < 128 := by
  obtain hsame | ⟨-, hhigh, hcode⟩ := toLower_cases c
  · rw [hsame]
  · omega

theorem lowerByte_ofNat (h : c.toNat < 128) :
    lowerByte (UInt8.ofNat c.toNat) = UInt8.ofNat c.toLower.toNat := by
  have hbytes : ∀ n : Fin 128, lowerByte (UInt8.ofNat n) =
      UInt8.ofNat (Char.ofNat n).toLower.toNat := by decide +kernel
  have hchar := hbytes ⟨c.toNat, h⟩
  rwa [Char.ofNat_toNat] at hchar

theorem bytes_map_toLower (h : ∀ c ∈ cs, c.toNat < 128) :
    bytes (cs.map Char.toLower) = (bytes cs).map lowerByte := by
  induction cs with
  | nil => rfl
  | cons c cs ih =>
      obtain ⟨hc, hcs⟩ := List.forall_mem_cons.1 h
      rw [List.map_cons, bytes_cons, bytes_cons, ih hcs, utf8EncodeChar_of_lt hc,
        utf8EncodeChar_of_lt (toNat_toLower_lt_iff.2 hc), List.map_append, List.map_singleton,
        lowerByte_ofNat hc]

theorem toNat_lowerByte_lt (h : (lowerByte byte).toNat < 128) : byte.toNat < 128 := by
  unfold lowerByte at h
  split at h
  · next hupper =>
      have hle : byte.toNat ≤ 90 := UInt8.le_iff_toNat_le.1 hupper.2
      omega
  · exact h

/-- Bytes that are an ASCII text in any case are ASCII. -/
theorem toNat_lt_of_map_lowerByte {tail : List UInt8} (hascii : ∀ c ∈ cs, c.toNat < 128)
    (htail : tail.map lowerByte = bytes cs) : ∀ byte ∈ tail, byte.toNat < 128 := by
  intro byte hmem
  refine toNat_lowerByte_lt (forall_ascii_iff.2 hascii _ ?_)
  rw [← htail]
  exact List.mem_map_of_mem hmem

end Text

namespace Checked

open Text

variable {a b cs ending : List Char} {c sep : Char} {offset : Nat}

/-! ## Cuts -/

@[simp] theorem cutAt_zero (cs : List Char) : cutAt cs 0 = .ok ([], cs) := by
  cases cs <;> rfl

theorem cutAt_cons_add (c : Char) (cs : List Char) (offset : Nat) :
    cutAt (c :: cs) (c.utf8Size + offset) =
      (cutAt cs offset).map fun (before, after) => (c :: before, after) := by
  obtain ⟨n, hn⟩ := Nat.exists_eq_add_of_lt c.utf8Size_pos
  have hoffset : c.utf8Size + offset = n + offset + 1 := by omega
  have hnot : ¬ n + offset + 1 < c.utf8Size := by omega
  have hrest : n + offset + 1 - c.utf8Size = offset := by omega
  rw [hoffset, cutAt, if_neg hnot, hrest]

/-- **A cut makes two sides of a text**, and the first has as many bytes as the offset says. -/
theorem cutAt_eq_ok_iff : cutAt cs offset = .ok (a, b) ↔ cs = a ++ b ∧ byteLength a = offset := by
  constructor
  · intro h
    induction cs generalizing a offset with
    | nil =>
        cases offset with
        | zero =>
            obtain ⟨rfl, rfl⟩ := Prod.mk.inj (Except.ok.inj h)
            exact ⟨rfl, rfl⟩
        | succ offset => contradiction
    | cons c cs ih =>
        cases offset with
        | zero =>
            obtain ⟨rfl, rfl⟩ := Prod.mk.inj (Except.ok.inj h)
            exact ⟨rfl, rfl⟩
        | succ offset =>
            rw [cutAt] at h
            split at h
            · contradiction
            · next hle =>
                cases hrest : cutAt cs (offset + 1 - c.utf8Size) with
                | error mishap =>
                    rw [hrest] at h
                    contradiction
                | ok sides =>
                    rw [hrest] at h
                    obtain ⟨rfl, rfl⟩ := Prod.mk.inj (Except.ok.inj h)
                    obtain ⟨rfl, hlength⟩ := ih hrest
                    refine ⟨rfl, ?_⟩
                    rw [byteLength_cons, hlength]
                    omega
  · rintro ⟨rfl, rfl⟩
    induction a with
    | nil => exact cutAt_zero b
    | cons c a ih =>
        rw [List.cons_append, byteLength_cons, cutAt_cons_add, ih]
        rfl

/-- **The places to cut are those of the string.** -/
theorem exists_cutAt_iff :
    (∃ sides, cutAt cs offset = .ok sides) ↔
      String.Pos.Raw.IsValid (String.ofList cs) ⟨offset⟩ := by
  rw [String.Pos.Raw.isValid_ofList]
  simp only [utf8ByteSize_ofList]
  constructor
  · rintro ⟨⟨a, b⟩, h⟩
    obtain ⟨rfl, rfl⟩ := cutAt_eq_ok_iff.1 h
    exact ⟨a.length, by rw [List.take_left]⟩
  · rintro ⟨i, rfl⟩
    exact ⟨_, cutAt_eq_ok_iff.2 ⟨(List.take_append_drop i cs).symm, rfl⟩⟩

/-! ## Around a separator -/

/-- The cut before a character. -/
theorem cutAt_byteLength (a b : List Char) : cutAt (a ++ b) (byteLength a) = .ok (a, b) :=
  cutAt_eq_ok_iff.2 ⟨rfl, rfl⟩

/-- The cut behind a character. -/
theorem cutAt_byteLength_concat (a b : List Char) (sep : Char) :
    cutAt (a ++ sep :: b) (byteLength (a ++ [sep])) = .ok (a ++ [sep], b) := by
  rw [List.append_cons]
  exact cutAt_byteLength _ b

/-- The offset behind an ASCII character is the next one. -/
theorem next_eq (hsep : sep.toNat < 128) :
    next (a ++ sep :: b) (byteLength a) = .ok (byteLength (a ++ [sep])) := by
  have hlength : byteLength (a ++ [sep]) = byteLength a + 1 := byteLength_concat hsep
  have hroom : byteLength a + 1 ≤ byteLength (a ++ sep :: b) := by
    rw [List.append_cons, byteLength_append, hlength]
    exact Nat.le_add_right _ _
  rw [next, if_pos hroom, hlength]

/-! ## Numbers -/

/-- Only a digit is taken for one. -/
theorem exists_digit_iff {byte : UInt8} :
    (∃ value, digit byte = .ok value) ↔ 48 ≤ byte.toNat ∧ byte.toNat ≤ 57 := by
  rw [← decide_eq_true_iff (p := 48 ≤ byte.toNat ∧ byte.toNat ≤ 57), Bool.decide_and, digit,
    ← isDigitByte]
  split
  · next hdigit => exact iff_of_true ⟨_, rfl⟩ hdigit
  · next hdigit => exact iff_of_false (by simp) hdigit

theorem digit_ofNat (h : c.isDigit = true) :
    digit (UInt8.ofNat c.toNat) = .ok (Capped.ofNat (Decimal.weight c)) := by
  obtain ⟨hlow, hhigh⟩ := isDigit_iff.1 h
  have hbyte : (UInt8.ofNat c.toNat).toNat = c.toNat := by
    rw [UInt8.toNat_ofNat', Nat.mod_eq_of_lt (by omega)]
  have hdigit : isDigitByte (UInt8.ofNat c.toNat) = true := by
    rw [← toldByByte_isDigit.ascii c (by omega), h]
  have hweight : min (Decimal.weight c) Capped.top = c.toNat - 48 :=
    Nat.min_eq_left (Nat.le_trans (Nat.sub_le_sub_right hhigh 48) (by decide))
  rw [digit, if_pos hdigit, hbyte, Capped.ofNat, hweight]

/-- **Digit by digit, the value of the text.** -/
theorem amount_bytes (h : cs.all Char.isDigit = true) :
    amount (bytes cs) = .ok (Text.Decimal.amount cs) := by
  have hfold : ∀ n : UInt32, (bytes cs).foldlM
      (fun n byte => do return Capped.add (Capped.mul n 10) (← digit byte)) n =
        (.ok (cs.foldl (fun n c => Capped.add (Capped.mul n 10) (Capped.ofNat (Decimal.weight c)))
          n) : Checked UInt32) := by
    induction cs with
    | nil => exact fun n => rfl
    | cons c cs ih =>
        intro n
        rw [List.all_cons, Bool.and_eq_true] at h
        obtain ⟨hdigit, hrest⟩ := h
        have hchar := utf8EncodeChar_of_lt (toldByByte_isDigit.char c hdigit)
        rw [bytes_cons, hchar, List.singleton_append, List.foldlM_cons, digit_ofNat hdigit]
        exact ih hrest _
  exact hfold 0

/-! ## Endings -/

/-- The bytes of an ending that was found are the last ones of the text. -/
theorem bytes_of_withoutEnding? (hascii : ∀ c ∈ ending, c.toNat < 128)
    (h : Text.withoutEnding? ending cs = some a) :
    ∃ tail, cs = a ++ tail ∧ (bytes tail).map lowerByte = bytes ending := by
  obtain ⟨tail, rfl, rfl⟩ := withoutEnding?_eq_some_iff.1 h
  refine ⟨tail, rfl, (bytes_map_toLower fun c hc => ?_).symm⟩
  exact toNat_toLower_lt_iff.1 (hascii _ (List.mem_map_of_mem hc))

/-- Bytes that are an ending stand between characters, so the ending is one of the text. -/
theorem exists_withoutEnding?_of_bytes {front tail : List UInt8}
    (hascii : ∀ c ∈ ending, c.toNat < 128) (hsplit : bytes cs = front ++ tail)
    (htail : tail.map lowerByte = bytes ending) :
    ∃ body, Text.withoutEnding? ending cs = some body := by
  have hbytes := toNat_lt_of_map_lowerByte hascii htail
  obtain ⟨body, last, rfl, -, rfl⟩ := exists_append_of_bytes_eq hsplit hbytes
  refine ⟨body, withoutEnding?_eq_some_iff.2 ⟨last, rfl, bytes_injective ?_⟩⟩
  rw [bytes_map_toLower (forall_ascii_iff.1 hbytes), htail]

/-- **An ending is found by its bytes**, and the text is cut before it. -/
theorem withoutEnding?_eq (hascii : ∀ c ∈ ending, c.toNat < 128) :
    withoutEnding? ending cs = .ok (Text.withoutEnding? ending cs) := by
  cases hcut : Text.withoutEnding? ending cs with
  | some body =>
      obtain ⟨tail, rfl, htail⟩ := bytes_of_withoutEnding? hascii hcut
      have hlength : byteLength ending = byteLength tail := by
        rw [byteLength, ← htail, List.length_map, byteLength]
      have hle : byteLength tail ≤ byteLength (body ++ tail) := by
        rw [byteLength_append]
        exact Nat.le_add_left _ _
      have hback : back (byteLength (body ++ tail)) (byteLength tail) = .ok (byteLength body) := by
        rw [back, if_pos hle, byteLength_append, Nat.add_sub_cancel]
      have hfrom : bytesFrom (bytes (body ++ tail)) (byteLength body) = .ok (bytes tail) := by
        rw [bytes_append, bytesFrom, byteLength, List.drop_left, List.length_append]
        exact if_pos (Nat.le_add_right _ _)
      rw [withoutEnding?, hlength, if_pos hle, hback, ok_bind, hfrom, ok_bind, if_pos htail,
        ok_bind, cutAt_byteLength]
      rfl
  | none =>
      rw [withoutEnding?]
      split
      · next hle =>
          have hback : back (byteLength cs) (byteLength ending) =
              .ok (byteLength cs - byteLength ending) := if_pos hle
          have hfrom : bytesFrom (bytes cs) (byteLength cs - byteLength ending) =
              .ok ((bytes cs).drop (byteLength cs - byteLength ending)) := if_pos (Nat.sub_le _ _)
          rw [hback, ok_bind, hfrom, ok_bind, if_neg]
          · rfl
          · intro htail
            obtain ⟨body, hbody⟩ :=
              exists_withoutEnding?_of_bytes hascii (List.take_append_drop _ _).symm htail
            rw [hcut] at hbody
            contradiction
      · rfl

end Checked

end MacroPad
