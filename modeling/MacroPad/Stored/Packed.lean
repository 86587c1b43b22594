/-
`Packed.lean` -- values in as few bytes as possible.

A byte is stored as it is, a longer number as a varint, text as its length and
its UTF-8, and one of a list of names as its place in the list. The parts of a
value follow one another without marks, so every reader knows by itself where its
value ends.
-/
import MacroPad.Keyboard.Key
import MacroPad.Keyboard.Lights
import MacroPad.Macro.Plan
import MacroPad.Macro.Slot
import MacroPad.Stored.Varint

set_option autoImplicit false

namespace MacroPad.Stored.Packed

/-! ## Parts -/

/-- The bytes of some text. -/
def utf8 (text : String) : List UInt8 := text.toUTF8.data.toList

/-- The text of some bytes, if they are UTF-8. -/
def ofUtf8? (bytes : List UInt8) : Option String := String.fromUTF8? ⟨bytes.toArray⟩

/-- Fail with `fault` where there is no value. -/
def require {α : Type} (fault : PackedFault) : Option α → Reader α
  | some value => pure value
  | none => throw fault

def readByte : Reader UInt8
  | byte :: rest => .ok (byte, rest)
  | [] => .error .unexpectedEnd

/-- Read some number of bytes. -/
def readBytes (n : Nat) : Reader (List UInt8) := fun bytes =>
  if n ≤ bytes.length then .ok (bytes.take n, bytes.drop n) else .error .unexpectedEnd

/-- The place in a list of names, as a number of at most 32 bits. -/
def readPlace : Reader Nat := Varint.read 32

def writeText (text : String) : List UInt8 :=
  Varint.write text.utf8ByteSize ++ utf8 text

/-- Read text. Its bytes must be there before they are looked at. -/
def readText : Reader String := do
  let size ← Varint.read 64
  let bytes ← readBytes size
  require .badText (ofUtf8? bytes)

/-! ## Values -/

def writeKind (kind : Kind) : List UInt8 := Varint.write kind.index

def readKind : Reader Kind := do
  let place ← readPlace
  require .unknownValue (Kind.ofIndex? place)

def writeKey (key : Key) : List UInt8 := Varint.write key.index

def readKey : Reader Key := do
  let place ← readPlace
  require .unknownValue (Key.ofIndex? place)

def writeModifiers (modifiers : Modifiers) : List UInt8 := [modifiers.bits]

def readModifiers : Reader Modifiers := do
  let bits ← readByte
  return ⟨bits⟩

def writeLights (lights : Lights) : List UInt8 := [lights.bits]

def readLights : Reader Lights := do
  let bits ← readByte
  return ⟨bits⟩

def writePayload (payload : Payload) : List UInt8 := writeText payload.text

/-- Read text that fits into a slot. -/
def readPayload : Reader Payload := do
  let text ← readText
  require .unknownValue (Payload.ofString? text)

def writeSlot (slot : Slot) : List UInt8 :=
  slot.id :: writeKind slot.kind ++ writePayload slot.payload

def readSlot : Reader Slot := do
  let id ← readByte
  let kind ← readKind
  let payload ← readPayload
  return ⟨id, kind, payload⟩

def writeStep (step : Step) : List UInt8 :=
  step.key :: writeModifiers step.modifiers ++ Varint.write step.waitMs.toNat

def readStep : Reader Step := do
  let key ← readByte
  let modifiers ← readModifiers
  let waitMs ← Varint.read 32
  return ⟨key, modifiers, UInt32.ofNat waitMs⟩

end MacroPad.Stored.Packed
