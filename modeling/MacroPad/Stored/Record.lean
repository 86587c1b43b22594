/-
`Record.lean` -- everything that is ever stored, in both forms.

Six types of value are stored. A record is a value of one of them; its bytes and
its document do not name the type, so a reader is told which one to expect.
-/
import MacroPad.Stored.Document
import MacroPad.Stored.Packed

set_option autoImplicit false

namespace MacroPad.Stored

/-- The types of value that are stored. -/
inductive RecordType where
  | slot | step | modifiers | lights | key | kind
deriving DecidableEq, Repr

/-- A stored value. -/
inductive Record where
  | slot (value : Slot)
  | step (value : Step)
  | modifiers (value : Modifiers)
  | lights (value : Lights)
  | key (value : Key)
  | kind (value : Kind)
deriving DecidableEq

namespace Record

/-- The type of a record. -/
def type : Record → RecordType
  | slot _ => .slot
  | step _ => .step
  | modifiers _ => .modifiers
  | lights _ => .lights
  | key _ => .key
  | kind _ => .kind

/-- The bytes of a record. -/
def pack : Record → List UInt8
  | slot value => Packed.writeSlot value
  | step value => Packed.writeStep value
  | modifiers value => Packed.writeModifiers value
  | lights value => Packed.writeLights value
  | key value => Packed.writeKey value
  | kind value => Packed.writeKind value

/-- Read a record of some type from the start of some bytes. -/
def unpack : RecordType → Reader Record
  | .slot => slot <$> Packed.readSlot
  | .step => step <$> Packed.readStep
  | .modifiers => modifiers <$> Packed.readModifiers
  | .lights => lights <$> Packed.readLights
  | .key => key <$> Packed.readKey
  | .kind => kind <$> Packed.readKind

/-- The document of a record. -/
def toDocument : Record → Document
  | slot value => .ofSlot value
  | step value => .ofStep value
  | modifiers value => .ofModifiers value
  | lights value => .ofLights value
  | key value => .ofKey value
  | kind value => .ofKind value

/-- Read a record of some type from a document. -/
def ofDocument? (type : RecordType) (document : Document) : Option Record :=
  match type with
  | .slot => document.slot?.map slot
  | .step => document.step?.map step
  | .modifiers => document.modifiers?.map modifiers
  | .lights => document.lights?.map lights
  | .key => document.key?.map key
  | .kind => document.kind?.map kind

end Record

end MacroPad.Stored
