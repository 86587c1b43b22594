/-
`Document.lean` -- values as documents with named fields.

A document is a tree of numbers, texts, lists and fields, such as JSON describes.
A value with several parts is written as its fields by name; a reader finds the
fields by name in any order, passes over others, and also takes a plain list of
the parts in their order. One of a list of names is written as that name.
-/
import MacroPad.Keyboard.Key
import MacroPad.Keyboard.Lights
import MacroPad.Macro.Plan
import MacroPad.Macro.Slot

set_option autoImplicit false

namespace MacroPad.Stored

/-- A tree of plain values. -/
inductive Document where
  | null
  | truth (value : Bool)
  | integer (value : Int)
  /-- A number that is not written as an integer. No stored value has one. -/
  | fraction
  | text (value : String)
  | list (items : List Document)
  | fields (items : List (String × Document))
deriving Inhabited, Repr

namespace Document

/-! ## Parts -/

def ofNat (n : Nat) : Document := integer n

/-- A number from 0 to `top`. -/
def natUpTo? (top : Nat) : Document → Option Nat
  | integer value => if 0 ≤ value ∧ value ≤ top then some value.toNat else none
  | _ => none

def byte? (document : Document) : Option UInt8 := (document.natUpTo? 255).map UInt8.ofNat

def word? (document : Document) : Option UInt32 :=
  (document.natUpTo? 0xFFFFFFFF).map UInt32.ofNat

def text? : Document → Option String
  | text value => some value
  | _ => none

/-- A name, alone or as the only field of a document without a value. -/
def name? : Document → Option String
  | text value => some value
  | fields [(name, null)] => some name
  | _ => none

/-- The parts of a value, by name or in their order. -/
def parts? (names : List String) : Document → Option (List Document)
  | fields items => names.mapM fun name => items.lookup name
  | list items => if items.length = names.length then some items else none
  | _ => none

/-! ## Values -/

def ofKind (kind : Kind) : Document := text kind.name

def kind? (document : Document) : Option Kind := document.name?.bind Kind.ofExactName?

def ofKey (key : Key) : Document := text key.name

def key? (document : Document) : Option Key := document.name?.bind Key.ofName?

def ofModifiers (modifiers : Modifiers) : Document := ofNat modifiers.bits.toNat

def modifiers? (document : Document) : Option Modifiers := document.byte?.map Modifiers.mk

def ofLights (lights : Lights) : Document := ofNat lights.bits.toNat

def lights? (document : Document) : Option Lights := document.byte?.map Lights.mk

def ofSlot (slot : Slot) : Document :=
  fields [("id", ofNat slot.id.toNat), ("kind", ofKind slot.kind),
    ("payload", text slot.payload.text)]

def slot? (document : Document) : Option Slot := do
  match ← document.parts? ["id", "kind", "payload"] with
  | [id, kind, payload] =>
      return ⟨← id.byte?, ← kind.kind?, ← payload.text?.bind Payload.ofString?⟩
  | _ => none

def ofStep (step : Step) : Document :=
  fields [("keycode", ofNat step.key.toNat), ("modifiers", ofModifiers step.modifiers),
    ("wait_ms", ofNat step.waitMs.toNat)]

def step? (document : Document) : Option Step := do
  match ← document.parts? ["keycode", "modifiers", "wait_ms"] with
  | [key, modifiers, waitMs] => return ⟨← key.byte?, ← modifiers.modifiers?, ← waitMs.word?⟩
  | _ => none

end Document

end MacroPad.Stored
