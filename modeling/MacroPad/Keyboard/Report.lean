/-
`Report.lean` -- the eight bytes a keyboard sends.

A report is a snapshot: the modifiers that are held, a reserved byte and up to
six keys. The pad presses at most one key at a time, so of the reports it sends
only the first key is ever used, and the report of zeros releases everything.
-/
import MacroPad.Keyboard.Modifiers

set_option autoImplicit false

namespace MacroPad

/-- Why a report did not reach the host. -/
inductive SendFault where
  /-- The host is not connected or does not listen to reports. -/
  | notReady
  /-- The radio refused the report. -/
  | notificationFailed
  /-- The report did not fit into the buffer it was written to. -/
  | bufferTooSmall
deriving DecidableEq, Repr

namespace SendFault

/-- The short name of a fault, as notices give it. -/
def label : SendFault → String
  | notReady => "NotReady"
  | notificationFailed => "BleError"
  | bufferTooSmall => "BufferTooSmall"

def message : SendFault → String
  | notReady => "host not connected or not subscribed"
  | notificationFailed => "BLE notification failed"
  | bufferTooSmall => "report buffer too small"

end SendFault

/-- A keyboard report. -/
structure Report where
  modifiers : Modifiers
  reserved : UInt8
  keys : Vector UInt8 6
deriving DecidableEq

namespace Report

/-- The number of bytes of a report. -/
def size : Nat := 8

/-- One key pressed while modifiers are held; key 0 presses none. -/
def press (modifiers : Modifiers) (key : UInt8) : Report := ⟨modifiers, 0, #v[key, 0, 0, 0, 0, 0]⟩

/-- Nothing is held. -/
def release : Report := press .none 0

/-- Nothing is held. -/
def isRelease (r : Report) : Bool := r == release

/-- The first key, 0 if there is none. -/
def key (r : Report) : UInt8 := r.keys[0]

/-- The bytes that are sent. -/
def toBytes (r : Report) : List UInt8 := r.modifiers.bits :: r.reserved :: r.keys.toList

/-- The report at the start of some bytes, if they are enough. -/
def ofBytes? : List UInt8 → Option Report
  | m :: r :: a :: b :: c :: d :: e :: f :: _ => some ⟨⟨m⟩, r, #v[a, b, c, d, e, f]⟩
  | _ => none

/-- The buffer after the report was written to its start. -/
def writeTo (r : Report) (buffer : List UInt8) : Except SendFault (List UInt8) :=
  if size ≤ buffer.length then .ok (r.toBytes ++ buffer.drop size) else .error .bufferTooSmall

/-! ## Bytes and back -/

@[simp] theorem length_toBytes (r : Report) : r.toBytes.length = size := by
  simp [toBytes, size]

theorem ofBytes?_toBytes_append (r : Report) (rest : List UInt8) :
    ofBytes? (r.toBytes ++ rest) = some r := by
  obtain ⟨m, reserved, ⟨⟨l⟩, hl⟩⟩ := r
  match l, hl with
  | [a, b, c, d, e, f], _ => rfl

@[simp] theorem key_press (m : Modifiers) (k : UInt8) : (press m k).key = k := rfl

@[simp] theorem modifiers_press (m : Modifiers) (k : UInt8) : (press m k).modifiers = m := rfl

theorem isRelease_press_iff {m : Modifiers} {k : UInt8} :
    (press m k).isRelease = true ↔ m = .none ∧ k = 0 := by
  simp [isRelease, release, press]

end Report

end MacroPad
