/-
`Slot.lean` -- macros as they are stored on the pad.

A slot binds a macro to a button. Its text need not be a well-formed macro of its
kind: it is only checked when it is run or when someone asks.
-/
import MacroPad.Macro.Kind
import MacroPad.Macro.Payload

set_option autoImplicit false

namespace MacroPad

/-- A macro bound to a button. -/
structure Slot where
  id : UInt8
  kind : Kind
  payload : Payload
deriving DecidableEq

namespace Slot

/-- A slot for some text, if it fits. -/
def ofText? (id : UInt8) (kind : Kind) (text : String) : Option Slot :=
  (Payload.ofString? text).map (⟨id, kind, ·⟩)

/-- The slots of a new pad. -/
def factory : List Slot :=
  [(0, .keystroke, "LCtrl+c, 500ms, LCtrl+v"), (1, .typing, "This is KnomiPad (8/s)"),
    (2, .keybind, "F12"), (3, .keybind, "Tab"), (4, .keybind, "Enter")].filterMap
      fun (id, kind, text) => ofText? id kind text

end Slot

end MacroPad
