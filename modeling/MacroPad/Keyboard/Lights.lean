/-
`Lights.lean` -- the lock lights of the keyboard.

The host tells the keyboard which of its lights are on in one byte. Only five
bits have a meaning, but the byte is kept whole.
-/
set_option autoImplicit false

namespace MacroPad

/-- A light with a meaning. -/
inductive Light where
  | numLock | capsLock | scrollLock | compose | kana
deriving DecidableEq, Repr

/-- The bit of a light, counted from the lowest. -/
def Light.place : Light → Fin 8
  | numLock => 0
  | capsLock => 1
  | scrollLock => 2
  | compose => 3
  | kana => 4

/-- The lights from the lowest bit to the highest. -/
def Light.all : List Light := [numLock, capsLock, scrollLock, compose, kana]

/-- The byte last received for the lights. -/
structure Lights where
  bits : UInt8
deriving DecidableEq, Repr

namespace Lights

/-- No light is on. -/
def off : Lights := ⟨0⟩

/-- The light is on. -/
def shows (lights : Lights) (light : Light) : Bool := lights.bits.toBitVec.getLsbD light.place

/-- The keypad types digits. -/
def numLock (lights : Lights) : Bool := lights.shows .numLock

@[simp] theorem shows_off (light : Light) : off.shows light = false := by
  cases light <;> rfl

end Lights

end MacroPad
