/-
`Payload.lean` -- the text of a stored or waiting macro.

A slot and a queued macro have room for 256 bytes of UTF-8. The bound is part of
the type, so whatever holds a payload holds one that fits.
-/
set_option autoImplicit false

namespace MacroPad

/-- The room for the text of a macro, in bytes of UTF-8. -/
def payloadLimit : Nat := 256

/-- Text that fits into a slot. -/
structure Payload where
  text : String
  fits : text.utf8ByteSize ≤ payloadLimit
deriving DecidableEq

namespace Payload

/-- The text as a payload, if it fits. -/
def ofString? (text : String) : Option Payload :=
  if fits : text.utf8ByteSize ≤ payloadLimit then some ⟨text, fits⟩ else none

@[simp] theorem ofString?_text (p : Payload) : ofString? p.text = some p := by
  simp [ofString?, p.fits]

theorem ofString?_eq_some_iff {text : String} {p : Payload} :
    ofString? text = some p ↔ p.text = text := by
  constructor
  · intro h
    simp only [ofString?] at h
    split at h
    · exact congrArg Payload.text (Option.some.inj h).symm
    · contradiction
  · rintro rfl
    exact ofString?_text p

theorem ofString?_eq_none_iff {text : String} :
    ofString? text = none ↔ payloadLimit < text.utf8ByteSize := by
  simp [ofString?]

end Payload

end MacroPad
