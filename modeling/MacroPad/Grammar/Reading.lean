/-
`Reading.lean` -- what a grammar makes of a text.

A grammar may pass over parts of a text that it does not understand. It then
gives a notice for each of them, also if it rejects the text in the end.
-/
import MacroPad.Notice

set_option autoImplicit false

namespace MacroPad

/-- The result of reading a text, with the notices given on the way. -/
structure Reading (α : Type) where
  notices : List Notice
  result : Except GrammarFault α

namespace Reading

variable {α β : Type}

/-- A reading without notices. -/
def silent (result : Except GrammarFault α) : Reading α := ⟨[], result⟩

/-- The reading of something that is made of what was read. -/
def map (f : α → β) (reading : Reading α) : Reading β := ⟨reading.notices, reading.result.map f⟩

/-- The reading with notices given before its own. -/
def after (earlier : List Notice) (reading : Reading α) : Reading α :=
  ⟨earlier ++ reading.notices, reading.result⟩

end Reading

end MacroPad
