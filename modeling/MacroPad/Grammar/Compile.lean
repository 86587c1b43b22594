/-
`Compile.lean` -- from the text of a macro to its plan.

The four grammars under one roof. Text that is too long for a slot is rejected
before any grammar looks at it.
-/
import MacroPad.Grammar.Hold
import MacroPad.Grammar.PacedText
import MacroPad.Grammar.Steps
import MacroPad.Macro.Slot

set_option autoImplicit false

namespace MacroPad.Plan

/-- Read text by the grammar of its kind, whatever its length. -/
def ofText (kind : Kind) (cs : List Char) : Reading Plan :=
  match kind with
  | .keystroke => .silent ((Step.listOfText cs).map keystroke)
  | .typing => .silent ((PacedText.ofText cs).map fun paced => typing paced.text paced.perSecond)
  | .keybind =>
      .silent ((Chord.ofText cs).map fun chord => keybind chord.key.usage chord.modifiers)
  | .holdSequence => (Hold.ofText cs).map fun (held, content) => holdSequence held content

/-- Read the text of a macro. -/
def ofMacro (kind : Kind) (text : String) : Reading Plan :=
  if text.utf8ByteSize ≤ payloadLimit then ofText kind text.toList
  else .silent (.error .payloadTooLong)

/-- The text is a macro of the kind. -/
def isMacro (kind : Kind) (text : String) : Bool := (ofMacro kind text).result.isOk

/-! ## What was read -/

section Map

variable {α β : Type} {f : α → β} {result : Except GrammarFault α}

private theorem exists_of_map_eq_ok {b : β} (h : result.map f = .ok b) :
    ∃ a, result = .ok a ∧ f a = b := by
  cases result with
  | ok a => exact ⟨a, rfl, Except.ok.inj h⟩
  | error fault => contradiction

private theorem eq_error_of_map {fault : GrammarFault} (h : result.map f = .error fault) :
    result = .error fault := by
  cases result with
  | ok a => contradiction
  | error other => exact congrArg Except.error (Except.error.inj h)

end Map

/-- The plan of a macro is made of what the grammar of its kind reads. -/
theorem exists_read_of_ofMacro {kind : Kind} {text : String} {plan : Plan}
    (h : (ofMacro kind text).result = .ok plan) :
    match kind with
    | .keystroke => ∃ steps, Step.listOfText text.toList = .ok steps ∧ keystroke steps = plan
    | .typing => ∃ paced, PacedText.ofText text.toList = .ok paced ∧
        typing paced.text paced.perSecond = plan
    | .keybind => ∃ chord, Chord.ofText text.toList = .ok chord ∧
        keybind chord.key.usage chord.modifiers = plan
    | .holdSequence => ∃ sides, (Hold.ofText text.toList).result = .ok sides ∧
        holdSequence sides.1 sides.2 = plan := by
  unfold ofMacro at h
  split at h
  · cases kind with
    | keystroke => exact exists_of_map_eq_ok h
    | typing => exact exists_of_map_eq_ok h
    | keybind => exact exists_of_map_eq_ok h
    | holdSequence => exact exists_of_map_eq_ok h
  · contradiction

/-- Text that is turned away is too long, or the grammar of its kind turns it away. -/
theorem fault_of_ofMacro {kind : Kind} {text : String} {fault : GrammarFault}
    (h : (ofMacro kind text).result = .error fault) :
    payloadLimit < text.utf8ByteSize ∧ fault = .payloadTooLong ∨
      match kind with
      | .keystroke => Step.listOfText text.toList = .error fault
      | .typing => PacedText.ofText text.toList = .error fault
      | .keybind => Chord.ofText text.toList = .error fault
      | .holdSequence => (Hold.ofText text.toList).result = .error fault := by
  unfold ofMacro at h
  split at h
  · right
    cases kind with
    | keystroke => exact eq_error_of_map h
    | typing => exact eq_error_of_map h
    | keybind => exact eq_error_of_map h
    | holdSequence => exact eq_error_of_map h
  · next hlong => exact .inl ⟨Nat.not_le.1 hlong, (Except.error.inj h).symm⟩

end MacroPad.Plan

namespace MacroPad.Slot

/-- The text of the slot is a macro of its kind. -/
def isWellFormed (slot : Slot) : Bool := Plan.isMacro slot.kind slot.payload.text

end MacroPad.Slot
