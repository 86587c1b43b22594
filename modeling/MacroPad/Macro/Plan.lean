/-
`Plan.lean` -- a macro in the form in which it is played.

A plan is what a grammar makes of the text of a macro. Playing accepts every
plan, also one that no text stands for, so keys and digits are plain bytes here.
-/
import MacroPad.Keyboard.Layout
import MacroPad.Macro.Kind

set_option autoImplicit false

namespace MacroPad

/-- One step of a keystroke macro: press and release a chord, then wait. Key 0
presses nothing. -/
structure Step where
  key : UInt8
  modifiers : Modifiers
  waitMs : UInt32
deriving DecidableEq, Repr

namespace Step

/-- A chord without a wait. -/
def ofChord (chord : Chord) : Step := ⟨chord.key.usage, chord.modifiers, 0⟩

/-- A wait without a chord. -/
def pause (waitMs : UInt32) : Step := ⟨0, .none, waitMs⟩

/-- The step presses nothing. -/
def isPause (step : Step) : Bool := step.key == 0

end Step

/-- One item of the sequence that is played while modifiers are held. -/
inductive SequenceItem where
  | wait (ms : UInt32)
  /-- ASCII digits, typed on the keypad. -/
  | digits (digits : List UInt8)
  /-- A key with further modifiers on top of the held ones. -/
  | press (key : UInt8) (extra : Modifiers)
deriving DecidableEq, Repr

/-- What is played while modifiers are held. -/
inductive HoldContent where
  /-- The number of one character in ASCII digits, typed in one burst. -/
  | altCode (digits : List UInt8)
  | sequence (items : List SequenceItem)
deriving DecidableEq, Repr

/-- A macro ready to be played. -/
inductive Plan where
  | keystroke (steps : List Step)
  | typing (text : String) (perSecond : UInt8)
  | keybind (key : UInt8) (modifiers : Modifiers)
  | holdSequence (held : Modifiers) (content : HoldContent)
deriving DecidableEq

/-- The kind of the macros that become such a plan. -/
def Plan.kind : Plan → Kind
  | keystroke _ => .keystroke
  | typing _ _ => .typing
  | keybind _ _ => .keybind
  | holdSequence _ _ => .holdSequence

end MacroPad
