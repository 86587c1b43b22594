/-
`Layout.lean` -- which key types which character.

A chord is one key together with modifiers. The layout is that of a US keyboard,
of which the pad types letters, digits, the blank keys, the hyphen and the equals
sign. Each of these characters has a chord of its own.
-/
import MacroPad.Keyboard.Key
import MacroPad.Keyboard.Modifiers

set_option autoImplicit false

namespace MacroPad

/-- One key pressed while modifiers are held. -/
structure Chord where
  key : Key
  modifiers : Modifiers
deriving DecidableEq, Repr

namespace Chord

/-- A key without modifiers. -/
def plain (key : Key) : Chord := ⟨key, .none⟩

/-- The chord that types a character, if the layout has it. -/
def ofChar? (c : Char) : Option Chord :=
  match c with
  | ' ' => some (plain .space)
  | '\n' => some (plain .enter)
  | '\t' => some (plain .tab)
  | '-' => some (plain .minus)
  | '=' => some (plain .equal)
  | _ =>
      if c.isLower then (Key.ofLetter? c).map plain
      else if c.isUpper then (Key.ofLetter? c).map (⟨·, .only .leftShift⟩)
      else (Key.ofDigit? c).map plain

end Chord

end MacroPad
