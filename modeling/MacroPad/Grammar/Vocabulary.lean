/-
`Vocabulary.lean` -- the names of keys and modifiers in macros.

A word is looked up without the blanks around it and in any ASCII case. Chords
and hold sequences have vocabularies of their own: a hold sequence also knows the
navigation keys and the function keys up to `F24`, but no modifier is a key in it.
-/
import MacroPad.Keyboard.Key
import MacroPad.Keyboard.Modifiers
import MacroPad.Text.Blank

set_option autoImplicit false

namespace MacroPad.Vocabulary

/-- The form in which a token is looked up. -/
def folded (token : List Char) : List Char := (Text.trim token).map Char.toUpper

/-- The modifier key of a name. -/
def modifier? (token : List Char) : Option ModifierKey :=
  match String.ofList (folded token) with
  | "LCTRL" | "CTRL" | "CONTROL" => some .leftCtrl
  | "LSHIFT" | "SHIFT" => some .leftShift
  | "LALT" | "ALT" => some .leftAlt
  | "LGUI" | "GUI" | "LWIN" | "WIN" | "CMD" => some .leftGui
  | "RCTRL" => some .rightCtrl
  | "RSHIFT" => some .rightShift
  | "RALT" => some .rightAlt
  | "RGUI" | "RWIN" => some .rightGui
  | _ => none

/-- The number in `F` and one or two digits. -/
def functionNumber? : List Char → Option Nat
  | 'F' :: digits =>
      if (digits.length == 1 || digits.length == 2) && digits.all Char.isDigit then
        some (Text.Decimal.value digits)
      else none
  | _ => none

/-- The key of a single letter or digit. -/
def printed? : List Char → Option Key
  | [c] => (Key.ofLetter? c).or (Key.ofDigit? c)
  | _ => none

/-- What a word of a chord stands for. -/
inductive ChordWord where
  | key (key : Key)
  | modifier (key : ModifierKey)
deriving DecidableEq, Repr

/-- The meaning of a word of a chord: letters, digits, `F1` to `F12`, four named
keys and the modifiers. -/
def chordWord? (token : List Char) : Option ChordWord :=
  match String.ofList (folded token) with
  | "ENTER" => some (.key .enter)
  | "ESC" | "ESCAPE" => some (.key .escape)
  | "TAB" => some (.key .tab)
  | "SPACE" => some (.key .space)
  | _ =>
      match modifier? token with
      | some key => some (.modifier key)
      | none =>
          match functionNumber? (folded token) with
          -- the number of a key that is out of range makes no other word
          | some n => if n ≤ 12 then (Key.ofFunctionNumber? n).map .key else none
          | none => (printed? (folded token)).map .key

/-- The key of a name in a hold sequence. -/
def sequenceKey? (token : List Char) : Option Key :=
  match String.ofList (folded token) with
  | "TAB" => some .tab
  | "ENTER" | "RETURN" => some .enter
  | "ESC" | "ESCAPE" => some .escape
  | "SPACE" | "SPACEBAR" => some .space
  | "BACKSPACE" => some .backspace
  | "DELETE" | "DEL" => some .delete
  | "HOME" => some .home
  | "END" => some .endKey
  | "PGUP" | "PAGEUP" => some .pageUp
  | "PGDN" | "PAGEDOWN" => some .pageDown
  | "LEFT" => some .left
  | "RIGHT" => some .right
  | "UP" => some .up
  | "DOWN" => some .down
  | _ =>
      match functionNumber? (folded token) with
      | some n => Key.ofFunctionNumber? n
      | none => printed? (folded token)

end MacroPad.Vocabulary
