/-
`PacedText.lean` -- the grammar of typing macros.

A typing macro is the text to type, optionally followed by a rate such as
`(8/s)`. The last opening parenthesis starts the rate, so earlier ones are typed,
and the first closing parenthesis after it ends the rate. Without an opening
parenthesis the text is typed at the usual rate.
-/
import MacroPad.Grammar.Fault
import MacroPad.Macro.Payload
import MacroPad.Text.Blank
import MacroPad.Text.Cut
import MacroPad.Text.Decimal

set_option autoImplicit false

namespace MacroPad

/-- Text and the characters per second at which it is typed. -/
structure PacedText where
  text : String
  perSecond : UInt8
deriving DecidableEq, Repr

namespace PacedText

/-- The rate of text without one. -/
def usualRate : UInt8 := 10

/-- The fastest rate. -/
def fastestRate : UInt8 := 20

/-- Read what stands between the parentheses. The unit `/s` is written without a
gap, and the number is at least 1. -/
def rateOfText (cs : List Char) : Except GrammarFault UInt8 :=
  match Text.withoutEnding? ['/', 's'] (Text.trim cs) with
  | none => .error .malformedRate
  | some number =>
      let digits := Text.trim number
      if digits.isEmpty || !digits.all Char.isDigit then .error .malformedRate
      else
        let rate := (Text.Decimal.amount digits).toNat
        if 1 ≤ rate && rate ≤ fastestRate.toNat then .ok (UInt8.ofNat rate)
        else .error .rateOutOfRange

/-- The text to type and its rate, whatever the length of the text. -/
def cutRate (cs : List Char) : Except GrammarFault (List Char × UInt8) :=
  match Text.cutLast? '(' cs with
  | none => .ok (cs, usualRate)
  | some (text, tail) =>
      match Text.cutFirst? ')' tail with
      | none => .error .unclosedParen
      | some (inner, rest) =>
          match rateOfText inner with
          | .error fault => .error fault
          | .ok rate =>
              if Text.isAllBlank rest then .ok (Text.trim text, rate) else .error .trailingText

/-- Read a typing macro. -/
def ofText (cs : List Char) : Except GrammarFault PacedText :=
  match cutRate (Text.trim cs) with
  | .error fault => .error fault
  | .ok (text, rate) =>
      let text := String.ofList text
      if text.utf8ByteSize ≤ payloadLimit then .ok ⟨text, rate⟩ else .error .payloadTooLong

end PacedText

end MacroPad
