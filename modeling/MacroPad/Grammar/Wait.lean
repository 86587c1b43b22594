/-
`Wait.lean` -- tokens that ask for a wait.

A wait is a number with the unit `ms` or `s`, blanks allowed between the two. A
token is taken for a wait by its two ends alone: it starts with a digit and ends
with a unit. Only then must what stands before the unit be a number, so `s`, `5`
and `F5` are no waits, while `5xs` is a malformed one.
-/
import MacroPad.Text.Blank
import MacroPad.Text.Cut
import MacroPad.Text.Decimal

set_option autoImplicit false

namespace MacroPad

/-- What a token is when it is read as a wait. -/
inductive WaitReading where
  | wait (ms : UInt32)
  | malformed
  | notAWait
deriving DecidableEq, Repr

namespace WaitReading

/-- The text before the unit and the unit in milliseconds. -/
def cutUnit? (cs : List Char) : Option (List Char × UInt32) :=
  -- every `ms` also ends in `s`, so the longer unit is tried first
  match Text.withoutEnding? ['m', 's'] cs with
  | some number => some (number, 1)
  | none => (Text.withoutEnding? ['s'] cs).map fun number => (number, 1000)

/-- The token starts with a digit. -/
def startsWithDigit : List Char → Bool
  | c :: _ => c.isDigit
  | [] => false

/-- Read a token as a wait, cut at the largest amount. -/
def ofToken (token : List Char) : WaitReading :=
  let cs := Text.trim token
  if startsWithDigit cs then
    match cutUnit? cs with
    | some (number, unit) =>
        let digits := Text.trimEnd number
        if digits.all Char.isDigit then wait (Capped.mul (Text.Decimal.amount digits) unit)
        else malformed
    | none => notAWait
  else notAWait

end WaitReading

end MacroPad
