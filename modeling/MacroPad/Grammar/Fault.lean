/-
`Fault.lean` -- why the text of a macro is rejected.
-/
set_option autoImplicit false

namespace MacroPad

/-- Why the text of a macro is not in its grammar. -/
inductive GrammarFault where
  /-- Nothing stands between two separators. -/
  | emptyToken
  /-- A token starts and ends like a wait, but what is between is no number. -/
  | malformedWait
  | unknownKey
  /-- A chord has more than one key. -/
  | severalKeys
  /-- A chord has modifiers only. -/
  | noKey
  /-- A typing rate is not a number of characters per second. -/
  | malformedRate
  | rateOutOfRange
  /-- Something follows the typing rate. -/
  | trailingText
  /-- A typing rate has no closing parenthesis. -/
  | unclosedParen
  /-- A hold sequence has no bar. -/
  | missingSeparator
  /-- A hold sequence holds no known modifier. -/
  | noModifier
  | tooManySteps
  | payloadTooLong
deriving DecidableEq, Repr

namespace GrammarFault

/-- The short name of a fault, as notices give it. -/
def label : GrammarFault → String
  | emptyToken => "EmptyToken"
  | malformedWait => "InvalidWait"
  | unknownKey => "UnknownKey"
  | severalKeys => "MultipleKeys"
  | noKey => "NoKey"
  | malformedRate => "InvalidRate"
  | rateOutOfRange => "RateOutOfRange"
  | trailingText => "TrailingText"
  | unclosedParen => "UnclosedParen"
  | missingSeparator => "MissingSeparator"
  | noModifier => "NoModifier"
  | tooManySteps => "TooManySteps"
  | payloadTooLong => "PayloadTooLong"

def message : GrammarFault → String
  | emptyToken => "empty token"
  | malformedWait => "malformed wait token"
  | unknownKey => "unknown key name"
  | severalKeys => "more than one key in a combo"
  | noKey => "combo has no key"
  | malformedRate => "typing rate must be (N/s)"
  | rateOutOfRange => "typing rate must be between 1 and 20"
  | trailingText => "text after the typing rate"
  | unclosedParen => "missing ')'"
  | missingSeparator => "hold sequence needs '|'"
  | noModifier => "no valid modifier to hold"
  | tooManySteps => "too many steps"
  | payloadTooLong => "payload too long"

end GrammarFault

end MacroPad
