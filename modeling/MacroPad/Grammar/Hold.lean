/-
`Hold.lean` -- the grammar of hold sequences.

A hold sequence is `modifiers | sequence`. It tolerates what it does not know:
names on the left that are no modifiers and tokens on the right that mean nothing
are left out, each with a notice. Digits are keypad digits while Alt is held, and
a right side of digits, commas and spaces only is then one number: the code of
one character.
-/
import MacroPad.Grammar.Reading
import MacroPad.Grammar.Vocabulary
import MacroPad.Grammar.Wait
import MacroPad.Macro.Plan

set_option autoImplicit false

namespace MacroPad.Hold

/-- The room for the items of a sequence. -/
def itemLimit : Nat := 64

/-- The room for the digits of one number. -/
def digitLimit : Nat := 64

/-! ## The left side -/

/-- The modifiers that the names on the left stand for. -/
def heldModifiers (names : List (List Char)) : Modifiers :=
  .join (names.filterMap fun name => (Vocabulary.modifier? name).map .only)

/-- The names on the left that stand for none. -/
def strangers (names : List (List Char)) : List (List Char) :=
  names.filter fun name => (Vocabulary.modifier? name).isNone

/-! ## The right side -/

/-- ASCII digits, as the bytes that are typed; other characters are left out. -/
def digitsOf (cs : List Char) : Except GrammarFault (List UInt8) :=
  let digits := cs.filter Char.isDigit
  if digits.length ≤ digitLimit then .ok (digits.map fun c => UInt8.ofNat c.toNat)
  else .error .tooManySteps

/-- Digits, commas and spaces, with at least one digit. -/
def isAltCode (cs : List Char) : Bool :=
  cs.any Char.isDigit && cs.all fun c => c.isDigit || c == ',' || c == ' '

/-- A key with any number of modifiers before it. Blank names among the modifiers
are passed over. -/
def press? (token : List Char) : Option SequenceItem :=
  -- without a `+` there is only the key
  let (before, name) := (Text.cutLast? '+' token).getD ([], token)
  let names := (before.splitOn '+').filter fun name => !Text.isAllBlank name
  match names.mapM Vocabulary.modifier?, Vocabulary.sequenceKey? name with
  | some keys, some key => some (.press key.usage (.join (keys.map .only)))
  | _, _ => none

/-- Read one token of the sequence; `none` if it means nothing. -/
def item? (altHeld : Bool) (token : List Char) : Except GrammarFault (Option SequenceItem) :=
  match WaitReading.ofToken token with
  | .wait ms => .ok (some (.wait ms))
  -- a malformed wait is passed over like any other token that means nothing
  | .malformed => .ok none
  | .notAWait =>
      if altHeld && token.all Char.isDigit then (digitsOf token).map fun ds => some (.digits ds)
      else .ok (press? token)

/-- Read the tokens of the sequence while there is room for their items. -/
def items (altHeld : Bool) : Nat → List (List Char) → Reading (List SequenceItem)
  | _, [] => .silent (.ok [])
  | room, token :: rest =>
      match item? altHeld token with
      | .error fault => .silent (.error fault)
      | .ok none => (items altHeld room rest).after [.unknownToken (String.ofList token)]
      | .ok (some item) =>
          match room with
          | 0 => .silent (.error .tooManySteps)
          | room + 1 => (items altHeld room rest).map (item :: ·)

/-- The tokens of the sequence: trimmed, blank ones left out. -/
def tokens (cs : List Char) : List (List Char) :=
  ((cs.splitOn ',').map Text.trim).filter fun token => !token.isEmpty

/-- Read the right side. -/
def content (altHeld : Bool) (cs : List Char) : Reading HoldContent :=
  if altHeld && isAltCode cs then .silent ((digitsOf cs).map .altCode)
  else (items altHeld itemLimit (tokens cs)).map .sequence

/-! ## The whole -/

/-- Read a hold sequence. -/
def ofText (cs : List Char) : Reading (Modifiers × HoldContent) :=
  match Text.cutFirst? '|' cs with
  | none => .silent (.error .missingSeparator)
  | some (left, right) =>
      let names := left.splitOn '+'
      let held := heldModifiers names
      let ignored := (strangers names).map fun name =>
        Notice.notAModifier (String.ofList (Text.trim name))
      if held.isNone then ⟨ignored, .error .noModifier⟩
      else
        ((content held.hasAlt (Text.trim right)).map fun content => (held, content)).after ignored

end MacroPad.Hold
