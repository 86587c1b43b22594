/-
`Chord.lean` -- the grammar of chords.

A chord is a list of words joined by `+`, in any order: exactly one key and any
number of modifiers. Words are read from the left, and the first one that does
not fit decides the fault.
-/
import MacroPad.Grammar.Fault
import MacroPad.Grammar.Vocabulary
import MacroPad.Keyboard.Layout

set_option autoImplicit false

namespace MacroPad.Chord

/-- A chord of which some words have been read. -/
structure Partial where
  key : Option Key
  modifiers : Modifiers
deriving DecidableEq, Repr

/-- No word has been read. -/
def Partial.start : Partial := ⟨none, .none⟩

/-- Read one more word. -/
def Partial.add (chord : Partial) (word : List Char) : Except GrammarFault Partial :=
  if Text.isAllBlank word then .error .emptyToken
  else
    match Vocabulary.chordWord? word with
    | none => .error .unknownKey
    | some (.modifier key) => .ok ⟨chord.key, chord.modifiers ∪ .only key⟩
    | some (.key key) =>
        match chord.key with
        | some _ => .error .severalKeys
        | none => .ok ⟨some key, chord.modifiers⟩

/-- The chord when all words have been read. -/
def Partial.finish (chord : Partial) : Except GrammarFault Chord :=
  match chord.key with
  | some key => .ok ⟨key, chord.modifiers⟩
  | none => .error .noKey

/-- Read a chord. -/
def ofText (cs : List Char) : Except GrammarFault Chord := do
  let chord ← (cs.splitOn '+').foldlM Partial.add Partial.start
  chord.finish

end MacroPad.Chord
