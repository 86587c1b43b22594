/-
`Kind.lean` -- the four kinds of macro.

Each kind has a grammar of its own for the text of its macros. The lower-case
name of a kind is the one that is stored; when a name is read from elsewhere,
ASCII case does not matter, and a reader may choose to take every unknown name
for the first kind.
-/
import MacroPad.Text.Blank

set_option autoImplicit false

namespace MacroPad

/-- What the text of a macro means. -/
inductive Kind where
  /-- Chords and waits, one after the other. -/
  | keystroke
  /-- Free text, typed at a steady rate. -/
  | typing
  /-- A single chord. -/
  | keybind
  /-- Modifiers held around a sequence. -/
  | holdSequence
deriving DecidableEq, Repr

namespace Kind

/-- The stored name. -/
def name : Kind → String
  | keystroke => "keystroke"
  | typing => "typing"
  | keybind => "keybind"
  | holdSequence => "holdseq"

/-- The kinds in the order of their stored numbers. -/
def all : List Kind := [keystroke, typing, keybind, holdSequence]

/-- The kind of a new macro. -/
def standard : Kind := keystroke

/-- The kind of a stored name. -/
def ofExactName? (name : String) : Option Kind := all.find? (·.name == name)

/-- The kind of a name in any ASCII case. -/
def ofName? (name : List Char) : Option Kind :=
  ofExactName? (String.ofList (name.map Char.toLower))

/-- The kind of a name in any ASCII case and with blanks around it; a name that
is not known means the standard kind. -/
def ofNameOrStandard (name : List Char) : Kind := (ofName? (Text.trim name)).getD standard

/-- The stored number of a kind. -/
def index : Kind → Nat
  | keystroke => 0
  | typing => 1
  | keybind => 2
  | holdSequence => 3

/-- The kind of a stored number. -/
def ofIndex? (i : Nat) : Option Kind := all[i]?

theorem ofExactName?_name (kind : Kind) : ofExactName? kind.name = some kind := by
  cases kind <;> decide

theorem ofIndex?_index (kind : Kind) : ofIndex? kind.index = some kind := by
  cases kind <;> rfl

theorem ofIndex?_eq_some_iff {i : Nat} {kind : Kind} : ofIndex? i = some kind ↔ i = kind.index := by
  constructor
  · intro h
    match i with
    | 0 | 1 | 2 | 3 =>
        obtain rfl := Option.some.inj h
        rfl
    | n + 4 => contradiction
  · rintro rfl
    exact ofIndex?_index kind

theorem ofIndex?_eq_none_iff {i : Nat} : ofIndex? i = none ↔ all.length ≤ i :=
  List.getElem?_eq_none_iff

end Kind

end MacroPad
