/-
`Key.lean` -- the keys the pad can press.

A key has a usage, the byte that stands for it in a keyboard report, and a name,
under which it is stored. Usage 0 means "no key" and belongs to none. The usages
have gaps, so the place of a key in the list of all keys is a third number of its
own.
-/
import MacroPad.Text.Decimal

set_option autoImplicit false

namespace MacroPad

/-- A key of the keyboard page. Letters and digits are given by their value and
function keys are counted from zero, so `function 0` is `F1`. -/
inductive Key where
  | letter (place : Fin 26)
  | digit (value : Fin 10)
  | keypad (value : Fin 10)
  | function (place : Fin 24)
  | enter | escape | backspace | tab | space | minus | equal
  | home | pageUp | delete | endKey | pageDown
  | right | left | down | up
  | numLock
deriving DecidableEq, Repr

namespace Key

/-- The byte of a key in a report. Digits run from 1 to 9 and then 0, and the
function keys from `F13` on lie in a block of their own. -/
def usage : Key → UInt8
  | letter place => UInt8.ofNat (0x04 + place)
  | digit value => if value = 0 then 0x27 else UInt8.ofNat (0x1D + value)
  | enter => 0x28
  | escape => 0x29
  | backspace => 0x2A
  | tab => 0x2B
  | space => 0x2C
  | minus => 0x2D
  | equal => 0x2E
  | function place =>
      if place.val < 12 then UInt8.ofNat (0x3A + place) else UInt8.ofNat (0x68 + (place - 12))
  | home => 0x4A
  | pageUp => 0x4B
  | delete => 0x4C
  | endKey => 0x4D
  | pageDown => 0x4E
  | right => 0x4F
  | left => 0x50
  | down => 0x51
  | up => 0x52
  | numLock => 0x53
  | keypad value => if value = 0 then 0x62 else UInt8.ofNat (0x58 + value)

/-- The name a key is stored under. -/
def name : Key → String
  | letter place => String.ofList [Char.ofNat ('A'.toNat + place)]
  | digit value => "Kc" ++ Nat.repr value
  | keypad value => "Kp" ++ Nat.repr value
  | function place => "F" ++ Nat.repr (place + 1)
  | enter => "Enter"
  | escape => "Escape"
  | backspace => "Backspace"
  | tab => "Tab"
  | space => "Space"
  | minus => "Minus"
  | equal => "Equal"
  | home => "Home"
  | pageUp => "PageUp"
  | delete => "Delete"
  | endKey => "End"
  | pageDown => "PageDown"
  | right => "Right"
  | left => "Left"
  | down => "Down"
  | up => "Up"
  | numLock => "NumLock"

/-- The digits in the order of a keyboard row. -/
def rowDigits : List (Fin 10) := [1, 2, 3, 4, 5, 6, 7, 8, 9, 0]

/-- Every key once, by rising usage. -/
def all : List Key :=
  (List.finRange 26).map letter ++ rowDigits.map digit ++
    [enter, escape, backspace, tab, space, minus, equal] ++
    ((List.finRange 24).take 12).map function ++
    [home, pageUp, delete, endKey, pageDown, right, left, down, up, numLock] ++
    rowDigits.map keypad ++ ((List.finRange 24).drop 12).map function

/-- The key of a usage. -/
def ofUsage? (usage : UInt8) : Option Key := all.find? (·.usage == usage)

/-- The key of a name, spelled exactly as it is stored. -/
def ofName? (name : String) : Option Key := all.find? (·.name == name)

/-- The place of a key among all keys. -/
def index (key : Key) : Nat := all.idxOf key

/-- The key at a place. -/
def ofIndex? (i : Nat) : Option Key := all[i]?

/-! ## Keys by what is printed on them -/

/-- The key of an ASCII letter in either case. -/
def ofLetter? (c : Char) : Option Key :=
  let n := c.toUpper.toNat
  if h : 'A'.toNat ≤ n ∧ n < 'A'.toNat + 26 then some (letter ⟨n - 'A'.toNat, by omega⟩) else none

/-- The top-row key of an ASCII digit. -/
def ofDigit? (c : Char) : Option Key := (Text.digit? c).map digit

/-- The keypad key of an ASCII digit. -/
def ofKeypadDigit? (c : Char) : Option Key := (Text.digit? c).map keypad

/-- The function key `F1` to `F24` of a number from 1 to 24. -/
def ofFunctionNumber? (n : Nat) : Option Key :=
  if h : 1 ≤ n ∧ n ≤ 24 then some (function ⟨n - 1, by omega⟩) else none

/-! ## All keys are listed, and their numberings agree -/

theorem mem_all (key : Key) : key ∈ all := by
  cases key with
  | letter place => simp [all]
  | digit value => revert value; decide
  | keypad value => revert value; decide
  | function place => revert place; decide
  | _ => decide

/-- The usages rise along the list of all keys. -/
theorem usage_pairwise : (all.map usage).Pairwise (· < ·) := by decide +kernel

/-- No two keys have the same name. -/
theorem name_nodup : (all.map name).Nodup := by decide +kernel

theorem usage_nodup : (all.map usage).Nodup :=
  usage_pairwise.imp fun h => UInt8.ne_of_lt h

/-- Among values that a function tells apart, each is found by what the function
says of it. -/
private theorem find?_eq_some_of_nodup {α β : Type} [BEq β] [LawfulBEq β] {f : α → β} {l : List α}
    (h : (l.map f).Nodup) {a : α} (ha : a ∈ l) : l.find? (f · == f a) = some a := by
  induction l with
  | nil => contradiction
  | cons b l ih =>
      rw [List.map_cons, List.nodup_cons] at h
      rw [List.find?_cons]
      rcases List.mem_cons.1 ha with rfl | ha
      · simp
      · have hne : f b ≠ f a := fun he => h.1 (he ▸ List.mem_map_of_mem ha)
        rw [beq_false_of_ne hne]
        exact ih h.2 ha

@[simp] theorem ofUsage?_usage (key : Key) : ofUsage? key.usage = some key :=
  find?_eq_some_of_nodup usage_nodup (mem_all key)

@[simp] theorem ofName?_name (key : Key) : ofName? key.name = some key :=
  find?_eq_some_of_nodup name_nodup (mem_all key)

theorem usage_injective {a b : Key} (h : a.usage = b.usage) : a = b := by
  simpa using congrArg ofUsage? h

/-- Usage 0 is no key. -/
theorem usage_ne_zero (key : Key) : key.usage ≠ 0 := by
  intro h
  have hnone : ofUsage? 0 = none := by decide
  simpa [hnone] using congrArg ofUsage? h

theorem nodup_all : all.Nodup :=
  (List.pairwise_map.1 usage_nodup).imp fun h hsame => h (congrArg usage hsame)

theorem index_lt (key : Key) : key.index < all.length :=
  List.idxOf_lt_length_iff.2 (mem_all key)

@[simp] theorem ofIndex?_index (key : Key) : ofIndex? key.index = some key := by
  rw [ofIndex?, List.getElem?_eq_getElem (index_lt key)]
  exact congrArg some (List.getElem_idxOf (index_lt key))

theorem ofIndex?_eq_some_iff {i : Nat} {key : Key} : ofIndex? i = some key ↔ i = key.index := by
  constructor
  · intro h
    obtain ⟨hi, rfl⟩ := List.getElem?_eq_some_iff.1 h
    exact (nodup_all.idxOf_getElem i hi).symm
  · rintro rfl
    exact ofIndex?_index key

theorem ofIndex?_eq_none_iff {i : Nat} : ofIndex? i = none ↔ all.length ≤ i :=
  List.getElem?_eq_none_iff

end Key

end MacroPad
