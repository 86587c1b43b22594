/-
`Modifiers.lean` -- sets of modifier keys.

A set of modifiers is the first byte of a keyboard report, one bit per physical
key. Every byte is such a set, and joining two sets joins their bits.
-/
set_option autoImplicit false

namespace MacroPad

/-- A physical modifier key. -/
inductive ModifierKey where
  | leftCtrl | leftShift | leftAlt | leftGui
  | rightCtrl | rightShift | rightAlt | rightGui
deriving DecidableEq, Repr

/-- The bit of a modifier key, counted from the lowest. -/
def ModifierKey.place : ModifierKey → Fin 8
  | leftCtrl => ⟨0, by decide⟩
  | leftShift => ⟨1, by decide⟩
  | leftAlt => ⟨2, by decide⟩
  | leftGui => ⟨3, by decide⟩
  | rightCtrl => ⟨4, by decide⟩
  | rightShift => ⟨5, by decide⟩
  | rightAlt => ⟨6, by decide⟩
  | rightGui => ⟨7, by decide⟩

/-- The modifier keys from the lowest bit to the highest. -/
def ModifierKey.all : List ModifierKey :=
  [leftCtrl, leftShift, leftAlt, leftGui, rightCtrl, rightShift, rightAlt, rightGui]

/-- A set of modifier keys, as the byte that reports it. -/
structure Modifiers where
  bits : UInt8
deriving DecidableEq, Repr

namespace Modifiers

/-- No modifier. -/
def none : Modifiers := ⟨0⟩

/-- The set of one modifier key. -/
def only (key : ModifierKey) : Modifiers := ⟨1 <<< UInt8.ofNat key.place⟩

instance : Union Modifiers := ⟨fun a b => ⟨a.bits ||| b.bits⟩⟩

/-- No modifier is in the set. -/
def isNone (m : Modifiers) : Bool := m.bits == 0

/-- The key is in the set. -/
def has (m : Modifiers) (key : ModifierKey) : Bool := m.bits.toBitVec.getLsbD key.place

/-- Either Alt key is in the set. Both work for typing a character by number. -/
def hasAlt (m : Modifiers) : Bool := m.has .leftAlt || m.has .rightAlt

/-- The join of a list of sets. -/
def join (ms : List Modifiers) : Modifiers := ms.foldl (· ∪ ·) none

/-! ## Joining -/

@[simp] theorem bits_union (a b : Modifiers) : (a ∪ b).bits = a.bits ||| b.bits := rfl

theorem union_comm (a b : Modifiers) : a ∪ b = b ∪ a :=
  congrArg Modifiers.mk (UInt8.or_comm _ _)

theorem union_assoc (a b c : Modifiers) : a ∪ b ∪ c = a ∪ (b ∪ c) :=
  congrArg Modifiers.mk (UInt8.or_assoc _ _ _)

@[simp] theorem union_self (a : Modifiers) : a ∪ a = a :=
  congrArg Modifiers.mk UInt8.or_self

@[simp] theorem none_union (a : Modifiers) : none ∪ a = a :=
  congrArg Modifiers.mk UInt8.zero_or

@[simp] theorem union_none (a : Modifiers) : a ∪ none = a :=
  congrArg Modifiers.mk UInt8.or_zero

@[simp] theorem has_union (a b : Modifiers) (key : ModifierKey) :
    (a ∪ b).has key = (a.has key || b.has key) := by
  simp [has]

theorem has_only (a b : ModifierKey) : (only a).has b = decide (a = b) := by
  cases a <;> cases b <;> rfl

@[simp] theorem hasAlt_union (a b : Modifiers) : (a ∪ b).hasAlt = (a.hasAlt || b.hasAlt) := by
  simp only [hasAlt, has_union]
  cases a.has .leftAlt <;> cases a.has .rightAlt <;> simp

end Modifiers

end MacroPad
