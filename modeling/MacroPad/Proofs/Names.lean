/-
`Names.lean` -- the names of modifiers and keys, as a reader would list them.

The vocabulary looks a token up. Here the names are written down, and the lookup is
shown to find a key exactly where the token spells one of its names. The names of
one list are all different, so the order of a list does not matter.
-/
import MacroPad.Grammar.Hold
import MacroPad.Proofs.Trimming

set_option autoImplicit false

namespace MacroPad

/-- The names of the modifiers. The left key is meant where no side is named. -/
def modifierNames : List (String × ModifierKey) :=
  [("LCTRL", .leftCtrl), ("CTRL", .leftCtrl), ("CONTROL", .leftCtrl),
    ("LSHIFT", .leftShift), ("SHIFT", .leftShift), ("LALT", .leftAlt), ("ALT", .leftAlt),
    ("LGUI", .leftGui), ("GUI", .leftGui), ("LWIN", .leftGui), ("WIN", .leftGui),
    ("CMD", .leftGui), ("RCTRL", .rightCtrl), ("RSHIFT", .rightShift), ("RALT", .rightAlt),
    ("RGUI", .rightGui), ("RWIN", .rightGui)]

/-- The keys of a hold sequence that are named by a word. -/
def keyWords : List (String × Key) :=
  [("TAB", .tab), ("ENTER", .enter), ("RETURN", .enter), ("ESC", .escape), ("ESCAPE", .escape),
    ("SPACE", .space), ("SPACEBAR", .space), ("BACKSPACE", .backspace), ("DELETE", .delete),
    ("DEL", .delete), ("HOME", .home), ("END", .endKey), ("PGUP", .pageUp), ("PAGEUP", .pageUp),
    ("PGDN", .pageDown), ("PAGEDOWN", .pageDown), ("LEFT", .left), ("RIGHT", .right),
    ("UP", .up), ("DOWN", .down)]

/-- The names of the keys of a hold sequence: words, letters, digits, and `F` with
a number of one or two digits. -/
inductive KeyName : List Char → Key → Prop
  | word {name : String} {key : Key} (h : (name, key) ∈ keyWords) : KeyName name.toList key
  | letter (place : Fin 26) : KeyName [Char.ofNat ('A'.toNat + place)] (.letter place)
  | digit (value : Fin 10) : KeyName [Char.ofNat ('0'.toNat + value)] (.digit value)
  | function {digits : List Char} (place : Fin 24)
      (hlength : digits.length = 1 ∨ digits.length = 2)
      (hdigits : ∀ c ∈ digits, c.isDigit = true)
      (hvalue : Text.Decimal.value digits = place + 1) : KeyName ('F' :: digits) (.function place)

/-- The token, trimmed and in any ASCII case, is a name of the modifier. -/
def NamesModifier (token : List Char) (key : ModifierKey) : Prop :=
  ∃ name, (name, key) ∈ modifierNames ∧ (Text.trim token).map Char.toUpper = name.toList

/-- The token, trimmed and in any ASCII case, is a name of the key. -/
def NamesKey (token : List Char) (key : Key) : Prop :=
  KeyName ((Text.trim token).map Char.toUpper) key

/-- The set holds the modifiers that the pieces name, and no others. -/
def Modifiers.UnionOf (m : Modifiers) (pieces : List (List Char)) : Prop :=
  ∀ key, m.has key = true ↔ ∃ piece ∈ pieces, NamesModifier piece key

namespace Vocabulary

variable {token : List Char}

/-! ## Looking a name up -/

private theorem lookup_eq_some_iff_mem {α : Type} {table : List (String × α)}
    (hnames : (table.map Prod.fst).Nodup) {name : String} {a : α} :
    table.lookup name = some a ↔ (name, a) ∈ table := by
  induction table with
  | nil => simp
  | cons entry table ih =>
      obtain ⟨other, b⟩ := entry
      rw [List.map_cons, List.nodup_cons] at hnames
      rw [List.lookup_cons, List.mem_cons, Prod.mk.injEq]
      by_cases hname : name = other
      · subst hname
        have hnot : (name, a) ∉ table := fun hmem =>
          hnames.1 (List.mem_map.2 ⟨(name, a), hmem, rfl⟩)
        simp [hnot, eq_comm]
      · rw [beq_false_of_ne hname]
        simp [hname, ih hnames.2]

private theorem toList_eq_iff {cs : List Char} {name : String} :
    cs = name.toList ↔ String.ofList cs = name := by
  rw [← String.toList_inj, String.toList_ofList]

/-! ## Modifiers -/

theorem modifier?_eq_lookup (token : List Char) :
    modifier? token = modifierNames.lookup (String.ofList (folded token)) := by
  unfold modifier?
  generalize String.ofList (folded token) = name
  split
  case h_18 =>
    -- no name was matched, so the list has none
    rw [eq_comm, List.lookup_eq_none_iff]
    simp_all [modifierNames]
  all_goals rfl

/-- **Modifiers by name.** -/
theorem modifier?_eq_some_iff {key : ModifierKey} :
    modifier? token = some key ↔ NamesModifier token key := by
  simp only [NamesModifier, toList_eq_iff, exists_eq_right']
  rw [modifier?_eq_lookup, folded, lookup_eq_some_iff_mem (by decide)]

theorem modifier?_eq_none_iff :
    modifier? token = none ↔ ∀ key, ¬ NamesModifier token key := by
  simp only [Option.eq_none_iff_forall_ne_some, Ne, modifier?_eq_some_iff]

/-! ## Upper case -/

private theorem toUpper_eq_self {c : Char} (h : c.toNat < 97 ∨ 122 < c.toNat) :
    c.toUpper = c := by
  have hnot : ¬ ('a'.val ≤ c.val ∧ c.val ≤ 'z'.val) := by
    rintro ⟨h₁, h₂⟩
    have h₁ : 97 ≤ c.toNat := h₁
    have h₂ : c.toNat ≤ 122 := h₂
    omega
  exact dif_neg hnot

private theorem toNat_toUpper {c : Char} (h₁ : 97 ≤ c.toNat) (h₂ : c.toNat ≤ 122) :
    c.toUpper.toNat = c.toNat - 32 := by
  have hval : c.toUpper.val = c.val + ('A'.val - 'a'.val) := by
    delta Char.toUpper
    rw [dif_pos ⟨h₁, h₂⟩]
  rw [Char.toNat, hval, UInt32.toNat_add]
  simp
  omega

/-- Only a small letter has an upper case of its own, 32 places back. -/
theorem toUpper_cases (c : Char) :
    c.toUpper = c ∧ ¬ (97 ≤ c.toNat ∧ c.toNat ≤ 122) ∨
      97 ≤ c.toNat ∧ c.toNat ≤ 122 ∧ c.toUpper.toNat = c.toNat - 32 := by
  by_cases h : 97 ≤ c.toNat ∧ c.toNat ≤ 122
  · exact .inr ⟨h.1, h.2, toNat_toUpper h.1 h.2⟩
  · exact .inl ⟨toUpper_eq_self (by omega), h⟩

theorem toUpper_toUpper (c : Char) : c.toUpper.toUpper = c.toUpper := by
  by_cases h : 97 ≤ c.toNat ∧ c.toNat ≤ 122
  · apply toUpper_eq_self
    rw [toNat_toUpper h.1 h.2]
    omega
  · have hself : c.toUpper = c := toUpper_eq_self (by omega)
    rw [hself, hself]

private theorem toUpper_of_isDigit {c : Char} (h : c.isDigit = true) : c.toUpper = c := by
  have hle := (Text.isDigit_iff.1 h).2
  exact toUpper_eq_self (by omega)

/-- A token is looked up in upper case. -/
theorem toUpper_of_mem_folded {c : Char} (h : c ∈ folded token) : c.toUpper = c := by
  obtain ⟨d, -, rfl⟩ := List.mem_map.1 h
  exact toUpper_toUpper d

theorem not_namesModifier_of_isDigit {c : Char} {key : ModifierKey}
    (hc : (Text.trim token).head? = some c) (hdigit : c.isDigit = true) :
    ¬ NamesModifier token key := by
  rintro ⟨name, hmem, hspelled⟩
  have hnames : ∀ entry ∈ modifierNames, entry.1.toList.head?.any Char.isDigit = false := by
    decide +kernel
  have hname := hnames _ hmem
  rw [← hspelled, List.head?_map, hc, Option.map_some, toUpper_of_isDigit hdigit,
    Option.any_some, hdigit] at hname
  contradiction

theorem not_namesModifier_of_isAllBlank {key : ModifierKey} (h : Text.isAllBlank token = true) :
    ¬ NamesModifier token key := by
  rintro ⟨name, hmem, hspelled⟩
  have hnames : ∀ entry ∈ modifierNames, entry.1.toList ≠ [] := by decide +kernel
  apply hnames _ hmem
  rw [← hspelled, Text.trim_eq_nil_iff.2 h]
  rfl

/-! ## Keys -/

theorem sequenceKey?_eq (token : List Char) :
    sequenceKey? token =
      (keyWords.lookup (String.ofList (folded token))).or
        (match functionNumber? (folded token) with
          | some n => Key.ofFunctionNumber? n
          | none => printed? (folded token)) := by
  unfold sequenceKey?
  generalize String.ofList (folded token) = name
  split
  case h_21 =>
    have hnone : keyWords.lookup name = none := by
      rw [List.lookup_eq_none_iff]
      simp_all [keyWords]
    rw [hnone]
    rfl
  all_goals rfl

theorem functionNumber?_eq_some_iff {cs : List Char} {n : Nat} :
    functionNumber? cs = some n ↔ ∃ digits, cs = 'F' :: digits ∧
      (digits.length = 1 ∨ digits.length = 2) ∧ (∀ c ∈ digits, c.isDigit = true) ∧
        Text.Decimal.value digits = n := by
  unfold functionNumber?
  split
  · next digits => simp [and_assoc, List.all_eq_true]
  · next hnot =>
      constructor
      · intro h
        contradiction
      · rintro ⟨digits, rfl, -⟩
        exact absurd rfl (hnot digits)

theorem keyName_of_printed? {cs : List Char} {key : Key}
    (hupper : ∀ c ∈ cs, c.toUpper = c) (h : printed? cs = some key) : KeyName cs key := by
  unfold printed? at h
  split at h
  · next c =>
      rcases Option.or_eq_some_iff.1 h with hletter | ⟨-, hdigit⟩
      · simp only [Key.ofLetter?] at hletter
        split at hletter
        · next hrange =>
            obtain rfl := Option.some.inj hletter
            -- the character is in upper case, so its place is counted from `A` as it is
            have hself : [c] = [c.toUpper] := by rw [hupper c List.mem_cons_self]
            have hname := KeyName.letter ⟨c.toUpper.toNat - 'A'.toNat, by omega⟩
            rw [Nat.add_sub_cancel' hrange.1, Char.ofNat_toNat] at hname
            rw [hself]
            exact hname
        · contradiction
      · obtain ⟨value, hvalue, rfl⟩ := Option.map_eq_some_iff.1 hdigit
        unfold Text.digit? at hvalue
        split at hvalue
        · next hrange =>
            obtain rfl := Option.some.inj hvalue
            have hname := KeyName.digit ⟨c.toNat - '0'.toNat, by omega⟩
            rwa [Nat.add_sub_cancel' hrange.1, Char.ofNat_toNat] at hname
        · contradiction
  · contradiction

theorem keyName_of_functionNumber? {cs : List Char} {n : Nat} {key : Key}
    (hnumber : functionNumber? cs = some n) (hkey : Key.ofFunctionNumber? n = some key) :
    KeyName cs key := by
  obtain ⟨digits, rfl, hlength, hdigits, hvalue⟩ := functionNumber?_eq_some_iff.1 hnumber
  unfold Key.ofFunctionNumber? at hkey
  split at hkey
  · next hrange =>
      obtain rfl := Option.some.inj hkey
      refine .function ⟨n - 1, by omega⟩ hlength hdigits ?_
      have hplace : n = n - 1 + 1 := by omega
      rw [hvalue]
      exact hplace
  · contradiction

/-- **Keys by name.** -/
theorem sequenceKey?_eq_some_iff {key : Key} :
    sequenceKey? token = some key ↔ NamesKey token key := by
  have hupper : ∀ c ∈ folded token, c.toUpper = c := fun c hc => toUpper_of_mem_folded hc
  rw [sequenceKey?_eq, NamesKey, ← folded]
  generalize folded token = cs at hupper ⊢
  constructor
  · -- a word is looked for first, then a number after `F`, then a single character
    intro h
    rcases Option.or_eq_some_iff.1 h with hword | ⟨-, hother⟩
    · have hname := KeyName.word ((lookup_eq_some_iff_mem (by decide)).1 hword)
      rwa [String.toList_ofList] at hname
    · cases hnumber : functionNumber? cs with
      | some n =>
          rw [hnumber] at hother
          exact keyName_of_functionNumber? hnumber hother
      | none =>
          rw [hnumber] at hother
          exact keyName_of_printed? hupper hother
  · -- no name of a later kind is one of an earlier kind
    intro h
    cases h with
    | word hmem =>
        rw [String.ofList_toList, (lookup_eq_some_iff_mem (by decide)).2 hmem]
        rfl
    | letter place =>
        clear hupper
        revert place
        decide +kernel
    | digit value =>
        clear hupper
        revert value
        decide +kernel
    | @function digits place hlength hdigits hvalue =>
        have hwords : ∀ entry ∈ keyWords, entry.1.toList.head? ≠ some 'F' := by decide +kernel
        have hnone : keyWords.lookup (String.ofList ('F' :: digits)) = none := by
          rw [List.lookup_eq_none_iff]
          intro entry hentry
          rw [bne_iff_ne]
          intro hname
          apply hwords entry hentry
          rw [← hname, String.toList_ofList]
          rfl
        rw [hnone, Option.none_or,
          functionNumber?_eq_some_iff.2 ⟨digits, rfl, hlength, hdigits, hvalue⟩]
        have hrange : 1 ≤ place.val + 1 ∧ place.val + 1 ≤ 24 := by omega
        simp [Key.ofFunctionNumber?, hrange]

/-- A digit begins no other name of a key than its own. -/
theorem trim_eq_singleton_of_namesKey {c : Char} {key : Key} (h : NamesKey token key)
    (hc : (Text.trim token).head? = some c) (hdigit : c.isDigit = true) :
    Text.trim token = [c] := by
  have hhead : (folded token).head? = some c := by
    rw [folded, List.head?_map, hc, Option.map_some, toUpper_of_isDigit hdigit]
  have hlength : (folded token).length = 1 := by
    rw [NamesKey, ← folded] at h
    generalize folded token = cs at h hhead
    cases h with
    | word hmem =>
        have hwords : ∀ entry ∈ keyWords, entry.1.toList.head?.any Char.isDigit = false := by
          decide +kernel
        have hword := hwords _ hmem
        rw [hhead, Option.any_some, hdigit] at hword
        contradiction
    | letter => rfl
    | digit => rfl
    | function =>
        obtain rfl : 'F' = c := Option.some.inj hhead
        contradiction
  rw [folded, List.length_map] at hlength
  obtain ⟨d, hd⟩ := List.length_eq_one_iff.1 hlength
  rw [hd] at hc ⊢
  rw [Option.some.inj hc]

end Vocabulary

/-! ## Joining the modifiers of a list of names -/

namespace Modifiers

variable {a b m : Modifiers} {key : ModifierKey}

/-- A set is known by what it holds, since every bit is a key. -/
theorem ext_has (h : ∀ key, a.has key = b.has key) : a = b := by
  have hplace : ∀ i : Fin 8, ∃ key : ModifierKey, key.place = i := fun i =>
    ⟨ModifierKey.all[i], by revert i; decide⟩
  have hbits : a.bits.toBitVec = b.bits.toBitVec := by
    apply BitVec.eq_of_getLsbD_eq
    intro i hi
    -- the bit is the place of a key, on which the two sets agree
    obtain ⟨key, hkey⟩ := hplace ⟨i, hi⟩
    have hbit := h key
    rw [has, has, hkey] at hbit
    exact hbit
  cases a
  cases b
  rw [mk.injEq]
  exact UInt8.toBitVec_inj.1 hbits

@[simp] theorem has_none (key : ModifierKey) : none.has key = false := by
  cases key <;> rfl

theorem has_join {ms : List Modifiers} :
    (join ms).has key = true ↔ ∃ m ∈ ms, m.has key = true := by
  have hfold : ∀ m : Modifiers,
      (ms.foldl (· ∪ ·) m).has key = (m.has key || ms.any fun m => m.has key) := by
    induction ms with
    | nil => simp
    | cons m' ms ih =>
        intro m
        rw [List.foldl_cons, ih, has_union, List.any_cons, Bool.or_assoc]
  rw [join, hfold, has_none, Bool.false_or, List.any_eq_true]

theorem isNone_iff : m.isNone = true ↔ ∀ key, m.has key = false := by
  have hnone : m.isNone = true ↔ m = none := by
    cases m
    rw [isNone, beq_iff_eq, none, mk.injEq]
  rw [hnone]
  constructor
  · rintro rfl key
    exact has_none key
  · intro h
    exact ext_has fun key => by rw [h key, has_none]

theorem UnionOf.unique {pieces : List (List Char)} (ha : a.UnionOf pieces)
    (hb : b.UnionOf pieces) : a = b :=
  ext_has fun key => Bool.eq_iff_iff.2 ((ha key).trans (hb key).symm)

end Modifiers

/-- **The modifiers of a list of names** are those that the names name. -/
theorem Vocabulary.unionOf_join (names : List (List Char)) :
    (Modifiers.join ((names.filterMap modifier?).map .only)).UnionOf names := by
  intro key
  rw [Modifiers.has_join]
  constructor
  · rintro ⟨m, hm, hhas⟩
    obtain ⟨other, hother, rfl⟩ := List.mem_map.1 hm
    rw [Modifiers.has_only, decide_eq_true_eq] at hhas
    subst hhas
    obtain ⟨name, hname, hnames⟩ := List.mem_filterMap.1 hother
    exact ⟨name, hname, modifier?_eq_some_iff.1 hnames⟩
  · rintro ⟨name, hname, hnames⟩
    have hmem : key ∈ names.filterMap modifier? :=
      List.mem_filterMap.2 ⟨name, hname, modifier?_eq_some_iff.2 hnames⟩
    refine ⟨.only key, List.mem_map_of_mem hmem, ?_⟩
    rw [Modifiers.has_only, decide_eq_true_eq]

/-- Blank pieces may be left out, since they name nothing. -/
theorem Modifiers.UnionOf.of_filter {m : Modifiers} {pieces : List (List Char)}
    (h : m.UnionOf (pieces.filter fun piece => !Text.isAllBlank piece)) : m.UnionOf pieces := by
  intro key
  rw [h key]
  constructor
  · rintro ⟨piece, hpiece, hnames⟩
    exact ⟨piece, (List.mem_filter.1 hpiece).1, hnames⟩
  · rintro ⟨piece, hpiece, hnames⟩
    have hblank : Text.isAllBlank piece = false := by
      rw [← Bool.not_eq_true]
      intro hall
      exact Vocabulary.not_namesModifier_of_isAllBlank hall hnames
    exact ⟨piece, List.mem_filter.2 ⟨hpiece, by rw [hblank]; rfl⟩, hnames⟩

theorem Hold.unionOf_heldModifiers (names : List (List Char)) :
    (heldModifiers names).UnionOf names := by
  have hjoin : heldModifiers names = .join ((names.filterMap Vocabulary.modifier?).map .only) := by
    rw [heldModifiers, List.map_filterMap]
  rw [hjoin]
  exact Vocabulary.unionOf_join names

end MacroPad
