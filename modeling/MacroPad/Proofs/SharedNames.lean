/-
`SharedNames.lean` -- what chords and hold sequences have in common.

A chord and a key of a hold sequence look alike: names with `+` between them. They are looked up
in vocabularies of their own, which agree where they meet. Both know the same modifiers, no name of
a modifier is a name of a key, and whatever is a key in a chord is the same key in a hold sequence.
So a chord that ends in its key is a key of a hold sequence with the same modifiers, and such a key
is a chord if its name is known there and no piece is blank.
-/
import MacroPad.Proofs.ChordGrammar

set_option autoImplicit false

namespace MacroPad

open Vocabulary

/-! ## Names -/

section Names

variable {word : List Char} {modifier : ModifierKey} {key : Key}

/-- **The modifiers are the same.** None of them has the name of a key that chords look for
before. -/
theorem Vocabulary.chordWord?_eq_modifier_iff :
    chordWord? word = some (.modifier modifier) ↔ modifier? word = some modifier := by
  constructor
  · intro h
    exact modifier?_eq_some_iff.2 (namesModifier_of_chordWord? h)
  · intro h
    have hlookup := h
    rw [modifier?_eq_lookup] at hlookup
    unfold chordWord?
    split
    case h_6 => rw [h]
    all_goals
      next hname =>
        rw [hname] at hlookup
        contradiction

/-- **No modifier is a key.** -/
theorem Vocabulary.sequenceKey?_eq_none_of_modifier (h : modifier? word = some modifier) :
    sequenceKey? word = none := by
  obtain ⟨name, hmem, hspelled⟩ := modifier?_eq_some_iff.1 h
  have hnames : ∀ entry ∈ modifierNames, keyWords.lookup entry.1 = none ∧
      functionNumber? entry.1.toList = none ∧ printed? entry.1.toList = none := by
    decide +kernel
  obtain ⟨hword, hfunction, hprinted⟩ := hnames _ hmem
  rw [sequenceKey?_eq, folded, hspelled, String.ofList_toList, hword, hfunction, hprinted]
  rfl

/-- **What is a key in a chord is the same key in a hold sequence**, and no modifier. -/
theorem Vocabulary.sequenceKey?_of_chordWord? (h : chordWord? word = some (.key key)) :
    sequenceKey? word = some key ∧ modifier? word = none := by
  refine ⟨sequenceKey?_eq_some_iff.2 (namesKey_of_chordWord? h), ?_⟩
  rw [Option.eq_none_iff_forall_ne_some]
  intro modifier hmodifier
  rw [chordWord?_eq_modifier_iff.2 hmodifier] at h
  simp at h

/-- A name of a key that chords know at all is the same key there. -/
theorem Vocabulary.chordWord?_of_namesKey (hname : NamesKey word key)
    (hknown : chordWord? word ≠ none) :
    chordWord? word = some (.key key) := by
  have hkey := sequenceKey?_eq_some_iff.2 hname
  cases hword : chordWord? word with
  | none => exact absurd hword hknown
  | some meaning =>
      cases meaning with
      | key other =>
          obtain rfl : other = key :=
            Option.some.inj ((sequenceKey?_of_chordWord? hword).1.symm.trans hkey)
          rfl
      | modifier modifier =>
          have hnone := sequenceKey?_eq_none_of_modifier (chordWord?_eq_modifier_iff.1 hword)
          rw [hkey] at hnone
          contradiction

theorem namesModifier_trim :
    NamesModifier (Text.trim word) modifier ↔ NamesModifier word modifier := by
  rw [NamesModifier, Text.trim_trim, NamesModifier]

theorem namesKey_trim : NamesKey (Text.trim word) key ↔ NamesKey word key := by
  rw [NamesKey, Text.trim_trim, NamesKey]

end Names

/-! ## Blanks around a key with modifiers -/

section Trimming

variable {token name : List Char} {pieces before : List (List Char)} {key : Key} {extra : Modifiers}

theorem Modifiers.unionOf_map_trim :
    extra.UnionOf (pieces.map Text.trim) ↔ extra.UnionOf pieces := by
  simp only [UnionOf, List.mem_map, exists_exists_and_eq_and, namesModifier_trim]

/-- The form of a key with modifiers is that of its trimmed pieces. -/
theorem keyForm_iff_trimmed :
    KeyForm token key extra ↔
      ∃ before name, (token.splitOn '+').map Text.trim = before ++ [name] ∧ NamesKey name key ∧
        (∀ piece ∈ before, Text.isAllBlank piece = false →
          ∃ modifier, NamesModifier piece modifier) ∧
        extra.UnionOf before := by
  constructor
  · rintro ⟨before, name, hsplit, hname, hpieces, hunion⟩
    refine ⟨before.map Text.trim, Text.trim name, ?_, namesKey_trim.2 hname, ?_,
      Modifiers.unionOf_map_trim.2 hunion⟩
    · rw [hsplit, List.map_append, List.map_singleton]
    · simp only [List.forall_mem_map, Text.isAllBlank_trim, namesModifier_trim]
      exact hpieces
  · rintro ⟨before, name, hsplit, hname, hpieces, hunion⟩
    obtain ⟨front, back, hfront, rfl, hback⟩ := List.map_eq_append_iff.1 hsplit
    obtain ⟨last, rfl, rfl⟩ := List.map_eq_singleton_iff.1 hback
    refine ⟨front, last, hfront, namesKey_trim.1 hname, ?_, Modifiers.unionOf_map_trim.1 hunion⟩
    simpa only [List.forall_mem_map, Text.isAllBlank_trim, namesModifier_trim] using hpieces

theorem keyForm_trim : KeyForm (Text.trim token) key extra ↔ KeyForm token key extra := by
  rw [keyForm_iff_trimmed, Text.map_trim_splitOn_trim rfl, ← keyForm_iff_trimmed]

end Trimming

/-! ## Chords and keys with modifiers -/

section Chords

variable {cs last : List Char} {before : List (List Char)} {chord : Chord} {key : Key}
  {extra : Modifiers}

/-- Where only the last word is a key, the words before it are the others. -/
theorem filter_chordKey?_isNone (hnone : ∀ word ∈ before, chordKey? word = none)
    (hkey : chordKey? last = some key) :
    (before ++ [last]).filter (fun word => (chordKey? word).isNone) = before := by
  have hbefore : ∀ word ∈ before, (chordKey? word).isNone = true := fun word hmem =>
    Option.isNone_iff_eq_none.2 (hnone word hmem)
  rw [List.filter_append, List.filter_eq_self.2 hbefore, List.filter_singleton, hkey]
  exact List.append_nil before

/-- A chord that ends in its key has the form of a key with modifiers. -/
theorem Chord.MadeOf.keyForm (h : chord.MadeOf (cs.splitOn '+'))
    (hsplit : cs.splitOn '+' = before ++ [last]) (hlast : chordWord? last = some (.key key)) :
    KeyForm cs chord.key chord.modifiers := by
  obtain ⟨hknown, hkeys, hunion⟩ := h
  rw [hsplit] at hknown hkeys hunion
  have hkey : chordKey? last = some key := chordKey?_eq_some_iff.2 hlast
  -- the last word is the only key, so all the words before it are modifiers
  rw [List.filterMap_append, List.filterMap_cons_some hkey, List.filterMap_nil,
    ← List.nil_append [chord.key]] at hkeys
  obtain ⟨hnone, hsame⟩ := List.append_inj' hkeys rfl
  obtain rfl : key = chord.key := List.singleton_inj.1 hsame
  rw [List.filterMap_eq_nil_iff] at hnone
  rw [filter_chordKey?_isNone hnone hkey] at hunion
  refine ⟨before, last, hsplit, namesKey_of_chordWord? hlast, fun word hmem _ => ?_, hunion⟩
  obtain ⟨key, hword⟩ | ⟨-, modifier, hword⟩ :=
    (hknown word (List.mem_append_left _ hmem)).key_or_modifier
  · rw [hnone word hmem] at hword
    contradiction
  · exact ⟨modifier, namesModifier_of_chordWord? hword⟩

/-- A key with modifiers whose name chords know, and without blank pieces, is a chord. -/
theorem KeyForm.madeOf (h : KeyForm cs key extra) (hsplit : cs.splitOn '+' = before ++ [last])
    (hblank : ∀ piece ∈ cs.splitOn '+', Text.isAllBlank piece = false)
    (hknown : chordWord? last ≠ none) : Chord.MadeOf ⟨key, extra⟩ (cs.splitOn '+') := by
  obtain ⟨before', last', hsplit', hname, hpieces, hunion⟩ := h
  obtain ⟨rfl, hsame⟩ := List.append_inj' (hsplit'.symm.trans hsplit) rfl
  obtain rfl : last' = last := List.singleton_inj.1 hsame
  rw [hsplit] at hblank ⊢
  obtain ⟨hbefore, hlast⟩ := List.forall_mem_append.1 hblank
  have hword : chordWord? last' = some (.key key) := chordWord?_of_namesKey hname hknown
  have hkey : chordKey? last' = some key := chordKey?_eq_some_iff.2 hword
  have hmodifiers : ∀ piece ∈ before',
      ∃ modifier, chordWord? piece = some (.modifier modifier) := by
    intro piece hmem
    obtain ⟨modifier, hmodifier⟩ := hpieces piece hmem (hbefore piece hmem)
    exact ⟨modifier, chordWord?_eq_modifier_iff.2 (modifier?_eq_some_iff.2 hmodifier)⟩
  have hnone : ∀ piece ∈ before', chordKey? piece = none := by
    intro piece hmem
    obtain ⟨modifier, hmodifier⟩ := hmodifiers piece hmem
    rw [chordKey?, hmodifier]
  refine ⟨?_, ?_, ?_⟩
  · rw [List.forall_mem_append, List.forall_mem_singleton]
    refine ⟨fun piece hmem => ⟨hbefore piece hmem, ?_⟩, hlast _ (by simp), hknown⟩
    obtain ⟨modifier, hmodifier⟩ := hmodifiers piece hmem
    simp [hmodifier]
  · rw [List.filterMap_append, List.filterMap_eq_nil_iff.2 hnone, List.filterMap_cons_some hkey]
    rfl
  · rw [filter_chordKey?_isNone hnone hkey]
    exact hunion

end Chords

/-! ## The law -/

/-- **The vocabularies agree.** A word is a modifier in a chord exactly where it names one in a hold
sequence, and it then is no key; and a key in a chord is the same key in a hold sequence, and no
modifier. So a chord that ends in its key is read as that key with the same modifiers. Conversely, a
key with modifiers is read as that chord if no piece is blank and chords know the name of its
key. -/
theorem vocabularies_agree :
    (∀ (word : List Char) (modifier : ModifierKey),
      (chordWord? word = some (.modifier modifier) ↔ modifier? word = some modifier) ∧
        (modifier? word = some modifier → sequenceKey? word = none)) ∧
    (∀ (word : List Char) (key : Key), chordWord? word = some (.key key) →
      sequenceKey? word = some key ∧ modifier? word = none) ∧
    (∀ (cs last : List Char) (before : List (List Char)) (chord : Chord) (key : Key),
      Chord.ofText cs = .ok chord → cs.splitOn '+' = before ++ [last] →
        chordWord? last = some (.key key) →
          Hold.press? (Text.trim cs) = some (.press chord.key.usage chord.modifiers)) ∧
    ∀ (cs last : List Char) (before : List (List Char)) (usage : UInt8) (extra : Modifiers),
      Hold.press? cs = some (.press usage extra) → cs.splitOn '+' = before ++ [last] →
        (∀ piece ∈ cs.splitOn '+', Text.isAllBlank piece = false) → chordWord? last ≠ none →
          ∃ key : Key, key.usage = usage ∧ Chord.ofText cs = .ok ⟨key, extra⟩ := by
  refine ⟨fun word modifier => ⟨chordWord?_eq_modifier_iff, sequenceKey?_eq_none_of_modifier⟩,
    fun word key => sequenceKey?_of_chordWord?, ?_, ?_⟩
  · intro cs last before chord key hread hsplit hlast
    have hform := (Chord.ofText_eq_ok_iff.1 hread).keyForm hsplit hlast
    exact Hold.press?_eq_some_iff.2 ⟨_, _, keyForm_trim.2 hform, rfl⟩
  · intro cs last before usage extra hread hsplit hblank hknown
    obtain ⟨key, other, hform, hitem⟩ := Hold.press?_eq_some_iff.1 hread
    obtain ⟨rfl, rfl⟩ := SequenceItem.press.inj hitem
    exact ⟨key, rfl, Chord.ofText_eq_ok_iff.2 (hform.madeOf hsplit hblank hknown)⟩

/-- A function key with a leading zero and two names of one modifier. -/
theorem vocabularies_agree_f07 :
    let text := " ctrl + LCtrl+rwin+f07 ".toList
    Chord.ofText text = .ok ⟨.function 6, .only .leftCtrl ∪ .only .rightGui⟩ ∧
      Hold.press? (Text.trim text) = some (.press 64 (.only .leftCtrl ∪ .only .rightGui)) ∧
      ∃ key : Key, key.usage = 64 ∧
        Chord.ofText (Text.trim text) = .ok ⟨key, .only .leftCtrl ∪ .only .rightGui⟩ := by
  intro text
  have hread : Chord.ofText text = .ok ⟨.function 6, .only .leftCtrl ∪ .only .rightGui⟩ := by
    decide +kernel
  obtain ⟨-, -, hkeys, hchords⟩ := vocabularies_agree
  have hkey : chordWord? "f07 ".toList = some (.key (.function 6)) := by decide +kernel
  have hpress := hkeys text "f07 ".toList [" ctrl ".toList, " LCtrl".toList, "rwin".toList] _ _
    hread (by decide +kernel) hkey
  refine ⟨hread, hpress, ?_⟩
  exact hchords _ "f07".toList ["ctrl ".toList, " LCtrl".toList, "rwin".toList] _ _ hpress
    (by decide +kernel) (by decide +kernel) (by decide +kernel)

end MacroPad
