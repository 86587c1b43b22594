/-
`ChordGrammar.lean` -- the grammar of chords as a relation.

A chord is written as words with `+` between them. Exactly one of the words is a key and all
others are modifiers, so a chord is known by its words without their order. The order matters
only for a text that is turned away: the first word that does not fit behind the words before it
decides the fault, and a text in which every word fits is turned away only if it has no key. The
statement at the end says that reading a text gives what the grammar says, and that words may be
rearranged and modifiers repeated.
-/
import Mathlib.Data.List.Induction
import MacroPad.Proofs.ChordForm
import MacroPad.Proofs.LeftToRight

set_option autoImplicit false

namespace MacroPad

open Vocabulary

/-! ## Words -/

/-- The key that a word of a chord stands for. -/
def Vocabulary.chordKey? (word : List Char) : Option Key :=
  match chordWord? word with
  | some (.key key) => some key
  | some (.modifier _) | none => none

/-- The word is one of a chord. -/
def IsChordWord (word : List Char) : Prop :=
  Text.isAllBlank word = false ∧ chordWord? word ≠ none

/-- The chord has these words: each has a meaning, exactly one is a key, and the others name the
modifiers. -/
structure Chord.MadeOf (chord : Chord) (words : List (List Char)) : Prop where
  known : ∀ word ∈ words, IsChordWord word
  key : words.filterMap chordKey? = [chord.key]
  modifiers : chord.modifiers.UnionOf (words.filter fun word => (chordKey? word).isNone)

/-- Why a word does not fit behind some others. -/
inductive WordOffends (before : List (List Char)) (word : List Char) : GrammarFault → Prop
  | blank (hblank : Text.isAllBlank word = true) : WordOffends before word .emptyToken
  | unknown (hblank : Text.isAllBlank word = false) (hunknown : chordWord? word = none) :
      WordOffends before word .unknownKey
  | secondKey {earlier : List Char} {first second : Key} (hmem : earlier ∈ before)
      (hfirst : chordKey? earlier = some first) (hsecond : chordKey? word = some second) :
      WordOffends before word .severalKeys

/-- Each of the words fits behind the words before it. -/
def NoneOffends (words : List (List Char)) : Prop :=
  ∀ before word after, words = before ++ word :: after → ∀ fault, ¬ WordOffends before word fault

/-- What becomes of a text that is read as a chord. -/
inductive ChordText (cs : List Char) : Except GrammarFault Chord → Prop
  | accepted {chord : Chord} (hwords : chord.MadeOf (cs.splitOn '+')) : ChordText cs (.ok chord)
  | rejected {before after : List (List Char)} {word : List Char} {fault : GrammarFault}
      (hsplit : cs.splitOn '+' = before ++ word :: after) (hbefore : NoneOffends before)
      (hoffends : WordOffends before word fault) : ChordText cs (.error fault)
  | noKey (hnone : NoneOffends (cs.splitOn '+'))
      (hall : ∀ word ∈ cs.splitOn '+', ∃ modifier, chordWord? word = some (.modifier modifier)) :
      ChordText cs (.error .noKey)

section Words

variable {word : List Char} {words before after : List (List Char)} {key : Key}
  {modifier : ModifierKey} {fault : GrammarFault}

theorem Vocabulary.chordKey?_eq_some_iff :
    chordKey? word = some key ↔ chordWord? word = some (.key key) := by
  unfold chordKey?
  split
  · next other hword => rw [hword, Option.some.injEq, Option.some.injEq, ChordWord.key.injEq]
  · next modifier hword => simp [hword]
  · next hword => simp [hword]

/-- A word of a chord is a key or a modifier. -/
theorem IsChordWord.key_or_modifier (h : IsChordWord word) :
    (∃ key, chordKey? word = some key) ∨
      chordKey? word = none ∧ ∃ modifier, chordWord? word = some (.modifier modifier) := by
  cases hword : chordWord? word with
  | none => exact absurd hword h.2
  | some meaning =>
      cases meaning with
      | key key => exact .inl ⟨key, chordKey?_eq_some_iff.2 hword⟩
      | modifier modifier => exact .inr ⟨by rw [chordKey?, hword], modifier, rfl⟩

/-! ## Where no word offends -/

theorem noneOffends_nil : NoneOffends [] := by
  intro before word after hsplit
  simp at hsplit

/-- The last word has to fit, and so have the words before it. -/
theorem noneOffends_concat_iff :
    NoneOffends (words ++ [word]) ↔
      NoneOffends words ∧ ∀ fault, ¬ WordOffends words word fault := by
  constructor
  · intro h
    refine ⟨fun before other after hsplit => ?_, h words word [] rfl⟩
    exact h before other (after ++ [word]) (by rw [hsplit, List.append_assoc, List.cons_append])
  · rintro ⟨hwords, hword⟩ before other after hsplit
    rcases List.eq_nil_or_concat after with rfl | ⟨init, last, rfl⟩
    · obtain ⟨rfl, hlast⟩ := List.append_inj' hsplit rfl
      rw [← List.singleton_inj.1 hlast]
      exact hword
    · rw [List.concat_eq_append, ← List.cons_append, ← List.append_assoc] at hsplit
      exact hwords before other init (List.append_inj' hsplit rfl).1

/-- Where a word offends, a first one does. -/
theorem noneOffends_or_exists (words : List (List Char)) :
    NoneOffends words ∨ ∃ before word after fault, words = before ++ word :: after ∧
      NoneOffends before ∧ WordOffends before word fault := by
  refine fits_or_exists_first noneOffends_nil (fun before word hbefore => ?_) words
  by_cases hword : ∃ fault, WordOffends before word fault
  · exact .inr hword
  · exact .inl (noneOffends_concat_iff.2 ⟨hbefore, fun fault h => hword ⟨fault, h⟩⟩)

end Words

/-! ## Reading words -/

namespace Chord.Partial

/-- What is known of a chord when these words have been read. -/
structure AfterWords (chord : Partial) (words : List (List Char)) : Prop where
  known : ∀ word ∈ words, IsChordWord word
  key : words.filterMap chordKey? = chord.key.toList
  modifiers : chord.modifiers.UnionOf (words.filter fun word => (chordKey? word).isNone)

variable {chord next : Partial} {word : List Char} {words : List (List Char)} {key : Key}
  {modifier : ModifierKey} {fault : GrammarFault}

theorem afterWords_start : AfterWords .start [] := by
  refine ⟨by simp, rfl, fun key => ?_⟩
  simp [start]

theorem AfterWords.add_key (h : chord.AfterWords words) (hword : IsChordWord word)
    (hkey : chordKey? word = some key) (hnone : chord.key = none) :
    AfterWords ⟨some key, chord.modifiers⟩ (words ++ [word]) := by
  refine ⟨?_, ?_, ?_⟩
  · rw [List.forall_mem_append, List.forall_mem_singleton]
    exact ⟨h.known, hword⟩
  · rw [List.filterMap_append, h.key, hnone]
    simp [hkey]
  · -- the new word is a key, so it is none of those that name modifiers
    rw [List.filter_append]
    simpa [hkey] using h.modifiers

theorem AfterWords.add_modifier (h : chord.AfterWords words) (hword : IsChordWord word)
    (hnone : chordKey? word = none) (hmodifier : chordWord? word = some (.modifier modifier)) :
    AfterWords ⟨chord.key, chord.modifiers ∪ .only modifier⟩ (words ++ [word]) := by
  have hnames : ∀ other, NamesModifier word other ↔ modifier = other := by
    intro other
    rw [← modifier?_eq_some_iff,
      modifier?_eq_some_iff.2 (namesModifier_of_chordWord? hmodifier), Option.some.injEq]
  refine ⟨?_, ?_, fun other => ?_⟩
  · rw [List.forall_mem_append, List.forall_mem_singleton]
    exact ⟨h.known, hword⟩
  · rw [List.filterMap_append, h.key]
    simp [hnone]
  · rw [Modifiers.has_union, Bool.or_eq_true, Modifiers.has_only, decide_eq_true_eq,
      h.modifiers other, List.filter_append]
    simp [hnone, or_and_right, exists_or, hnames]

/-- A word that fits is read. -/
theorem AfterWords.exists_add (h : chord.AfterWords words)
    (hfits : ∀ fault, ¬ WordOffends words word fault) :
    ∃ next, chord.add word = .ok next ∧ AfterWords next (words ++ [word]) := by
  have hblank : Text.isAllBlank word = false :=
    Bool.eq_false_iff.2 fun hall => hfits _ (.blank hall)
  have hword : IsChordWord word := ⟨hblank, fun hnone => hfits _ (.unknown hblank hnone)⟩
  obtain ⟨key, hkey⟩ | ⟨hnone, modifier, hmodifier⟩ := hword.key_or_modifier
  · have hfirst : chord.key = none := by
      rw [Option.eq_none_iff_forall_ne_some]
      intro earlier hearlier
      have hmem : earlier ∈ words.filterMap chordKey? := by rw [h.key, hearlier]; simp
      obtain ⟨other, hother, hkeyOf⟩ := List.mem_filterMap.1 hmem
      exact hfits _ (.secondKey hother hkeyOf hkey)
    refine ⟨_, ?_, h.add_key hword hkey hfirst⟩
    rw [add, hblank, chordKey?_eq_some_iff.1 hkey]
    simp [hfirst]
  · refine ⟨_, ?_, h.add_modifier hword hnone hmodifier⟩
    rw [add, hblank, hmodifier]
    rfl

/-- A word that does not fit is turned away. -/
theorem AfterWords.add_eq_error (h : chord.AfterWords words)
    (hoffends : WordOffends words word fault) :
    chord.add word = .error fault := by
  cases hoffends with
  | blank hblank => rw [add, if_pos hblank]
  | unknown hblank hunknown =>
      rw [add, hblank, hunknown]
      rfl
  | @secondKey earlier first second hmem hfirst hsecond =>
      have hkey : chordWord? word = some (.key second) := chordKey?_eq_some_iff.1 hsecond
      have hblank : Text.isAllBlank word = false := by
        rw [← Bool.not_eq_true]
        intro hall
        rw [← chordWord?_trim, Text.trim_eq_nil_iff.2 hall] at hkey
        contradiction
      have hread : first ∈ chord.key.toList := by
        rw [← h.key]
        exact List.mem_filterMap.2 ⟨earlier, hmem, hfirst⟩
      rw [add, hblank, hkey]
      simp [Option.mem_toList.1 hread]

/-- **Words are read as long as they fit.** -/
theorem exists_foldlM_of_noneOffends (h : NoneOffends words) :
    ∃ chord, words.foldlM add start = .ok chord ∧ AfterWords chord words := by
  induction words using List.reverseRecOn with
  | nil => exact ⟨start, rfl, afterWords_start⟩
  | append_singleton words word ih =>
      obtain ⟨hwords, hword⟩ := noneOffends_concat_iff.1 h
      obtain ⟨chord, hfold, hchord⟩ := ih hwords
      obtain ⟨next, hadd, hnext⟩ := hchord.exists_add hword
      exact ⟨next, foldlM_concat_of_ok hfold hadd, hnext⟩

/-- Words that make up a chord all fit. -/
theorem AfterWords.noneOffends (h : chord.AfterWords words) : NoneOffends words := by
  rintro before word after rfl fault hoffends
  have hword : IsChordWord word := h.known word (by simp)
  cases hoffends with
  | blank hblank => exact absurd (hword.1.symm.trans hblank) Bool.false_ne_true
  | unknown _ hunknown => exact hword.2 hunknown
  | @secondKey earlier first second hmem hfirst hsecond =>
      -- two keys are more than there can be
      have hlength := congrArg List.length h.key
      have hbefore : 0 < (before.filterMap chordKey?).length :=
        List.length_pos_of_mem (List.mem_filterMap.2 ⟨earlier, hmem, hfirst⟩)
      have hone : chord.key.toList.length ≤ 1 := by cases chord.key <;> simp
      rw [List.filterMap_append, List.filterMap_cons_some hsecond, List.length_append,
        List.length_cons] at hlength
      omega

end Chord.Partial

/-! ## Texts -/

section Texts

variable {cs : List Char} {words repeated : List (List Char)} {chord : Chord}

theorem Chord.madeOf_iff_afterWords :
    chord.MadeOf words ↔ Partial.AfterWords ⟨some chord.key, chord.modifiers⟩ words :=
  ⟨fun h => ⟨h.known, h.key, h.modifiers⟩, fun h => ⟨h.known, h.key, h.modifiers⟩⟩

/-- What is known of the words is all that reading them depends on. -/
theorem Chord.Partial.AfterWords.foldlM_eq {chord : Partial} (h : chord.AfterWords words) :
    words.foldlM add start = .ok chord := by
  obtain ⟨⟨key, modifiers⟩, hfold, hother⟩ := exists_foldlM_of_noneOffends h.noneOffends
  have hkey : key = chord.key := by
    simpa using congrArg List.head? (hother.key.symm.trans h.key)
  obtain rfl := hkey
  obtain rfl : modifiers = chord.modifiers := hother.modifiers.unique h.modifiers
  exact hfold

/-- What the grammar says of a text is read from it. -/
theorem ChordText.ofText_eq {result : Except GrammarFault Chord} (h : ChordText cs result) :
    Chord.ofText cs = result := by
  rw [Chord.ofText]
  cases h with
  | @accepted chord hwords =>
      rw [(Chord.madeOf_iff_afterWords.1 hwords).foldlM_eq]
      rfl
  | @rejected before after word fault hsplit hbefore hoffends =>
      obtain ⟨chord, hfold, hchord⟩ := Chord.Partial.exists_foldlM_of_noneOffends hbefore
      rw [hsplit, foldlM_eq_error_of_first hfold (hchord.add_eq_error hoffends)]
      rfl
  | noKey hnone hall =>
      obtain ⟨chord, hfold, hchord⟩ := Chord.Partial.exists_foldlM_of_noneOffends hnone
      have hkeys : (cs.splitOn '+').filterMap chordKey? = [] := by
        rw [List.filterMap_eq_nil_iff]
        intro word hmem
        obtain ⟨modifier, hmodifier⟩ := hall word hmem
        rw [chordKey?, hmodifier]
      have hkey : chord.key = none := Option.toList_eq_nil_iff.1 (hchord.key.symm.trans hkeys)
      rw [hfold]
      change chord.finish = _
      rw [Chord.Partial.finish, hkey]

/-- The grammar says something of every text. -/
theorem exists_chordText (cs : List Char) : ∃ result, ChordText cs result := by
  rcases noneOffends_or_exists (cs.splitOn '+') with
    hnone | ⟨before, word, after, fault, hsplit, hbefore, hoffends⟩
  · obtain ⟨chord, -, hchord⟩ := Chord.Partial.exists_foldlM_of_noneOffends hnone
    cases hkey : chord.key with
    | some key =>
        have hmade : Chord.MadeOf ⟨key, chord.modifiers⟩ (cs.splitOn '+') := by
          rw [Chord.madeOf_iff_afterWords, ← hkey]
          exact hchord
        exact ⟨_, .accepted hmade⟩
    | none =>
        -- there is no key among the words, so each of them is a modifier
        refine ⟨_, .noKey hnone fun word hmem => ?_⟩
        obtain ⟨key, hword⟩ | ⟨-, hmodifier⟩ := (hchord.known word hmem).key_or_modifier
        · have hmem : key ∈ (cs.splitOn '+').filterMap chordKey? :=
            List.mem_filterMap.2 ⟨word, hmem, hword⟩
          rw [hchord.key, hkey] at hmem
          exact absurd hmem List.not_mem_nil
        · exact hmodifier
  · exact ⟨_, .rejected hsplit hbefore hoffends⟩

/-- What is read of a text is what the grammar says of it. -/
theorem Chord.chordText_ofText (cs : List Char) : ChordText cs (ofText cs) := by
  obtain ⟨result, htext⟩ := exists_chordText cs
  rwa [htext.ofText_eq]

/-- **A chord is what its words make up.** -/
theorem Chord.ofText_eq_ok_iff : ofText cs = .ok chord ↔ chord.MadeOf (cs.splitOn '+') := by
  constructor
  · intro h
    have htext := chordText_ofText cs
    rw [h] at htext
    cases htext with
    | accepted hwords => exact hwords
  · intro h
    exact (ChordText.accepted h).ofText_eq

/-- Only modifiers repeat, and neither that nor the order makes another chord. -/
theorem Chord.MadeOf.of_perm {words' : List (List Char)} (h : chord.MadeOf words)
    (hrepeated : ∀ word ∈ repeated, word ∈ words ∧ chordKey? word = none)
    (hperm : words'.Perm (words ++ repeated)) : chord.MadeOf words' := by
  have hmem : ∀ word, word ∈ words' ↔ word ∈ words := by
    intro word
    rw [hperm.mem_iff, List.mem_append]
    exact or_iff_left_of_imp fun hword => (hrepeated word hword).1
  refine ⟨fun word hword => h.known word ((hmem word).1 hword), ?_, fun key => ?_⟩
  · have hnone : repeated.filterMap chordKey? = [] :=
      List.filterMap_eq_nil_iff.2 fun word hword => (hrepeated word hword).2
    have hkeys := hperm.filterMap chordKey?
    rwa [List.filterMap_append, hnone, h.key, List.append_nil, List.perm_singleton] at hkeys
  · rw [h.modifiers key]
    simp only [List.mem_filter, hmem]

end Texts

/-! ## The law -/

/-- **The grammar of chords.** Of every text, what is read is what the grammar says: a chord if
each word between the `+` has a meaning and exactly one of them is a key, and otherwise the fault
of the first word that does not fit, or that there is no key. A chord does not depend on the order
of its words nor on how often a modifier is repeated. -/
theorem chordText_iff_read (cs : List Char) (result : Except GrammarFault Chord) :
    (ChordText cs result ↔ Chord.ofText cs = result) ∧
      ∀ (chord : Chord) (cs' : List Char) (repeated : List (List Char)),
        Chord.ofText cs = .ok chord →
          (∀ word ∈ repeated, word ∈ cs.splitOn '+' ∧ chordKey? word = none) →
            (cs'.splitOn '+').Perm (cs.splitOn '+' ++ repeated) → Chord.ofText cs' = .ok chord := by
  refine ⟨⟨ChordText.ofText_eq, ?_⟩, ?_⟩
  · rintro rfl
    exact Chord.chordText_ofText cs
  · intro chord cs' repeated hread hrepeated hperm
    rw [Chord.ofText_eq_ok_iff] at hread ⊢
    exact hread.of_perm hrepeated hperm

/-- An unknown word comes before a second key, and a chord is the same with its key in front and
Shift twice. -/
theorem chordText_iff_read_shift_twice :
    ChordText "A+Bogus+B".toList (.error .unknownKey) ∧
      Chord.ofText " shift+RAlt+ x ".toList =
        .ok ⟨.letter 23, .only .leftShift ∪ .only .rightAlt⟩ ∧
      Chord.ofText " x + shift+RAlt+ shift".toList =
        .ok ⟨.letter 23, .only .leftShift ∪ .only .rightAlt⟩ := by
  have hread : Chord.ofText " shift+RAlt+ x ".toList =
      .ok ⟨.letter 23, .only .leftShift ∪ .only .rightAlt⟩ := by decide +kernel
  obtain ⟨hunknown, -⟩ := chordText_iff_read "A+Bogus+B".toList (.error .unknownKey)
  obtain ⟨-, hrearranged⟩ := chordText_iff_read " shift+RAlt+ x ".toList (.error .noKey)
  refine ⟨hunknown.2 (by decide +kernel), hread, ?_⟩
  refine hrearranged _ _ [" shift".toList] hread ?_ (by decide +kernel)
  rw [List.forall_mem_singleton]
  decide +kernel

end MacroPad
