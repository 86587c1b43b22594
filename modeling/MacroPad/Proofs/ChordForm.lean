/-
`ChordForm.lean` -- the words of chords, and why no chord is a wait.

Each word of a chord names a modifier or a key, by the names that hold sequences know
as well. A token is taken for a wait by its two ends: it starts with a digit and ends
in `s`. In a chord that starts with a digit this digit is the key, so the words after
it name modifiers, and the name of no modifier ends in `s`.
-/
import MacroPad.Grammar.Chord
import MacroPad.Proofs.KeyForm

set_option autoImplicit false

namespace MacroPad

/-! ## Words -/

namespace Vocabulary

variable {token : List Char} {key : Key} {modifier : ModifierKey}

private theorem namesKey_of_word {name : String} (hmem : (name, key) ∈ keyWords)
    (hname : String.ofList (folded token) = name) : NamesKey token key := by
  have hspelled : folded token = name.toList := by rw [← hname, String.toList_ofList]
  rw [NamesKey, ← folded, hspelled]
  exact .word hmem

/-- A word of a chord that stands for a modifier is a name of it. -/
theorem namesModifier_of_chordWord? (h : chordWord? token = some (.modifier modifier)) :
    NamesModifier token modifier := by
  unfold chordWord? at h
  split at h
  case h_6 =>
    cases hmodifier : modifier? token with
    | some other =>
        rw [hmodifier] at h
        obtain rfl : other = modifier := by simpa using h
        exact modifier?_eq_some_iff.1 hmodifier
    | none =>
        simp only [hmodifier] at h
        split at h
        · split at h
          · simp at h
          · contradiction
        · simp at h
  all_goals simp at h

/-- A word of a chord that stands for a key is a name of it in a hold sequence too. -/
theorem namesKey_of_chordWord? (h : chordWord? token = some (.key key)) : NamesKey token key := by
  unfold chordWord? at h
  split at h
  case h_6 =>
    cases hmodifier : modifier? token with
    | some other => simp [hmodifier] at h
    | none =>
        simp only [hmodifier] at h
        split at h
        · next n hnumber =>
            split at h
            · obtain ⟨other, hfunction, hkey⟩ := Option.map_eq_some_iff.1 h
              obtain rfl : other = key := by simpa using hkey
              exact keyName_of_functionNumber? hnumber hfunction
            · contradiction
        · obtain ⟨other, hprinted, hkey⟩ := Option.map_eq_some_iff.1 h
          obtain rfl : other = key := by simpa using hkey
          exact keyName_of_printed? (fun c hc => toUpper_of_mem_folded hc) hprinted
  all_goals
    next hname =>
      obtain rfl := ChordWord.key.inj (Option.some.inj h)
      exact namesKey_of_word (by decide) hname

/-- Words are looked up without the blanks around them. -/
theorem chordWord?_trim (token : List Char) : chordWord? (Text.trim token) = chordWord? token := by
  have hfolded : folded (Text.trim token) = folded token := by
    rw [folded, Text.trim_trim, folded]
  unfold chordWord? modifier?
  rw [hfolded]

/-- A letter that is an `s` in lower case is an `S` in upper case. -/
private theorem toUpper_of_toLower_eq {c : Char} (h : c.toLower = 's') : c.toUpper = 'S' := by
  rcases toLower_eq_s_iff.1 h with rfl | rfl <;> rfl

/-- No name of a modifier ends in `s`. -/
theorem not_endsInS_of_namesModifier (h : NamesModifier token modifier) :
    ¬ EndsInS (Text.trim token) := by
  rintro ⟨c, hc, hs⟩
  obtain ⟨name, hmem, hspelled⟩ := h
  have hnames : ∀ entry ∈ modifierNames, entry.1.toList.getLast? ≠ some 'S' := by decide +kernel
  have hlast : name.toList.getLast? = some 'S' := by
    rw [← hspelled, List.getLast?_map, hc, Option.map_some, toUpper_of_toLower_eq hs]
  exact hnames _ hmem hlast

end Vocabulary

/-! ## Reading words -/

namespace Chord

open Vocabulary

variable {before after : Partial} {word : List Char} {words : List (List Char)} {key : Key}

/-- What it takes to read one more word, and what is known then. -/
theorem add_eq_ok (h : before.add word = .ok after) :
    Text.isAllBlank word = false ∧
      ((∃ modifier, NamesModifier word modifier ∧ after.key = before.key) ∨
        ∃ key, NamesKey word key ∧ before.key = none ∧ after.key = some key) := by
  unfold Partial.add at h
  split at h
  · contradiction
  · next hblank =>
      refine ⟨Bool.eq_false_iff.2 hblank, ?_⟩
      split at h
      · contradiction
      · next modifier hword =>
          obtain rfl := Except.ok.inj h
          exact .inl ⟨modifier, namesModifier_of_chordWord? hword, rfl⟩
      · next key hword =>
          split at h
          · contradiction
          · next hnone =>
              obtain rfl := Except.ok.inj h
              exact .inr ⟨key, namesKey_of_chordWord? hword, hnone, rfl⟩

theorem foldlM_add_cons_eq_ok (h : (word :: words).foldlM Partial.add before = .ok after) :
    ∃ next, before.add word = .ok next ∧ words.foldlM Partial.add next = .ok after := by
  rw [List.foldlM_cons] at h
  cases hnext : before.add word with
  | error fault =>
      rw [hnext] at h
      contradiction
  | ok next =>
      rw [hnext] at h
      exact ⟨next, rfl, h⟩

/-- After the key of a chord only names of modifiers follow. -/
theorem namesModifier_of_key (hkey : before.key = some key)
    (h : words.foldlM Partial.add before = .ok after) :
    ∀ word ∈ words, ∃ modifier, NamesModifier word modifier := by
  induction words generalizing before with
  | nil => exact fun word hmem => absurd hmem List.not_mem_nil
  | cons first words ih =>
      obtain ⟨next, hfirst, hrest⟩ := foldlM_add_cons_eq_ok h
      obtain ⟨-, ⟨modifier, hnames, hsame⟩ | ⟨other, -, hnone, -⟩⟩ := add_eq_ok hfirst
      · exact List.forall_mem_cons.2 ⟨⟨modifier, hnames⟩, ih (hsame.trans hkey) hrest⟩
      · rw [hkey] at hnone
        contradiction

variable {token : List Char} {chord : Chord}

/-- A chord is read word by word, and ends with a key. -/
theorem exists_foldlM_of_ofText (h : ofText token = .ok chord) :
    ∃ last : Partial, (token.splitOn '+').foldlM Partial.add .start = .ok last ∧
      last.key = some chord.key := by
  unfold ofText at h
  cases hfold : (token.splitOn '+').foldlM Partial.add .start with
  | error fault =>
      rw [hfold] at h
      contradiction
  | ok last =>
      rw [hfold] at h
      have hfinish : last.finish = .ok chord := h
      unfold Partial.finish at hfinish
      split at hfinish
      · next key hkey =>
          obtain rfl := Except.ok.inj hfinish
          exact ⟨last, rfl, hkey⟩
      · contradiction

/-- **A chord does not depend on the blanks around it.** -/
theorem ofText_trim (token : List Char) : ofText (Text.trim token) = ofText token := by
  have hadd : ∀ (p : Partial) (word : List Char), p.add (Text.trim word) = p.add word := by
    intro p word
    rw [Partial.add, Text.isAllBlank_trim, chordWord?_trim, Partial.add]
  have hfold : ∀ words : List (List Char),
      words.foldlM Partial.add .start = (words.map Text.trim).foldlM Partial.add .start := by
    intro words
    rw [List.foldlM_map]
    simp only [hadd]
  rw [ofText, hfold, Text.map_trim_splitOn_trim rfl, ← hfold, ofText]

/-! ## Chords and waits -/

/-- A text starts with its first piece. -/
theorem exists_append_of_splitOn_cons {first : List Char} (h : token.splitOn '+' = first :: words) :
    ∃ tail, token = first ++ tail := by
  have htoken : ['+'].intercalate (first :: words) = token := by rw [← h, List.intercalate_splitOn]
  cases words with
  | nil => exact ⟨[], by rw [← htoken]; simp⟩
  | cons second words =>
      rw [List.intercalate_cons_cons, List.append_assoc] at htoken
      exact ⟨_, htoken.symm⟩

/-- A text ends with its last piece. -/
theorem exists_append_of_splitOn_concat {last : List Char}
    (h : token.splitOn '+' = words ++ [last]) : ∃ front, token = front ++ last := by
  have hjoin : ∀ pieces : List (List Char),
      ∃ front, ['+'].intercalate (pieces ++ [last]) = front ++ last := by
    intro pieces
    induction pieces with
    | nil => exact ⟨[], by simp⟩
    | cons piece pieces ih =>
        obtain ⟨front, hfront⟩ := ih
        cases pieces with
        | nil => exact ⟨piece ++ ['+'], by simp⟩
        | cons second pieces =>
            refine ⟨piece ++ ['+'] ++ front, ?_⟩
            rw [List.cons_append, List.cons_append, List.intercalate_cons_cons,
              ← List.cons_append, hfront, List.append_assoc (piece ++ ['+'])]
  obtain ⟨front, hfront⟩ := hjoin words
  exact ⟨front, by rw [← hfront, ← h, List.intercalate_splitOn]⟩

/-- **No chord is read as a wait**, nor as a malformed one. -/
theorem ofToken_eq_notAWait (h : ofText token = .ok chord) :
    WaitReading.ofToken token = .notAWait := by
  rw [WaitReading.ofToken_eq_notAWait_iff]
  rintro ⟨hstart, d, hd, hs⟩
  obtain ⟨c, hc, hdigit⟩ := WaitReading.startsWithDigit_iff.1 hstart
  obtain ⟨done, hfold, -⟩ := exists_foldlM_of_ofText h
  cases hsplit : token.splitOn '+' with
  | nil => exact absurd hsplit (List.splitOn_ne_nil '+' token)
  | cons first words =>
      rw [hsplit] at hfold
      obtain ⟨next, hfirst, hrest⟩ := foldlM_add_cons_eq_ok hfold
      obtain ⟨hblank, hword⟩ := add_eq_ok hfirst
      obtain ⟨tail, htail⟩ := exists_append_of_splitOn_cons hsplit
      have hhead : (Text.trim first).head? = some c := by
        rw [← Text.head?_trim_append hblank tail, ← htail]
        exact hc
      -- the first word starts with the digit, so it is the key of that digit
      obtain ⟨modifier, hnames, -⟩ | ⟨key, hnames, -, hkey⟩ := hword
      · exact not_namesModifier_of_isDigit hhead hdigit hnames
      rcases List.eq_nil_or_concat words with rfl | ⟨init, last, rfl⟩
      · -- the token is this digit
        have htoken : token = first := by
          have hjoin : ['+'].intercalate (token.splitOn '+') = token := by
            rw [List.intercalate_splitOn]
          rw [hsplit] at hjoin
          simpa using hjoin.symm
        rw [htoken, trim_eq_singleton_of_namesKey hnames hhead hdigit] at hd
        obtain rfl : c = d := Option.some.inj hd
        exact WaitReading.toLower_ne (.inl hdigit) (.inr rfl) hs
      · -- the last word names a modifier, and it ends as the token does
        rw [List.concat_eq_append] at hsplit hrest
        rw [← List.cons_append] at hsplit
        obtain ⟨front, hfront⟩ := exists_append_of_splitOn_concat hsplit
        obtain ⟨modifier, hmodifier⟩ := namesModifier_of_key hkey hrest last (by simp)
        have hlast : Text.isAllBlank last = false := by
          rw [← Bool.not_eq_true]
          intro hall
          exact not_namesModifier_of_isAllBlank hall hmodifier
        refine not_endsInS_of_namesModifier hmodifier ⟨d, ?_, hs⟩
        rw [← Text.getLast?_trim_append hlast front, ← hfront]
        exact hd

end Chord

end MacroPad
