/-
`RespelledText.lean` -- what a grammar reads does not depend on the spelling.

Three of the grammars cut a text at separators, trim the pieces and look words up in any case.
Words of respelled texts look alike: they are the same word, or both have a separator inside.
So every lookup has the same answer, and so does each question that is asked of a piece before
it is looked up: whether it is blank, whether it is a wait, whether it is a run of digits. From
the words the statement is carried through chords, steps and hold sequences to whole plans. Only
the wording of the notices about unknown words follows the text.
-/
import MacroPad.Grammar.Compile
import MacroPad.Proofs.HoldGrammar
import MacroPad.Proofs.Respelling

set_option autoImplicit false

namespace MacroPad

open Vocabulary

/-! ## Words that look alike -/

/-- A separator is inside the word. -/
def IsBroken (token : List Char) : Prop := ∃ sep ∈ separators, sep ∈ folded token

/-- The words start and end alike, and they are the same or both are broken. -/
structure LookAlike (x y : List Char) : Prop where
  first : (folded x).head? = (folded y).head?
  last : (folded x).getLast? = (folded y).getLast?
  name : folded x = folded y ∨ IsBroken x ∧ IsBroken y

theorem folded_trim (token : List Char) : folded (Text.trim token) = folded token := by
  rw [folded, Text.trim_trim, folded]

namespace LookAlike

variable {x y z : List Char}

theorem of_folded_eq (h : folded x = folded y) : LookAlike x y := ⟨by rw [h], by rw [h], .inl h⟩

theorem symm (h : LookAlike x y) : LookAlike y x :=
  ⟨h.first.symm, h.last.symm, h.name.imp Eq.symm And.symm⟩

theorem trans (h₁ : LookAlike x y) (h₂ : LookAlike y z) : LookAlike x z := by
  refine ⟨h₁.first.trans h₂.first, h₁.last.trans h₂.last, ?_⟩
  rcases h₁.name with hxy | ⟨hx, hy⟩ <;> rcases h₂.name with hyz | ⟨hy', hz⟩
  · exact .inl (hxy.trans hyz)
  · rw [IsBroken, ← hxy] at hy'
    exact .inr ⟨hy', hz⟩
  · rw [IsBroken, hyz] at hy
    exact .inr ⟨hx, hy⟩
  · exact .inr ⟨hx, hz⟩

theorem equivalence : Equivalence LookAlike := ⟨fun _ => .of_folded_eq rfl, symm, trans⟩

end LookAlike

section Edits

variable {x y : List Char}

private theorem trim_space_cons (cs : List Char) : Text.trim (' ' :: cs) ≠ ' ' :: cs := by
  intro h
  have hhead := Text.head?_trim (' ' :: cs)
  rw [h] at hhead
  exact absurd (hhead ' ' rfl) (by decide)

private theorem trim_concat_space (cs : List Char) : Text.trim (cs ++ [' ']) ≠ cs ++ [' '] := by
  intro h
  have hlast := Text.getLast?_trim (cs ++ [' '])
  rw [h] at hlast
  exact absurd (hlast ' ' (by simp)) (by decide)

/-- An edit between trimmed words is inside them. -/
theorem Edit.lookAlike_of_trimmed (h : Edit separators x y) (hx : Text.trim x = x)
    (hy : Text.trim y = y) : LookAlike x y := by
  have hfx : folded x = x.map Char.toUpper := by rw [folded, hx]
  have hfy : folded y = y.map Char.toUpper := by rw [folded, hy]
  cases h with
  | front => exact absurd hy (trim_space_cons x)
  | back => exact absurd hy (trim_concat_space x)
  | inside a b change =>
      cases change with
      | letter hupper =>
          refine .of_folded_eq ?_
          rw [hfx, hfy]
          simp [toUpper_toLower hupper]
      -- with a separator inside neither word is a name, so only their ends have to agree
      | @before sep hsep =>
          have hupper := toUpper_separator _ hsep
          refine ⟨?_, ?_, .inr ⟨⟨sep, hsep, ?_⟩, ⟨sep, hsep, ?_⟩⟩⟩
          · cases a with
            | nil => exact absurd hy (trim_space_cons (sep :: b))
            | cons c a => rw [hfx, hfy]; rfl
          · rw [hfx, hfy]
            simp
          · rw [hfx]
            simp [hupper]
          · rw [hfy]
            simp [hupper]
      | @after sep hsep =>
          have hupper := toUpper_separator _ hsep
          refine ⟨?_, ?_, .inr ⟨⟨sep, hsep, ?_⟩, ⟨sep, hsep, ?_⟩⟩⟩
          · rw [hfx, hfy]
            simp
          · rcases List.eq_nil_or_concat b with rfl | ⟨b, c, rfl⟩
            · have hend := trim_concat_space (a ++ [sep])
              simp only [List.append_nil, List.append_assoc] at hend hy
              exact absurd hy hend
            · rw [hfx, hfy]
              simp only [List.concat_eq_append, ← List.append_assoc, List.map_append, List.map_cons,
                List.map_nil, List.getLast?_concat]
          · rw [hfx]
            simp [hupper]
          · rw [hfy]
            simp [hupper]

/-- **Respelled words look alike.** -/
theorem Respelled.lookAlike (h : Respelled separators x y) : LookAlike x y := by
  refine h.lift (f := id) LookAlike.equivalence fun x y hedit => ?_
  rcases hedit.trim with hsame | htrim
  · exact .of_folded_eq (by rw [folded, id, hsame, folded, id])
  · have htrimmed := htrim.lookAlike_of_trimmed (Text.trim_trim x) (Text.trim_trim y)
    have hback : ∀ cs, LookAlike cs (Text.trim cs) := fun cs => .of_folded_eq (folded_trim cs).symm
    exact ((hback x).trans htrimmed).trans (hback y).symm

end Edits

/-! ## Broken words -/

namespace IsBroken

variable {x : List Char} {sep : Char}

private theorem not_isDigit : ∀ sep ∈ separators, sep.isDigit = false :=
  forall_mem_separators.2 (by decide)

private theorem toLower_separator :
    ∀ sep ∈ separators, sep.toLower = sep ∧ sep ≠ 'm' ∧ sep ≠ 's' :=
  forall_mem_separators.2 (by decide)

/-- A separator is inside the trimmed word as it is. -/
theorem exists_mem (h : IsBroken x) : ∃ sep ∈ separators, sep ∈ Text.trim x := by
  obtain ⟨sep, hsep, hmem⟩ := h
  obtain ⟨c, hc, hupper⟩ := List.mem_map.1 hmem
  obtain rfl : c = sep := toUpper_eq_separator hsep hupper
  exact ⟨c, hsep, hc⟩

theorem not_namesModifier (h : IsBroken x) (key : ModifierKey) : ¬ NamesModifier x key := by
  rintro ⟨name, hname, hspelled⟩
  obtain ⟨sep, hsep, hmem⟩ := h
  have hnames : ∀ sep ∈ separators, ∀ entry ∈ modifierNames, sep ∉ entry.1.toList :=
    forall_mem_separators.2 (by decide +kernel)
  rw [folded, hspelled] at hmem
  exact hnames sep hsep _ hname hmem

theorem not_namesKey (h : IsBroken x) (key : Key) : ¬ NamesKey x key := by
  intro hnames
  obtain ⟨sep, hsep, hmem⟩ := h
  rw [NamesKey, ← folded] at hnames
  generalize folded x = name at hnames hmem
  cases hnames with
  | word hword =>
      have hwords : ∀ sep ∈ separators, ∀ entry ∈ keyWords, sep ∉ entry.1.toList :=
        forall_mem_separators.2 (by decide +kernel)
      exact hwords sep hsep _ hword hmem
  | letter place =>
      have hletters : ∀ sep ∈ separators, ∀ place : Fin 26,
          sep ∉ [Char.ofNat ('A'.toNat + place)] := forall_mem_separators.2 (by decide)
      exact hletters sep hsep place hmem
  | digit value =>
      have hdigits : ∀ sep ∈ separators, ∀ value : Fin 10,
          sep ∉ [Char.ofNat ('0'.toNat + value)] := forall_mem_separators.2 (by decide)
      exact hdigits sep hsep value hmem
  | function _ _ hdigits _ =>
      rcases List.mem_cons.1 hmem with rfl | hdigit
      · exact absurd hsep (by decide)
      · have hnot := not_isDigit _ hsep
        rw [hdigits sep hdigit] at hnot
        contradiction

/-- A wait is made of digits, blanks and letters. -/
theorem not_waitForm (h : IsBroken x) (ms : UInt32) : ¬ WaitForm x ms := by
  rintro ⟨digits, blanks, unit, scale, hform, -, hdigits, hblanks, hunit, -⟩
  obtain ⟨sep, hsep, hmem⟩ := h.exists_mem
  have hlower := toLower_separator sep hsep
  rw [hform, List.mem_append, List.mem_append] at hmem
  rcases hmem with (hmem | hmem) | hmem
  · have hnot := not_isDigit _ hsep
    rw [hdigits sep hmem] at hnot
    contradiction
  · have hnot := isBlank_separator _ hsep
    rw [hblanks sep hmem] at hnot
    contradiction
  · have hletter : sep.toLower ∈ unit.map Char.toLower := List.mem_map_of_mem hmem
    cases hunit with
    | ms hunit =>
        rw [hunit, hlower.1] at hletter
        simp [hlower.2.1, hlower.2.2] at hletter
    | s hunit =>
        rw [hunit, hlower.1] at hletter
        simp [hlower.2.2] at hletter

theorem all_isDigit_eq_false (h : IsBroken x) : (Text.trim x).all Char.isDigit = false := by
  obtain ⟨sep, hsep, hmem⟩ := h.exists_mem
  rw [List.all_eq_false]
  exact ⟨sep, hmem, by simp [not_isDigit _ hsep]⟩

end IsBroken

/-! ## Waits in capital letters -/

section Upper

variable (cs : List Char)

private theorem trimStart_map_toUpper :
    Text.trimStart (cs.map Char.toUpper) = (Text.trimStart cs).map Char.toUpper := by
  have hblank : Text.isBlank ∘ Char.toUpper = Text.isBlank := funext isBlank_toUpper
  rw [Text.trimStart, List.dropWhile_map, hblank, Text.trimStart]

private theorem trimEnd_map_toUpper :
    Text.trimEnd (cs.map Char.toUpper) = (Text.trimEnd cs).map Char.toUpper := by
  have hends : ∀ cs, Text.trimEnd cs = (Text.trimStart cs.reverse).reverse := fun cs => rfl
  rw [hends, ← List.map_reverse, trimStart_map_toUpper, ← List.map_reverse, hends]

theorem trim_map_toUpper : Text.trim (cs.map Char.toUpper) = (Text.trim cs).map Char.toUpper := by
  rw [Text.trim, trimStart_map_toUpper, trimEnd_map_toUpper, Text.trim]

private theorem all_isDigit_map_toUpper :
    (cs.map Char.toUpper).all Char.isDigit = cs.all Char.isDigit := by
  rw [List.all_map]
  congr 1
  exact funext isDigit_toUpper

/-- Digits have no upper case of their own. -/
private theorem map_toUpper_of_all_isDigit {cs : List Char} (h : cs.all Char.isDigit = true) :
    cs.map Char.toUpper = cs := by
  have hself : ∀ c ∈ cs, c.toUpper = c := by
    intro c hc
    have hle := (Text.isDigit_iff.1 (List.all_eq_true.1 h c hc)).2
    obtain ⟨hself, -⟩ | ⟨hsmall, -, -⟩ := toUpper_cases c
    · exact hself
    · omega
  rw [List.map_congr_left hself, List.map_id'' fun _ => rfl]

private theorem withoutEnding?_map_toUpper (ending : List Char) :
    Text.withoutEnding? ending (cs.map Char.toUpper) =
      (Text.withoutEnding? ending cs).map (List.map Char.toUpper) := by
  have hlower : Char.toLower ∘ Char.toUpper = Char.toLower := funext toLower_toUpper
  simp only [Text.withoutEnding?, List.length_map, ← List.map_drop, List.map_map, hlower,
    ← List.map_take]
  split <;> rfl

private theorem cutUnit?_map_toUpper :
    WaitReading.cutUnit? (cs.map Char.toUpper) =
      (WaitReading.cutUnit? cs).map fun (number, unit) => (number.map Char.toUpper, unit) := by
  rw [WaitReading.cutUnit?, WaitReading.cutUnit?, withoutEnding?_map_toUpper,
    withoutEnding?_map_toUpper]
  cases Text.withoutEnding? ['m', 's'] cs with
  | some number => rfl
  | none => cases Text.withoutEnding? ['s'] cs <;> rfl

/-- **A wait is the same in capital letters.** -/
theorem WaitReading.ofToken_map_toUpper : ofToken (cs.map Char.toUpper) = ofToken cs := by
  rw [ofToken, ofToken, trim_map_toUpper]
  generalize Text.trim cs = token
  have hstart : startsWithDigit (token.map Char.toUpper) = startsWithDigit token := by
    cases token with
    | nil => rfl
    | cons c token => exact isDigit_toUpper c
  simp only [hstart, cutUnit?_map_toUpper]
  cases cutUnit? token with
  | none => rfl
  | some sides =>
      simp only [Option.map_some, trimEnd_map_toUpper, all_isDigit_map_toUpper]
      by_cases hdigits : (Text.trimEnd sides.1).all Char.isDigit = true
      · rw [map_toUpper_of_all_isDigit hdigits]
      · simp only [hdigits]
        rfl

end Upper

theorem WaitReading.ofToken_trim (token : List Char) : ofToken (Text.trim token) = ofToken token := by
  rw [ofToken, Text.trim_trim, ofToken]

theorem WaitReading.ofToken_folded (token : List Char) : ofToken (folded token) = ofToken token := by
  rw [folded, ofToken_map_toUpper, ofToken_trim]

/-! ## Every lookup has the same answer -/

namespace LookAlike

variable {x y : List Char}

theorem modifier?_eq (h : LookAlike x y) : modifier? x = modifier? y := by
  rcases h.name with hsame | ⟨hx, hy⟩
  · rw [modifier?_eq_lookup, hsame, ← modifier?_eq_lookup]
  · rw [modifier?_eq_none_iff.2 hx.not_namesModifier, modifier?_eq_none_iff.2 hy.not_namesModifier]

theorem sequenceKey?_eq (h : LookAlike x y) : sequenceKey? x = sequenceKey? y := by
  have hnone : ∀ {token}, IsBroken token → sequenceKey? token = none := by
    intro token hbroken
    rw [Option.eq_none_iff_forall_ne_some]
    exact fun key hkey => hbroken.not_namesKey key (sequenceKey?_eq_some_iff.1 hkey)
  rcases h.name with hsame | ⟨hx, hy⟩
  · rw [Vocabulary.sequenceKey?_eq, hsame, ← Vocabulary.sequenceKey?_eq]
  · rw [hnone hx, hnone hy]

theorem chordWord?_eq (h : LookAlike x y) : chordWord? x = chordWord? y := by
  have hnone : ∀ {token}, IsBroken token → chordWord? token = none := by
    intro token hbroken
    rw [Option.eq_none_iff_forall_ne_some]
    intro word hword
    cases word with
    | key key => exact hbroken.not_namesKey key (namesKey_of_chordWord? hword)
    | modifier key => exact hbroken.not_namesModifier key (namesModifier_of_chordWord? hword)
  rcases h.name with hsame | ⟨hx, hy⟩
  · unfold chordWord? modifier?
    rw [hsame]
  · rw [hnone hx, hnone hy]

theorem isAllBlank_eq (h : LookAlike x y) : Text.isAllBlank x = Text.isAllBlank y := by
  have hempty : ∀ token, Text.isAllBlank token = true ↔ (folded token).head? = none := by
    intro token
    rw [← Text.trim_eq_nil_iff, List.head?_eq_none_iff, folded, List.map_eq_nil_iff]
  rw [Bool.eq_iff_iff, hempty, hempty, h.first]

/-- A broken word is taken for a wait, if at all, by its ends alone. -/
theorem ofToken_eq (h : LookAlike x y) : WaitReading.ofToken x = WaitReading.ofToken y := by
  rcases h.name with hsame | ⟨hx, hy⟩
  · rw [← WaitReading.ofToken_folded, hsame, WaitReading.ofToken_folded]
  · -- no wait has a separator inside, so what looks like one is malformed
    have hstart : ∀ token, WaitReading.startsWithDigit (Text.trim token) = true ↔
        ∃ c ∈ (folded token).head?, c.isDigit = true := by
      intro token
      rw [WaitReading.startsWithDigit_iff, folded, List.head?_map]
      cases (Text.trim token).head? <;> simp [isDigit_toUpper]
    have hend : ∀ token, EndsInS (Text.trim token) ↔
        ∃ c ∈ (folded token).getLast?, c.toLower = 's' := by
      intro token
      rw [EndsInS, folded, List.getLast?_map]
      cases (Text.trim token).getLast? with
      | none => simp
      | some c => simp only [Option.map_some, Option.mem_some_iff, exists_eq_left', toLower_toUpper]
    have hends : WaitReading.startsWithDigit (Text.trim x) = true ∧ EndsInS (Text.trim x) ↔
        WaitReading.startsWithDigit (Text.trim y) = true ∧ EndsInS (Text.trim y) := by
      rw [hstart, hstart, hend, hend, h.first, h.last]
    by_cases hwait : WaitReading.startsWithDigit (Text.trim x) = true ∧ EndsInS (Text.trim x)
    · have hwait' := hends.1 hwait
      rw [WaitReading.ofToken_eq_malformed_iff.2 ⟨hwait.1, hwait.2, hx.not_waitForm⟩,
        WaitReading.ofToken_eq_malformed_iff.2 ⟨hwait'.1, hwait'.2, hy.not_waitForm⟩]
    · rw [WaitReading.ofToken_eq_notAWait_iff.2 hwait,
        WaitReading.ofToken_eq_notAWait_iff.2 (mt hends.2 hwait)]

/-- Words that look alike are both runs of digits or neither is, and runs that look alike are
the same. -/
theorem all_isDigit_eq (h : LookAlike x y) :
    (Text.trim x).all Char.isDigit = (Text.trim y).all Char.isDigit ∧
      ((Text.trim x).all Char.isDigit = true → Text.trim x = Text.trim y) := by
  rcases h.name with hsame | ⟨hx, hy⟩
  · have hall : (Text.trim x).all Char.isDigit = (Text.trim y).all Char.isDigit := by
      rw [← all_isDigit_map_toUpper, ← folded, hsame, folded, all_isDigit_map_toUpper]
    refine ⟨hall, fun hdigits => ?_⟩
    rw [← map_toUpper_of_all_isDigit hdigits, ← folded, hsame, folded,
      map_toUpper_of_all_isDigit (hall ▸ hdigits)]
  · refine ⟨hx.all_isDigit_eq_false.trans hy.all_isDigit_eq_false.symm, fun hdigits => ?_⟩
    rw [hx.all_isDigit_eq_false] at hdigits
    contradiction

end LookAlike

/-! ## Chords and steps -/

private theorem map_eq_of_forall₂ {α β : Type} {f : α → β} {l l' : List α}
    (h : List.Forall₂ (fun a b => f a = f b) l l') : l.map f = l'.map f := by
  rwa [← List.forall₂_eq_eq_eq, List.forall₂_map_left_iff, List.forall₂_map_right_iff]

private theorem foldlM_eq_of_forall₂ {α β : Type} {f : β → α → Except GrammarFault β}
    {l l' : List α} (h : List.Forall₂ (fun a b => ∀ state, f state a = f state b) l l')
    (state : β) : l.foldlM f state = l'.foldlM f state := by
  induction h generalizing state with
  | nil => rfl
  | cons hstep _ ih =>
      rw [List.foldlM_cons, List.foldlM_cons, hstep]
      exact congrArg _ (funext ih)

section Steps

variable {x y p q : List Char}

theorem LookAlike.add_eq (h : LookAlike x y) (chord : Chord.Partial) : chord.add x = chord.add y := by
  rw [Chord.Partial.add, h.isAllBlank_eq, h.chordWord?_eq, Chord.Partial.add]

/-- **A chord is read whatever its spelling.** -/
theorem Respelled.chord_eq (h : Respelled separators p q) : Chord.ofText p = Chord.ofText q := by
  have hplus : '+' ∈ separators := by decide
  have hwords := (h.forall₂_splitOn hplus).imp fun _ _ hword => hword.lookAlike.add_eq
  rw [Chord.ofText, foldlM_eq_of_forall₂ hwords, Chord.ofText]

theorem Respelled.addToken_eq (h : Respelled separators x y) (steps : List Step) :
    Step.addToken steps x = Step.addToken steps y := by
  rw [Step.addToken, h.lookAlike.isAllBlank_eq, h.lookAlike.ofToken_eq, h.chord_eq, Step.addToken]

/-- **Steps are read whatever their spelling.** -/
theorem Respelled.steps_eq (h : Respelled separators p q) :
    Step.listOfText p = Step.listOfText q := by
  have hcomma : ',' ∈ separators := by decide
  have hparts := (h.forall₂_splitOn hcomma).imp fun _ _ hpart => hpart.addToken_eq
  rw [Step.listOfText, foldlM_eq_of_forall₂ hparts, Step.listOfText]

end Steps

/-! ## Hold sequences -/

/-- The notice without the words of the text that it repeats. -/
def Notice.unworded : Notice → Notice
  | notAModifier _ => notAModifier ""
  | unknownToken _ => unknownToken ""
  | notice => notice

section Unworded

variable {α β : Type}

/-- What was read, with notices that repeat nothing of the text. -/
def Reading.unworded (reading : Reading α) : Reading α :=
  ⟨reading.notices.map Notice.unworded, reading.result⟩

theorem Reading.unworded_map (f : α → β) (reading : Reading α) :
    (reading.map f).unworded = reading.unworded.map f := rfl

theorem Reading.unworded_after (earlier : List Notice) (reading : Reading α) :
    (reading.after earlier).unworded = reading.unworded.after (earlier.map Notice.unworded) := by
  rw [unworded, after, List.map_append]
  rfl

end Unworded

section Digits

variable {p q : List Char}

/-- The same digits are in both texts. -/
theorem Edit.filter_isDigit (h : Edit separators p q) :
    p.filter Char.isDigit = q.filter Char.isDigit := by
  have hspace : Char.isDigit ' ' = false := rfl
  cases h with
  | front => simp [hspace]
  | back => simp [hspace]
  | inside a b change =>
      cases change with
      | @letter c hupper =>
          have hrange := isUpper_iff.1 hupper
          have hlower := toNat_toLower hupper
          have hcapital : c.isDigit = false := isDigit_eq_false_of_letter hrange.1
          have hsmall : c.toLower.isDigit = false := isDigit_eq_false_of_letter (by omega)
          simp [hcapital, hsmall]
      | before _ => simp [hspace, List.filter_cons]
      | after _ => simp [hspace, List.filter_cons]

/-- Spaces may stand in the number of a character, letters may not. -/
theorem Edit.all_inNumber (h : Edit separators p q) :
    (p.all fun c => c.isDigit || c == ',' || c == ' ') =
      q.all fun c => c.isDigit || c == ',' || c == ' ' := by
  cases h with
  | front => simp
  | back => simp
  | inside a b change =>
      cases change with
      | @letter c hupper =>
          have hrange := isUpper_iff.1 hupper
          have hlower := toNat_toLower hupper
          have hletter : ∀ c : Char, 65 ≤ c.toNat → (c.isDigit || c == ',' || c == ' ') = false := by
            intro c hc
            rw [isDigit_eq_false_of_letter hc, Bool.false_or, Bool.or_eq_false_iff,
              beq_eq_false_iff_ne, beq_eq_false_iff_ne]
            constructor <;> rintro rfl <;> exact absurd hc (by decide)
          have hsmall := hletter c.toLower (by omega)
          simp only [List.all_append, List.all_cons, hletter c hrange.1, hsmall]
      | before _ => simp
      | after _ => simp

namespace Respelled

theorem digitsOf_eq (h : Respelled separators p q) : Hold.digitsOf p = Hold.digitsOf q := by
  rw [Hold.digitsOf, h.lift eq_equivalence fun _ _ hedit => hedit.filter_isDigit, Hold.digitsOf]

theorem isAltCode_eq (h : Respelled separators p q) : Hold.isAltCode p = Hold.isAltCode q := by
  have hany : ∀ cs : List Char, cs.any Char.isDigit = !(cs.filter Char.isDigit).isEmpty := by
    intro cs
    induction cs with
    | nil => rfl
    | cons c cs ih => cases hc : c.isDigit <;> simp [hc, ih]
  rw [Hold.isAltCode, hany, h.lift eq_equivalence fun _ _ hedit => hedit.filter_isDigit,
    h.lift eq_equivalence fun _ _ hedit => hedit.all_inNumber, ← hany, Hold.isAltCode]

end Respelled

end Digits

section Tokens

variable {x y p q : List Char}

/-- The words before the last `+` and the name behind it. -/
private theorem forall₂_concat {α : Type} {R : α → α → Prop} {l l' : List α} {a b : α}
    (h : List.Forall₂ R (l ++ [a]) (l' ++ [b])) : List.Forall₂ R l l' ∧ R a b := by
  rw [← List.forall₂_reverse_iff, List.reverse_concat, List.reverse_concat,
    List.forall₂_cons, List.forall₂_reverse_iff] at h
  exact h.symm

theorem Respelled.press?_eq (h : Respelled separators x y) : Hold.press? x = Hold.press? y := by
  have hplus : '+' ∈ separators := by decide
  obtain ⟨before, name, hx⟩ := Hold.exists_splitOn_eq x
  obtain ⟨before', name', hy⟩ := Hold.exists_splitOn_eq y
  have hpieces := h.forall₂_splitOn hplus
  rw [hx, hy] at hpieces
  obtain ⟨hbefore, hname⟩ := forall₂_concat hpieces
  have hkept : List.Forall₂ LookAlike (before.filter fun piece => !Text.isAllBlank piece)
      (before'.filter fun piece => !Text.isAllBlank piece) := by
    refine List.rel_filter ?_ (hbefore.imp fun _ _ hpiece => hpiece.lookAlike)
    intro piece piece' hpiece
    simp [hpiece.isAllBlank_eq]
  have hmapM : ∀ words : List (List Char),
      words.mapM modifier? = (words.map modifier?).mapM id := by
    intro words
    rw [List.mapM_map]
    rfl
  rw [Hold.press?_eq hx, Hold.press?_eq hy, hname.lookAlike.sequenceKey?_eq, hmapM,
    map_eq_of_forall₂ (hkept.imp fun _ _ hpiece => hpiece.modifier?_eq), ← hmapM]

/-- **A token means the same whatever its spelling.** -/
theorem Respelled.item?_trim_eq (h : Respelled separators x y) (altHeld : Bool) :
    Hold.item? altHeld (Text.trim x) = Hold.item? altHeld (Text.trim y) := by
  obtain ⟨hall, hsame⟩ := h.lookAlike.all_isDigit_eq
  rw [Hold.item?, Hold.item?, h.trim.lookAlike.ofToken_eq, h.trim.press?_eq, hall]
  by_cases hdigits : (Text.trim y).all Char.isDigit = true
  -- the digits of a number are kept as they are written
  · rw [hsame (hall.trans hdigits)]
  · simp only [hdigits, Bool.and_false]
    rfl

theorem Respelled.forall₂_tokens (h : Respelled separators p q) :
    List.Forall₂ (fun t u => ∀ altHeld, Hold.item? altHeld t = Hold.item? altHeld u)
      (Hold.tokens p) (Hold.tokens q) := by
  have hcomma : ',' ∈ separators := by decide
  have hpieces := h.forall₂_splitOn hcomma
  rw [Hold.tokens, Hold.tokens]
  generalize p.splitOn ',' = ps, q.splitOn ',' = qs at hpieces
  induction hpieces with
  | nil => exact .nil
  | @cons x y ps qs hpiece _ ih =>
      have hempty : Text.trim x = [] ↔ Text.trim y = [] := by
        rw [Text.trim_eq_nil_iff, Text.trim_eq_nil_iff, hpiece.lookAlike.isAllBlank_eq]
      rw [List.map_cons, List.map_cons]
      by_cases hx : Text.trim x = []
      · rw [List.filter_cons_of_neg (by simp [hx]), List.filter_cons_of_neg (by simp [hempty.1 hx])]
        exact ih
      · have hy : Text.trim y ≠ [] := mt hempty.2 hx
        rw [List.filter_cons_of_pos (by simp [hx]), List.filter_cons_of_pos (by simp [hy])]
        exact .cons hpiece.item?_trim_eq ih

/-- Tokens that mean the same make the same items, and as many notices. -/
theorem Hold.items_eq_of_forall₂ {altHeld : Bool} {tokens tokens' : List (List Char)}
    (h : List.Forall₂ (fun t u => ∀ altHeld, item? altHeld t = item? altHeld u) tokens tokens')
    (room : Nat) : (items altHeld room tokens).unworded = (items altHeld room tokens').unworded := by
  induction h generalizing room with
  | nil => rfl
  | @cons t u _ _ htoken _ ih =>
      rw [items, items, htoken]
      cases item? altHeld u with
      | error fault => rfl
      | ok item =>
          cases item with
          | none =>
              simp only [Reading.unworded_after, ih]
              rfl
          | some item =>
              -- where there is no room for the item, the rest of the tokens is not looked at
              cases room with
              | zero => rfl
              | succ room => simp only [Reading.unworded_map, ih]

theorem Respelled.content_eq (h : Respelled separators p q) (altHeld : Bool) :
    (Hold.content altHeld p).unworded = (Hold.content altHeld q).unworded := by
  rw [Hold.content, Hold.content, h.isAltCode_eq, h.digitsOf_eq]
  split
  · rfl
  · rw [Reading.unworded_map, Reading.unworded_map,
      Hold.items_eq_of_forall₂ h.forall₂_tokens Hold.itemLimit]

end Tokens

/-! ## Both sides -/

section Sides

variable {p q : List Char}

/-- The names on the left are looked up one by one. -/
theorem Respelled.names_eq (h : Respelled separators p q) :
    (p.splitOn '+').map modifier? = (q.splitOn '+').map modifier? := by
  have hplus : '+' ∈ separators := by decide
  exact map_eq_of_forall₂ ((h.forall₂_splitOn hplus).imp fun _ _ hname => hname.lookAlike.modifier?_eq)

theorem Hold.heldModifiers_eq (names : List (List Char)) :
    heldModifiers names = .join ((names.map modifier?).filterMap fun key => key.map .only) := by
  rw [heldModifiers, List.filterMap_map]
  rfl

theorem Hold.unworded_strangers (names : List (List Char)) :
    ((strangers names).map fun name =>
        Notice.notAModifier (String.ofList (Text.trim name))).map Notice.unworded =
      ((names.map modifier?).filter Option.isNone).map fun _ => .notAModifier "" := by
  rw [strangers, List.filter_map, List.map_map, List.map_map]
  rfl

/-- An edit is on one side of the bar, and the other side is as it was. -/
theorem Edit.hold_eq (h : Edit separators p q) :
    (Hold.ofText p).unworded = (Hold.ofText q).unworded := by
  have hbar : '|' ∈ separators := by decide
  rcases h.cut hbar with ⟨hp, hq⟩ | ⟨left, left', right, right', rfl, rfl, hl, hl', hsides⟩
  · rw [Hold.ofText, Hold.ofText, Text.cutFirst?_eq_none_iff.2 hp, Text.cutFirst?_eq_none_iff.2 hq]
  · have hleft : Respelled separators left left' := by
      rcases hsides with ⟨hedit, -⟩ | ⟨rfl, -⟩
      · exact .of_edit hedit
      · exact .refl left
    have hright : Respelled separators right right' := by
      rcases hsides with ⟨-, rfl⟩ | ⟨-, hedit⟩
      · exact .refl right
      · exact .of_edit hedit
    rw [Hold.ofText, Hold.ofText, Text.cutFirst?_eq_some_iff.2 ⟨rfl, hl⟩,
      Text.cutFirst?_eq_some_iff.2 ⟨rfl, hl'⟩]
    have hheld : Hold.heldModifiers (left.splitOn '+') = Hold.heldModifiers (left'.splitOn '+') := by
      rw [Hold.heldModifiers_eq, hleft.names_eq, ← Hold.heldModifiers_eq]
    simp only [hheld]
    split
    · simp only [Reading.unworded, Hold.unworded_strangers, hleft.names_eq]
    · simp only [Reading.unworded_after, Reading.unworded_map, Hold.unworded_strangers,
        hleft.names_eq, hright.trim.content_eq]

/-- **A hold sequence is read whatever its spelling.** -/
theorem Respelled.hold_eq (h : Respelled separators p q) :
    (Hold.ofText p).unworded = (Hold.ofText q).unworded :=
  h.lift (f := fun cs => (Hold.ofText cs).unworded) eq_equivalence fun _ _ hedit => hedit.hold_eq

end Sides

/-! ## The law -/

/-- The separators of the grammar of a kind. -/
def Kind.separators : Kind → List Char
  | keystroke => [',', '+']
  | typing => []
  | keybind => ['+']
  | holdSequence => ['|', ',', '+']

/-- **Neither layout nor case matters.** Where letters are written in the other case, or spaces
are put next to the separators of a grammar and at the ends of a text, or taken away there, the
grammar makes the same plan of the text or turns it away for the same reason. It gives the same
notices in the same order, but for the words of the text that they repeat. -/
theorem respelled_read_alike {kind : Kind} (hkind : kind ≠ .typing) {p q : List Char}
    (h : Respelled kind.separators p q) :
    (Plan.ofText kind p).result = (Plan.ofText kind q).result ∧
      (Plan.ofText kind p).notices.map Notice.unworded =
        (Plan.ofText kind q).notices.map Notice.unworded := by
  suffices hsame : (Plan.ofText kind p).unworded = (Plan.ofText kind q).unworded by
    obtain ⟨hnotices, hresult⟩ := Reading.mk.inj hsame
    exact ⟨hresult, hnotices⟩
  have hsub : kind.separators ⊆ separators := by cases kind <;> decide
  have hall := h.mono hsub
  cases kind with
  | typing => exact absurd rfl hkind
  | keystroke => rw [Plan.ofText, Plan.ofText, hall.steps_eq]
  | keybind => rw [Plan.ofText, Plan.ofText, hall.chord_eq]
  | holdSequence =>
      rw [Plan.ofText, Plan.ofText, Reading.unworded_map, Reading.unworded_map, hall.hold_eq]

/-- A number in another spelling, by way of the texts between: one letter, then the spaces on
either side of the bar, then one at the end. -/
theorem respelled_read_alike_number :
    Kind.holdSequence ≠ .typing ∧
      Respelled Kind.holdSequence.separators "LAlt|0,1".toList "lAlt | 0,1 ".toList ∧
      (Plan.ofText .holdSequence "LAlt|0,1".toList).result =
        (Plan.ofText .holdSequence "lAlt | 0,1 ".toList).result := by
  have hletter : Edit Kind.holdSequence.separators "LAlt|0,1".toList "lAlt|0,1".toList :=
    .inside [] "Alt|0,1".toList (.letter (c := 'L') rfl)
  have hbefore : Edit Kind.holdSequence.separators "lAlt|0,1".toList "lAlt |0,1".toList :=
    .inside "lAlt".toList "0,1".toList (.before (by decide))
  have hafter : Edit Kind.holdSequence.separators "lAlt |0,1".toList "lAlt | 0,1".toList :=
    .inside "lAlt ".toList "0,1".toList (.after (by decide))
  have hback : Edit Kind.holdSequence.separators "lAlt | 0,1".toList "lAlt | 0,1 ".toList :=
    .back _
  have hrespelled := ((Respelled.of_edit hletter).trans (.of_edit hbefore)).trans
    ((Respelled.of_edit hafter).trans (.of_edit hback))
  have hkind : Kind.holdSequence ≠ .typing := by decide
  exact ⟨hkind, hrespelled, (respelled_read_alike hkind hrespelled).1⟩

end MacroPad
