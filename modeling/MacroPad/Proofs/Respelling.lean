/-
`Respelling.lean` -- texts that are written differently and read alike.

A text is respelled by writing letters in the other ASCII case and by putting spaces next to
separators and at the two ends, or taking them away there. One such change is an edit, and a
respelling is any number of edits in either direction. Edits go through every operation that
the grammars share: a text is cut at the same separators, its pieces are respellings of one
another, and trimming leaves a respelling. What is looked up in the end is a single word, and
all that a respelling can change about a word is the spaces around separators inside it; such
a word is no name, whatever the spaces.
-/
import Mathlib.Data.List.Forall2
import Mathlib.Logic.Relation
import MacroPad.Proofs.ChordForm

set_option autoImplicit false

namespace MacroPad

/-! ## The relation -/

/-- The characters at which some grammar cuts a text. -/
def separators : List Char := ['|', ',', '+']

theorem forall_mem_separators {p : Char → Prop} :
    (∀ sep ∈ separators, p sep) ↔ p '|' ∧ p ',' ∧ p '+' := by
  simp [separators]

/-- A change in one place: a capital letter is made small, or a space is put in front of a
separator or behind it. -/
inductive Change (seps : List Char) : List Char → List Char → Prop
  | letter {c : Char} (h : c.isUpper = true) : Change seps [c] [c.toLower]
  | before {sep : Char} (h : sep ∈ seps) : Change seps [sep] [' ', sep]
  | after {sep : Char} (h : sep ∈ seps) : Change seps [sep] [sep, ' ']

/-- One change of a text, in some place inside it or by a space at one of its ends. -/
inductive Edit (seps : List Char) : List Char → List Char → Prop
  | inside {place changed : List Char} (left right : List Char) (h : Change seps place changed) :
      Edit seps (left ++ place ++ right) (left ++ changed ++ right)
  | front (cs : List Char) : Edit seps cs (' ' :: cs)
  | back (cs : List Char) : Edit seps cs (cs ++ [' '])

/-- The texts are spelled alike up to the case of letters and to spaces next to separators and
at the ends. -/
def Respelled (seps : List Char) : List Char → List Char → Prop := Relation.EqvGen (Edit seps)

section Closure

variable {seps more p q r : List Char}

theorem Edit.mono (hsub : seps ⊆ more) (h : Edit seps p q) : Edit more p q := by
  cases h with
  | front => exact .front p
  | back => exact .back p
  | inside left right change =>
      refine .inside left right ?_
      cases change with
      | letter hupper => exact .letter hupper
      | before hsep => exact .before (hsub hsep)
      | after hsep => exact .after (hsub hsep)

namespace Respelled

/-- With more separators more texts are respellings of one another. -/
theorem mono (hsub : seps ⊆ more) (h : Respelled seps p q) : Respelled more p q :=
  Relation.EqvGen.mono (fun _ _ hedit => Edit.mono hsub hedit) _ _ h

theorem refl (p : List Char) : Respelled seps p p := Relation.EqvGen.refl p

theorem symm (h : Respelled seps p q) : Respelled seps q p := Relation.EqvGen.symm _ _ h

theorem trans (h₁ : Respelled seps p q) (h₂ : Respelled seps q r) : Respelled seps p r :=
  Relation.EqvGen.trans _ _ _ h₁ h₂

theorem of_edit (h : Edit seps p q) : Respelled seps p q := Relation.EqvGen.rel _ _ h

theorem equivalence : Equivalence (Respelled seps) := ⟨refl, symm, trans⟩

/-- **What is related after each edit, is related after any respelling.** The case of equality
is that of what no edit changes. -/
theorem lift {α : Type} {R : α → α → Prop} (hR : Equivalence R) {f : List Char → α}
    (hf : ∀ p q, Edit seps p q → R (f p) (f q)) (h : Respelled seps p q) : R (f p) (f q) := by
  induction h with
  | rel p q hedit => exact hf p q hedit
  | refl p => exact hR.refl (f p)
  | symm p q _ ih => exact hR.symm ih
  | trans p q r _ _ ih₁ ih₂ => exact hR.trans ih₁ ih₂

end Respelled

end Closure

/-! ## Letters -/

section Letters

variable {c sep : Char}

theorem isUpper_iff : c.isUpper = true ↔ 65 ≤ c.toNat ∧ c.toNat ≤ 90 := by
  have hrange : c.isUpper = true ↔ 'A'.val ≤ c.val ∧ c.val ≤ 'Z'.val := decide_eq_true_iff
  rw [hrange, UInt32.le_iff_toNat_le, UInt32.le_iff_toNat_le]
  exact Iff.rfl

theorem toNat_toLower (h : c.isUpper = true) : c.toLower.toNat = c.toNat + 32 := by
  have hrange : c.val ≥ 'A'.val ∧ c.val ≤ 'Z'.val := of_decide_eq_true h
  have hval : c.toLower.val = c.val + ('a'.val - 'A'.val) := by
    delta Char.toLower
    rw [dif_pos hrange]
  have hle := (isUpper_iff.1 h).2
  rw [Char.toNat, hval, UInt32.toNat_add]
  have hstep : ('a'.val - 'A'.val).toNat = 32 := rfl
  have hcode : c.val.toNat = c.toNat := rfl
  rw [hstep, hcode]
  omega

theorem toUpper_toLower (h : c.isUpper = true) : c.toLower.toUpper = c.toUpper := by
  have hrange := isUpper_iff.1 h
  have hlower := toNat_toLower h
  obtain ⟨hself, -⟩ | ⟨hsmall, -, -⟩ := Vocabulary.toUpper_cases c
  · obtain ⟨-, hnot⟩ | ⟨-, -, hupper⟩ := Vocabulary.toUpper_cases c.toLower
    · omega
    · rw [hself]
      exact Char.toNat_inj.1 (by omega)
  · omega

theorem toLower_toUpper (c : Char) : c.toUpper.toLower = c.toLower := by
  obtain ⟨hself, -⟩ | ⟨hsmall, hle, hupper⟩ := Vocabulary.toUpper_cases c
  · rw [hself]
  · have hcapital : c.toUpper.isUpper = true := isUpper_iff.2 (by omega)
    have hback := toNat_toLower hcapital
    obtain hlower | ⟨-, hle', -⟩ := toLower_cases c
    · rw [hlower]
      exact Char.toNat_inj.1 (by omega)
    · omega

/-- A letter is no blank and no digit. -/
theorem isBlank_eq_false_of_letter (h₁ : 65 ≤ c.toNat) (h₂ : c.toNat ≤ 122) :
    Text.isBlank c = false := by
  simp only [Text.isBlank, Bool.or_eq_false_iff, Bool.and_eq_false_iff, decide_eq_false_iff_not,
    beq_eq_false_iff_ne]
  omega

theorem isDigit_eq_false_of_letter (h : 65 ≤ c.toNat) : c.isDigit = false := by
  rw [← Bool.not_eq_true, Text.isDigit_iff]
  omega

theorem isBlank_toUpper (c : Char) : Text.isBlank c.toUpper = Text.isBlank c := by
  obtain ⟨hself, -⟩ | ⟨hsmall, hle, hupper⟩ := Vocabulary.toUpper_cases c
  · rw [hself]
  · rw [isBlank_eq_false_of_letter (by omega) (by omega),
      isBlank_eq_false_of_letter (by omega) (by omega)]

theorem isDigit_toUpper (c : Char) : c.toUpper.isDigit = c.isDigit := by
  obtain ⟨hself, -⟩ | ⟨hsmall, hle, hupper⟩ := Vocabulary.toUpper_cases c
  · rw [hself]
  · rw [isDigit_eq_false_of_letter (by omega), isDigit_eq_false_of_letter (by omega)]

/-- A separator is neither a letter nor a digit nor a blank. -/
theorem toNat_of_mem_separators :
    ∀ sep ∈ separators, sep.toNat = 124 ∨ sep.toNat = 44 ∨ sep.toNat = 43 :=
  forall_mem_separators.2 (by decide)

theorem isBlank_separator : ∀ sep ∈ separators, Text.isBlank sep = false :=
  forall_mem_separators.2 (by decide)

theorem separator_ne_space : ∀ sep ∈ separators, sep ≠ ' ' :=
  forall_mem_separators.2 (by decide)

theorem toUpper_eq_separator (h : sep ∈ separators) (hc : c.toUpper = sep) : c = sep := by
  have hcode := toNat_of_mem_separators _ h
  obtain ⟨hself, -⟩ | ⟨hsmall, hle, hupper⟩ := Vocabulary.toUpper_cases c
  · rw [← hc, hself]
  · rw [hc] at hupper
    omega

theorem toUpper_separator : ∀ sep ∈ separators, sep.toUpper = sep :=
  forall_mem_separators.2 (by decide)

end Letters

/-! ## Cutting -/

section Cutting

variable {sep : Char} {place changed p q : List Char}

/-- A separator has no part in a change, or the change is a space next to it. -/
theorem Change.at (hsep : sep ∈ separators) (h : Change separators place changed) :
    sep ∉ place ∧ sep ∉ changed ∨
      place = [sep] ∧ (changed = [' ', sep] ∨ changed = [sep, ' ']) := by
  have hspace := separator_ne_space _ hsep
  cases h with
  | @letter c hupper =>
      -- no separator is a letter, in either case
      left
      have hcode := toNat_of_mem_separators _ hsep
      have hrange := isUpper_iff.1 hupper
      have hlower := toNat_toLower hupper
      simp only [List.mem_singleton]
      exact ⟨by rintro rfl; omega, by rintro rfl; omega⟩
  | @before other _ =>
      by_cases hsame : sep = other
      · exact .inr ⟨by rw [hsame], .inl (by rw [hsame])⟩
      · exact .inl ⟨by simp [hsame], by simp [hsame, hspace]⟩
  | @after other _ =>
      by_cases hsame : sep = other
      · exact .inr ⟨by rw [hsame], .inr (by rw [hsame])⟩
      · exact .inl ⟨by simp [hsame], by simp [hsame, hspace]⟩

/-- **An edit is on one side of the first separator.** A space next to it is then at the end
of what is before it, or at the front of what is behind it. -/
theorem Edit.cut (hsep : sep ∈ separators) (h : Edit separators p q) :
    sep ∉ p ∧ sep ∉ q ∨ ∃ left left' right right', p = left ++ sep :: right ∧
      q = left' ++ sep :: right' ∧ sep ∉ left ∧ sep ∉ left' ∧
        (Edit separators left left' ∧ right = right' ∨
          left = left' ∧ Edit separators right right') := by
  have hspace := separator_ne_space _ hsep
  cases h with
  | @inside place changed a b change =>
      -- the first separator is before the change, at it or behind it
      by_cases ha : sep ∈ a
      · obtain ⟨left, a, rfl, hleft⟩ := List.eq_append_cons_of_mem ha
        exact .inr ⟨left, left, a ++ place ++ b, a ++ changed ++ b, by simp, by simp, hleft, hleft,
          .inr ⟨rfl, .inside a b change⟩⟩
      · rcases change.at hsep with ⟨hplace, hchanged⟩ | ⟨rfl, rfl | rfl⟩
        · by_cases hb : sep ∈ b
          · obtain ⟨b, right, rfl, hleft⟩ := List.eq_append_cons_of_mem hb
            exact .inr ⟨a ++ place ++ b, a ++ changed ++ b, right, right, by simp, by simp,
              by simp [ha, hplace, hleft], by simp [ha, hchanged, hleft],
              .inl ⟨.inside a b change, rfl⟩⟩
          · exact .inl ⟨by simp [ha, hplace, hb], by simp [ha, hchanged, hb]⟩
        -- a space at the separator itself belongs to one of its sides
        · exact .inr ⟨a, a ++ [' '], b, b, by simp, by simp, ha, by simp [ha, hspace],
            .inl ⟨.back a, rfl⟩⟩
        · exact .inr ⟨a, a, b, ' ' :: b, by simp, by simp, ha, ha, .inr ⟨rfl, .front b⟩⟩
  | front =>
      by_cases hp : sep ∈ p
      · obtain ⟨left, right, rfl, hleft⟩ := List.eq_append_cons_of_mem hp
        exact .inr ⟨left, ' ' :: left, right, right, rfl, rfl, hleft, by simp [hleft, hspace],
          .inl ⟨.front left, rfl⟩⟩
      · exact .inl ⟨hp, by simp [hp, hspace]⟩
  | back =>
      by_cases hp : sep ∈ p
      · obtain ⟨left, right, rfl, hleft⟩ := List.eq_append_cons_of_mem hp
        exact .inr ⟨left, left, right, right ++ [' '], rfl, by simp, hleft, hleft,
          .inr ⟨rfl, .back right⟩⟩
      · exact .inl ⟨hp, by simp [hp, hspace]⟩

/-- The pieces of a text and of an edited one are respellings of one another. The induction
is on the length of what is still to be cut. -/
theorem Edit.forall₂_splitOn (hsep : sep ∈ separators) (h : Edit separators p q) :
    List.Forall₂ (Respelled separators) (p.splitOn sep) (q.splitOn sep) := by
  have hsame : ∀ pieces : List (List Char),
      List.Forall₂ (Respelled separators) pieces pieces := fun pieces =>
    List.forall₂_same.2 fun piece _ => .refl piece
  induction hn : p.length using Nat.strongRecOn generalizing p q with
  | _ n ih =>
      rcases h.cut hsep with ⟨hp, hq⟩ | ⟨left, left', right, right', rfl, rfl, hl, hl', hside⟩
      · rw [List.splitOn_eq_singleton hp, List.splitOn_eq_singleton hq]
        exact .cons (.of_edit h) .nil
      · rw [List.splitOn_append_cons_self_of_not_mem hl,
          List.splitOn_append_cons_self_of_not_mem hl']
        rcases hside with ⟨hleft, rfl⟩ | ⟨rfl, hright⟩
        · exact .cons (.of_edit hleft) (hsame _)
        · -- the pieces before the separator are the same, and the edit is in the shorter rest
          have hshorter : right.length < n := by
            rw [List.length_append, List.length_cons] at hn
            omega
          exact .cons (.refl left) (ih right.length hshorter hright rfl)

private theorem forall₂_equivalence {α : Type} {R : α → α → Prop} (hR : Equivalence R) :
    Equivalence (List.Forall₂ R) where
  refl _ := List.forall₂_same.2 fun a _ => hR.refl a
  symm h := (h.imp fun _ _ hab => hR.symm hab).flip
  trans {l₁ l₂ l₃} h₁ h₂ := by
    induction h₁ generalizing l₃ with
    | nil => exact h₂
    | cons hab _ ih =>
        obtain ⟨c, l₃, hbc, hrest, rfl⟩ := List.forall₂_cons_left_iff.1 h₂
        exact .cons (hR.trans hab hbc) (ih hrest)

/-- **Respelled texts have respelled pieces**, in the same number. -/
theorem Respelled.forall₂_splitOn (hsep : sep ∈ separators) (h : Respelled separators p q) :
    List.Forall₂ (Respelled separators) (p.splitOn sep) (q.splitOn sep) :=
  h.lift (f := fun cs => cs.splitOn sep) (forall₂_equivalence equivalence)
    fun _ _ hedit => hedit.forall₂_splitOn hsep

end Cutting

/-! ## Trimming -/

section Trimming

variable {p q : List Char}

private theorem trimStart_back (cs : List Char) :
    Text.trimStart (cs ++ [' ']) = Text.trimStart cs ∨
      Text.trimStart (cs ++ [' ']) = Text.trimStart cs ++ [' '] := by
  by_cases hblank : Text.isAllBlank cs = true
  · left
    have hnil : Text.trimStart cs = [] := by
      rw [Text.trimStart, List.dropWhile_eq_nil_iff]
      exact Text.isAllBlank_iff.1 hblank
    rw [hnil, Text.trimStart, List.dropWhile_append_of_pos (Text.isAllBlank_iff.1 hblank)]
    rfl
  · exact .inr (Text.trimStart_append hblank [' '])

private theorem trimEnd_front (cs : List Char) :
    Text.trimEnd (' ' :: cs) = Text.trimEnd cs ∨
      Text.trimEnd (' ' :: cs) = ' ' :: Text.trimEnd cs := by
  have hends : ∀ cs, Text.trimEnd cs = (Text.trimStart cs.reverse).reverse := fun cs => rfl
  rw [hends, List.reverse_cons, hends]
  rcases trimStart_back cs.reverse with hsame | hspace
  · exact .inl (by rw [hsame])
  · exact .inr (by rw [hspace, List.reverse_append, List.reverse_singleton, List.singleton_append])

/-- **An edit of a text is none of the trimmed text, or is an edit of it.** -/
theorem Edit.trim (h : Edit separators p q) :
    Text.trim p = Text.trim q ∨ Edit separators (Text.trim p) (Text.trim q) := by
  have hspace : Text.isAllBlank [' '] = true := rfl
  cases h with
  | front => exact .inl (Text.trim_append_left hspace p).symm
  | back => exact .inl (Text.trim_append_right hspace p).symm
  | inside a b change =>
      -- both texts are trimmed up to the character in the middle, which is no blank
      have hinside := Edit.inside (Text.trimStart a) (Text.trimEnd b) change
      cases change with
      | @letter c hupper =>
          have hrange := isUpper_iff.1 hupper
          have hlower := toNat_toLower hupper
          right
          simp only [List.append_assoc, List.singleton_append] at hinside ⊢
          rw [Text.trim_append_cons (isBlank_eq_false_of_letter (by omega) (by omega)),
            Text.trim_append_cons (isBlank_eq_false_of_letter (by omega) (by omega))]
          exact hinside
      | @before sep hsep =>
          have hblank := isBlank_separator _ hsep
          have hplace : a ++ [sep] ++ b = a ++ sep :: b := by simp
          have hchanged : a ++ [' ', sep] ++ b = a ++ [' '] ++ sep :: b := by simp
          rw [hplace, hchanged, Text.trim_append_cons hblank, Text.trim_append_cons hblank]
          rcases trimStart_back a with hsame | hspace
          · exact .inl (by rw [hsame])
          · right
            rw [hspace]
            simpa using hinside
      | after hsep =>
          have hblank := isBlank_separator _ hsep
          simp only [List.append_assoc, List.cons_append, List.nil_append] at hinside ⊢
          rw [Text.trim_append_cons hblank, Text.trim_append_cons hblank]
          rcases trimEnd_front b with hsame | hspace
          · exact .inl (by rw [hsame])
          · right
            rw [hspace]
            exact hinside

/-- **Trimming keeps respellings.** -/
theorem Respelled.trim (h : Respelled separators p q) :
    Respelled separators (Text.trim p) (Text.trim q) := by
  refine h.lift equivalence fun p q hedit => ?_
  rcases hedit.trim with hsame | htrim
  · rw [hsame]
    exact .refl _
  · exact .of_edit htrim

end Trimming

end MacroPad
