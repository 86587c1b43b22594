/-
`Cut.lean` -- cutting text in two at a separator or before an ending.

Each cut gives back the two sides, and its lemma says that the sides make up the
text again. A cut therefore always falls between two characters of the text.
-/
set_option autoImplicit false

namespace MacroPad.Text

/-- The text before and after the first `sep`, if there is one. -/
def cutFirst? (sep : Char) : List Char → Option (List Char × List Char)
  | [] => none
  | c :: cs =>
      if c = sep then some ([], cs)
      else
        match cutFirst? sep cs with
        | some (before, after) => some (c :: before, after)
        | none => none

/-- The text before and after the last `sep`, if there is one. -/
def cutLast? (sep : Char) : List Char → Option (List Char × List Char)
  | [] => none
  | c :: cs =>
      match cutLast? sep cs with
      | some (before, after) => some (c :: before, after)
      | none => if c = sep then some ([], cs) else none

/-- The text without `ending`, which may be written in any ASCII case, if the
text ends with it. `ending` itself is in lower case. -/
def withoutEnding? (ending cs : List Char) : Option (List Char) :=
  let n := cs.length - ending.length
  -- of a shorter text nothing is dropped, and what is left cannot be the ending
  if (cs.drop n).map Char.toLower = ending then some (cs.take n) else none

/-! ## The sides make up the text -/

theorem cutFirst?_eq_none_iff {sep : Char} {cs : List Char} :
    cutFirst? sep cs = none ↔ sep ∉ cs := by
  induction cs with
  | nil => simp [cutFirst?]
  | cons c cs ih => grind [cutFirst?]

/-- **The first cut.** It leaves no separator on its left. -/
theorem cutFirst?_eq_some_iff {sep : Char} {cs a b : List Char} :
    cutFirst? sep cs = some (a, b) ↔ cs = a ++ sep :: b ∧ sep ∉ a := by
  induction cs generalizing a with
  | nil => simp [cutFirst?]
  | cons c cs ih =>
      rw [cutFirst?]
      cases a with
      | nil => simp; grind
      | cons d a => simp; grind

theorem cutLast?_eq_none_iff {sep : Char} {cs : List Char} :
    cutLast? sep cs = none ↔ sep ∉ cs := by
  induction cs with
  | nil => simp [cutLast?]
  | cons c cs ih => grind [cutLast?]

/-- **The last cut.** It leaves no separator on its right. -/
theorem cutLast?_eq_some_iff {sep : Char} {cs a b : List Char} :
    cutLast? sep cs = some (a, b) ↔ cs = a ++ sep :: b ∧ sep ∉ b := by
  induction cs generalizing a with
  | nil => simp [cutLast?]
  | cons c cs ih =>
      have hn := @cutLast?_eq_none_iff sep cs
      rw [cutLast?]
      cases a with
      | nil => simp; grind
      | cons d a => simp; grind

theorem withoutEnding?_eq_some_iff {ending cs body : List Char} :
    withoutEnding? ending cs = some body ↔
      ∃ tail, cs = body ++ tail ∧ tail.map Char.toLower = ending := by
  simp only [withoutEnding?]
  constructor
  · intro h
    split at h
    · next he =>
        obtain rfl := Option.some.inj h
        exact ⟨_, (List.take_append_drop _ cs).symm, he⟩
    · contradiction
  · rintro ⟨tail, rfl, rfl⟩
    simp

end MacroPad.Text
