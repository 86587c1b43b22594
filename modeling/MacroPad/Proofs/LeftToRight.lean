/-
`LeftToRight.lean` -- reading part by part.

A grammar with separators reads one part after the other, each on top of what was read before it,
and stops at the first part that it turns away. So what is read of a text follows from what is read
of its parts, and a text that is turned away is so because of a first part that does not fit behind
the parts before it.
-/
import Mathlib.Data.List.Induction
import MacroPad.Grammar.Fault

set_option autoImplicit false

namespace MacroPad

section LeftToRight

variable {σ α : Type} {read : σ → α → Except GrammarFault σ} {start middle last : σ} {part : α}
  {parts before after : List α} {fault : GrammarFault}

/-- A first part is read, and the others on top of it. -/
theorem foldlM_cons_of_ok (h : read start part = .ok middle) :
    (part :: parts).foldlM read start = parts.foldlM read middle := by
  rw [List.foldlM_cons, h]
  rfl

/-- Some parts are read, and the others on top of them. -/
theorem foldlM_append_of_ok (h : before.foldlM read start = .ok middle) :
    (before ++ after).foldlM read start = after.foldlM read middle := by
  rw [List.foldlM_append, h]
  rfl

/-- Some parts are read, and one more on top of them. -/
theorem foldlM_concat_of_ok (h : before.foldlM read start = .ok middle)
    (hpart : read middle part = .ok last) : (before ++ [part]).foldlM read start = .ok last := by
  rw [foldlM_append_of_ok h, foldlM_cons_of_ok hpart]
  rfl

/-- **The first part that is turned away decides**, and nothing behind it is looked at. -/
theorem foldlM_eq_error_of_first (h : before.foldlM read start = .ok middle)
    (hpart : read middle part = .error fault) :
    (before ++ part :: after).foldlM read start = .error fault := by
  rw [foldlM_append_of_ok h, List.foldlM_cons, hpart]
  rfl

/-- **Parts fit, or a first one does not**, as soon as this is so of one more part behind parts that
fit. -/
theorem fits_or_exists_first {Fits : List α → Prop} {Offends : List α → α → GrammarFault → Prop}
    (hnil : Fits [])
    (hconcat : ∀ before part, Fits before →
      Fits (before ++ [part]) ∨ ∃ fault, Offends before part fault)
    (parts : List α) :
    Fits parts ∨ ∃ before part after fault,
      parts = before ++ part :: after ∧ Fits before ∧ Offends before part fault := by
  -- from the last part on, since a part is judged by those before it
  induction parts using List.reverseRecOn with
  | nil => exact .inl hnil
  | append_singleton parts part ih =>
      rcases ih with h | ⟨before, first, after, fault, rfl, hbefore, hoffends⟩
      · rcases hconcat parts part h with hboth | ⟨fault, hoffends⟩
        · exact .inl hboth
        · exact .inr ⟨parts, part, [], fault, rfl, h, hoffends⟩
      · refine .inr ⟨before, first, after ++ [part], fault, ?_, hbefore, hoffends⟩
        rw [List.append_assoc, List.cons_append]

end LeftToRight

end MacroPad
