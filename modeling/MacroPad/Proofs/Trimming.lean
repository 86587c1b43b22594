/-
`Trimming.lean` -- what is left after blanks are trimmed.

A trimmed text starts and ends with characters that are no blanks, so trimming it
again changes nothing, and characters that are no blanks are all still there.
-/
import Mathlib.Data.List.DropRight
import MacroPad.Text.Blank

set_option autoImplicit false

namespace MacroPad.Text

variable {cs blanks : List Char}

theorem isDigit_iff {c : Char} : c.isDigit = true ↔ 48 ≤ c.toNat ∧ c.toNat ≤ 57 := by
  simp only [Char.isDigit, Bool.and_eq_true, decide_eq_true_eq, ge_iff_le,
    UInt32.le_iff_toNat_le]
  exact Iff.rfl

theorem isAllBlank_iff : isAllBlank cs = true ↔ ∀ c ∈ cs, isBlank c = true := by
  simp [isAllBlank]

/-! ## One end -/

theorem exists_trimEnd_eq (cs : List Char) :
    ∃ blanks, cs = trimEnd cs ++ blanks ∧ isAllBlank blanks = true := by
  refine ⟨(cs.reverse.takeWhile isBlank).reverse, ?_, by simp [isAllBlank]⟩
  rw [trimEnd, ← List.reverse_append, List.takeWhile_append_dropWhile, List.reverse_reverse]

theorem trimEnd_append_of_isAllBlank (h : isAllBlank blanks = true) :
    trimEnd (cs ++ blanks) = trimEnd cs := by
  have hdrop : (blanks.reverse ++ cs.reverse).dropWhile isBlank = cs.reverse.dropWhile isBlank := by
    rw [List.dropWhile_append_of_pos]
    intro c hc
    exact isAllBlank_iff.1 h c (List.mem_reverse.1 hc)
  rw [trimEnd, List.reverse_append, hdrop, trimEnd]

/-- A text whose last character is no blank is not changed at its end. -/
theorem trimEnd_eq_self (h : ∀ c ∈ cs.getLast?, isBlank c = false) : trimEnd cs = cs := by
  rcases List.eq_nil_or_concat cs with rfl | ⟨init, c, rfl⟩
  · rfl
  · rw [List.concat_eq_append] at h ⊢
    exact trimEnd_append_singleton (h c (by simp)) init

theorem getLast?_trimEnd (cs : List Char) : ∀ c ∈ (trimEnd cs).getLast?, isBlank c = false := by
  intro c hc
  rw [trimEnd, List.getLast?_reverse] at hc
  have hnot := List.head?_dropWhile_not isBlank cs.reverse
  rw [hc] at hnot
  simpa using hnot

/-! ## Both ends -/

theorem head?_trim (cs : List Char) : ∀ c ∈ (trim cs).head?, isBlank c = false := by
  intro c hc
  obtain ⟨blanks, hsplit, -⟩ := exists_trimEnd_eq (trimStart cs)
  have hhead : (trimStart cs).head? = some c := by
    rw [hsplit, List.head?_append, show (trimEnd (trimStart cs)).head? = some c from hc,
      Option.some_or]
  have hnot := List.head?_dropWhile_not isBlank cs
  rw [trimStart] at hhead
  rw [hhead] at hnot
  simpa using hnot

/-- The first character that is no blank comes first. -/
theorem head?_trim_eq_find? (cs : List Char) :
    (trim cs).head? = cs.find? fun c => !isBlank c := by
  induction cs with
  | nil => rfl
  | cons c cs ih =>
      cases hc : isBlank c with
      | true =>
          have htrim : trim (c :: cs) = trim cs := by
            rw [trim, trimStart, List.dropWhile_cons, if_pos hc]
            rfl
          rw [htrim, ih, List.find?_cons, hc]
          rfl
      | false =>
          rw [List.find?_cons, hc, trim, trimStart_cons_of_not_blank hc]
          obtain ⟨blanks, hsplit, hblanks⟩ := exists_trimEnd_eq (c :: cs)
          cases htrim : trimEnd (c :: cs) with
          | nil =>
              rw [htrim, List.nil_append] at hsplit
              rw [isAllBlank_iff.1 hblanks c (hsplit ▸ List.mem_cons_self)] at hc
              contradiction
          | cons d ds =>
              rw [htrim, List.cons_append, List.cons.injEq] at hsplit
              rw [hsplit.1]
              rfl

theorem getLast?_trim (cs : List Char) : ∀ c ∈ (trim cs).getLast?, isBlank c = false :=
  getLast?_trimEnd (trimStart cs)

/-- The last character that is no blank comes last. -/
theorem getLast?_trim_eq_find? (cs : List Char) :
    (trim cs).getLast? = cs.reverse.find? fun c => !isBlank c := by
  have hsplit : cs = cs.takeWhile isBlank ++ trimStart cs :=
    List.takeWhile_append_dropWhile.symm
  have hblank : (cs.takeWhile isBlank).reverse.find? (fun c => !isBlank c) = none := by
    rw [List.find?_eq_none]
    intro c hc
    have hall : isBlank c = true := List.all_eq_true.1 List.all_takeWhile c (List.mem_reverse.1 hc)
    simp [hall]
  calc (trim cs).getLast?
      = (trimStart cs).reverse.find? fun c => !isBlank c := by
        rw [trim, trimEnd, List.getLast?_reverse, List.find?_not_eq_head?_dropWhile]
    _ = (cs.takeWhile isBlank ++ trimStart cs).reverse.find? fun c => !isBlank c := by
        rw [List.reverse_append, List.find?_append, hblank, Option.or_none]
    _ = cs.reverse.find? fun c => !isBlank c := by rw [← hsplit]

/-- Text that follows does not change the start, if there is one. -/
theorem head?_trim_append {first : List Char} (h : isAllBlank first = false) (rest : List Char) :
    (trim (first ++ rest)).head? = (trim first).head? := by
  rw [head?_trim_eq_find?, head?_trim_eq_find?, List.find?_append]
  cases hfind : first.find? fun c => !isBlank c with
  | some c => rfl
  | none =>
      have hall : isAllBlank first = true := by
        rw [isAllBlank_iff]
        intro c hc
        simpa using List.find?_eq_none.1 hfind c hc
      rw [h] at hall
      contradiction

/-- Text that comes before does not change the end, if there is one. -/
theorem getLast?_trim_append {last : List Char} (h : isAllBlank last = false) (rest : List Char) :
    (trim (rest ++ last)).getLast? = (trim last).getLast? := by
  rw [getLast?_trim_eq_find?, getLast?_trim_eq_find?, List.reverse_append, List.find?_append]
  cases hfind : last.reverse.find? fun c => !isBlank c with
  | some c => rfl
  | none =>
      have hall : isAllBlank last = true := by
        rw [isAllBlank_iff]
        intro c hc
        simpa using List.find?_eq_none.1 hfind c (List.mem_reverse.2 hc)
      rw [h] at hall
      contradiction

/-- A text with no blank at either end is not changed. -/
theorem trim_eq_self (hfirst : ∀ c ∈ cs.head?, isBlank c = false)
    (hlast : ∀ c ∈ cs.getLast?, isBlank c = false) : trim cs = cs := by
  have hstart : trimStart cs = cs := by
    cases cs with
    | nil => rfl
    | cons c cs => exact trimStart_cons_of_not_blank (hfirst c rfl) cs
  rw [trim, hstart, trimEnd_eq_self hlast]

@[simp] theorem trim_trim (cs : List Char) : trim (trim cs) = trim cs :=
  trim_eq_self (head?_trim cs) (getLast?_trim cs)

theorem trim_eq_nil_iff : trim cs = [] ↔ isAllBlank cs = true := by
  constructor
  · intro h
    obtain ⟨a, b, hsplit, ha, hb⟩ := exists_trim_eq cs
    rw [hsplit, h]
    simp only [isAllBlank, List.append_nil, List.all_append, Bool.and_eq_true]
    exact ⟨ha, hb⟩
  · intro h
    have hstart : trimStart cs = [] := by
      rw [trimStart, ← List.append_nil cs, List.dropWhile_append_of_pos (isAllBlank_iff.1 h)]
      rfl
    rw [trim, hstart]
    rfl

theorem isAllBlank_eq_false {c : Char} (h : (trim cs).head? = some c) : isAllBlank cs = false := by
  rw [← Bool.not_eq_true]
  intro hall
  rw [trim_eq_nil_iff.2 hall] at h
  contradiction

theorem isAllBlank_trim (cs : List Char) : isAllBlank (trim cs) = isAllBlank cs := by
  rw [Bool.eq_iff_iff, ← trim_eq_nil_iff, ← trim_eq_nil_iff, trim_trim]

theorem trim_append_left (h : isAllBlank blanks = true) (cs : List Char) :
    trim (blanks ++ cs) = trim cs := by
  rw [trim, trimStart, List.dropWhile_append_of_pos (isAllBlank_iff.1 h)]
  rfl

/-- The start is trimmed no further than the first character that is no blank. -/
theorem trimStart_append (h : ¬ isAllBlank cs = true) (rest : List Char) :
    trimStart (cs ++ rest) = trimStart cs ++ rest := by
  have hne : (cs.dropWhile isBlank).isEmpty = false := by
    rw [← Bool.not_eq_true, List.isEmpty_iff, List.dropWhile_eq_nil_iff]
    rw [isAllBlank_iff] at h
    exact h
  rw [trimStart, List.dropWhile_append, hne]
  rfl

theorem trim_append_right (h : isAllBlank blanks = true) (cs : List Char) :
    trim (cs ++ blanks) = trim cs := by
  by_cases hall : isAllBlank cs = true
  · have hboth : isAllBlank (cs ++ blanks) = true := by
      rw [isAllBlank, List.all_append, Bool.and_eq_true]
      exact ⟨hall, h⟩
    rw [trim_eq_nil_iff.2 hboth, trim_eq_nil_iff.2 hall]
  · rw [trim, trimStart_append hall, trimEnd_append_of_isAllBlank h, ← trim]

/-- Behind a text, an end with no blank at either of its ends is not changed by a trim. -/
theorem exists_trim_append (cs : List Char) {tail : List Char} (hne : tail ≠ [])
    (hfirst : ∀ c ∈ tail.head?, isBlank c = false) (hlast : ∀ c ∈ tail.getLast?, isBlank c = false) :
    ∃ before, trim (cs ++ tail) = before ++ tail ∧ trim before = trim cs := by
  by_cases hall : isAllBlank cs = true
  · refine ⟨[], ?_, (trim_eq_nil_iff.2 hall).symm⟩
    rw [trim_append_left hall, trim_eq_self hfirst hlast, List.nil_append]
  · refine ⟨trimStart cs, ?_, ?_⟩
    · rw [trim, trimStart_append hall]
      apply trimEnd_eq_self
      rwa [List.getLast?_append_of_ne_nil _ hne]
    · rw [trim, trimStart, trimStart, List.dropWhile_idempotent, ← trimStart, ← trim]

/-! ## Around a character that is no blank -/

section Around

variable {c : Char} (hc : isBlank c = false) (before after : List Char)
include hc

theorem trimStart_append_cons : trimStart (before ++ c :: after) = trimStart before ++ c :: after := by
  have hrest : (c :: after).dropWhile isBlank = c :: after := trimStart_cons_of_not_blank hc after
  rw [trimStart, List.dropWhile_append, hrest, trimStart]
  by_cases hnone : (before.dropWhile isBlank).isEmpty = true
  · rw [if_pos hnone, List.isEmpty_iff.1 hnone, List.nil_append]
  · rw [if_neg hnone]

theorem trimEnd_append_cons : trimEnd (before ++ c :: after) = before ++ c :: trimEnd after := by
  have hends : ∀ cs, trimEnd cs = (trimStart cs.reverse).reverse := fun cs => rfl
  rw [hends, List.reverse_append, List.reverse_cons, List.append_assoc, List.singleton_append,
    trimStart_append_cons hc, List.reverse_append, List.reverse_cons, List.reverse_reverse,
    List.append_assoc, List.singleton_append, hends]

/-- On either side of a character that is no blank, only the other end is trimmed. -/
theorem trim_append_cons :
    trim (before ++ c :: after) = trimStart before ++ c :: trimEnd after := by
  rw [trim, trimStart_append_cons hc, trimEnd_append_cons hc]

end Around

/-! ## Pieces -/

variable {sep : Char}

private theorem sep_not_mem (hsep : isBlank sep = false) (h : isAllBlank blanks = true) :
    sep ∉ blanks := by
  intro hmem
  rw [isAllBlank_iff.1 h sep hmem] at hsep
  contradiction

/-- Blanks in front of a text are trimmed off its first piece. -/
theorem map_trim_splitOn_append_left (hsep : isBlank sep = false) (h : isAllBlank blanks = true)
    (cs : List Char) : ((blanks ++ cs).splitOn sep).map trim = (cs.splitOn sep).map trim := by
  have hblanks : sep ∉ blanks := sep_not_mem hsep h
  by_cases hmem : sep ∈ cs
  · obtain ⟨first, rest, rfl, hfirst⟩ := List.eq_append_cons_of_mem hmem
    have hboth : sep ∉ blanks ++ first := by
      rw [List.mem_append]
      exact fun hor => hor.elim hblanks hfirst
    rw [← List.append_assoc, List.splitOn_append_cons_self_of_not_mem hboth,
      List.splitOn_append_cons_self_of_not_mem hfirst, List.map_cons, List.map_cons,
      trim_append_left h]
  · have hboth : sep ∉ blanks ++ cs := by
      rw [List.mem_append]
      exact fun hor => hor.elim hblanks hmem
    rw [List.splitOn_eq_singleton hboth, List.splitOn_eq_singleton hmem, List.map_singleton,
      List.map_singleton, trim_append_left h]

/-- Blanks behind a text are trimmed off its last piece. -/
theorem map_trim_splitOn_append_right (hsep : isBlank sep = false) (h : isAllBlank blanks = true)
    (cs : List Char) : ((cs ++ blanks).splitOn sep).map trim = (cs.splitOn sep).map trim := by
  have hblanks : sep ∉ blanks := sep_not_mem hsep h
  induction hn : cs.length using Nat.strongRecOn generalizing cs with
  | _ n ih =>
      by_cases hmem : sep ∈ cs
      · obtain ⟨first, rest, rfl, hfirst⟩ := List.eq_append_cons_of_mem hmem
        have hshorter : rest.length < n := by
          rw [List.length_append, List.length_cons] at hn
          omega
        rw [List.append_assoc, List.cons_append,
          List.splitOn_append_cons_self_of_not_mem hfirst,
          List.splitOn_append_cons_self_of_not_mem hfirst, List.map_cons, List.map_cons,
          ih rest.length hshorter rest rfl]
      · have hboth : sep ∉ cs ++ blanks := by
          rw [List.mem_append]
          exact fun hor => hor.elim hmem hblanks
        rw [List.splitOn_eq_singleton hboth, List.splitOn_eq_singleton hmem, List.map_singleton,
          List.map_singleton, trim_append_right h]

/-- **Trimmed pieces do not depend on the blanks around the text.** -/
theorem map_trim_splitOn_trim (hsep : isBlank sep = false) (cs : List Char) :
    ((trim cs).splitOn sep).map trim = (cs.splitOn sep).map trim := by
  obtain ⟨a, b, hsplit, ha, hb⟩ := exists_trim_eq cs
  calc ((trim cs).splitOn sep).map trim
      = ((a ++ trim cs).splitOn sep).map trim := by rw [map_trim_splitOn_append_left hsep ha]
    _ = ((a ++ trim cs ++ b).splitOn sep).map trim := by
        rw [map_trim_splitOn_append_right hsep hb]
    _ = (cs.splitOn sep).map trim := by rw [← hsplit]

/-! ## What is not blank -/

/-- **Only blanks are trimmed**: what no blank passes is still there. -/
theorem filter_trim {p : Char → Bool} (h : ∀ c, isBlank c = true → p c = false) (cs : List Char) :
    (trim cs).filter p = cs.filter p := by
  have hnone : ∀ blanks : List Char, isAllBlank blanks = true → blanks.filter p = [] := by
    intro blanks hblanks
    rw [List.filter_eq_nil_iff]
    intro c hc
    rw [h c (isAllBlank_iff.1 hblanks c hc)]
    decide
  obtain ⟨a, b, hsplit, ha, hb⟩ := exists_trim_eq cs
  calc (trim cs).filter p
      = a.filter p ++ (trim cs).filter p ++ b.filter p := by
        rw [hnone a ha, hnone b hb, List.nil_append, List.append_nil]
    _ = (a ++ trim cs ++ b).filter p := by rw [List.filter_append, List.filter_append]
    _ = cs.filter p := by rw [← hsplit]

end MacroPad.Text
