/-
`Blank.lean` -- blank characters and the trimming of text.

A blank is a character with the Unicode property `White_Space`. Zero-width
characters (U+200B, U+FEFF) and the separators U+001C to U+001F do not have it
and are kept by every trim.
-/
set_option autoImplicit false

namespace MacroPad.Text

/-- The 25 characters of the property `White_Space`. -/
def isBlank (c : Char) : Bool :=
  let n := c.toNat
  (0x09 ≤ n && n ≤ 0x0D) || n == 0x20 || n == 0x85 || n == 0xA0 || n == 0x1680 ||
    (0x2000 ≤ n && n ≤ 0x200A) || n == 0x2028 || n == 0x2029 || n == 0x202F || n == 0x205F ||
    n == 0x3000

/-- The text without its leading blanks. -/
def trimStart (cs : List Char) : List Char := cs.dropWhile isBlank

/-- The text without its trailing blanks. -/
def trimEnd (cs : List Char) : List Char := (cs.reverse.dropWhile isBlank).reverse

/-- The text without blanks at either end. -/
def trim (cs : List Char) : List Char := trimEnd (trimStart cs)

/-- Text of blanks only, the empty text included. -/
def isAllBlank (cs : List Char) : Bool := cs.all isBlank

/-! ## Blanks -/

theorem isBlank_of_isWhitespace {c : Char} (h : c.isWhitespace = true) : isBlank c = true := by
  unfold Char.isWhitespace at h
  have hc : c = ' ' ∨ c = '\t' ∨ c = '\r' ∨ c = '\n' := by grind
  rcases hc with rfl | rfl | rfl | rfl <;> rfl

theorem isBlank_eq_false_of_isDigit {c : Char} (h : c.isDigit = true) : isBlank c = false := by
  have hn : 48 ≤ c.toNat ∧ c.toNat ≤ 57 := by
    simp only [Char.isDigit, Bool.and_eq_true, decide_eq_true_eq, ge_iff_le,
      UInt32.le_iff_toNat_le] at h
    exact h
  simp only [isBlank, Bool.or_eq_false_iff, Bool.and_eq_false_iff, decide_eq_false_iff_not,
    beq_eq_false_iff_ne]
  omega

/-! ## Trimming -/

@[simp] theorem trim_nil : trim [] = [] := rfl

theorem trimStart_cons_of_not_blank {c : Char} (h : isBlank c = false) (cs : List Char) :
    trimStart (c :: cs) = c :: cs := by
  simp [trimStart, h]

theorem trimEnd_append_singleton {c : Char} (h : isBlank c = false) (cs : List Char) :
    trimEnd (cs ++ [c]) = cs ++ [c] := by
  simp [trimEnd, h]

/-- Only blanks are lost, and only from the two ends. -/
theorem exists_trim_eq (cs : List Char) :
    ∃ a b, cs = a ++ trim cs ++ b ∧ isAllBlank a = true ∧ isAllBlank b = true := by
  have key : ∀ l : List Char, l = l.takeWhile isBlank ++ l.dropWhile isBlank := fun l =>
    List.takeWhile_append_dropWhile.symm
  refine ⟨cs.takeWhile isBlank, ((trimStart cs).reverse.takeWhile isBlank).reverse, ?_, ?_, ?_⟩
  · have h := congrArg List.reverse (key (trimStart cs).reverse)
    simp only [List.reverse_reverse, List.reverse_append] at h
    rw [List.append_assoc, trim, trimEnd, ← h]
    exact key cs
  · simp [isAllBlank]
  · simp [isAllBlank]

end MacroPad.Text
