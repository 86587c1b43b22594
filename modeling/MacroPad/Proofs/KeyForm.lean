/-
`KeyForm.lean` -- keys with modifiers before them.

A key of a hold sequence is the last of the pieces between `+`, and the pieces before
it name modifiers. The statements say that this form is exactly what is read as a key
and that no token of the form is taken for a malformed wait: such a token starts with
a digit, and a digit starts no name that is longer than itself.
-/
import MacroPad.Proofs.Names
import MacroPad.Proofs.WaitForm

set_option autoImplicit false

namespace MacroPad

/-- The token is a key with modifiers before it: joined by `+`, the key last.
Nothing but blanks stands between two `+`, or the name of a modifier. -/
def KeyForm (token : List Char) (key : Key) (extra : Modifiers) : Prop :=
  ∃ before name, token.splitOn '+' = before ++ [name] ∧ NamesKey name key ∧
    (∀ piece ∈ before, Text.isAllBlank piece = false →
      ∃ modifier, NamesModifier piece modifier) ∧
    extra.UnionOf before

namespace Hold

variable {token name : List Char} {before : List (List Char)} {key : Key} {extra : Modifiers}

private theorem mapM_eq_some_iff {α β : Type} {f : α → Option β} {l : List α} {out : List β} :
    l.mapM f = some out ↔ (∀ a ∈ l, ∃ b, f a = some b) ∧ l.filterMap f = out := by
  induction l generalizing out with
  | nil => simp
  | cons a l ih =>
      rw [List.mapM_cons, List.forall_mem_cons, List.filterMap_cons]
      cases hfa : f a with
      | none => simp
      | some b =>
          simp only [Option.pure_def, Option.bind_eq_bind, Option.bind_some,
            Option.bind_eq_some_iff, Option.some.injEq, exists_eq', true_and]
          constructor
          · rintro ⟨rest, hrest, rfl⟩
            obtain ⟨hall, rfl⟩ := ih.1 hrest
            exact ⟨hall, rfl⟩
          · rintro ⟨hall, rfl⟩
            exact ⟨_, ih.2 ⟨hall, rfl⟩, rfl⟩

/-- The key is what stands after the last `+`. -/
theorem press?_eq (hsplit : token.splitOn '+' = before ++ [name]) :
    press? token =
      match (before.filter fun piece => !Text.isAllBlank piece).mapM Vocabulary.modifier?,
        Vocabulary.sequenceKey? name with
      | some keys, some key => some (.press key.usage (.join (keys.map .only)))
      | _, _ => none := by
  unfold press?
  cases hcut : Text.cutLast? '+' token with
  | none =>
      rw [List.splitOn_eq_singleton (Text.cutLast?_eq_none_iff.1 hcut),
        ← List.nil_append [token]] at hsplit
      obtain ⟨rfl, hname⟩ := List.append_inj' hsplit rfl
      obtain rfl : token = name := List.singleton_inj.1 hname
      rfl
  | some sides =>
      obtain ⟨left, right⟩ := sides
      obtain ⟨rfl, hlast⟩ := Text.cutLast?_eq_some_iff.1 hcut
      rw [List.splitOn_append_cons_self, List.splitOn_eq_singleton hlast] at hsplit
      obtain ⟨rfl, hname⟩ := List.append_inj' hsplit rfl
      obtain rfl : right = name := List.singleton_inj.1 hname
      rfl

theorem exists_splitOn_eq (token : List Char) :
    ∃ before name, token.splitOn '+' = before ++ [name] := by
  rcases List.eq_nil_or_concat (token.splitOn '+') with hnil | ⟨before, name, hsplit⟩
  · exact absurd hnil (List.splitOn_ne_nil '+' token)
  · exact ⟨before, name, by rw [hsplit, List.concat_eq_append]⟩

/-- **Keys with modifiers** are the tokens of the form. -/
theorem press?_eq_some_iff {item : SequenceItem} :
    press? token = some item ↔
      ∃ key extra, KeyForm token key extra ∧ item = .press key.usage extra := by
  obtain ⟨before, name, hsplit⟩ := exists_splitOn_eq token
  rw [press?_eq hsplit]
  constructor
  · intro h
    split at h
    · next keys key hkeys hkey =>
        obtain rfl := Option.some.inj h
        obtain ⟨hall, rfl⟩ := mapM_eq_some_iff.1 hkeys
        refine ⟨key, _, ⟨before, name, hsplit, Vocabulary.sequenceKey?_eq_some_iff.1 hkey,
          fun piece hpiece hblank => ?_, (Vocabulary.unionOf_join _).of_filter⟩, rfl⟩
        obtain ⟨modifier, hmodifier⟩ :=
          hall piece (List.mem_filter.2 ⟨hpiece, by rw [hblank]; rfl⟩)
        exact ⟨modifier, Vocabulary.modifier?_eq_some_iff.1 hmodifier⟩
    · contradiction
  · rintro ⟨key, extra, ⟨before', name', hsplit', hname, hpieces, hunion⟩, rfl⟩
    obtain ⟨rfl, hlast⟩ := List.append_inj' (hsplit.symm.trans hsplit') rfl
    rw [List.singleton_inj.1 hlast, Vocabulary.sequenceKey?_eq_some_iff.2 hname]
    have hkeys := mapM_eq_some_iff (f := Vocabulary.modifier?)
      (l := before.filter fun piece => !Text.isAllBlank piece) |>.2 ⟨?_, rfl⟩
    · rw [hkeys, hunion.unique (Vocabulary.unionOf_join _).of_filter]
    · intro piece hpiece
      obtain ⟨hmem, hblank⟩ := List.mem_filter.1 hpiece
      obtain ⟨modifier, hmodifier⟩ := hpieces piece hmem (by simpa using hblank)
      exact ⟨modifier, Vocabulary.modifier?_eq_some_iff.2 hmodifier⟩

theorem press?_eq_none_iff : press? token = none ↔ ∀ key extra, ¬ KeyForm token key extra := by
  rw [Option.eq_none_iff_forall_ne_some]
  constructor
  · intro hnone key extra hform
    exact hnone _ (press?_eq_some_iff.2 ⟨key, extra, hform, rfl⟩)
  · intro hnot item hitem
    obtain ⟨key, extra, hform, -⟩ := press?_eq_some_iff.1 hitem
    exact hnot key extra hform

/-! ## Keys and waits -/

/-- What a token starts with, its first piece starts with. -/
theorem exists_mem_head?_trim {c : Char} (hsplit : token.splitOn '+' = before ++ [name])
    (hplus : '+' ∈ token) (hc : (Text.trim token).head? = some c) (hne : c ≠ '+') :
    ∃ piece ∈ before, (Text.trim piece).head? = some c := by
  obtain ⟨first, rest, rfl, hfirst⟩ := List.eq_append_cons_of_mem hplus
  rw [List.splitOn_append_cons_self_of_not_mem hfirst] at hsplit
  have hmem : first ∈ before := by
    cases before with
    | nil =>
        rw [List.nil_append, List.cons.injEq] at hsplit
        exact absurd hsplit.2 (List.splitOn_ne_nil '+' rest)
    | cons piece before =>
        rw [List.cons_append, List.cons.injEq] at hsplit
        rw [hsplit.1]
        exact List.mem_cons_self
  refine ⟨first, hmem, ?_⟩
  rw [Text.head?_trim_eq_find?, List.find?_append] at hc
  rw [Text.head?_trim_eq_find?]
  cases hfind : first.find? fun c => !Text.isBlank c with
  | none =>
      -- before the `+` there is nothing but blanks, so the token starts with it
      rw [hfind, Option.none_or, List.find?_cons_of_pos (by decide)] at hc
      exact absurd (Option.some.inj hc).symm hne
  | some d =>
      rw [hfind, Option.some_or] at hc
      exact hc

/-- **No key is taken for a malformed wait.** A token that starts with a digit can
only be that digit if it is a key, and the number of a wait is no modifier. -/
theorem not_endsInS_of_keyForm {c : Char} (h : KeyForm token key extra)
    (hc : (Text.trim token).head? = some c) (hdigit : c.isDigit = true) :
    ¬ EndsInS (Text.trim token) := by
  obtain ⟨before, name, hsplit, hname, hpieces, -⟩ := h
  by_cases hplus : '+' ∈ token
  · have hne : c ≠ '+' := by
      rintro rfl
      contradiction
    obtain ⟨piece, hmem, hhead⟩ := exists_mem_head?_trim hsplit hplus hc hne
    obtain ⟨modifier, hmodifier⟩ := hpieces piece hmem (Text.isAllBlank_eq_false hhead)
    exact absurd hmodifier (Vocabulary.not_namesModifier_of_isDigit hhead hdigit)
  · -- without a `+` the token itself names the key
    rw [List.splitOn_eq_singleton hplus, ← List.nil_append [token]] at hsplit
    obtain ⟨-, hlast⟩ := List.append_inj' hsplit rfl
    obtain rfl : token = name := List.singleton_inj.1 hlast
    rw [Vocabulary.trim_eq_singleton_of_namesKey hname hc hdigit]
    rintro ⟨d, hd, hs⟩
    obtain rfl : c = d := Option.some.inj hd
    exact WaitReading.toLower_ne (.inl hdigit) (.inr rfl) hs

end Hold

end MacroPad
