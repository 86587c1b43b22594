/-
`PlanShape.lean` -- what playing may assume of a plan that was read.

Playing accepts every plan and is careful with it: it takes key 0 for "no key", a rate of 0 for
1, and it passes over bytes that are no digits. None of this is ever needed for a plan that was
read from a text. Its keys are keys that the grammar has names for, its rates are in range, its
numbers are made of digits, and nothing in it is longer than there is room for. Each grammar
has its own part of this, and the statement at the end puts them together.
-/
import MacroPad.Proofs.PlayingTime
import MacroPad.Proofs.TypingGrammar
import MacroPad.Proofs.Usages

set_option autoImplicit false

namespace MacroPad

/-! ## Shapes -/

/-- ASCII digits of a number that is typed on the keypad. -/
structure IsTyped (ds : List UInt8) : Prop where
  nonempty : 1 ≤ ds.length
  room : ds.length ≤ 64
  digits : ∀ byte ∈ ds, isDigitByte byte = true
  /-- Each of the bytes has its key, so none is passed over. -/
  keys : (ds.filterMap keypadUsage?).map some = ds.map keypadUsage?

/-- The items of a sequence. -/
def HoldContent.items : HoldContent → List SequenceItem
  | altCode _ => []
  | sequence items => items

/-- The numbers that are typed on the keypad. -/
def HoldContent.numbers : HoldContent → List (List UInt8)
  | altCode ds => [ds]
  | sequence items => items.filterMap fun
      | .digits ds => some ds
      | .wait _ | .press _ _ => none

/-- The text starts with a wait. -/
def StartsWithWait (text : String) : Prop := ∃ part ∈ (commaParts text.toList).head?, IsWait part

/-- The steps of a keystroke macro. -/
structure KeystrokeShape (text : String) (steps : List Step) : Prop where
  nonempty : 1 ≤ steps.length
  room : steps.length ≤ 64
  /-- Only the first step can have no key, and then it has no modifiers. -/
  key : ∀ before step after, steps = before ++ step :: after →
    IsChordUsage step.key ∨ before = [] ∧ step.key = 0 ∧ step.modifiers = .none
  /-- The step without a key is the wait at the start. -/
  pause : ∀ before step after, steps = before ++ step :: after →
    (step.isPause = true ↔ before = [] ∧ StartsWithWait text)

/-- The text of a typing macro and its rate. -/
structure TypingShape (text typed : String) (perSecond : UInt8) : Prop where
  rate : 1 ≤ perSecond.toNat ∧ perSecond.toNat ≤ 20
  part : typed.toList <:+: text.toList
  first : ∀ c ∈ typed.toList.head?, Text.isBlank c = false
  last : ∀ c ∈ typed.toList.getLast?, Text.isBlank c = false
  /-- The rate does not have to count as 1. -/
  positive : max perSecond.toNat 1 = perSecond.toNat

/-- The two sides of a hold sequence. -/
structure HoldShape (held : Modifiers) (content : HoldContent) : Prop where
  holds : ∃ key, held.has key = true
  room : content.items.length ≤ 64
  numbers : ∀ ds ∈ content.numbers, held.HoldsAlt ∧ IsTyped ds
  keys : ∀ key extra, .press key extra ∈ content.items → IsItemUsage key

/-- The plan has the shape of its kind. -/
def Plan.WellShaped (text : String) : Plan → Prop
  | keystroke steps => KeystrokeShape text steps
  | typing typed perSecond => TypingShape text typed perSecond
  | keybind key _ => IsChordUsage key ∧ key ≠ 0
  | holdSequence held content => HoldShape held content

/-! ## Keystrokes -/

section Keystrokes

variable {text : String} {parts : List (List Char)} {steps : List Step}

theorem Step.isPause_iff {step : Step} : step.isPause = true ↔ step.key = 0 := by
  rw [isPause, beq_iff_eq]

/-- The steps of some parts have keys, but for the step of the waits at the start. -/
theorem StepsOf.exists_first (h : StepsOf parts steps) (hne : parts ≠ []) :
    ∃ first rest, steps = first :: rest ∧ (∀ step ∈ rest, IsChordUsage step.key) ∧
      (IsChordUsage first.key ∧ (∀ part ∈ parts.head?, ¬ IsWait part) ∨
        (first.key = 0 ∧ first.modifiers = .none) ∧ ∃ part ∈ parts.head?, IsWait part) := by
  cases h with
  | chords h =>
      cases h with
      | nil => contradiction
      | @cons part chord waits parts total waitMs steps hchord _ _ rest =>
          have hpart : ¬ IsWait part := IsChord.not_isWait ⟨chord, hchord⟩
          refine ⟨_, steps, rfl, rest.isChordUsage, .inl ⟨?_, ?_⟩⟩
          · exact Chord.isChordUsage_of_ofText hchord
          · rintro other hother
            obtain rfl : part = other := Option.some.inj hother
            exact hpart
  | @pause waits parts total waitMs steps hsome hwaits _ rest =>
      cases hwaits with
      | nil => contradiction
      | @cons part waits ms total hwait _ =>
          exact ⟨_, steps, rfl, rest.isChordUsage, .inr ⟨⟨rfl, rfl⟩, part, rfl, ms, hwait⟩⟩

/-- An element of a list is the first one or one of the rest. -/
theorem eq_nil_or_mem_of_cons_eq_append {α : Type} {first a : α} {rest before after : List α}
    (h : first :: rest = before ++ a :: after) :
    before = [] ∧ a = first ∨ before ≠ [] ∧ a ∈ rest := by
  cases before with
  | nil => exact .inl ⟨rfl, (List.cons.inj h).1.symm⟩
  | cons b before =>
      refine .inr ⟨List.cons_ne_nil b before, ?_⟩
      rw [(List.cons.inj h).2]
      simp

/-- **Keystroke macros that are read have their shape.** -/
theorem keystrokeShape_of_listOfText (h : Step.listOfText text.toList = .ok steps) :
    KeystrokeShape text steps := by
  have htext := Step.stepText_listOfText text.toList
  rw [h] at htext
  cases htext with
  | accepted hparts hsteps =>
      have hne : commaParts text.toList ≠ [] := by
        rw [commaParts, Ne, List.map_eq_nil_iff]
        exact List.splitOn_ne_nil ',' text.toList
      have hroom : room (commaParts text.toList) ≤ 64 := hparts.2
      have hlength : steps.length = room (commaParts text.toList) := hsteps.length_eq
      obtain ⟨first, rest, rfl, hrest, hfirst⟩ := hsteps.exists_first hne
      refine ⟨?_, by omega, ?_, ?_⟩
      · rw [List.length_cons]
        omega
      · -- every step but the first one was a chord
        intro before step after hsplit
        obtain ⟨hbefore, rfl⟩ | ⟨-, hmem⟩ := eq_nil_or_mem_of_cons_eq_append hsplit
        · obtain ⟨hkey, -⟩ | ⟨hnone, -⟩ := hfirst
          · exact .inl hkey
          · exact .inr ⟨hbefore, hnone⟩
        · exact .inl (hrest step hmem)
      · -- a step without a key is not one of the chords, and the first part tells what it is
        intro before step after hsplit
        rw [Step.isPause_iff]
        obtain ⟨hbefore, rfl⟩ | ⟨hbefore, hmem⟩ := eq_nil_or_mem_of_cons_eq_append hsplit
        · obtain ⟨hkey, hnone⟩ | ⟨hnone, hwait⟩ := hfirst
          · refine ⟨fun hzero => absurd hzero hkey.ne_zero, ?_⟩
            rintro ⟨-, part, hpart, hwait⟩
            exact absurd hwait (hnone part hpart)
          · exact ⟨fun _ => ⟨hbefore, hwait⟩, fun _ => hnone.1⟩
        · refine ⟨fun hzero => absurd hzero (hrest step hmem).ne_zero, ?_⟩
          exact fun hand => absurd hand.1 hbefore

end Keystrokes

/-! ## Typing -/

section Typing

variable {cs : List Char} {text typed : String} {perSecond : UInt8}

theorem isInfix_trim (cs : List Char) : Text.trim cs <:+: cs := by
  obtain ⟨a, b, hsplit, -, -⟩ := Text.exists_trim_eq cs
  exact ⟨a, b, hsplit.symm⟩

/-- What is typed is a trimmed part of the text. -/
theorem RatedText.exists_trim {typed : List Char} {n : Nat}
    (h : RatedText (Text.trim cs) (.ok (typed, n))) :
    typed <:+: cs ∧ ∃ part, typed = Text.trim part := by
  cases h with
  | plain _ => exact ⟨isInfix_trim cs, cs, rfl⟩
  | @rated before inner rest digits hcut _ _ _ =>
      -- it stands in front of the last parenthesis, and is trimmed once more
      have hbefore : before <:+: Text.trim cs := ⟨[], _, hcut.split.symm⟩
      exact ⟨((isInfix_trim before).trans hbefore).trans (isInfix_trim cs), before, rfl⟩

/-- **Typing macros that are read have their shape.** -/
theorem typingShape_of_ofText (h : PacedText.ofText text.toList = .ok ⟨typed, perSecond⟩) :
    TypingShape text typed perSecond := by
  have htext := PacedText.typingText_ofText text.toList
  rw [h] at htext
  cases htext with
  | accepted hrated _ hrate =>
      obtain ⟨hpart, part, rfl⟩ := hrated.exists_trim
      have hrange : InRange perSecond.toNat := hrate ▸ hrated.inRange
      refine ⟨hrange, ?_, ?_, ?_, Nat.max_eq_left hrange.1⟩
      · rwa [String.toList_ofList]
      · rw [String.toList_ofList]
        exact Text.head?_trim part
      · rw [String.toList_ofList]
        exact Text.getLast?_trim part

end Typing

/-! ## Hold sequences -/

section HoldSequences

variable {held : Modifiers} {tokens skipped : List (List Char)} {token : List Char}
  {items : List SequenceItem} {item : SequenceItem} {ds : List UInt8}

/-- Digits of a text, if there are some and not too many, are typed one by one. -/
theorem isTyped_digitBytes {cs : List Char} (hsome : ∃ c ∈ cs, c.isDigit = true)
    (hroom : (digitBytes cs).length ≤ 64) : IsTyped (digitBytes cs) := by
  have hdigits : ∀ byte ∈ digitBytes cs, isDigitByte byte = true := by
    intro byte hbyte
    obtain ⟨c, hc, rfl⟩ := List.mem_map.1 hbyte
    obtain ⟨hlow, hhigh⟩ := Text.isDigit_iff.1 (List.mem_filter.1 hc).2
    rw [isDigitByte, Bool.and_eq_true, decide_eq_true_eq, decide_eq_true_eq, UInt8.toNat_ofNat']
    omega
  refine ⟨?_, hroom, hdigits, ?_⟩
  · obtain ⟨c, hc, hdigit⟩ := hsome
    rw [digitBytes, List.length_map]
    exact List.length_pos_of_mem (List.mem_filter.2 ⟨hc, hdigit⟩)
  · rw [List.map_filterMap_some_eq_filter_map_isSome, List.filter_eq_self]
    intro usage husage
    obtain ⟨byte, hbyte, rfl⟩ := List.mem_map.1 husage
    rw [keypadUsage?_isSome]
    exact hdigits byte hbyte

/-- No piece between commas is empty. -/
theorem ne_nil_of_mem_commaPieces {cs : List Char} (h : token ∈ commaPieces cs) : token ≠ [] := by
  obtain ⟨piece, hpiece, rfl⟩ := List.mem_map.1 h
  have hblank := (List.mem_filter.1 hpiece).2
  rw [Ne, Text.trim_eq_nil_iff]
  simpa using hblank

/-- Digits that stand in a sequence are typed while Alt is held. -/
theorem TokenMeans.isTyped (h : TokenMeans held token (some (.digits ds))) (hne : token ≠ [])
    (hfits : (SequenceItem.digits ds).Fits) : held.HoldsAlt ∧ IsTyped ds := by
  cases h with
  | digits _ halt hdigits =>
      obtain ⟨c, rest, rfl⟩ := List.exists_cons_of_ne_nil hne
      have hsome : ∃ d ∈ c :: rest, d.isDigit = true :=
        ⟨c, List.mem_cons_self, hdigits c List.mem_cons_self⟩
      exact ⟨halt, isTyped_digitBytes hsome hfits⟩

/-- **Hold sequences that are read have their shape.** -/
theorem holdShape_of_ofText {cs : List Char} {content : HoldContent}
    (h : (Hold.ofText cs).result = .ok (held, content)) : HoldShape held content := by
  obtain ⟨notices, hholds⟩ := Hold.holdText_ofText cs
  rw [h] at hholds
  cases hholds with
  | altCode sides halt hnumber hroom =>
      refine ⟨Hold.exists_has_of_holdsAlt halt, Nat.zero_le 64, ?_, ?_⟩
      · intro ds hds
        obtain rfl := List.mem_singleton.1 hds
        exact ⟨halt, isTyped_digitBytes hnumber.1 hroom⟩
      · exact fun key extra hmem => absurd hmem List.not_mem_nil
  | @sequence left right _ items skipped sides hsome _ hitems hroom =>
      refine ⟨hsome, hroom, ?_, ?_⟩
      · intro ds hds
        -- a number is what a whole token means, and no token is empty
        obtain ⟨item, hitem, hnumber⟩ := List.mem_filterMap.1 hds
        obtain ⟨token, htoken, hmeans, hfits⟩ := hitems.exists_token item hitem
        cases item with
        | digits ds' =>
            obtain rfl : ds' = ds := Option.some.inj hnumber
            exact hmeans.isTyped (ne_nil_of_mem_commaPieces htoken) hfits
        | wait _ => contradiction
        | press _ _ => contradiction
      · intro key extra hmem
        obtain ⟨token, -, hmeans, -⟩ := hitems.exists_token _ hmem
        exact hmeans.isItemUsage

end HoldSequences

/-! ## The law -/

/-- **What playing may assume.** A plan that is read from a text is of the kind that was asked
for and has the shape of its kind: nothing in it is too long, every key in it is one that its
grammar has a name for, every rate is in range and every number is made of digits. So playing
it takes no rate for 1 and passes over no digit, and a step presses nothing only if it is the
wait at the start. -/
theorem ofMacro_wellShaped {kind : Kind} {text : String} {plan : Plan}
    (h : (Plan.ofMacro kind text).result = .ok plan) : plan.kind = kind ∧ plan.WellShaped text := by
  have hread := Plan.exists_read_of_ofMacro h
  cases kind with
  | keystroke =>
      obtain ⟨steps, hsteps, rfl⟩ := hread
      exact ⟨rfl, keystrokeShape_of_listOfText hsteps⟩
  | typing =>
      obtain ⟨paced, hpaced, rfl⟩ := hread
      exact ⟨rfl, typingShape_of_ofText hpaced⟩
  | keybind =>
      obtain ⟨chord, hchord, rfl⟩ := hread
      have husage : IsChordUsage chord.key.usage := Chord.isChordUsage_of_ofText hchord
      exact ⟨rfl, husage, husage.ne_zero⟩
  | holdSequence =>
      obtain ⟨sides, hsides, rfl⟩ := hread
      exact ⟨rfl, holdShape_of_ofText hsides⟩

/-- Waits at the start make the one step that presses nothing. -/
theorem ofMacro_wellShaped_waits_first :
    let text := "200ms, 1 s, LCtrl+F12, 4294967295s"
    let steps : List Step := [⟨0, .none, 1200⟩, ⟨0x45, .only .leftCtrl, 4294967295⟩]
    (Plan.ofMacro .keystroke text).result = .ok (.keystroke steps) ∧ KeystrokeShape text steps ∧
      StartsWithWait text ∧ IsChordUsage 0x45 := by
  intro text steps
  have hread : (Plan.ofMacro .keystroke text).result = .ok (.keystroke steps) := by
    decide +kernel
  have hshape : KeystrokeShape text steps := (ofMacro_wellShaped hread).2
  refine ⟨hread, hshape, ((hshape.pause [] _ _ rfl).1 rfl).2, ?_⟩
  obtain hkey | ⟨hfirst, -⟩ := hshape.key [⟨0, .none, 1200⟩] _ _ rfl
  · exact hkey
  · contradiction

end MacroPad
