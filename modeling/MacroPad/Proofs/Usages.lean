/-
`Usages.lean` -- which keys a text can ask for.

The keys of a plan that was read from a text are those that its grammar has names for: a few
in chords, more in hold sequences, and none of the keypad in either. NumLock is a key of the
pad, but nothing that is written in a macro stands for it, no character is typed with it, and
the digits of the keypad are other keys. So what such a plan asks for *spares* NumLock, and
only the pad itself ever taps it.
-/
import MacroPad.Proofs.HoldGrammar
import MacroPad.Proofs.Requests
import MacroPad.Proofs.StepGrammar

set_option autoImplicit false

namespace MacroPad

/-! ## Keys of chords -/

/-- The keys that a chord can have. -/
inductive Key.InChord : Key → Prop
  | letter (place : Fin 26) : InChord (.letter place)
  | digit (value : Fin 10) : InChord (.digit value)
  | function {place : Fin 24} (h : place.val < 12) : InChord (.function place)
  | enter : InChord .enter
  | escape : InChord .escape
  | tab : InChord .tab
  | space : InChord .space

/-- The usage of a key that a chord can have. -/
def IsChordUsage (usage : UInt8) : Prop := ∃ key : Key, key.InChord ∧ key.usage = usage

theorem Key.usage_ne_numLock {key : Key} (h : key ≠ .numLock) : key.usage ≠ Key.numLock.usage :=
  fun husage => h (Key.usage_injective husage)

section Chords

variable {token : List Char} {key : Key}

/-- Usage 0 is no key. -/
theorem IsChordUsage.ne_zero {usage : UInt8} (h : IsChordUsage usage) : usage ≠ 0 := by
  obtain ⟨key, -, rfl⟩ := h
  exact key.usage_ne_zero

theorem IsChordUsage.ne_numLock {usage : UInt8} (h : IsChordUsage usage) :
    usage ≠ Key.numLock.usage := by
  obtain ⟨key, hkey, rfl⟩ := h
  apply Key.usage_ne_numLock
  rintro rfl
  cases hkey

/-- The function keys of chords end at `F12`. -/
theorem Key.inChord_of_ofFunctionNumber? {n : Nat} (h : ofFunctionNumber? n = some key)
    (hrange : n ≤ 12) : key.InChord := by
  unfold ofFunctionNumber? at h
  split at h
  · obtain rfl := Option.some.inj h
    exact .function (show n - 1 < 12 by omega)
  · contradiction

theorem Vocabulary.inChord_of_printed? (h : printed? token = some key) : key.InChord := by
  unfold printed? at h
  split at h
  · rcases Option.or_eq_some_iff.1 h with hletter | ⟨-, hdigit⟩
    · simp only [Key.ofLetter?] at hletter
      split at hletter
      · obtain rfl := Option.some.inj hletter
        exact .letter _
      · contradiction
    · obtain ⟨value, -, rfl⟩ := Option.map_eq_some_iff.1 hdigit
      exact .digit value
  · contradiction

/-- A word of a chord that stands for a key stands for one that a chord can have. -/
theorem Vocabulary.inChord_of_chordWord? (h : chordWord? token = some (.key key)) :
    key.InChord := by
  unfold chordWord? at h
  split at h
  case h_6 =>
    -- no word of its own, so it is a modifier, a number after `F` or a single character
    cases hmodifier : modifier? token with
    | some other => simp [hmodifier] at h
    | none =>
        simp only [hmodifier] at h
        split at h
        · split at h
          · next hrange =>
              obtain ⟨other, hfunction, hkey⟩ := Option.map_eq_some_iff.1 h
              obtain rfl := ChordWord.key.inj hkey
              exact Key.inChord_of_ofFunctionNumber? hfunction hrange
          · cases h
        · obtain ⟨other, hprinted, hkey⟩ := Option.map_eq_some_iff.1 h
          obtain rfl := ChordWord.key.inj hkey
          exact inChord_of_printed? hprinted
  all_goals
    obtain rfl := ChordWord.key.inj (Option.some.inj h)
    constructor

namespace Chord

variable {before after : Partial} {word : List Char} {words : List (List Char)}

/-- One more word keeps the key in the vocabulary of chords. -/
theorem inChord_of_add (h : before.add word = .ok after)
    (hbefore : ∀ key ∈ before.key, key.InChord) : ∀ key ∈ after.key, key.InChord := by
  unfold Partial.add at h
  split at h
  · contradiction
  · split at h
    · contradiction
    · obtain rfl := Except.ok.inj h
      exact hbefore
    · next key hword =>
        split at h
        · contradiction
        · obtain rfl := Except.ok.inj h
          intro other hother
          obtain rfl : key = other := Option.some.inj hother
          exact Vocabulary.inChord_of_chordWord? hword

theorem inChord_of_foldlM (h : words.foldlM Partial.add before = .ok after)
    (hbefore : ∀ key ∈ before.key, key.InChord) : ∀ key ∈ after.key, key.InChord := by
  induction words generalizing before with
  | nil =>
      obtain rfl : before = after := Except.ok.inj h
      exact hbefore
  | cons word words ih =>
      obtain ⟨next, hfirst, hrest⟩ := foldlM_add_cons_eq_ok h
      exact ih hrest (inChord_of_add hfirst hbefore)

/-- The key of a chord that is read is one that a chord can have. -/
theorem isChordUsage_of_ofText {chord : Chord} (h : ofText token = .ok chord) :
    IsChordUsage chord.key.usage := by
  obtain ⟨last, hfold, hkey⟩ := exists_foldlM_of_ofText h
  have hstart : ∀ key ∈ Partial.start.key, key.InChord := fun key hmem => nomatch hmem
  exact ⟨chord.key, inChord_of_foldlM hfold hstart _ hkey, rfl⟩

end Chord

end Chords

/-! ## Keys of hold sequences -/

/-- The usage of a key that an item of a hold sequence can press. -/
def IsItemUsage (usage : UInt8) : Prop :=
  ∃ key : Key, key.usage = usage ∧ key ≠ .numLock ∧ ∀ value, key ≠ .keypad value

theorem IsItemUsage.ne_numLock {usage : UInt8} (h : IsItemUsage usage) :
    usage ≠ Key.numLock.usage := by
  obtain ⟨key, rfl, hkey, -⟩ := h
  exact Key.usage_ne_numLock hkey

/-- NumLock and the keypad have no names in hold sequences. -/
theorem KeyName.isItemUsage {name : List Char} {key : Key} (h : KeyName name key) :
    IsItemUsage key.usage := by
  have hwords : ∀ entry ∈ keyWords, entry.2 ≠ Key.numLock ∧ ∀ value, entry.2 ≠ .keypad value := by
    decide
  refine ⟨key, rfl, ?_⟩
  cases h with
  | word hmem => exact hwords _ hmem
  | letter place => simp
  | digit value => simp
  | function place _ _ _ => simp

section Items

variable {held : Modifiers} {token : List Char} {tokens skipped : List (List Char)}
  {items : List SequenceItem}

theorem TokenMeans.isItemUsage {key : UInt8} {extra : Modifiers}
    (h : TokenMeans held token (some (.press key extra))) : IsItemUsage key := by
  cases h with
  | press _ _ hkey =>
      obtain ⟨_, _, _, hname, _, _⟩ := hkey
      exact KeyName.isItemUsage hname

/-- Each item is what one of the tokens means. -/
theorem Compiles.exists_token (h : Compiles held tokens items skipped) :
    ∀ item ∈ items, ∃ token ∈ tokens, TokenMeans held token (some item) ∧ item.Fits := by
  induction h with
  | nil => exact fun item hmem => absurd hmem List.not_mem_nil
  | kept htoken hfits _ ih =>
      refine List.forall_mem_cons.2 ⟨⟨_, List.mem_cons_self, htoken, hfits⟩, ?_⟩
      intro item hmem
      obtain ⟨token, htoken, hmeans⟩ := ih item hmem
      exact ⟨token, List.mem_cons_of_mem _ htoken, hmeans⟩
  | skipped _ _ ih =>
      intro item hmem
      obtain ⟨token, htoken, hmeans⟩ := ih item hmem
      exact ⟨token, List.mem_cons_of_mem _ htoken, hmeans⟩

end Items

/-! ## Keys of characters and digits -/

/-- No character is typed with NumLock. -/
theorem Chord.usage_ne_numLock_of_ofChar? {c : Char} {chord : Chord}
    (h : Chord.ofChar? c = some chord) : chord.key.usage ≠ Key.numLock.usage := by
  have hletter : ∀ {letter : Key}, Key.ofLetter? c = some letter → letter ≠ .numLock := by
    intro letter hletter
    unfold Key.ofLetter? at hletter
    dsimp only at hletter
    split at hletter
    · obtain rfl := Option.some.inj hletter
      simp
    · contradiction
  apply Key.usage_ne_numLock
  unfold Chord.ofChar? at h
  split at h
  iterate 5
    · obtain rfl := Option.some.inj h
      simp [Chord.plain]
  · split at h
    · obtain ⟨letter, hread, rfl⟩ := Option.map_eq_some_iff.1 h
      exact hletter hread
    · split at h
      · obtain ⟨letter, hread, rfl⟩ := Option.map_eq_some_iff.1 h
        exact hletter hread
      · obtain ⟨digit, hread, rfl⟩ := Option.map_eq_some_iff.1 h
        obtain ⟨value, -, rfl⟩ := Option.map_eq_some_iff.1 hread
        simp [Chord.plain]

/-- No digit of the keypad is NumLock. -/
theorem keypadUsage?_ne_numLock {digit usage : UInt8} (h : keypadUsage? digit = some usage) :
    usage ≠ Key.numLock.usage := by
  obtain ⟨key, hkey, rfl⟩ := Option.map_eq_some_iff.1 h
  obtain ⟨value, -, rfl⟩ := Option.map_eq_some_iff.1 hkey
  exact Key.usage_ne_numLock (by simp)

/-! ## The usages of a plan -/

/-- The usage of the key that an item presses by its name. -/
def SequenceItem.usage? : SequenceItem → Option UInt8
  | press key _ => some key
  | wait _ | digits _ => none

/-- The usages that stand in a plan. Typed text and digits stand there as they are, and
find their keys only while they are played. -/
def Plan.usages : Plan → List UInt8
  | keystroke steps => steps.map Step.key
  | keybind key _ => [key]
  | holdSequence _ (.sequence items) => items.filterMap SequenceItem.usage?
  | typing _ _ | holdSequence _ (.altCode _) => []

/-- A step presses the key of a chord that was read. -/
theorem ChordRow.isChordUsage {parts : List (List Char)} {steps : List Step}
    (h : ChordRow parts steps) : ∀ step ∈ steps, IsChordUsage step.key := by
  induction h with
  | nil => exact fun step hmem => absurd hmem List.not_mem_nil
  | cons hchord _ _ _ ih =>
      exact List.forall_mem_cons.2 ⟨Chord.isChordUsage_of_ofText hchord, ih⟩

theorem StepsOf.forall_key {parts : List (List Char)} {steps : List Step}
    (h : StepsOf parts steps) : ∀ step ∈ steps, step.key ≠ Key.numLock.usage := by
  have hchord : ∀ {row : List Step}, (∀ step ∈ row, IsChordUsage step.key) →
      ∀ step ∈ row, step.key ≠ Key.numLock.usage := fun h step hmem => (h step hmem).ne_numLock
  cases h with
  | chords h => exact hchord h.isChordUsage
  | pause _ _ _ rest =>
      have hzero : (0 : UInt8) ≠ Key.numLock.usage := by decide
      exact List.forall_mem_cons.2 ⟨hzero, hchord rest.isChordUsage⟩

theorem Step.forall_key_of_listOfText {cs : List Char} {steps : List Step}
    (h : Step.listOfText cs = .ok steps) : ∀ step ∈ steps, step.key ≠ Key.numLock.usage := by
  have htext := Step.stepText_listOfText cs
  rw [h] at htext
  cases htext with
  | accepted _ hsteps => exact hsteps.forall_key

theorem Hold.numLock_not_mem_usages {cs : List Char} {held : Modifiers} {content : HoldContent}
    (h : (Hold.ofText cs).result = .ok (held, content)) :
    Key.numLock.usage ∉ (Plan.holdSequence held content).usages := by
  obtain ⟨notices, hholds⟩ := Hold.holdText_ofText cs
  rw [h] at hholds
  cases hholds with
  | altCode _ _ _ _ => exact List.not_mem_nil
  | sequence _ _ _ hitems _ =>
      intro hmem
      obtain ⟨item, hitem, husage⟩ := List.mem_filterMap.1 hmem
      obtain ⟨token, -, hmeans, -⟩ := hitems.exists_token item hitem
      cases item with
      | press key extra => exact hmeans.isItemUsage.ne_numLock (Option.some.inj husage)
      | wait _ => contradiction
      | digits _ => contradiction

/-- **No text names NumLock.** -/
theorem Plan.numLock_not_mem_usages {kind : Kind} {text : String} {plan : Plan}
    (h : (Plan.ofMacro kind text).result = .ok plan) : Key.numLock.usage ∉ plan.usages := by
  have hread := Plan.exists_read_of_ofMacro h
  cases kind with
  | keystroke =>
      obtain ⟨steps, hsteps, rfl⟩ := hread
      intro hmem
      obtain ⟨step, hstep, hkey⟩ := List.mem_map.1 hmem
      exact Step.forall_key_of_listOfText hsteps step hstep hkey
  | typing =>
      obtain ⟨paced, -, rfl⟩ := hread
      exact List.not_mem_nil
  | keybind =>
      obtain ⟨chord, hchord, rfl⟩ := hread
      have hne := (Chord.isChordUsage_of_ofText hchord).ne_numLock
      exact fun hmem => hne (List.mem_singleton.1 hmem).symm
  | holdSequence =>
      obtain ⟨sides, hsides, rfl⟩ := hread
      exact Hold.numLock_not_mem_usages hsides

/-! ## Reports without NumLock -/

/-- NumLock is among the keys of none of the reports. -/
def SparesNumLock (reports : List Report) : Prop :=
  ∀ report ∈ reports, Key.numLock.usage ∉ report.keys

namespace SparesNumLock

variable {first later : List Report}

theorem nil : SparesNumLock [] := fun _ hmem => absurd hmem List.not_mem_nil

theorem append (h₁ : SparesNumLock first) (h₂ : SparesNumLock later) :
    SparesNumLock (first ++ later) :=
  List.forall_mem_append.2 ⟨h₁, h₂⟩

theorem flatMap {α : Type} {f : α → List Report} {l : List α} (h : ∀ a ∈ l, SparesNumLock (f a)) :
    SparesNumLock (l.flatMap f) := by
  intro report hmem
  obtain ⟨a, ha, hreport⟩ := List.mem_flatMap.1 hmem
  exact h a ha report hreport

theorem cons_press (modifiers : Modifiers) {key : UInt8} (hkey : key ≠ Key.numLock.usage)
    (h : SparesNumLock later) : SparesNumLock (.press modifiers key :: later) := by
  have hzero : (0 : UInt8) ≠ Key.numLock.usage := by decide
  refine List.forall_mem_cons.2 ⟨?_, h⟩
  simp [Report.press, hkey.symm, hzero.symm]

/-- A report without a key. -/
theorem cons_modifiers (modifiers : Modifiers) (h : SparesNumLock later) :
    SparesNumLock (.press modifiers 0 :: later) :=
  h.cons_press modifiers (by decide)

/-- One key pressed and released. -/
theorem tap (modifiers : Modifiers) {key : UInt8} (hkey : key ≠ Key.numLock.usage) :
    SparesNumLock [.press modifiers key, .release] :=
  (nil.cons_modifiers .none).cons_press modifiers hkey

end SparesNumLock

/-! ## Only the pad itself taps NumLock -/

theorem Step.sparesNumLock_script (timing : Timing) {step : Step}
    (h : step.key ≠ Key.numLock.usage) :
    SparesNumLock (Action.reports (step.script timing)) := by
  rw [Step.script, Action.reports_append]
  refine SparesNumLock.append ?_ ?_
  · split
    · exact SparesNumLock.nil
    · rw [Action.reports_tap]
      exact SparesNumLock.tap step.modifiers h
  · split <;> exact SparesNumLock.nil

theorem sparesNumLock_characterScript (hold rest : Nat) (c : Char) :
    SparesNumLock (Action.reports (characterScript hold rest c)) := by
  unfold characterScript
  split
  · next chord hchord =>
      rw [Action.reports_tap]
      exact SparesNumLock.tap chord.modifiers (Chord.usage_ne_numLock_of_ofChar? hchord)
  · exact SparesNumLock.nil

/-- The keypad keys of digits, each played in some way that spares NumLock. -/
theorem sparesNumLock_digits {f : UInt8 → List Report}
    (h : ∀ key, key ≠ Key.numLock.usage → SparesNumLock (f key)) (ds : List UInt8) :
    SparesNumLock ((ds.filterMap keypadUsage?).flatMap f) := by
  refine SparesNumLock.flatMap fun key hmem => h key ?_
  obtain ⟨digit, -, hkey⟩ := List.mem_filterMap.1 hmem
  exact keypadUsage?_ne_numLock hkey

theorem SequenceItem.sparesNumLock_script (timing : Timing) (held : Modifiers)
    {item : SequenceItem} (h : item.usage? ≠ some Key.numLock.usage) :
    SparesNumLock (Action.reports (item.script timing held)) := by
  cases item with
  | wait ms => exact SparesNumLock.nil
  | digits ds =>
      rw [SequenceItem.script, Action.reports_flatMap]
      refine sparesNumLock_digits (fun key hkey => ?_) ds
      rw [Action.reports_tap]
      exact SparesNumLock.tap held hkey
  | press key extra =>
      rw [SequenceItem.script, Action.reports_tap]
      exact SparesNumLock.tap (held ∪ extra) fun hkey => h (congrArg some hkey)

theorem HoldContent.sparesNumLock_script (timing : Timing) (held : Modifiers)
    {content : HoldContent} (h : Key.numLock.usage ∉ (Plan.holdSequence held content).usages) :
    SparesNumLock (Action.reports (content.script timing held)) := by
  have hends : ∀ {inner : List Report}, SparesNumLock inner →
      SparesNumLock ([.press held 0] ++ inner ++ [.release]) := fun hinner =>
    ((SparesNumLock.nil.cons_modifiers held).append hinner).append
      (SparesNumLock.nil.cons_modifiers .none)
  cases content with
  | altCode ds =>
      rw [HoldContent.reports_altCode]
      refine hends (sparesNumLock_digits (fun key hkey => ?_) ds)
      exact (SparesNumLock.nil.cons_modifiers held).cons_press held hkey
  | sequence items =>
      rw [HoldContent.reports_sequence]
      refine hends (SparesNumLock.flatMap fun item hitem => ?_)
      refine SequenceItem.sparesNumLock_script timing held fun husage => h ?_
      exact List.mem_filterMap.2 ⟨item, hitem, husage⟩

/-- **A script spares NumLock** if its plan names it nowhere and needs no number typed with
NumLock off. -/
theorem Plan.sparesNumLock_script (timing : Timing) (numLock : Bool) {plan : Plan}
    (h : Key.numLock.usage ∉ plan.usages)
    (hoff : ∀ held content, plan = .holdSequence held content →
      ¬ (held.HoldsAlt ∧ numLock = false)) :
    SparesNumLock (Action.reports (plan.script timing numLock)) := by
  cases plan with
  | keystroke steps =>
      rw [Plan.script, Action.reports_flatMap]
      refine SparesNumLock.flatMap fun step hstep => Step.sparesNumLock_script timing ?_
      exact fun hkey => h (List.mem_map.2 ⟨step, hstep, hkey⟩)
  | typing text perSecond =>
      rw [Plan.script, Action.reports_flatMap]
      exact SparesNumLock.flatMap fun c _ => sparesNumLock_characterScript _ _ c
  | keybind key modifiers =>
      rw [Plan.script, Action.reports_tap]
      exact SparesNumLock.tap modifiers fun hkey => h (List.mem_singleton.2 hkey.symm)
  | holdSequence held content =>
      have hcode : ¬ (held.hasAlt && !numLock) = true := by
        rw [Hold.hasAlt_and_off_iff]
        exact hoff held content rfl
      rw [Plan.script, withNumLock, if_neg hcode]
      exact HoldContent.sparesNumLock_script timing held h

end MacroPad
