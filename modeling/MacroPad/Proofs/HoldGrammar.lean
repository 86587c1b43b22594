/-
`HoldGrammar.lean` -- the grammar of hold sequences as relations.

The grammar is written down by its forms: what a token means, what a list of tokens
compiles to and what becomes of a text. Each form says which part of the text it is
about and asks for no order of reading. The statement at the end says that reading a
text gives what the grammar says, also for the notices and for texts that are
rejected. It is shown in two halves: what the grammar says of a text is read from it,
and the grammar says something of every text.
-/
import MacroPad.Proofs.KeyForm

set_option autoImplicit false

namespace MacroPad

/-! ## Tokens -/

/-- One of the two Alt keys is held, so that numbers type characters. -/
def Modifiers.HoldsAlt (held : Modifiers) : Prop :=
  held.has .leftAlt = true ∨ held.has .rightAlt = true

/-- The digits of a text, as the bytes that are typed. -/
def digitBytes (cs : List Char) : List UInt8 :=
  (cs.filter Char.isDigit).map fun c => UInt8.ofNat c.toNat

/-- What a token of the sequence means. A wait is no number and no key, and a number
while Alt is held is no key. -/
inductive TokenMeans (held : Modifiers) (token : List Char) : Option SequenceItem → Prop
  | wait {ms : UInt32} (hwait : WaitForm token ms) : TokenMeans held token (some (.wait ms))
  | digits (hwait : ∀ ms, ¬ WaitForm token ms) (halt : held.HoldsAlt)
      (hdigits : ∀ c ∈ token, c.isDigit = true) :
      TokenMeans held token (some (.digits (digitBytes token)))
  | press {key : Key} {extra : Modifiers} (hwait : ∀ ms, ¬ WaitForm token ms)
      (hdigits : ¬ (held.HoldsAlt ∧ ∀ c ∈ token, c.isDigit = true))
      (hkey : KeyForm token key extra) :
      TokenMeans held token (some (.press key.usage extra))
  | nothing (hwait : ∀ ms, ¬ WaitForm token ms)
      (hdigits : ¬ (held.HoldsAlt ∧ ∀ c ∈ token, c.isDigit = true))
      (hkey : ∀ key extra, ¬ KeyForm token key extra) : TokenMeans held token none

/-- A number of at most 64 digits; any other item. -/
def SequenceItem.Fits : SequenceItem → Prop
  | .digits ds => ds.length ≤ 64
  | _ => True

/-- The tokens mean the items, in order, and those that mean nothing are skipped. -/
inductive Compiles (held : Modifiers) :
    List (List Char) → List SequenceItem → List (List Char) → Prop
  | nil : Compiles held [] [] []
  | kept {token : List Char} {tokens skipped : List (List Char)} {item : SequenceItem}
      {items : List SequenceItem} (htoken : TokenMeans held token (some item))
      (hfits : item.Fits) (rest : Compiles held tokens items skipped) :
      Compiles held (token :: tokens) (item :: items) skipped
  | skipped {token : List Char} {tokens skipped : List (List Char)} {items : List SequenceItem}
      (htoken : TokenMeans held token none) (rest : Compiles held tokens items skipped) :
      Compiles held (token :: tokens) items (token :: skipped)

/-! ## Texts -/

/-- The text is cut at its first bar, and these are the modifiers that the names on
the left name. -/
structure HoldSides (cs left right : List Char) (held : Modifiers) : Prop where
  cut : cs = left ++ '|' :: right
  first : '|' ∉ left
  union : held.UnionOf (left.splitOn '+')

/-- Digits, commas and spaces, with at least one digit. -/
def IsNumber (cs : List Char) : Prop :=
  (∃ c ∈ cs, c.isDigit = true) ∧ ∀ c ∈ cs, c.isDigit = true ∨ c = ',' ∨ c = ' '

/-- The pieces between commas that are not blank, trimmed. -/
def commaPieces (cs : List Char) : List (List Char) :=
  ((cs.splitOn ',').filter fun piece => !Text.isAllBlank piece).map Text.trim

instance (piece : List Char) : Decidable (∃ key, NamesModifier piece key) :=
  decidable_of_iff ((Vocabulary.modifier? piece).isSome = true) <| by
    simp only [Option.isSome_iff_exists, Vocabulary.modifier?_eq_some_iff]

/-- One notice for each piece that names no modifier. -/
def leftNotices (left : List Char) : List Notice :=
  ((left.splitOn '+').filter fun piece => ¬ ∃ key, NamesModifier piece key).map fun piece =>
    .notAModifier (String.ofList (Text.trim piece))

/-- One notice for each token that was skipped. -/
def skippedNotices (skipped : List (List Char)) : List Notice :=
  skipped.map fun token => .unknownToken (String.ofList token)

/-- What becomes of a text that is read as a hold sequence, with the notices on the
way. -/
inductive HoldText (cs : List Char) :
    List Notice → Except GrammarFault (Modifiers × HoldContent) → Prop
  | noBar (hbar : '|' ∉ cs) : HoldText cs [] (.error .missingSeparator)
  | noModifier {left right : List Char} {held : Modifiers} (sides : HoldSides cs left right held)
      (hnone : ∀ key, held.has key = false) :
      HoldText cs (leftNotices left) (.error .noModifier)
  | altCode {left right : List Char} {held : Modifiers} (sides : HoldSides cs left right held)
      (halt : held.HoldsAlt) (hnumber : IsNumber (Text.trim right))
      (hroom : (digitBytes (Text.trim right)).length ≤ 64) :
      HoldText cs (leftNotices left) (.ok (held, .altCode (digitBytes (Text.trim right))))
  | longAltCode {left right : List Char} {held : Modifiers} (sides : HoldSides cs left right held)
      (halt : held.HoldsAlt) (hnumber : IsNumber (Text.trim right))
      (hroom : 64 < (digitBytes (Text.trim right)).length) :
      HoldText cs (leftNotices left) (.error .tooManySteps)
  | sequence {left right : List Char} {held : Modifiers} {items : List SequenceItem}
      {skipped : List (List Char)} (sides : HoldSides cs left right held)
      (hsome : ∃ key, held.has key = true)
      (hcode : ¬ (held.HoldsAlt ∧ IsNumber (Text.trim right)))
      (hitems : Compiles held (commaPieces (Text.trim right)) items skipped)
      (hroom : items.length ≤ 64) :
      HoldText cs (leftNotices left ++ skippedNotices skipped) (.ok (held, .sequence items))
  | longSequence {left right token : List Char} {held : Modifiers}
      {tokens rest skipped : List (List Char)} {items : List SequenceItem} {item : SequenceItem}
      (sides : HoldSides cs left right held) (hsome : ∃ key, held.has key = true)
      (hcode : ¬ (held.HoldsAlt ∧ IsNumber (Text.trim right)))
      (htokens : commaPieces (Text.trim right) = tokens ++ token :: rest)
      (hitems : Compiles held tokens items skipped) (hroom : items.length ≤ 64)
      (htoken : TokenMeans held token (some item))
      (hfull : items.length = 64 ∨ ¬ item.Fits) :
      HoldText cs (leftNotices left ++ skippedNotices skipped) (.error .tooManySteps)

namespace Hold

variable {token : List Char} {held : Modifiers} {item : SequenceItem}

/-! ## Reading a token -/

theorem hasAlt_iff : held.hasAlt = true ↔ held.HoldsAlt := by
  rw [Modifiers.hasAlt, Bool.or_eq_true, Modifiers.HoldsAlt]

/-- Where numbers are to be typed while NumLock is off. -/
theorem hasAlt_and_off_iff {numLock : Bool} :
    (held.hasAlt && !numLock) = true ↔ held.HoldsAlt ∧ numLock = false := by
  rw [Bool.and_eq_true, Bool.not_eq_true', hasAlt_iff]

theorem isNumber_iff : (held.hasAlt && token.all Char.isDigit) = true ↔
    held.HoldsAlt ∧ ∀ c ∈ token, c.isDigit = true := by
  rw [Bool.and_eq_true, hasAlt_iff, List.all_eq_true]

theorem digitsOf_eq_ok {cs : List Char} (h : (digitBytes cs).length ≤ 64) :
    digitsOf cs = .ok (digitBytes cs) := by
  rw [digitBytes, List.length_map] at h
  exact if_pos h

theorem digitsOf_eq_error {cs : List Char} (h : 64 < (digitBytes cs).length) :
    digitsOf cs = .error .tooManySteps := by
  rw [digitBytes, List.length_map] at h
  exact if_neg (Nat.not_le.2 h)

/-- A token that is no wait is looked at as a number and as a key, unless it is a
malformed wait, which is neither. -/
theorem item?_eq_of_not_wait {altHeld : Bool} (hwait : ∀ ms, ¬ WaitForm token ms) :
    item? altHeld token =
      if altHeld && token.all Char.isDigit then
        (digitsOf token).map fun ds => some (.digits ds)
      else .ok (press? token) := by
  unfold item?
  cases hread : WaitReading.ofToken token with
  | wait ms => exact absurd (WaitReading.ofToken_eq_wait_iff.1 hread) (hwait ms)
  | malformed =>
      obtain ⟨hstart, hends, -⟩ := WaitReading.ofToken_eq_malformed_iff.1 hread
      obtain ⟨c, hc, hdigit⟩ := WaitReading.startsWithDigit_iff.1 hstart
      have hdigits : ¬ (altHeld && token.all Char.isDigit) = true := by
        rw [Bool.and_eq_true, List.all_eq_true]
        rintro ⟨-, hall⟩
        obtain ⟨d, hd, hs⟩ := hends
        have hmem : d ∈ token := by
          obtain ⟨a, b, hsplit, -⟩ := Text.exists_trim_eq token
          rw [hsplit]
          simp [List.mem_of_getLast? hd]
        exact WaitReading.toLower_ne (.inl (hall d hmem)) (.inr rfl) hs
      have hkey : ∀ key extra, ¬ KeyForm token key extra := fun key extra hform =>
        not_endsInS_of_keyForm hform hc hdigit hends
      rw [if_neg hdigits, press?_eq_none_iff.2 hkey]
  | notAWait => rfl

theorem item?_eq_ok (h : TokenMeans held token (some item)) (hfits : item.Fits) :
    item? held.hasAlt token = .ok (some item) := by
  cases h with
  | wait hwait => rw [item?, WaitReading.ofToken_eq_wait_iff.2 hwait]
  | digits hwait halt hdigits =>
      rw [item?_eq_of_not_wait hwait, if_pos (isNumber_iff.2 ⟨halt, hdigits⟩), digitsOf_eq_ok hfits]
      rfl
  | press hwait hdigits hkey =>
      rw [← isNumber_iff] at hdigits
      rw [item?_eq_of_not_wait hwait, if_neg hdigits, press?_eq_some_iff.2 ⟨_, _, hkey, rfl⟩]

theorem item?_eq_error (h : TokenMeans held token (some item)) (hfits : ¬ item.Fits) :
    item? held.hasAlt token = .error .tooManySteps := by
  cases h with
  | wait => exact absurd trivial hfits
  | digits hwait halt hdigits =>
      rw [item?_eq_of_not_wait hwait, if_pos (isNumber_iff.2 ⟨halt, hdigits⟩),
        digitsOf_eq_error (Nat.not_le.1 hfits)]
      rfl
  | press => exact absurd trivial hfits

theorem item?_eq_none (h : TokenMeans held token none) : item? held.hasAlt token = .ok none := by
  cases h with
  | nothing hwait hdigits hkey =>
      rw [← isNumber_iff] at hdigits
      rw [item?_eq_of_not_wait hwait, if_neg hdigits, press?_eq_none_iff.2 hkey]

theorem exists_tokenMeans (held : Modifiers) (token : List Char) :
    ∃ meaning, TokenMeans held token meaning := by
  by_cases hwait : ∃ ms, WaitForm token ms
  · obtain ⟨ms, hms⟩ := hwait
    exact ⟨_, .wait hms⟩
  · have hwait : ∀ ms, ¬ WaitForm token ms := fun ms hms => hwait ⟨ms, hms⟩
    by_cases hdigits : held.HoldsAlt ∧ ∀ c ∈ token, c.isDigit = true
    · exact ⟨_, .digits hwait hdigits.1 hdigits.2⟩
    · by_cases hkey : ∃ key extra, KeyForm token key extra
      · obtain ⟨key, extra, hform⟩ := hkey
        exact ⟨_, .press hwait hdigits hform⟩
      · exact ⟨_, .nothing hwait hdigits fun key extra hform => hkey ⟨key, extra, hform⟩⟩

/-! ## Lists of tokens -/

variable {tokens rest skipped : List (List Char)} {its : List SequenceItem} {room : Nat}

theorem items_eq_ok (h : Compiles held tokens its skipped) (hroom : its.length ≤ room) :
    items held.hasAlt room tokens = ⟨skippedNotices skipped, .ok its⟩ := by
  induction h generalizing room with
  | nil =>
      rw [items]
      rfl
  | kept htoken hfits _ ih =>
      rw [items, item?_eq_ok htoken hfits]
      cases room with
      | zero => exact absurd hroom (Nat.not_succ_le_zero _)
      | succ room =>
          simp only [ih (Nat.le_of_succ_le_succ hroom)]
          rfl
  | skipped htoken _ ih =>
      rw [items, item?_eq_none htoken]
      simp only [ih hroom]
      rfl

/-- The first token that has no room ends the reading; what follows it is not looked
at. -/
theorem items_eq_error (h : Compiles held tokens its skipped) (hroom : its.length ≤ room)
    (htoken : TokenMeans held token (some item)) (hfull : its.length = room ∨ ¬ item.Fits) :
    items held.hasAlt room (tokens ++ token :: rest) =
      ⟨skippedNotices skipped, .error .tooManySteps⟩ := by
  induction h generalizing room with
  | nil =>
      -- the token is the next to be read: there is no room for it, or it does not fit
      rw [List.nil_append, items]
      by_cases hfits : item.Fits
      · rw [item?_eq_ok htoken hfits]
        obtain rfl : 0 = room := hfull.resolve_right (not_not_intro hfits)
        rfl
      · rw [item?_eq_error htoken hfits]
        rfl
  | kept hkept hfits _ ih =>
      rw [List.cons_append, items, item?_eq_ok hkept hfits]
      cases room with
      | zero => exact absurd hroom (Nat.not_succ_le_zero _)
      | succ room =>
          simp only [ih (Nat.le_of_succ_le_succ hroom) (hfull.imp_left Nat.succ.inj)]
          rfl
  | skipped hskipped _ ih =>
      rw [List.cons_append, items, item?_eq_none hskipped]
      simp only [ih hroom hfull]
      rfl

/-- A list of tokens compiles, or it has a first token without room. -/
theorem exists_compiles (held : Modifiers) (room : Nat) (tokens : List (List Char)) :
    (∃ its skipped, Compiles held tokens its skipped ∧ its.length ≤ room) ∨
      ∃ before token rest its skipped item, tokens = before ++ token :: rest ∧
        Compiles held before its skipped ∧ its.length ≤ room ∧
        TokenMeans held token (some item) ∧ (its.length = room ∨ ¬ item.Fits) := by
  induction tokens generalizing room with
  | nil => exact .inl ⟨[], [], .nil, Nat.zero_le room⟩
  | cons token tokens ih =>
      obtain ⟨meaning, hmeaning⟩ := exists_tokenMeans held token
      cases meaning with
      | none =>
          -- a token that means nothing takes no room
          rcases ih room with ⟨its, skipped, hits, hroom⟩ |
            ⟨before, last, rest, its, skipped, item, rfl, hits, hroom, hlast⟩
          · exact .inl ⟨its, token :: skipped, .skipped hmeaning hits, hroom⟩
          · exact .inr ⟨token :: before, last, rest, its, token :: skipped, item, rfl,
              .skipped hmeaning hits, hroom, hlast⟩
      | some item =>
          by_cases hfits : item.Fits
          · cases room with
            | zero =>
                exact .inr ⟨[], token, tokens, [], [], item, rfl, .nil, Nat.le_refl 0, hmeaning,
                  .inl rfl⟩
            | succ room =>
                rcases ih room with ⟨its, skipped, hits, hroom⟩ |
                  ⟨before, last, rest, its, skipped, other, rfl, hits, hroom, hlast, hfull⟩
                · exact .inl ⟨item :: its, skipped, .kept hmeaning hfits hits,
                    Nat.succ_le_succ hroom⟩
                · exact .inr ⟨token :: before, last, rest, item :: its, skipped, other, rfl,
                    .kept hmeaning hfits hits, Nat.succ_le_succ hroom, hlast,
                    hfull.imp_left (congrArg Nat.succ)⟩
          · exact .inr ⟨[], token, tokens, [], [], item, rfl, .nil, Nat.zero_le room, hmeaning,
              .inr hfits⟩

/-! ## Texts -/

variable {cs left right : List Char} {notices : List Notice}
  {result : Except GrammarFault (Modifiers × HoldContent)}

theorem tokens_eq (cs : List Char) : Hold.tokens cs = commaPieces cs := by
  have hblank : ∀ piece : List Char,
      (Text.trim piece).isEmpty = Text.isAllBlank piece := fun piece => by
    rw [Bool.eq_iff_iff, List.isEmpty_iff, Text.trim_eq_nil_iff]
  rw [Hold.tokens, commaPieces, List.filter_map]
  simp only [Function.comp_def, hblank]

theorem isAltCode_iff : isAltCode cs = true ↔ IsNumber cs := by
  simp [isAltCode, IsNumber, or_assoc]

theorem strangers_eq (names : List (List Char)) :
    strangers names = names.filter fun name => ¬ ∃ key, NamesModifier name key := by
  apply List.filter_congr
  intro name hname
  rw [Bool.eq_iff_iff, Option.isNone_iff_eq_none, Vocabulary.modifier?_eq_none_iff,
    decide_eq_true_eq, not_exists]

theorem ofText_eq_of_sides (sides : HoldSides cs left right held) :
    ofText cs =
      if held.isNone then ⟨leftNotices left, .error .noModifier⟩
      else ((content held.hasAlt (Text.trim right)).map fun content => (held, content)).after
        (leftNotices left) := by
  have hheld : heldModifiers (left.splitOn '+') = held :=
    (unionOf_heldModifiers _).unique sides.union
  rw [ofText, Text.cutFirst?_eq_some_iff.2 ⟨sides.cut, sides.first⟩]
  simp only [hheld, strangers_eq]
  rfl

theorem not_isNone (hsome : ∃ key, held.has key = true) : ¬ held.isNone = true := by
  obtain ⟨key, hkey⟩ := hsome
  rw [Modifiers.isNone_iff]
  intro hnone
  rw [hnone key] at hkey
  contradiction

theorem exists_has_of_holdsAlt (halt : held.HoldsAlt) : ∃ key, held.has key = true := by
  rcases halt with hleft | hright
  · exact ⟨.leftAlt, hleft⟩
  · exact ⟨.rightAlt, hright⟩

theorem content_eq_altCode (halt : held.HoldsAlt) (hnumber : IsNumber cs) :
    content held.hasAlt cs = .silent ((digitsOf cs).map .altCode) :=
  if_pos (Bool.and_eq_true_iff.2 ⟨hasAlt_iff.2 halt, isAltCode_iff.2 hnumber⟩)

theorem content_eq_sequence (hcode : ¬ (held.HoldsAlt ∧ IsNumber cs)) :
    content held.hasAlt cs = (items held.hasAlt 64 (commaPieces cs)).map .sequence := by
  rw [← hasAlt_iff, ← isAltCode_iff, ← Bool.and_eq_true_iff] at hcode
  rw [content, if_neg hcode, tokens_eq]
  rfl

/-- What the grammar says of a text is read from it. -/
theorem ofText_eq_of_holdText (h : HoldText cs notices result) : ofText cs = ⟨notices, result⟩ := by
  cases h with
  | noBar hbar =>
      rw [ofText, Text.cutFirst?_eq_none_iff.2 hbar]
      rfl
  | noModifier sides hnone => rw [ofText_eq_of_sides sides, if_pos (Modifiers.isNone_iff.2 hnone)]
  | altCode sides halt hnumber hroom =>
      rw [ofText_eq_of_sides sides, if_neg (not_isNone (exists_has_of_holdsAlt halt)),
        content_eq_altCode halt hnumber, digitsOf_eq_ok hroom, Reading.silent, Reading.map,
        Reading.after, List.append_nil]
      rfl
  | longAltCode sides halt hnumber hroom =>
      rw [ofText_eq_of_sides sides, if_neg (not_isNone (exists_has_of_holdsAlt halt)),
        content_eq_altCode halt hnumber, digitsOf_eq_error hroom, Reading.silent, Reading.map,
        Reading.after, List.append_nil]
      rfl
  | sequence sides hsome hcode hitems hroom =>
      rw [ofText_eq_of_sides sides, if_neg (not_isNone hsome), content_eq_sequence hcode,
        items_eq_ok hitems hroom]
      rfl
  | longSequence sides hsome hcode htokens hitems hroom htoken hfull =>
      rw [ofText_eq_of_sides sides, if_neg (not_isNone hsome), content_eq_sequence hcode,
        htokens, items_eq_error hitems hroom htoken hfull]
      rfl

/-- The grammar says something of every text. -/
theorem exists_holdText (cs : List Char) : ∃ notices result, HoldText cs notices result := by
  by_cases hbar : '|' ∈ cs
  · obtain ⟨left, right, hcut, hfirst⟩ := List.eq_append_cons_of_mem hbar
    have sides : HoldSides cs left right (heldModifiers (left.splitOn '+')) :=
      ⟨hcut, hfirst, unionOf_heldModifiers _⟩
    generalize heldModifiers (left.splitOn '+') = held at sides
    by_cases hsome : ∃ key, held.has key = true
    · by_cases hcode : held.HoldsAlt ∧ IsNumber (Text.trim right)
      · by_cases hroom : (digitBytes (Text.trim right)).length ≤ 64
        · exact ⟨_, _, .altCode sides hcode.1 hcode.2 hroom⟩
        · exact ⟨_, _, .longAltCode sides hcode.1 hcode.2 (Nat.not_le.1 hroom)⟩
      · rcases exists_compiles held 64 (commaPieces (Text.trim right)) with
          ⟨its, skipped, hits, hroom⟩ |
          ⟨before, token, rest, its, skipped, item, htokens, hits, hroom, htoken, hfull⟩
        · exact ⟨_, _, .sequence sides hsome hcode hits hroom⟩
        · exact ⟨_, _, .longSequence sides hsome hcode htokens hits hroom htoken hfull⟩
    · have hnone : ∀ key, held.has key = false := fun key =>
        Bool.eq_false_iff.2 fun hkey => hsome ⟨key, hkey⟩
      exact ⟨_, _, .noModifier sides hnone⟩
  · exact ⟨_, _, .noBar hbar⟩

/-- What is read of a text is what the grammar says of it. -/
theorem holdText_ofText (cs : List Char) : ∃ notices, HoldText cs notices (ofText cs).result := by
  obtain ⟨notices, result, hholds⟩ := exists_holdText cs
  rw [ofText_eq_of_holdText hholds]
  exact ⟨notices, hholds⟩

/-! ## Numbers -/

theorem digitBytes_trim (cs : List Char) : digitBytes (Text.trim cs) = digitBytes cs := by
  rw [digitBytes, Text.filter_trim, digitBytes]
  intro c hblank
  cases hdigit : c.isDigit with
  | true =>
      rw [Text.isBlank_eq_false_of_isDigit hdigit] at hblank
      contradiction
  | false => rfl

/-- A text that is read as one number has its digits right of the first bar. -/
theorem exists_sides_of_altCode {ds : List UInt8}
    (h : (ofText cs).result = .ok (held, .altCode ds)) :
    ∃ left right, HoldSides cs left right held ∧ held.HoldsAlt ∧ ds = digitBytes right := by
  obtain ⟨notices, hholds⟩ := holdText_ofText cs
  rw [h] at hholds
  cases hholds with
  | altCode sides halt _ _ => exact ⟨_, _, sides, halt, digitBytes_trim _⟩

end Hold

/-- **The grammar of hold sequences.** Of every text, what is read is what the
grammar says. -/
theorem holdText_iff_read (cs : List Char) (notices : List Notice)
    (result : Except GrammarFault (Modifiers × HoldContent)) :
    HoldText cs notices result ↔ Hold.ofText cs = ⟨notices, result⟩ := by
  constructor
  · exact Hold.ofText_eq_of_holdText
  · intro h
    -- the grammar says something of the text, and by the other half it is what was read
    obtain ⟨notices', result', hholds⟩ := Hold.exists_holdText cs
    rw [Hold.ofText_eq_of_holdText hholds, Reading.mk.injEq] at h
    obtain ⟨rfl, rfl⟩ := h
    exact hholds

end MacroPad
