/-
`NumberEntry.lean` -- a number typed for one character, from text to host.

While Alt is held, a host collects digits from its keypad and types the character of
that number when Alt is released. It reads digits only while its NumLock is on, and
each press of that key flips it. The host is modelled here by what it makes of
reports, with usages of its own, and the reports of a number are followed from the
text to that host: it reads the digits of the text, with NumLock on, and is left with
NumLock as it was.
-/
import MacroPad.Proofs.HoldGrammar
import MacroPad.Proofs.Phases
import MacroPad.Proofs.Schedule

set_option autoImplicit false

namespace MacroPad

/-! ## The host -/

/-- What a host makes of reports. It knows which key is down and keeps the digits
that it read from the keypad, each with the state of NumLock at that moment. -/
structure Listener where
  down : UInt8
  numLock : Bool
  digits : List (Fin 10 × Bool)
deriving DecidableEq

namespace Listener

/-- The digit of a usage: from 0x59 to 0x62 the keypad has 1 to 9 and then 0. -/
def digitOfUsage? (usage : UInt8) : Option (Fin 10) :=
  if 0x59 ≤ usage.toNat ∧ usage.toNat ≤ 0x62 then some ⟨(usage.toNat - 0x58) % 10, Nat.mod_lt _ (by decide)⟩
  else none

/-- A key acts when it goes down, and not again until it was up. -/
def hear (listener : Listener) (report : Report) : Listener :=
  if report.key = listener.down then listener
  else if report.key = 0x53 then ⟨report.key, !listener.numLock, listener.digits⟩
  else
    match digitOfUsage? report.key with
    | some digit =>
        ⟨report.key, listener.numLock, listener.digits ++ [(digit, listener.numLock)]⟩
    | none => ⟨report.key, listener.numLock, listener.digits⟩

def hearAll (listener : Listener) (reports : List Report) : Listener :=
  reports.foldl hear listener

end Listener

/-! ## The reports of a number -/

/-- The modifiers go down, each digit is pressed and released under them, and then
everything is released. -/
def numberBurst (held : Modifiers) (digits : List (Fin 10)) : List Report :=
  .press held 0 ::
    digits.flatMap (fun digit => [.press held (Key.keypad digit).usage, .press held 0]) ++
    [.release]

/-- The tap that turns NumLock on, or back off, where it was off. -/
def numLockTaps (numLock : Bool) : List Report :=
  if numLock then [] else [.press .none Key.numLock.usage, .release]

/-! ## What the host hears -/

namespace Listener

theorem hearAll_append (listener : Listener) (first later : List Report) :
    listener.hearAll (first ++ later) = (listener.hearAll first).hearAll later :=
  List.foldl_append

theorem hearAll_numLockTaps_before (numLock : Bool) (heard : List (Fin 10 × Bool)) :
    hearAll ⟨0, numLock, heard⟩ (numLockTaps numLock) = ⟨0, true, heard⟩ := by
  cases numLock <;> rfl

theorem hearAll_numLockTaps_after (numLock : Bool) (heard : List (Fin 10 × Bool)) :
    hearAll ⟨0, true, heard⟩ (numLockTaps numLock) = ⟨0, numLock, heard⟩ := by
  cases numLock <;> rfl

/-- A digit that is pressed and released is read once. -/
theorem hearAll_digit (held : Modifiers) (digit : Fin 10) (on : Bool)
    (heard : List (Fin 10 × Bool)) :
    hearAll ⟨0, on, heard⟩ [.press held (Key.keypad digit).usage, .press held 0] =
      ⟨0, on, heard ++ [(digit, on)]⟩ := by
  have husages : ∀ digit : Fin 10, (Key.keypad digit).usage ≠ 0 ∧
      (Key.keypad digit).usage ≠ 0x53 ∧
        digitOfUsage? (Key.keypad digit).usage = some digit := by decide
  obtain ⟨hzero, hlock, hdigit⟩ := husages digit
  have hpress : hear ⟨0, on, heard⟩ (.press held (Key.keypad digit).usage) =
      ⟨(Key.keypad digit).usage, on, heard ++ [(digit, on)]⟩ := by
    rw [hear, Report.key_press, if_neg hzero, if_neg hlock, hdigit]
  rw [hearAll, List.foldl_cons, hpress, List.foldl_cons, List.foldl_nil, hear, Report.key_press,
    if_neg hzero.symm]
  rfl

/-- The digits of a burst are read one by one. -/
theorem hearAll_numberBurst (held : Modifiers) (digits : List (Fin 10)) (on : Bool) :
    hearAll ⟨0, on, []⟩ (numberBurst held digits) =
      ⟨0, on, digits.map fun digit => (digit, on)⟩ := by
  have hdigits : ∀ heard : List (Fin 10 × Bool),
      hearAll ⟨0, on, heard⟩
          (digits.flatMap fun digit => [.press held (Key.keypad digit).usage, .press held 0]) =
        ⟨0, on, heard ++ digits.map fun digit => (digit, on)⟩ := by
    induction digits with
    | nil => intro heard; rw [List.map_nil, List.append_nil]; rfl
    | cons digit digits ih =>
        intro heard
        rw [List.flatMap_cons, hearAll_append, hearAll_digit, ih, List.map_cons,
          List.append_assoc, List.singleton_append]
  rw [numberBurst, List.cons_append, ← List.singleton_append, hearAll_append]
  have hfirst : hearAll ⟨0, on, []⟩ [.press held 0] = ⟨0, on, []⟩ := rfl
  rw [hfirst, hearAll_append, hdigits, List.nil_append]
  rfl

end Listener

/-! ## From the text to the reports -/

/-- The digit of a byte that is an ASCII digit. -/
def digitOfByte? (byte : UInt8) : Option (Fin 10) :=
  if h : 48 ≤ byte.toNat ∧ byte.toNat ≤ 57 then some ⟨byte.toNat - 48, by omega⟩ else none

/-- The keypad key of a byte is that of its digit. -/
theorem keypadUsage?_eq (byte : UInt8) :
    keypadUsage? byte = (digitOfByte? byte).map fun digit => (Key.keypad digit).usage := by
  have hvalid : byte.toNat.isValidChar := .inl (Nat.lt_trans byte.toNat_lt (by decide))
  have hchar : (Char.ofNat byte.toNat).toNat = byte.toNat := by
    rw [Char.ofNat, dif_pos hvalid]
    rfl
  have hzero : '0'.toNat = 48 := rfl
  rw [keypadUsage?, Key.ofKeypadDigit?, Option.map_map, Text.digit?, digitOfByte?]
  simp only [hchar, hzero]
  by_cases hdigit : 48 ≤ byte.toNat ∧ byte.toNat ≤ 57
  · rw [dif_pos hdigit, dif_pos ⟨hdigit.1, Nat.lt_succ_of_le hdigit.2⟩]
    rfl
  · rw [dif_neg hdigit, dif_neg (by omega)]
    rfl

/-- The byte of an ASCII digit is pressed as the keypad key of that digit. -/
theorem keypadUsage?_digit {c : Char} (h : c.isDigit = true) :
    keypadUsage? (UInt8.ofNat c.toNat) =
      (Text.digit? c).map fun digit => (Key.keypad digit).usage := by
  have hle := (Text.isDigit_iff.1 h).2
  have hbyte : (UInt8.ofNat c.toNat).toNat = c.toNat := by
    rw [UInt8.toNat_ofNat']
    omega
  rw [keypadUsage?, hbyte, Char.ofNat_toNat, Key.ofKeypadDigit?, Option.map_map]
  rfl

/-- The keys of the typed bytes are those of the digits in the text. -/
theorem keypadUsages_digitBytes (cs : List Char) :
    (digitBytes cs).filterMap keypadUsage? =
      (cs.filterMap Text.digit?).map fun digit => (Key.keypad digit).usage := by
  rw [digitBytes, List.filterMap_map, List.filterMap_filter, List.map_filterMap]
  congr 1
  funext c
  by_cases hdigit : c.isDigit = true
  · rw [if_pos hdigit]
    exact keypadUsage?_digit hdigit
  · have hnone : Text.digit? c = none := by
      rw [Text.digit?, dif_neg]
      rw [Text.isDigit_iff] at hdigit
      have hzero : '0'.toNat = 48 := rfl
      omega
    rw [if_neg hdigit, hnone]
    rfl

theorem reports_altCode_digitBytes (timing : Timing) (held : Modifiers) (cs : List Char) :
    Action.reports ((HoldContent.altCode (digitBytes cs)).script timing held) =
      numberBurst held (cs.filterMap Text.digit?) := by
  rw [HoldContent.reports_altCode, keypadUsages_digitBytes, List.flatMap_map]
  rfl

/-- A burst waits for nothing but its own pace. -/
theorem schedule_altCode (timing : Timing) (held : Modifiers) (ds : List UInt8) (start : Nat) :
    schedule timing start ((HoldContent.altCode ds).script timing held) =
      inSteps (timing.pacingOf .burst).toNat start
        (Action.reports ((HoldContent.altCode ds).script timing held)) := by
  apply schedule_eq_inSteps
  intro action hmem
  simp only [HoldContent.script, List.cons_append, List.mem_cons, List.mem_append,
    List.mem_flatMap, List.not_mem_nil, or_false] at hmem
  rcases hmem with rfl | rfl | rfl | ⟨key, -, rfl | rfl⟩ | rfl | rfl | rfl
  · exact .inr ⟨_, rfl⟩
  · exact .inl ⟨_, _, rfl⟩
  · exact .inr ⟨_, rfl⟩
  · exact .inl ⟨_, _, rfl⟩
  · exact .inl ⟨_, _, rfl⟩
  · exact .inr ⟨_, rfl⟩
  · exact .inl ⟨_, _, rfl⟩
  · exact .inr ⟨_, rfl⟩

/-- What is played while modifiers are held stands between two taps of NumLock if Alt is
among them and NumLock is off, and stands alone otherwise. -/
theorem exists_withNumLock (timing : Timing) (held : Modifiers) (numLock : Bool)
    (inner : List Action) :
    ∃ before after, withNumLock timing held numLock inner = before ++ inner ++ after ∧
      Action.reports before = numLockTaps (numLock || !held.hasAlt) ∧
      Action.reports after = numLockTaps (numLock || !held.hasAlt) ∧
      Action.phases before = [] ∧ Action.phases after = [] := by
  by_cases hoff : (held.hasAlt && !numLock) = true
  · have htaps : (numLock || !held.hasAlt) = false := by
      rw [Bool.and_eq_true, Bool.not_eq_true'] at hoff
      rw [hoff.1, hoff.2]
      rfl
    refine ⟨.note .numLockTurnedOn :: numLockTap timing ++ Action.pause timing.numLockSettle,
      .note .numLockRestored :: Action.pause timing.numLockSettle ++ numLockTap timing,
      ?_, ?_, ?_, ?_, ?_⟩
    · simp [withNumLock, hoff]
    · simp [numLockTap, numLockTaps, htaps]
    · simp [numLockTap, numLockTaps, htaps]
    · simp [numLockTap, Notice.phase?]
    · simp [numLockTap, Notice.phase?]
  · have htaps : (numLock || !held.hasAlt) = true := by
      cases numLock <;> simp_all
    refine ⟨[], [], ?_, ?_, ?_, rfl, rfl⟩
    · rw [withNumLock, if_neg hoff, List.nil_append, List.append_nil]
    · rw [htaps]
      rfl
    · rw [htaps]
      rfl

/-- While Alt is held, what is played stands between two taps of NumLock, if it is
off. -/
theorem exists_withNumLock_eq (timing : Timing) {held : Modifiers} (halt : held.hasAlt = true)
    (numLock : Bool) (inner : List Action) :
    ∃ before after, withNumLock timing held numLock inner = before ++ inner ++ after ∧
      Action.reports before = numLockTaps numLock ∧
      Action.reports after = numLockTaps numLock := by
  obtain ⟨before, after, hwith, hbefore, hafter, -, -⟩ :=
    exists_withNumLock timing held numLock inner
  rw [halt, Bool.not_true, Bool.or_false] at hbefore hafter
  exact ⟨before, after, hwith, hbefore, hafter⟩

theorem holdSequence_of_ofMacro {text : String} {held : Modifiers} {content : HoldContent}
    (h : (Plan.ofMacro .holdSequence text).result = .ok (.holdSequence held content)) :
    (Hold.ofText text.toList).result = .ok (held, content) := by
  obtain ⟨⟨held', content'⟩, hread, hplan⟩ := Plan.exists_read_of_ofMacro h
  obtain ⟨rfl, rfl⟩ := Plan.holdSequence.inj hplan
  exact hread

/-- The modifiers are down in every report of a burst but the last. -/
theorem held_in_dropLast_numberBurst {held : Modifiers} (hsome : ∃ key, held.has key = true)
    (digits : List (Fin 10)) :
    ∀ report ∈ (numberBurst held digits).dropLast,
      report.modifiers = held ∧ report ≠ .release := by
  intro report hmem
  rw [numberBurst, List.dropLast_concat] at hmem
  have hmodifiers : report.modifiers = held := by
    rcases List.mem_cons.1 hmem with rfl | hmem
    · rfl
    · obtain ⟨digit, -, hpair⟩ := List.mem_flatMap.1 hmem
      simp only [List.mem_cons, List.not_mem_nil, or_false] at hpair
      rcases hpair with rfl | rfl
      · rfl
      · rfl
  refine ⟨hmodifiers, ?_⟩
  rintro rfl
  obtain ⟨key, hkey⟩ := hsome
  rw [← hmodifiers, Report.release, Report.modifiers_press, Modifiers.has_none] at hkey
  contradiction

/-! ## The law -/

/-- **A number reaches the host.** The text is read as one number, the host is ready
with the lights as its NumLock really is, and every report is accepted, whatever else
happens. Then what arrives between the taps of NumLock is the burst of the digits
right of the first bar, at the pace of a burst, with the modifiers down in all of it
but the release at its end. The host reads exactly these digits, each with NumLock on,
and is left with no key down and NumLock as it was. -/
theorem number_reaches_host {timing : Timing} {host : Host} {text : String} {held : Modifiers}
    {ds : List UInt8} {run : Run} {real : Bool} (hready : host.link.ready = true)
    (hlights : host.link.lights.numLock = real)
    (hplan : (Plan.ofMacro .holdSequence text).result = .ok (.holdSequence held (.altCode ds)))
    (hrun : RunAmid timing host .holdSequence (Plan.ofMacro .holdSequence text) run)
    (hall : run.journal.AllAccepted) :
    ∃ (left right : List Char) (before after : List (Nat × Report)) (start : Nat),
      text.toList = left ++ '|' :: right ∧ '|' ∉ left ∧
      run.journal.arrivals = before ++ inSteps (min timing.burstPacing 0xFFFFFFFF) start
        (numberBurst held (right.filterMap Text.digit?)) ++ after ∧
      before.map Prod.snd = numLockTaps real ∧ after.map Prod.snd = numLockTaps real ∧
      (∀ report ∈ (numberBurst held (right.filterMap Text.digit?)).dropLast,
        report.modifiers = held ∧ report ≠ .release) ∧
      Listener.hearAll ⟨0, real, []⟩ run.journal.reports =
        ⟨0, real, (right.filterMap Text.digit?).map fun digit => (digit, true)⟩ := by
  obtain ⟨left, right, sides, halt, rfl⟩ :=
    Hold.exists_sides_of_altCode (holdSequence_of_ofMacro hplan)
  cases hrun with
  | ignored unready => exact absurd (hready.symm.trans unready) (by decide)
  | rejected _ bad => exact absurd (hplan.symm.trans bad) (by simp)
  | @played plan journal _ _ good playing =>
      have course := performance_player_iff.1 playing
      obtain rfl := Except.ok.inj (good.symm.trans hplan)
      obtain ⟨-, hjournal⟩ := (Journal.allAccepted_append _ _).1 hall
      -- the burst stands between the taps of NumLock, if there are any
      obtain ⟨before, after, hwith, hbefore, hafter⟩ := exists_withNumLock_eq timing
        (Hold.hasAlt_iff.2 halt) real ((HoldContent.altCode (digitBytes right)).script timing held)
      rw [hlights, Plan.script, hwith] at course
      have hpace : (timing.pacingOf .burst).toNat = min timing.burstPacing 0xFFFFFFFF :=
        Capped.toNat_ofNat timing.burstPacing
      have harrivals := (course.arrivals_eq hjournal).1
      rw [schedule_append, schedule_append, schedule_altCode, reports_altCode_digitBytes,
        hpace] at harrivals
      have hread : Journal.arrivals ((Plan.ofMacro .holdSequence text).notices.map Entry.note ++
          journal) = journal.arrivals := by
        rw [Journal.arrivals_append, Journal.arrivals_map_note, List.nil_append]
      refine ⟨left, right, _, _, _, sides.cut, sides.first, hread.trans harrivals,
        map_snd_schedule.trans hbefore, map_snd_schedule.trans hafter,
        held_in_dropLast_numberBurst (Hold.exists_has_of_holdsAlt halt) _, ?_⟩
      -- the host is followed through the three parts in turn
      rw [hall.reports_eq, Journal.requested_append, Journal.requested_map_note,
        List.nil_append, course.requested_eq, Action.reports_append, Action.reports_append,
        hbefore, hafter, reports_altCode_digitBytes, Listener.hearAll_append,
        Listener.hearAll_append, Listener.hearAll_numLockTaps_before,
        Listener.hearAll_numberBurst, Listener.hearAll_numLockTaps_after]

/-- The number 0179 on a host whose NumLock is off. -/
theorem number_reaches_host_0179 :
    let host := Host.start Link.start.listening []
    let run := host.runText .standard .holdSequence "LAlt | 0,1,7,9"
    host.link.ready = true ∧ host.link.lights.numLock = false ∧
      (Plan.ofMacro .holdSequence "LAlt | 0,1,7,9").result =
        .ok (.holdSequence (.only .leftAlt) (.altCode [48, 49, 55, 57])) ∧
      run.journal.AllAccepted ∧
      ∃ (left right : List Char) (before after : List (Nat × Report)) (start : Nat),
        "LAlt | 0,1,7,9".toList = left ++ '|' :: right ∧ '|' ∉ left ∧
        run.journal.arrivals = before ++ inSteps 900 start
          (numberBurst (.only .leftAlt) (right.filterMap Text.digit?)) ++ after ∧
        Listener.hearAll ⟨0, false, []⟩ run.journal.reports =
          ⟨0, false, (right.filterMap Text.digit?).map fun digit => (digit, true)⟩ := by
  intro host run
  have hlights : host.link.lights.numLock = false := by decide +kernel
  have hplan : (Plan.ofMacro .holdSequence "LAlt | 0,1,7,9").result =
      .ok (.holdSequence (.only .leftAlt) (.altCode [48, 49, 55, 57])) := by rfl
  have hall : run.journal.AllAccepted := by decide +kernel
  obtain ⟨left, right, before, after, start, hcut, hfirst, harrivals, -, -, -, hheard⟩ :=
    number_reaches_host rfl hlights hplan (host.runAmid_runText .standard .holdSequence _) hall
  exact ⟨rfl, hlights, hplan, hall, left, right, before, after, start, hcut, hfirst, harrivals,
    hheard⟩

end MacroPad
