/-
`NumLockBracket.lean` -- NumLock around a hold sequence.

A hold sequence with Alt may type numbers, which needs the keypad in numeric mode. Where
NumLock is off as playing begins, the pad taps it before anything else and taps it once more
after everything else. The host answers the first tap by telling that the light is on, so
whether there is a second tap must not depend on the lights of that moment: both taps are
decided before the first. They stand outside the phases of the hold sequence, and the held
modifiers are down only inside.
-/
import MacroPad.Proofs.NumberEntry
import MacroPad.Proofs.Usages

set_option autoImplicit false

namespace MacroPad

instance (held : Modifiers) : Decidable held.HoldsAlt :=
  inferInstanceAs (Decidable (held.has .leftAlt = true ∨ held.has .rightAlt = true))

/-- What is asked for on either side of a hold sequence: one tap of NumLock where numbers
are to be typed while it is off. -/
def bracket (held : Modifiers) (numLock : Bool) : List Report :=
  if held.HoldsAlt ∧ numLock = false then [.press .none Key.numLock.usage, .release] else []

/-- The parts of a journal of a hold sequence: before the modifiers go down, while they do,
while the content is played, while the modifiers go up, and after that. -/
structure PhaseCut (held : Modifiers) (bracket : List Report)
    (journal before down emitting up after : Journal) : Prop where
  cut : journal = cutAtPhases before down emitting up after
  /-- The phases are gone through once, and no other change is reported. -/
  phases : journal.phases = phaseRound
  /-- Before the first phase and after the last one only NumLock is tapped. -/
  outside : before.requested = bracket ∧ after.requested = bracket
  inside : SparesNumLock (down.requested ++ emitting.requested ++ up.requested)
  /-- No held modifier is down before the modifiers go down or after they start to go up. -/
  heldInside : ∀ report ∈ before.requested ++ up.requested ++ after.requested,
    ∀ key, held.has key = true → report.modifiers.has key = false

section Bracket

variable {held : Modifiers} {taps : List Report}
  {journal before down emitting up after : Journal}

theorem PhaseCut.requested_eq (h : PhaseCut held taps journal before down emitting up after) :
    journal.requested =
      taps ++ (down.requested ++ emitting.requested ++ up.requested) ++ taps := by
  obtain ⟨hbefore, hafter⟩ := h.outside
  rw [h.cut, requested_cutAtPhases, hbefore, hafter]

/-- Notices in front of everything else belong to what is before the first phase. -/
theorem PhaseCut.prepend (h : PhaseCut held taps journal before down emitting up after)
    {notices : List Notice} (hquiet : ∀ notice ∈ notices, notice.phase? = none) :
    PhaseCut held taps (notices.map Entry.note ++ journal) (notices.map Entry.note ++ before)
      down emitting up after := by
  have hsame : Journal.requested (notices.map Entry.note ++ before) = before.requested := by
    rw [Journal.requested_append, Journal.requested_map_note, List.nil_append]
  refine ⟨?_, ?_, ?_, h.inside, ?_⟩
  · rw [h.cut, cutAtPhases, cutAtPhases, List.append_assoc]
  · rw [Journal.phases_append, Journal.phases_map_note hquiet, List.nil_append, h.phases]
  · rw [hsame]
    exact h.outside
  · rw [hsame]
    exact h.heldInside

theorem numLockTaps_eq_bracket (held : Modifiers) (numLock : Bool) :
    numLockTaps (numLock || !held.hasAlt) = bracket held numLock := by
  by_cases hoff : held.HoldsAlt ∧ numLock = false
  · rw [bracket, if_pos hoff, Hold.hasAlt_iff.2 hoff.1, hoff.2]
    rfl
  · have hon : (numLock || !held.hasAlt) = true := by
      rw [← Hold.hasAlt_iff] at hoff
      simpa [or_iff_not_imp_right] using hoff
    rw [bracket, if_neg hoff, hon]
    rfl

/-- The taps around a hold sequence hold nothing down. -/
theorem modifiers_of_mem_bracket {numLock : Bool} {report : Report}
    (h : report ∈ bracket held numLock) : report.modifiers = .none := by
  unfold bracket at h
  split at h
  · rcases List.mem_cons.1 h with rfl | h
    · rfl
    · rw [List.mem_singleton.1 h]
      rfl
  · exact absurd h List.not_mem_nil

/-- **A course of a hold sequence is cut at its phases**, whatever its content is and whatever
happens. -/
theorem Course.exists_phaseCut {timing : Timing} {host left : Host} {content : HoldContent}
    {numLock : Bool} (hkeys : Key.numLock.usage ∉ (Plan.holdSequence held content).usages)
    (h : Course timing host ((Plan.holdSequence held content).script timing numLock) journal left) :
    ∃ before down emitting up after,
      PhaseCut held (bracket held numLock) journal before down emitting up after := by
  obtain ⟨opening, closing, hwith, hopening, hclosing, hquiet, hquiet'⟩ :=
    exists_withNumLock timing held numLock (content.script timing held)
  obtain ⟨goDown, play, goUp, hscript, hdown, hplay, hup, hrelease⟩ :=
    content.exists_inPhases timing held
  rw [numLockTaps_eq_bracket] at hopening hclosing
  have hspared := HoldContent.sparesNumLock_script timing held hkeys
  rw [hscript] at hwith hspared
  rw [Plan.script, hscript, hwith] at h
  have hround : journal.phases = phaseRound := by
    rw [h.phases_eq, Action.phases_append, Action.phases_append, hquiet, hquiet',
      phases_inPhases hdown hplay hup, List.nil_append, List.append_nil]
  obtain ⟨before, down, emitting, up, after, hcut, hbefore, hgoDown, hemitting, hgoUp, hafter⟩ :=
    h.exists_cutAtPhases
  refine ⟨before, down, emitting, up, after, hcut, hround, ?_, ?_, ?_⟩
  · exact ⟨hbefore.trans hopening, hafter.trans hclosing⟩
  · rw [hgoDown, hemitting, hgoUp]
    simpa [inPhases] using hspared
  · intro report hmem key _
    rw [hbefore, hafter, hgoUp, hopening, hclosing, hrelease] at hmem
    have hnone : report.modifiers = .none := by
      rcases List.mem_append.1 hmem with hmem | hmem
      · rcases List.mem_append.1 hmem with hmem | hmem
        · exact modifiers_of_mem_bracket hmem
        · rw [List.mem_singleton.1 hmem]
          rfl
      · exact modifiers_of_mem_bracket hmem
    rw [hnone, Modifiers.has_none]

end Bracket

/-- What a grammar passes over is no change of phase. -/
theorem HoldText.phase?_of_mem {cs : List Char} {notices : List Notice}
    {result : Except GrammarFault (Modifiers × HoldContent)} (h : HoldText cs notices result) :
    ∀ notice ∈ notices, notice.phase? = none := by
  have hleft : ∀ left, ∀ notice ∈ leftNotices left, notice.phase? = none := by
    intro left notice hmem
    obtain ⟨piece, -, rfl⟩ := List.mem_map.1 hmem
    rfl
  have hskipped : ∀ skipped, ∀ notice ∈ skippedNotices skipped, notice.phase? = none := by
    intro skipped notice hmem
    obtain ⟨token, -, rfl⟩ := List.mem_map.1 hmem
    rfl
  cases h with
  | noBar _ => exact fun _ hmem => absurd hmem List.not_mem_nil
  | noModifier _ _ | altCode _ _ _ _ | longAltCode _ _ _ _ => exact hleft _
  | sequence _ _ _ _ _ | longSequence _ _ _ _ _ _ _ _ =>
      exact List.forall_mem_append.2 ⟨hleft _, hskipped _⟩

theorem Plan.phase?_of_mem_notices (kind : Kind) (text : String) :
    ∀ notice ∈ (Plan.ofMacro kind text).notices, notice.phase? = none := by
  unfold Plan.ofMacro
  split
  · cases kind with
    | holdSequence =>
        obtain ⟨notices, result, hholds⟩ := Hold.exists_holdText text.toList
        rw [Plan.ofText, Hold.ofText_eq_of_holdText hholds]
        exact hholds.phase?_of_mem
    | _ => exact fun _ hmem => absurd hmem List.not_mem_nil
  · exact fun _ hmem => absurd hmem List.not_mem_nil

/-! ## The law -/

/-- **NumLock is tapped around numbers and nowhere else.** Whatever happens while a text is
played, and whatever lights are told, a hold sequence with Alt that begins with NumLock off
asks for one tap of NumLock before everything else and for one after everything else, and
NumLock is pressed nowhere else. Every hold sequence goes once through its phases, with the
held modifiers down only inside and both taps outside. -/
theorem numLock_brackets {timing : Timing} {host : Host} {kind : Kind} {text : String}
    {plan : Plan} {run : Run} (hready : host.link.ready = true)
    (hplan : (Plan.ofMacro kind text).result = .ok plan)
    (hrun : RunAmid timing host kind (Plan.ofMacro kind text) run) :
    (∀ held content, plan = .holdSequence held content → held.HoldsAlt →
        host.link.lights.numLock = false →
          ∃ inner, run.journal.requested =
              [.press .none Key.numLock.usage, .release] ++ inner ++
                [.press .none Key.numLock.usage, .release] ∧ SparesNumLock inner) ∧
      ((¬ ∃ held content, plan = .holdSequence held content ∧ held.HoldsAlt ∧
          host.link.lights.numLock = false) → SparesNumLock run.journal.requested) ∧
      ∀ held content, plan = .holdSequence held content →
        ∃ before down emitting up after,
          PhaseCut held (bracket held host.link.lights.numLock) run.journal
            before down emitting up after := by
  cases hrun with
  | ignored unready => exact absurd hready (by simp [unready])
  | rejected _ bad =>
      rw [hplan] at bad
      contradiction
  | @played other journal left _ good playing =>
      have course := performance_player_iff.1 playing
      rw [hplan] at good
      obtain rfl : plan = other := Except.ok.inj good
      have hkeys := Plan.numLock_not_mem_usages hplan
      have hcut : ∀ held content, plan = .holdSequence held content →
          ∃ before down emitting up after,
            PhaseCut held (bracket held host.link.lights.numLock)
              ((Plan.ofMacro kind text).notices.map Entry.note ++ journal)
              before down emitting up after := by
        rintro held content rfl
        obtain ⟨before, down, emitting, up, after, hphases⟩ := Course.exists_phaseCut hkeys course
        exact ⟨_, down, emitting, up, after,
          hphases.prepend (Plan.phase?_of_mem_notices kind text)⟩
      refine ⟨?_, ?_, hcut⟩
      · intro held content hhold halt hoff
        obtain ⟨before, down, emitting, up, after, hphases⟩ := hcut held content hhold
        rw [bracket, if_pos ⟨halt, hoff⟩] at hphases
        exact ⟨_, hphases.requested_eq, hphases.inside⟩
      · intro hnot
        rw [Journal.requested_append, Journal.requested_map_note, List.nil_append,
          course.requested_eq]
        refine Plan.sparesNumLock_script timing _ hkeys fun held content hhold hoff => hnot ?_
        exact ⟨held, content, hhold, hoff⟩

/-- The host tells that NumLock is on while the first tap is held, and it is tapped back off
all the same. -/
theorem numLock_brackets_tab_and_six :
    let host := Host.start ⟨true, 1, .off⟩ [⟨10000, .link (.outputReport [1])⟩]
    let run := host.runText .standard .holdSequence "LAlt | Tab, 6"
    let plan := Plan.holdSequence (.only .leftAlt)
      (.sequence [.press Key.tab.usage .none, .digits [54]])
    host.link.ready = true ∧ (Plan.ofMacro .holdSequence "LAlt | Tab, 6").result = .ok plan ∧
      host.link.lights.numLock = false ∧ run.host.link.lights.numLock = true ∧
      ∃ inner, run.journal.requested =
          [.press .none Key.numLock.usage, .release] ++ inner ++
            [.press .none Key.numLock.usage, .release] ∧ SparesNumLock inner := by
  intro host run plan
  have hready : host.link.ready = true := by rfl
  have hplan : (Plan.ofMacro .holdSequence "LAlt | Tab, 6").result = .ok plan := by rfl
  have hoff : host.link.lights.numLock = false := by decide +kernel
  have hon : run.host.link.lights.numLock = true := by decide +kernel
  have halt : (Modifiers.only .leftAlt).HoldsAlt := by decide
  have htaps := (numLock_brackets hready hplan
    (host.runAmid_runText .standard .holdSequence "LAlt | Tab, 6")).1
  exact ⟨hready, hplan, hoff, hon, htaps _ _ rfl halt hoff⟩

end MacroPad
