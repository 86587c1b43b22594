/-
`NumLockLoss.lean` -- NumLock when reports are lost.

The pad taps NumLock before a hold sequence with Alt and taps it again afterwards. Each tap
is a report like any other: it may be refused or skipped, and it is not repeated. What a run
leaves of NumLock is therefore decided by the two presses of that key and by nothing else. If
both arrive, or both are lost, a host that flips NumLock at each press is left as it was; if
exactly one is lost, it is left the other way.
-/
import Mathlib.Algebra.Group.Nat.Even
import MacroPad.Proofs.NumLockBracket

set_option autoImplicit false

namespace MacroPad

/-! ## The presses of one key -/

/-- What became of the report, if it was asked for with that key. -/
def Entry.fateOf? (key : UInt8) : Entry → Option Fate
  | send _ _ _ pressed fate => if pressed = key then some fate else none
  | pacing _ | waitUs _ | waitMs _ | note _ => none

namespace Journal

/-- What became of the presses of a key, in their order. -/
def fatesOf (key : UInt8) (journal : Journal) : List Fate := journal.filterMap (Entry.fateOf? key)

/-- How many presses of a key reached the host. -/
def presses (key : UInt8) (journal : Journal) : Nat :=
  journal.reports.countP fun report => report.key = key

/-- Two presses of a key were asked for, and exactly one of them reached the host. -/
def LosesOne (key : UInt8) (journal : Journal) : Prop :=
  ∃ first second, journal.fatesOf key = [first, second] ∧
    ¬ (first = .accepted ↔ second = .accepted)

section Presses

variable (key : UInt8)

theorem fatesOf_cons (entry : Entry) (journal : Journal) :
    fatesOf key (entry :: journal) = (entry.fateOf? key).toList ++ journal.fatesOf key := by
  rw [fatesOf, List.filterMap_cons, fatesOf]
  cases entry.fateOf? key <;> rfl

/-- The presses that reached the host are those that were accepted. -/
theorem presses_eq (journal : Journal) :
    journal.presses key = (journal.fatesOf key).countP fun fate => fate = .accepted := by
  induction journal with
  | nil => rfl
  | cons entry journal ih =>
      rw [presses] at ih ⊢
      rw [← List.singleton_append, reports_append, List.countP_append, ih,
        List.singleton_append, fatesOf_cons, List.countP_append]
      congr 1
      cases entry with
      | send time channel modifiers pressed fate =>
          rw [Entry.fateOf?]
          by_cases hkey : pressed = key
          · subst hkey
            cases fate <;> simp [reports, arrivals, Entry.arrival?]
          · cases fate <;> simp [reports, arrivals, Entry.arrival?, hkey]
      | _ => rfl

/-- Each press that was asked for has one fate. -/
theorem length_fatesOf (journal : Journal) :
    (journal.fatesOf key).length = journal.requested.countP fun report => report.key = key := by
  induction journal with
  | nil => rfl
  | cons entry journal ih =>
      rw [fatesOf_cons, List.length_append, ih, ← List.singleton_append (l := journal),
        requested_append, List.countP_append]
      congr 1
      cases entry with
      | send time channel modifiers pressed fate =>
          rw [Entry.fateOf?]
          by_cases hkey : pressed = key
          · subst hkey
            simp [requested, actions, Entry.action?]
          · simp [requested, actions, Entry.action?, hkey]
      | _ => rfl

variable {key}

/-- A press counts if it was accepted. -/
theorem presses_of_two {journal : Journal} {first second : Fate}
    (h : journal.fatesOf key = [first, second]) :
    journal.presses key =
      (if first = .accepted then 1 else 0) + (if second = .accepted then 1 else 0) := by
  rw [presses_eq, h]
  simp [List.countP_cons, Nat.add_comm]

/-- Exactly one of two presses reached the host. -/
theorem LosesOne.presses_eq_one {journal : Journal} (h : journal.LosesOne key) :
    journal.presses key = 1 := by
  obtain ⟨first, second, htwo, hone⟩ := h
  rw [presses_of_two htwo]
  by_cases hfirst : first = .accepted
  · have hsecond : second ≠ .accepted := fun hsecond => hone ⟨fun _ => hsecond, fun _ => hfirst⟩
    rw [if_pos hfirst, if_neg hsecond]
  · have hsecond : second = .accepted := by
      by_contra hsecond
      exact hone ⟨fun h => absurd h hfirst, fun h => absurd h hsecond⟩
    rw [if_neg hfirst, if_pos hsecond]

/-- Two presses of which both or none reached the host are even in number. -/
theorem even_presses_of_two {journal : Journal} {first second : Fate}
    (h : journal.fatesOf key = [first, second]) (hboth : first = .accepted ↔ second = .accepted) :
    Even (journal.presses key) := by
  rw [presses_of_two h]
  by_cases hfirst : first = .accepted
  · rw [if_pos hfirst, if_pos (hboth.1 hfirst)]
    exact ⟨1, rfl⟩
  · rw [if_neg hfirst, if_neg fun hsecond => hfirst (hboth.2 hsecond)]
    exact ⟨0, rfl⟩

end Presses

end Journal

/-! ## A host that flips NumLock -/

/-- NumLock after some reports, at a host that flips it at each press of its key. -/
def numLockAfter (on : Bool) (reports : List Report) : Bool :=
  reports.foldl (fun on report => if report.key = Key.numLock.usage then !on else on) on

/-- **Flipping an even number of times changes nothing**, and flipping an odd number of times
does. -/
theorem numLockAfter_eq_iff (on : Bool) (reports : List Report) :
    numLockAfter on reports = on ↔
      Even (reports.countP fun report => report.key = Key.numLock.usage) := by
  induction reports generalizing on with
  | nil => simp [numLockAfter]
  | cons report reports ih =>
      rw [numLockAfter, List.foldl_cons, ← numLockAfter, List.countP_cons]
      by_cases hkey : report.key = Key.numLock.usage
      · -- the rest starts the other way, so it has to flip an odd number of times
        rw [if_pos hkey, if_pos (decide_eq_true hkey), Nat.even_add_one, ← ih (!on)]
        cases on <;> simp
      · rw [if_neg hkey, if_neg (by simpa using hkey), Nat.add_zero]
        exact ih on

/-! ## What a run asks for -/

/-- One tap of NumLock. -/
def numLockReports : List Report := [.press .none Key.numLock.usage, .release]

/-- **A run asks for one tap of NumLock on either side, or for none at all**, whatever
happens while it is played. -/
theorem RunAmid.exists_taps {timing : Timing} {host : Host} {kind : Kind} {text : String}
    {run : Run} (h : RunAmid timing host kind (Plan.ofMacro kind text) run) :
    ∃ taps inner, (taps = [] ∨ taps = numLockReports) ∧ SparesNumLock inner ∧
      run.journal.requested = taps ++ inner ++ taps := by
  cases h with
  | ignored _ => exact ⟨[], [], .inl rfl, SparesNumLock.nil, rfl⟩
  | rejected _ _ =>
      refine ⟨[], [], .inl rfl, SparesNumLock.nil, ?_⟩
      rw [Journal.requested_append, Journal.requested_map_note]
      rfl
  | @played plan journal left _ good playing =>
      have course := performance_player_iff.1 playing
      -- no text asks for NumLock itself, so only the taps around the body press it
      have hkeys := Plan.numLock_not_mem_usages good
      rw [Journal.requested_append, Journal.requested_map_note, List.nil_append]
      by_cases hoff : ∃ held content, plan = .holdSequence held content ∧ held.HoldsAlt ∧
          host.link.lights.numLock = false
      · obtain ⟨held, content, rfl, hnumbers⟩ := hoff
        obtain ⟨before, down, emitting, up, after, hcut⟩ := Course.exists_phaseCut hkeys course
        rw [bracket, if_pos hnumbers] at hcut
        exact ⟨numLockReports, _, .inr rfl, hcut.inside, hcut.requested_eq⟩
      · have hspares : SparesNumLock journal.requested := by
          rw [course.requested_eq]
          exact Plan.sparesNumLock_script timing _ hkeys fun held content hhold hnumbers =>
            hoff ⟨held, content, hhold, hnumbers⟩
        exact ⟨[], _, .inl rfl, hspares, by simp⟩

/-- Reports that spare NumLock press it nowhere. -/
theorem SparesNumLock.countP_eq_zero {reports : List Report} (h : SparesNumLock reports) :
    (reports.countP fun report => report.key = Key.numLock.usage) = 0 := by
  rw [List.countP_eq_zero]
  intro report hmem hkey
  have hfirst : report.key ∈ report.keys := Vector.getElem_mem _
  exact h report hmem (of_decide_eq_true hkey ▸ hfirst)

/-- NumLock is pressed twice, or not at all. -/
theorem RunAmid.fatesOf_numLock {timing : Timing} {host : Host} {kind : Kind} {text : String}
    {run : Run} (h : RunAmid timing host kind (Plan.ofMacro kind text) run) :
    run.journal.fatesOf Key.numLock.usage = [] ∨
      ∃ first second, run.journal.fatesOf Key.numLock.usage = [first, second] := by
  obtain ⟨taps, inner, htaps, hinner, hrequested⟩ := h.exists_taps
  have hlength := run.journal.length_fatesOf Key.numLock.usage
  rw [hrequested, List.countP_append, List.countP_append, hinner.countP_eq_zero] at hlength
  rcases htaps with rfl | rfl
  · exact .inl (List.length_eq_zero_iff.1 hlength)
  · exact .inr (List.length_eq_two.1 hlength)

/-! ## The law -/

/-- **NumLock is put back unless exactly one of its two presses is lost.** Whatever happens
while a text is played, NumLock is pressed twice or not at all. The number of presses that
reach the host is even, and a host that flips NumLock at each of them ends as it began, unless
one of the two was refused or skipped and the other was not; then exactly one reached the
host, which ends the other way. A lost press is neither repeated nor made up for. -/
theorem numLock_restored_iff {timing : Timing} {host : Host} {kind : Kind} {text : String}
    {run : Run} (hrun : RunAmid timing host kind (Plan.ofMacro kind text) run) :
    (run.journal.fatesOf Key.numLock.usage = [] ∨
        ∃ first second, run.journal.fatesOf Key.numLock.usage = [first, second]) ∧
      (Even (run.journal.presses Key.numLock.usage) ↔
        ¬ run.journal.LosesOne Key.numLock.usage) ∧
      (run.journal.LosesOne Key.numLock.usage → run.journal.presses Key.numLock.usage = 1) ∧
      ∀ on, numLockAfter on run.journal.reports =
        if Even (run.journal.presses Key.numLock.usage) then on else !on := by
  have hfates := hrun.fatesOf_numLock
  refine ⟨hfates, ⟨?_, ?_⟩, Journal.LosesOne.presses_eq_one, ?_⟩
  · intro heven hlost
    rw [hlost.presses_eq_one] at heven
    exact Nat.not_even_one heven
  · intro hkept
    rcases hfates with hnone | ⟨first, second, htwo⟩
    · rw [Journal.presses_eq, hnone]
      exact ⟨0, rfl⟩
    · refine Journal.even_presses_of_two htwo ?_
      by_contra hone
      exact hkept ⟨first, second, htwo, hone⟩
  · intro on
    have hiff := numLockAfter_eq_iff on run.journal.reports
    by_cases heven : Even (run.journal.presses Key.numLock.usage)
    · rw [if_pos heven]
      exact hiff.2 heven
    · rw [if_neg heven]
      exact Bool.eq_not.2 fun hsame => heven (hiff.1 hsame)

/-- A writer that refuses every report loses both presses, and NumLock stays as it was. -/
theorem numLock_restored_iff_refused :
    let host := { Host.start Link.start.listening [] with fault := some .notificationFailed }
    let run := host.runText .standard .holdSequence "LAlt | 1"
    host.link.ready = true ∧
      run.journal.fatesOf Key.numLock.usage =
        [.refused .notificationFailed, .refused .notificationFailed] ∧
      ∀ on, numLockAfter on run.journal.reports = on := by
  intro host run
  have hfates : run.journal.fatesOf Key.numLock.usage =
      [.refused .notificationFailed, .refused .notificationFailed] := by decide +kernel
  obtain ⟨-, heven, -, hafter⟩ :=
    numLock_restored_iff (host.runAmid_runText .standard .holdSequence "LAlt | 1")
  have hkept : ¬ run.journal.LosesOne Key.numLock.usage := by
    rintro ⟨first, second, htwo, hone⟩
    obtain ⟨rfl, hrest⟩ := List.cons.inj (hfates.symm.trans htwo)
    obtain ⟨rfl, -⟩ := List.cons.inj hrest
    exact hone Iff.rfl
  refine ⟨rfl, hfates, fun on => ?_⟩
  rw [hafter on, if_pos (heven.2 hkept)]

/-- The writer refuses the second press: one press reaches the host, which is left with NumLock
on although it was off before. -/
theorem numLock_left_on :
    let host := Host.start Link.start.listening
      [⟨60000, .writer (some .notificationFailed)⟩, ⟨80000, .writer none⟩]
    let run := host.runText .standard .holdSequence "LAlt | 1"
    host.link.ready = true ∧
      RunAmid .standard host .holdSequence (Plan.ofMacro .holdSequence "LAlt | 1") run ∧
      run.journal.fatesOf Key.numLock.usage = [.accepted, .refused .notificationFailed] ∧
      ¬ Even (run.journal.presses Key.numLock.usage) ∧
      numLockAfter false run.journal.reports = true := by
  intro host run
  exact ⟨rfl, host.runAmid_runText .standard .holdSequence "LAlt | 1", by decide +kernel,
    by decide +kernel, by decide +kernel⟩

end MacroPad
