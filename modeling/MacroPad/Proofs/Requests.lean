/-
`Requests.lean` -- what a journal says about reports.

A journal records each report that was asked for together with what became of
it. Three readings are compared here: the reports that were asked for, their
fates, and the reports that reached the host. The last are always among the
first and in their order, and they are the same if every fate is good. What the
radio tells in between belongs to neither.
-/
import MacroPad.Host.Basic
import MacroPad.Playback.Script

set_option autoImplicit false

namespace MacroPad

/-- The report that an action sends. -/
def Action.report? : Action → Option Report
  | send _ modifiers key => some (.press modifiers key)
  | waitUs _ | waitMs _ | note _ => none

/-- The reports that actions send. -/
def Action.reports (actions : List Action) : List Report := actions.filterMap Action.report?

/-- The action asks for a report or a wait; a notice asks for nothing. -/
def Action.asks : Action → Bool
  | note _ => false
  | send _ _ _ | waitUs _ | waitMs _ => true

/-! ## The reports of actions -/

namespace Action

@[simp] theorem reports_nil : reports [] = [] := rfl

@[simp] theorem reports_append (first later : List Action) :
    reports (first ++ later) = reports first ++ reports later :=
  List.filterMap_append

theorem reports_flatMap {α : Type} (f : α → List Action) (l : List α) :
    reports (l.flatMap f) = l.flatMap fun a => reports (f a) :=
  List.filterMap_flatMap

@[simp] theorem reports_send (channel : Channel) (modifiers : Modifiers) (key : UInt8)
    (actions : List Action) :
    reports (send channel modifiers key :: actions) = .press modifiers key :: reports actions :=
  rfl

@[simp] theorem reports_press (modifiers : Modifiers) (key : UInt8) (actions : List Action) :
    reports (press modifiers key :: actions) = .press modifiers key :: reports actions :=
  rfl

@[simp] theorem reports_release (actions : List Action) :
    reports (release :: actions) = .release :: reports actions :=
  rfl

@[simp] theorem reports_waitMs (ms : UInt32) (actions : List Action) :
    reports (waitMs ms :: actions) = reports actions :=
  rfl

@[simp] theorem reports_note (notice : Notice) (actions : List Action) :
    reports (note notice :: actions) = reports actions :=
  rfl

@[simp] theorem reports_enter (before after : HoldPhase) (actions : List Action) :
    reports (enter before after :: actions) = reports actions :=
  rfl

@[simp] theorem reports_pause (us : Nat) : reports (pause us) = [] := by
  unfold pause
  split <;> rfl

@[simp] theorem reports_tap (modifiers : Modifiers) (key : UInt8) (hold settle : Nat) :
    reports (tap modifiers key hold settle) = [.press modifiers key, .release] := by
  simp only [tap, List.cons_append, reports_press, reports_append, reports_pause, reports_release,
    List.nil_append]

end Action

/-- The reports of a burst: nothing is released before its end. -/
theorem HoldContent.reports_altCode (timing : Timing) (held : Modifiers) (ds : List UInt8) :
    Action.reports ((altCode ds).script timing held) =
      [.press held 0] ++
        (ds.filterMap keypadUsage?).flatMap (fun key => [.press held key, .press held 0]) ++
        [.release] := by
  simp only [HoldContent.script, List.cons_append, Action.reports_enter, Action.reports_send,
    Action.reports_append, Action.reports_flatMap, Action.reports_nil, List.nil_append]
  rfl

/-- The reports of a sequence: each item is played between the two ends. -/
theorem HoldContent.reports_sequence (timing : Timing) (held : Modifiers)
    (items : List SequenceItem) :
    Action.reports ((sequence items).script timing held) =
      [.press held 0] ++ items.flatMap (fun item => Action.reports (item.script timing held)) ++
        [.release] := by
  simp only [HoldContent.script, List.cons_append, Action.reports_enter, Action.reports_press,
    Action.reports_append, Action.reports_pause, Action.reports_flatMap, Action.reports_release,
    Action.reports_nil, List.nil_append, List.append_assoc]

/-- What became of the report that was asked for. -/
def Entry.fate? : Entry → Option Fate
  | send _ _ _ _ fate => some fate
  | pacing _ | waitUs _ | waitMs _ | note _ => none

namespace Journal

/-- The reports that were asked for. -/
def requested (journal : Journal) : List Report := Action.reports journal.actions

/-- The reports that reached the host. -/
def reports (journal : Journal) : List Report := journal.arrivals.map Prod.snd

/-- What became of the reports that were asked for. -/
def fates (journal : Journal) : List Fate := journal.filterMap Entry.fate?

/-- Every report that was asked for reached the host: the link was ready whenever
one was asked for, and the writer accepted each. -/
def AllAccepted (journal : Journal) : Prop := ∀ fate ∈ journal.fates, fate = .accepted

instance (journal : Journal) : Decidable journal.AllAccepted :=
  inferInstanceAs (Decidable (∀ fate ∈ journal.fates, fate = .accepted))

/-! ## One record after another -/

@[simp] theorem requested_append (first later : Journal) :
    requested (first ++ later) = first.requested ++ later.requested := by
  simp only [requested, Action.reports, actions_append, List.filterMap_append]

@[simp] theorem reports_append (first later : Journal) :
    reports (first ++ later) = first.reports ++ later.reports := by
  simp only [reports, arrivals_append, List.map_append]

@[simp] theorem fates_append (first later : Journal) :
    fates (first ++ later) = first.fates ++ later.fates :=
  List.filterMap_append

@[simp] theorem allAccepted_append (first later : Journal) :
    AllAccepted (first ++ later) ↔ first.AllAccepted ∧ later.AllAccepted := by
  simp only [AllAccepted, fates_append, List.forall_mem_append]

@[simp] theorem requested_note (notice : Notice) (journal : Journal) :
    requested (.note notice :: journal) = journal.requested :=
  rfl

@[simp] theorem requested_map_note (notices : List Notice) :
    requested (notices.map Entry.note) = [] := by
  rw [requested, actions_map_note]
  rfl

theorem requested_flatMap {α : Type} (f : α → Journal) (l : List α) :
    requested (l.flatMap f) = l.flatMap fun a => (f a).requested := by
  induction l with
  | nil => rfl
  | cons a l ih => rw [List.flatMap_cons, List.flatMap_cons, requested_append, ih]

theorem allAccepted_flatMap {α : Type} (f : α → Journal) (l : List α) :
    AllAccepted (l.flatMap f) ↔ ∀ a ∈ l, (f a).AllAccepted := by
  induction l with
  | nil => simp [AllAccepted, fates]
  | cons a l ih => rw [List.flatMap_cons, allAccepted_append, ih, List.forall_mem_cons]

/-! ## What was asked for and what arrived -/

/-- **Nothing arrives that was not asked for.** Each record of a report that was
asked for adds at most that report to those that arrived. -/
theorem reports_sublist_requested (journal : Journal) :
    journal.reports.Sublist journal.requested := by
  induction journal with
  | nil => exact List.Sublist.refl _
  | cons entry journal ih =>
      rw [← List.singleton_append, reports_append, requested_append]
      refine List.Sublist.append ?_ ih
      cases entry with
      | send time channel modifiers key fate =>
          cases fate with
          | accepted => exact List.Sublist.refl _
          | refused _ => exact List.nil_sublist _
          | skipped => exact List.nil_sublist _
      | _ => exact List.Sublist.refl _

/-- Where every report was accepted, all that was asked for arrived. -/
theorem AllAccepted.reports_eq {journal : Journal} (h : journal.AllAccepted) :
    journal.reports = journal.requested := by
  induction journal with
  | nil => rfl
  | cons entry journal ih =>
      rw [← List.singleton_append, allAccepted_append] at h
      rw [← List.singleton_append, reports_append, requested_append, ih h.2]
      cases entry with
      | send time channel modifiers key fate =>
          obtain rfl : fate = .accepted := h.1 fate (List.mem_singleton_self fate)
          rfl
      | _ => rfl

/-! ## What the radio tells -/

/-- The journal holds only what the radio told, which is never a warning or an
error. -/
def FromRadio (journal : Journal) : Prop :=
  ∃ notices : List Notice, journal = notices.map Entry.note ∧
    ∀ notice ∈ notices, notice.level ≠ .warn ∧ notice.level ≠ .error

namespace FromRadio

variable {journal first later : Journal}

theorem nil : FromRadio [] := ⟨[], rfl, by simp⟩

theorem append (h₁ : first.FromRadio) (h₂ : later.FromRadio) : FromRadio (first ++ later) := by
  obtain ⟨ns₁, rfl, hl₁⟩ := h₁
  obtain ⟨ns₂, rfl, hl₂⟩ := h₂
  exact ⟨ns₁ ++ ns₂, (List.map_append ..).symm, List.forall_mem_append.2 ⟨hl₁, hl₂⟩⟩

theorem actions_eq (h : journal.FromRadio) : journal.actions = [] := by
  obtain ⟨notices, rfl, -⟩ := h
  exact actions_map_note notices

end FromRadio

end Journal

/-! ## Events leave the pad's own records alone -/

/-- The radio warns of nothing. -/
theorem Link.notices_level (link : Link) (event : LinkEvent) :
    ∀ notice ∈ link.notices event, notice.level ≠ .warn ∧ notice.level ≠ .error := by
  cases event with
  | outputReport bytes => cases bytes <;> simp [Link.notices, Notice.level]
  | _ => simp [Link.notices, Notice.level]

namespace Host

theorem fromRadio_apply (host : Host) (event : HostEvent) : (host.apply event).2.FromRadio := by
  cases event with
  | writer fault => exact Journal.FromRadio.nil
  | link event => exact ⟨host.link.notices event, rfl, host.link.notices_level event⟩

@[simp] theorem apply_clock (host : Host) (event : HostEvent) :
    (host.apply event).1.clock = host.clock := by
  cases event <;> rfl

@[simp] theorem apply_attempts (host : Host) (event : HostEvent) :
    (host.apply event).1.attempts = host.attempts := by
  cases event <;> rfl

/-- Events bring notices of the radio and leave the clock and the writer's count
alone. -/
theorem applyAll_spec (host : Host) (events : List HostEvent) :
    (host.applyAll events).2.FromRadio ∧ (host.applyAll events).1.clock = host.clock ∧
      (host.applyAll events).1.attempts = host.attempts := by
  induction events generalizing host with
  | nil => exact ⟨Journal.FromRadio.nil, rfl, rfl⟩
  | cons event events ih =>
      obtain ⟨hr, hc, ha⟩ := ih (host.apply event).1
      exact ⟨(host.fromRadio_apply event).append hr, hc.trans (host.apply_clock event),
        ha.trans (host.apply_attempts event)⟩

/-- While time passes the radio may tell things, but nothing is written. -/
theorem elapse_spec (host : Host) (us : Nat) :
    (host.elapse us).2.FromRadio ∧ (host.elapse us).1.clock = host.clock + us ∧
      (host.elapse us).1.attempts = host.attempts :=
  applyAll_spec _ _

end Host

end MacroPad
