/-
`Journal.lean` -- the record of what happened, in order.

Every report that was asked for is recorded once, with what became of it, and so
is every wait. A journal can be read as a list of what was asked for, of what
arrived, or of what was reported on the way.
-/
import MacroPad.Playback.Player

set_option autoImplicit false

namespace MacroPad

/-- What became of a report that was asked for. -/
inductive Fate where
  | accepted
  /-- The writer refused it. -/
  | refused (fault : SendFault)
  /-- It was not written, since the host was not ready. -/
  | skipped
deriving DecidableEq, Repr

/-- The answer to the one who asked for the report. -/
def Fate.result : Fate → Except SendFault Unit
  | accepted => .ok ()
  | refused fault => .error fault
  | skipped => .error .notReady

/-- One record. -/
inductive Entry where
  /-- A report was asked for at some time on the clock. -/
  | send (time : Nat) (channel : Channel) (modifiers : Modifiers) (key : UInt8) (fate : Fate)
  /-- The pause after an accepted report. -/
  | pacing (us : UInt32)
  | waitUs (us : UInt32)
  | waitMs (ms : UInt32)
  | note (notice : Notice)
deriving DecidableEq

namespace Entry

/-- The action that asked for it, notices apart. -/
def action? : Entry → Option Action
  | send _ channel modifiers key _ => some (.send channel modifiers key)
  | waitUs us => some (.waitUs us)
  | waitMs ms => some (.waitMs ms)
  | pacing _ | note _ => none

/-- The report that reached the host, with the time. -/
def arrival? : Entry → Option (Nat × Report)
  | send time _ modifiers key .accepted => some (time, .press modifiers key)
  | _ => none

/-- What was reported. -/
def notice? : Entry → Option Notice
  | note notice => some notice
  | _ => none

end Entry

/-- The record of what happened, the earliest first. -/
abbrev Journal := List Entry

/-- What was asked for, notices apart. -/
def Journal.actions (journal : Journal) : List Action := journal.filterMap Entry.action?

/-- The reports that reached the host, each with its time. -/
def Journal.arrivals (journal : Journal) : List (Nat × Report) := journal.filterMap Entry.arrival?

/-- What was reported. -/
def Journal.notices (journal : Journal) : List Notice := journal.filterMap Entry.notice?

/-! ## One record after another -/

namespace Journal

@[simp] theorem actions_append (first later : Journal) :
    actions (first ++ later) = first.actions ++ later.actions :=
  List.filterMap_append

@[simp] theorem arrivals_append (first later : Journal) :
    arrivals (first ++ later) = first.arrivals ++ later.arrivals :=
  List.filterMap_append

@[simp] theorem notices_append (first later : Journal) :
    notices (first ++ later) = first.notices ++ later.notices :=
  List.filterMap_append

/-- A journal of notices only asked for nothing. -/
@[simp] theorem actions_map_note (ns : List Notice) : actions (ns.map Entry.note) = [] := by
  simp [actions, Entry.action?, List.filterMap_map, Function.comp_def]

/-- A journal of notices only brought nothing to the host. -/
@[simp] theorem arrivals_map_note (ns : List Notice) : arrivals (ns.map Entry.note) = [] := by
  simp [arrivals, Entry.arrival?, List.filterMap_map, Function.comp_def]

end Journal

end MacroPad
