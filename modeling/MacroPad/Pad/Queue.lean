/-
`Queue.lean` -- macros that wait for their turn.

Whoever asks for a macro does not wait for it to be played: the macro joins a
queue, or is turned away if the queue is full. Macros leave the queue in the
order in which they joined it.
-/
import MacroPad.Macro.Kind
import MacroPad.Macro.Payload
import MacroPad.Notice

set_option autoImplicit false

namespace MacroPad

/-- A macro that waits. -/
structure Message where
  kind : Kind
  payload : Payload
deriving DecidableEq

/-- Why a macro was turned away. -/
inductive QueueFault where
  | full
  | payloadTooLong
deriving DecidableEq, Repr

def QueueFault.message : QueueFault → String
  | full => "macro queue full"
  | payloadTooLong => "macro payload too long"

/-- The waiting macros, the first to be played first. -/
structure Queue where
  capacity : Nat
  waiting : List Message
deriving DecidableEq

namespace Queue

/-- The capacity of the queue of a new pad. -/
def usualCapacity : Nat := 8

/-- Nothing waits. -/
def empty (capacity : Nat) : Queue := ⟨capacity, []⟩

/-- How many macros wait. -/
def size (queue : Queue) : Nat := queue.waiting.length

/-- Let a macro join. Its length is looked at first. -/
def join (queue : Queue) (kind : Kind) (text : String) : Except QueueFault Queue :=
  match Payload.ofString? text with
  | none => .error .payloadTooLong
  | some payload =>
      if queue.size < queue.capacity then
        .ok { queue with waiting := queue.waiting ++ [⟨kind, payload⟩] }
      else .error .full

/-- The notice of a macro that was turned away. -/
def refusal (kind : Kind) (text : String) : QueueFault → Notice
  | .full => .queueFull kind
  | .payloadTooLong => .queueOversize text.utf8ByteSize

end Queue

end MacroPad
