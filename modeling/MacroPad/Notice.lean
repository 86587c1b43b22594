/-
`Notice.lean` -- what the pad reports about its own work.

A notice records one thing that happened, with what it happened to. Its level and
its wording are functions of it, so nothing but the wording itself depends on
them.
-/
import MacroPad.Grammar.Fault
import MacroPad.Keyboard.Lights
import MacroPad.Keyboard.Report
import MacroPad.Macro.Kind

set_option autoImplicit false

namespace MacroPad

/-- How much attention a notice asks for. -/
inductive Level where
  | error | warn | info | debug | trace
deriving DecidableEq, Repr

def Level.name : Level → String
  | error => "ERROR"
  | warn => "WARN"
  | info => "INFO"
  | debug => "DEBUG"
  | trace => "TRACE"

/-- Where the playing of a hold sequence stands. -/
inductive HoldPhase where
  | idle | modifiersDown | emitting | modifiersUp
deriving DecidableEq, Repr

def HoldPhase.name : HoldPhase → String
  | idle => "Idle"
  | modifiersDown => "ModifiersDown"
  | emitting => "Emitting"
  | modifiersUp => "ModifiersUp"

/-- One thing worth reporting. -/
inductive Notice where
  /-- A name to be held is no modifier. -/
  | notAModifier (name : String)
  /-- A token of a hold sequence means nothing. -/
  | unknownToken (token : String)
  /-- A macro was asked for while the host was not ready. -/
  | macroIgnored (kind : Kind)
  /-- The text of a macro was rejected. -/
  | macroRejected (kind : Kind) (fault : GrammarFault)
  | slotStarted (id : UInt8)
  /-- A character to be typed is not on the layout. -/
  | characterSkipped (c : Char)
  | numLockTurnedOn
  | numLockRestored
  | phaseChanged (before after : HoldPhase)
  /-- A report was not sent because the host was not ready. -/
  | reportSkipped (modifiers : Modifiers) (key : UInt8)
  /-- A report was sent and refused. -/
  | reportRefused (fault : SendFault)
  | linkDropped
  | hostConnected
  | hostDisconnected
  | subscribed (count : UInt8)
  | unsubscribed (count : UInt8)
  | lightsChanged (lights : Lights)
  /-- A macro was too long for the queue. -/
  | queueOversize (bytes : Nat)
  /-- A macro was dropped because the queue was full. -/
  | queueFull (kind : Kind)
  | macroDispatched (kind : Kind)
  | workerStarted
deriving DecidableEq

namespace Notice

def level : Notice → Level
  | notAModifier _ | unknownToken _ | reportSkipped _ _ | queueOversize _ | queueFull _ => .warn
  | macroRejected _ _ | reportRefused _ => .error
  | macroIgnored _ | linkDropped | hostConnected | hostDisconnected | workerStarted => .info
  | characterSkipped _ | phaseChanged _ _ => .trace
  | slotStarted _ | numLockTurnedOn | numLockRestored | subscribed _ | unsubscribed _ |
      lightsChanged _ | macroDispatched _ => .debug

/-- A byte in lower-case hexadecimal without leading zeros. -/
def hexadecimal (byte : UInt8) : String := "0x" ++ String.ofList (Nat.toDigits 16 byte.toNat)

def text : Notice → String
  | notAModifier name => "Hold '" ++ name ++ "' is not a modifier, ignored"
  | unknownToken token => "Unknown hold sequence token '" ++ token ++ "', skipped"
  | macroIgnored kind => "BLE host not ready, " ++ kind.name ++ " macro ignored"
  | macroRejected kind fault => "Invalid " ++ kind.name ++ " macro: " ++ fault.label
  | slotStarted id => "Running macro slot " ++ Nat.repr id.toNat
  | characterSkipped c => "Skip unmapped character " ++ String.ofList [c]
  | numLockTurnedOn => "Turning NumLock on for alt code entry"
  | numLockRestored => "Restoring NumLock"
  | phaseChanged before after => "Hold sequence: " ++ before.name ++ " -> " ++ after.name
  | reportSkipped modifiers key =>
      "Skip report, BLE host not ready: mods=" ++ hexadecimal modifiers.bits ++ " key=" ++
        hexadecimal key
  | reportRefused fault => "Failed to notify keyboard report: " ++ fault.label
  | linkDropped => "Disconnecting BLE host"
  | hostConnected => "BLE host connected"
  | hostDisconnected => "BLE host disconnected"
  | subscribed count => "Input report subscribed, subscriptions: " ++ Nat.repr count.toNat
  | unsubscribed count => "Input report unsubscribed, subscriptions: " ++ Nat.repr count.toNat
  | lightsChanged lights => "Host LED state: " ++ hexadecimal lights.bits
  | queueOversize bytes => "Macro payload too long (" ++ Nat.repr bytes ++ " bytes), dropped"
  | queueFull kind => "Macro queue full, " ++ kind.name ++ " macro dropped"
  | macroDispatched kind => "Dispatching " ++ kind.name ++ " macro"
  | workerStarted => "Macro worker started"

end Notice

end MacroPad
