/-
`Link.lean` -- the state of the link to the host.

The radio tells the pad when a host connects, how many times it listens to the
input reports, and which lights it wants on. Reports can be sent while a host is
connected and listens at least once. A host that goes away stops listening, but
the lights stay as they were.
-/
import MacroPad.Notice

set_option autoImplicit false

namespace MacroPad

/-- What the pad knows of the link. -/
structure Link where
  connected : Bool
  /-- How many times the host listens to the input reports. -/
  subscriptions : UInt8
  lights : Lights
deriving DecidableEq, Repr

/-- What the radio tells the pad. -/
inductive LinkEvent where
  | connect
  | disconnect
  | subscribe
  | unsubscribe
  /-- The radio counts the subscriptions itself. -/
  | countSubscriptions (count : UInt8)
  /-- The host sent an output report, whose first byte holds the lights. -/
  | outputReport (bytes : List UInt8)
deriving DecidableEq, Repr

namespace Link

/-- No host yet. -/
def start : Link := ⟨false, 0, .off⟩

/-- A host has connected and listens. -/
def listening (link : Link) : Link := { link with connected := true, subscriptions := 1 }

/-- Reports can be sent. -/
def ready (link : Link) : Bool := link.connected && decide (0 < link.subscriptions)

/-- One more, or the largest count. -/
def countUp (count : UInt8) : UInt8 := UInt8.ofNat (min (count.toNat + 1) 255)

/-- One less, or none. -/
def countDown (count : UInt8) : UInt8 := UInt8.ofNat (count.toNat - 1)

/-- The link after an event. -/
def apply (link : Link) : LinkEvent → Link
  | .connect => { link with connected := true }
  | .disconnect => { link with connected := false, subscriptions := 0 }
  | .subscribe => { link with subscriptions := countUp link.subscriptions }
  | .unsubscribe => { link with subscriptions := countDown link.subscriptions }
  | .countSubscriptions count => { link with subscriptions := count }
  | .outputReport [] => link
  | .outputReport (lights :: _) => { link with lights := ⟨lights⟩ }

/-- The notices that an event gives. -/
def notices (link : Link) : LinkEvent → List Notice
  | .connect => [.hostConnected]
  | .disconnect => [.hostDisconnected]
  | .subscribe => [.subscribed (countUp link.subscriptions)]
  | .unsubscribe => [.unsubscribed (countDown link.subscriptions)]
  | .countSubscriptions _ => []
  | .outputReport [] => []
  | .outputReport (lights :: _) => [.lightsChanged ⟨lights⟩]

@[simp] theorem toNat_countUp (count : UInt8) : (countUp count).toNat = min (count.toNat + 1) 255 := by
  simp only [countUp, UInt8.toNat_ofNat']
  omega

@[simp] theorem toNat_countDown (count : UInt8) : (countDown count).toNat = count.toNat - 1 := by
  have := count.toNat_lt
  simp only [countDown, UInt8.toNat_ofNat']
  omega

end Link

end MacroPad
