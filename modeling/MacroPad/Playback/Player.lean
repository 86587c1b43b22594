/-
`Player.lean` -- programs that play.

A player asks for one thing after the other and is told an answer each time: what
became of a report, or how the link and the lights are at that moment. What it asks
for next may depend on every answer so far. Nothing here says who gives the answers.
-/
import MacroPad.Notice
import MacroPad.Playback.Timing

set_option autoImplicit false

namespace MacroPad

/-! ## Requests -/

/-- One thing that playing asks for. -/
inductive Action where
  /-- Send a report of one key and some modifiers. -/
  | send (channel : Channel) (modifiers : Modifiers) (key : UInt8)
  | waitUs (us : UInt32)
  | waitMs (ms : UInt32)
  | note (notice : Notice)
deriving DecidableEq

/-- What is told of an action that is over: of a report, what became of it. -/
def Action.Answer : Action → Type
  | send _ _ _ => Except SendFault Unit
  | waitUs _ | waitMs _ | note _ => Unit

/-- What a player can ask. -/
inductive Request where
  /-- To do something. -/
  | act (action : Action)
  /-- Whether reports can be sent. -/
  | isReady
  /-- Whether NumLock is on. -/
  | numLockOn
deriving DecidableEq

def Request.Answer : Request → Type
  | act action => action.Answer
  | isReady | numLockOn => Bool

/-! ## Players -/

/-- A program that asks, goes on as the answer tells it, and is done in the end. -/
inductive Player (α : Type) : Type where
  | done (value : α)
  | ask (request : Request) (next : request.Answer → Player α)

namespace Player

variable {α β γ : Type}

/-- Go on with what the player ended with. -/
protected def bind : Player α → (α → Player β) → Player β
  | done value, f => f value
  | ask request next, f => ask request fun answer => (next answer).bind f

instance : Monad Player where
  pure := done
  bind := Player.bind

protected theorem bind_done (player : Player α) : player.bind done = player := by
  induction player with
  | done value => rfl
  | ask request next ih => exact congrArg (ask request) (funext ih)

protected theorem bind_assoc (player : Player α) (f : α → Player β) (g : β → Player γ) :
    (player.bind f).bind g = player.bind fun value => (f value).bind g := by
  induction player with
  | done value => rfl
  | ask request next ih => exact congrArg (ask request) (funext ih)

instance : LawfulMonad Player :=
  LawfulMonad.mk' Player Player.bind_done (fun _ _ => rfl) Player.bind_assoc

/-! ## Single requests -/

/-- Send a report and learn what became of it. -/
def send (channel : Channel) (modifiers : Modifiers) (key : UInt8) :
    Player (Except SendFault Unit) :=
  ask (.act (.send channel modifiers key)) done

def waitUs (us : UInt32) : Player Unit := ask (.act (.waitUs us)) done

def waitMs (ms : UInt32) : Player Unit := ask (.act (.waitMs ms)) done

def note (notice : Notice) : Player Unit := ask (.act (.note notice)) done

/-- Can reports be sent now? -/
def isReady : Player Bool := ask .isReady done

/-- Is NumLock on now? -/
def numLockOn : Player Bool := ask .numLockOn done

end Player

end MacroPad
