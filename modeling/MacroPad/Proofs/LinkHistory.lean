/-
`LinkHistory.lean` -- what the events of a link have come to.

The state of the link is kept in two fields that each event changes on its own. Read over a
whole history they come to one condition: since the host was last gone it has connected, and
the subscriptions told since then count to more than none. What was told before the host was
last gone does not matter, nor do the lights. The lights in turn are those of the last output
report that had any, whatever else happened.
-/
import Mathlib.Data.List.Induction
import MacroPad.Host.Link

set_option autoImplicit false

namespace MacroPad

/-! ## Reading a history -/

namespace LinkEvent

/-- The number of subscriptions after an event. There are never more than 255, and there is
nothing to take away from none. -/
def count (subscriptions : Nat) : LinkEvent → Nat
  | subscribe => min (subscriptions + 1) 255
  | unsubscribe => subscriptions - 1
  | countSubscriptions number => number.toNat
  | connect | disconnect | outputReport _ => subscriptions

/-- The lights that an event tells. An output report without bytes tells none. -/
def lights? : LinkEvent → Option UInt8
  | outputReport bytes => bytes.head?
  | connect | disconnect | subscribe | unsubscribe | countSubscriptions _ => none

end LinkEvent

/-- The number of subscriptions that events count to, from none. -/
def subscriptionCount (events : List LinkEvent) : Nat := events.foldl LinkEvent.count 0

/-- The lights that were told last; none if none were told. -/
def lightsTold (history : List LinkEvent) : UInt8 :=
  (history.filterMap LinkEvent.lights?).getLast?.getD 0

/-- The recent events of a history are those since the host was last gone, which are all
events if it never was. -/
structure SinceGone (history recent : List LinkEvent) : Prop where
  split : history = recent ∨ ∃ earlier, history = earlier ++ .disconnect :: recent
  stayed : .disconnect ∉ recent

/-- Since the host was last gone, it has connected and listens to the reports. -/
def HostListens (history : List LinkEvent) : Prop :=
  ∃ recent, SinceGone history recent ∧ .connect ∈ recent ∧ 0 < subscriptionCount recent

namespace Link

/-- The link after some events, the first of which met a new pad. -/
def after (history : List LinkEvent) : Link := history.foldl apply start

/-- Two links differ in nothing but the lights. -/
def SameButLights (a b : Link) : Prop :=
  a.connected = b.connected ∧ a.subscriptions = b.subscriptions

variable {a b : Link} {history events earlier recent : List LinkEvent}

theorem after_append (history events : List LinkEvent) :
    after (history ++ events) = events.foldl apply (after history) :=
  List.foldl_append

/-! ## Lights apart -/

theorem SameButLights.apply (h : a.SameButLights b) (event : LinkEvent) :
    (a.apply event).SameButLights (b.apply event) := by
  obtain ⟨hconnected, hcount⟩ := h
  cases event with
  | connect => exact ⟨rfl, hcount⟩
  | disconnect => exact ⟨rfl, rfl⟩
  | subscribe => exact ⟨hconnected, congrArg countUp hcount⟩
  | unsubscribe => exact ⟨hconnected, congrArg countDown hcount⟩
  | countSubscriptions number => exact ⟨hconnected, rfl⟩
  | outputReport bytes => cases bytes <;> exact ⟨hconnected, hcount⟩

theorem SameButLights.foldl (h : a.SameButLights b) (events : List LinkEvent) :
    (events.foldl Link.apply a).SameButLights (events.foldl Link.apply b) := by
  induction events generalizing a b with
  | nil => exact h
  | cons event events ih => exact ih (h.apply event)

theorem SameButLights.ready_eq (h : a.SameButLights b) : a.ready = b.ready := by
  rw [ready, ready, h.1, h.2]

theorem sameButLights_outputReport (link : Link) (bytes : List UInt8) :
    (link.apply (.outputReport bytes)).SameButLights link := by
  cases bytes <;> exact ⟨rfl, rfl⟩

/-- After the host has gone, the link is as good as new. -/
theorem sameButLights_disconnect (link : Link) : (link.apply .disconnect).SameButLights start :=
  ⟨rfl, rfl⟩

/-! ## Connection and subscriptions -/

theorem toNat_subscriptions_apply {link : Link} {event : LinkEvent} (h : event ≠ .disconnect) :
    (link.apply event).subscriptions.toNat = event.count link.subscriptions.toNat := by
  cases event with
  | subscribe => exact toNat_countUp link.subscriptions
  | unsubscribe => exact toNat_countDown link.subscriptions
  | disconnect => contradiction
  | outputReport bytes => cases bytes <;> rfl
  | connect | countSubscriptions _ => rfl

/-- While the host is not gone, a connection stays and subscriptions are counted. -/
theorem foldl_of_stayed (hstayed : .disconnect ∉ events) (link : Link) :
    ((events.foldl apply link).connected = true ↔ link.connected = true ∨ .connect ∈ events) ∧
      (events.foldl apply link).subscriptions.toNat =
        events.foldl LinkEvent.count link.subscriptions.toNat := by
  induction events generalizing link with
  | nil => simp
  | cons event events ih =>
      rw [List.mem_cons, not_or] at hstayed
      obtain ⟨hconnected, hcount⟩ := ih hstayed.2 (link.apply event)
      rw [List.foldl_cons, List.foldl_cons, hconnected, hcount,
        toNat_subscriptions_apply fun h => hstayed.1 h.symm]
      refine ⟨?_, rfl⟩
      cases event with
      | disconnect => exact absurd rfl hstayed.1
      | outputReport bytes => cases bytes <;> simp [apply]
      | _ => simp [apply]

theorem exists_sinceGone (history : List LinkEvent) : ∃ recent, SinceGone history recent := by
  induction history using List.reverseRecOn with
  | nil => exact ⟨[], .inl rfl, List.not_mem_nil⟩
  | append_singleton history event ih =>
      by_cases hgone : event = .disconnect
      · subst hgone
        exact ⟨[], .inr ⟨history, rfl⟩, List.not_mem_nil⟩
      · obtain ⟨recent, hsplit, hstayed⟩ := ih
        refine ⟨recent ++ [event], ?_, ?_⟩
        · rcases hsplit with rfl | ⟨earlier, rfl⟩
          · exact .inl rfl
          · exact .inr ⟨earlier, by simp⟩
        · simp [hstayed, Ne.symm hgone]

/-- Only the recent events count. -/
theorem sameButLights_of_sinceGone (h : SinceGone history recent) :
    (after history).SameButLights (after recent) := by
  rcases h.split with rfl | ⟨earlier, rfl⟩
  · exact ⟨rfl, rfl⟩
  · rw [after_append]
    exact (sameButLights_disconnect (after earlier)).foldl recent

theorem ready_iff_of_sinceGone (h : SinceGone history recent) :
    (after history).ready = true ↔ .connect ∈ recent ∧ 0 < subscriptionCount recent := by
  obtain ⟨hconnected, hcount⟩ := foldl_of_stayed h.stayed start
  rw [← after] at hconnected hcount
  have hsome : 0 < (after recent).subscriptions ↔ 0 < subscriptionCount recent := by
    rw [UInt8.lt_iff_toNat_lt, hcount]
    rfl
  rw [(sameButLights_of_sinceGone h).ready_eq, ready, Bool.and_eq_true, decide_eq_true_eq, hsome,
    hconnected]
  simp [start]

/-- **A link is ready exactly if its history says that the host listens.** -/
theorem ready_iff_hostListens (history : List LinkEvent) :
    (after history).ready = true ↔ HostListens history := by
  constructor
  · intro h
    obtain ⟨recent, hrecent⟩ := exists_sinceGone history
    exact ⟨recent, hrecent, (ready_iff_of_sinceGone hrecent).1 h⟩
  · rintro ⟨recent, hrecent, hlistens⟩
    exact (ready_iff_of_sinceGone hrecent).2 hlistens

/-- What was told before the host was gone is forgotten. -/
theorem ready_after_disconnect (earlier recent : List LinkEvent) :
    (after (earlier ++ .disconnect :: recent)).ready = (after recent).ready := by
  rw [after_append]
  exact ((sameButLights_disconnect (after earlier)).foldl recent).ready_eq

/-- An output report makes no difference, wherever it comes. -/
theorem ready_after_outputReport (earlier recent : List LinkEvent) (bytes : List UInt8) :
    (after (earlier ++ .outputReport bytes :: recent)).ready =
      (after (earlier ++ recent)).ready := by
  rw [after_append, after_append]
  exact ((sameButLights_outputReport (after earlier) bytes).foldl recent).ready_eq

/-- Subscriptions are added up to 255 and never wrap round to none. -/
theorem toNat_subscriptions_subscribe (history : List LinkEvent) (n : Nat) :
    (after (history ++ .replicate n .subscribe)).subscriptions.toNat =
      min ((after history).subscriptions.toNat + n) 255 := by
  induction n with
  | zero =>
      have hlt := (after history).subscriptions.toNat_lt
      rw [List.replicate_zero, List.append_nil]
      omega
  | succ n ih =>
      rw [List.replicate_succ', ← List.append_assoc, after_append]
      refine (toNat_countUp _).trans ?_
      rw [ih]
      omega

/-- Subscriptions are taken away down to none and never wrap round. -/
theorem toNat_subscriptions_unsubscribe (history : List LinkEvent) (n : Nat) :
    (after (history ++ .replicate n .unsubscribe)).subscriptions.toNat =
      (after history).subscriptions.toNat - n := by
  induction n with
  | zero => rw [List.replicate_zero, List.append_nil, Nat.sub_zero]
  | succ n ih =>
      rw [List.replicate_succ', ← List.append_assoc, after_append]
      refine (toNat_countDown _).trans ?_
      rw [ih]
      omega

/-! ## Lights -/

theorem lights_apply (link : Link) (event : LinkEvent) :
    (link.apply event).lights = (event.lights?.map Lights.mk).getD link.lights := by
  cases event with
  | outputReport bytes => cases bytes <;> rfl
  | _ => rfl

/-- **The lights are those that were told last.** -/
theorem lights_after (history : List LinkEvent) : (after history).lights = ⟨lightsTold history⟩ := by
  induction history using List.reverseRecOn with
  | nil => rfl
  | append_singleton history event ih =>
      rw [after_append]
      refine (lights_apply (after history) event).trans ?_
      rw [ih, lightsTold, lightsTold, List.filterMap_append]
      cases hlights : event.lights? with
      | none => simp [hlights]
      | some lights => simp [hlights]

end Link

/-- NumLock is the lowest of the lights. -/
theorem Lights.numLock_iff (lights : Lights) : lights.numLock = true ↔ lights.bits.toNat % 2 = 1 := by
  simp [numLock, shows, Light.place, BitVec.getLsbD, Nat.testBit_zero]

end MacroPad
