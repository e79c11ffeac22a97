import Mathlib.Data.List.Basic

/-!
# Bounded channel

Library `Base`. A bounded multi-producer FIFO channel as its users see it: a send
takes one of `capacity` slots, a reservation holds a slot until it is used or given
back, and a receive frees one. The raw record is total; the bound is the separate
predicate `WF`.
-/

namespace ExtQuiche.Base

universe u

/-- Why a non-blocking send is refused. -/
inductive TrySendError where
  | full
  | closed
  deriving DecidableEq, Repr

/-- Text of a refused send. -/
def TrySendError.message : TrySendError → String
  | .full => "no available capacity"
  | .closed => "channel closed"

/-- Queued messages, oldest first, and the number of outstanding reservations. -/
structure Channel (α : Type u) where
  capacity : Nat
  queue : List α
  reserved : Nat
  connected : Bool

namespace Channel

variable {α : Type u}

/-- A fresh channel. -/
def new (capacity : Nat) : Channel α := ⟨capacity, [], 0, true⟩

/-- Some slot is neither queued nor reserved. -/
def HasRoom (c : Channel α) : Prop := c.connected = true ∧ c.queue.length + c.reserved < c.capacity

instance (c : Channel α) : Decidable c.HasRoom := inferInstanceAs (Decidable (_ ∧ _))

/-- The refusal of a channel without room; a dropped receiver is reported first. -/
def refusal (c : Channel α) : TrySendError := if c.connected then .full else .closed

/-- Reserve a slot without waiting. -/
def tryReserve (c : Channel α) : Except TrySendError (Channel α) :=
  if c.HasRoom then .ok { c with reserved := c.reserved + 1 } else .error c.refusal

/-- Use a reserved slot: the send itself cannot fail. -/
def send (c : Channel α) (a : α) : Channel α :=
  { c with queue := c.queue ++ [a], reserved := c.reserved - 1 }

/-- Give a reserved slot back unused. -/
def release (c : Channel α) : Channel α := { c with reserved := c.reserved - 1 }

/-- Send without waiting. -/
def trySend (c : Channel α) (a : α) : Except TrySendError (Channel α) :=
  if c.HasRoom then .ok { c with queue := c.queue ++ [a] } else .error c.refusal

/-- Receive without waiting: the oldest message and the channel after it. -/
def tryRecv (c : Channel α) : Option (α × Channel α) :=
  match c.queue with
  | [] => none
  | a :: rest => some (a, { c with queue := rest })

/-- The receiver is gone, and with it every message it had not received. -/
def disconnect (c : Channel α) : Channel α := { c with queue := [], connected := false }

/-- Queued and reserved slots fit the capacity. -/
def WF (c : Channel α) : Prop := c.queue.length + c.reserved ≤ c.capacity

@[simp] theorem queue_new (n : Nat) : (new n : Channel α).queue = [] := rfl

@[simp] theorem queue_send (c : Channel α) (a : α) : (c.send a).queue = c.queue ++ [a] := rfl

@[simp] theorem queue_release (c : Channel α) : c.release.queue = c.queue := rfl

/-- A reservation succeeds exactly where there is room. -/
theorem tryReserve_eq_ok {c d : Channel α} :
    c.tryReserve = .ok d ↔ c.HasRoom ∧ d = { c with reserved := c.reserved + 1 } := by
  unfold tryReserve
  split
  · next h => simp [h, eq_comm]
  · next h => simp [h]

/-- A reservation is refused exactly where there is none. -/
theorem tryReserve_eq_error {c : Channel α} {e : TrySendError} :
    c.tryReserve = .error e ↔ ¬ c.HasRoom ∧ e = c.refusal := by
  unfold tryReserve
  split
  · next h => simp [h]
  · next h => simp [h, eq_comm]

/-- A send succeeds exactly where there is room, and appends. -/
theorem trySend_eq_ok {c d : Channel α} {a : α} :
    c.trySend a = .ok d ↔ c.HasRoom ∧ d = { c with queue := c.queue ++ [a] } := by
  unfold trySend
  split
  · next h => simp [h, eq_comm]
  · next h => simp [h]

/-- There is no room without a receiver. -/
theorem not_hasRoom_of_disconnected {c : Channel α} (h : c.connected = false) : ¬ c.HasRoom := by
  simp [HasRoom, h]

/-- Without a receiver every send is refused. -/
theorem trySend_disconnected {c : Channel α} (h : c.connected = false) (a : α) :
    c.trySend a = .error .closed := by
  simp [trySend, HasRoom, refusal, h]

/-- Receiving takes the head of the queue and nothing else. -/
theorem tryRecv_eq_some {c d : Channel α} {a : α} :
    c.tryRecv = some (a, d) ↔ ∃ rest, c.queue = a :: rest ∧ d = { c with queue := rest } := by
  unfold tryRecv
  split
  · next h => simp [h]
  · next b rest h => simp [h, eq_comm]

/-- Nothing is received exactly from an empty queue. -/
theorem tryRecv_eq_none {c : Channel α} : c.tryRecv = none ↔ c.queue = [] := by
  unfold tryRecv
  split
  · next h => simp [h]
  · next h => simp [h]

/-- The bound holds of a fresh channel. -/
theorem wf_new (n : Nat) : WF (new n : Channel α) := by simp [WF, new]

/-- A reservation keeps the bound. -/
theorem wf_tryReserve {c d : Channel α} (h : c.tryReserve = .ok d) : d.WF := by
  obtain ⟨⟨_, hroom⟩, rfl⟩ := tryReserve_eq_ok.mp h
  unfold WF
  dsimp only
  omega

/-- A send keeps the bound. -/
theorem wf_trySend {c d : Channel α} {a : α} (h : c.trySend a = .ok d) : d.WF := by
  obtain ⟨⟨_, hroom⟩, rfl⟩ := trySend_eq_ok.mp h
  unfold WF
  simp only [List.length_append, List.length_singleton]
  omega

/-- Giving a reservation back keeps the bound. -/
theorem wf_release {c : Channel α} (hc : c.WF) : c.release.WF := by
  unfold WF at hc ⊢
  simp only [release]
  omega

/-- Using a held reservation keeps the bound. -/
theorem wf_send {c : Channel α} (hc : c.WF) (hr : 0 < c.reserved) (a : α) : (c.send a).WF := by
  unfold WF at hc ⊢
  simp only [send, List.length_append, List.length_singleton]
  omega

/-- Receiving keeps the bound. -/
theorem wf_tryRecv {c d : Channel α} {a : α} (hc : c.WF) (h : c.tryRecv = some (a, d)) :
    d.WF := by
  obtain ⟨rest, hq, rfl⟩ := tryRecv_eq_some.mp h
  unfold WF at hc ⊢
  rw [hq, List.length_cons] at hc
  dsimp only
  omega

end Channel

end ExtQuiche.Base
