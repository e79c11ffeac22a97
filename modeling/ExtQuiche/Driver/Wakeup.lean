import ExtQuiche.Base.Machine
import ExtQuiche.Driver.Writes
import ExtQuiche.Stream.Objects

/-!
# Wake-ups for writes

Library `Driver`. The `Notify` of a connection between the `write` and `close` methods of
its stream objects (`src/stream.rs:67–83`) and the worker that waits for it
(`src/quiche/driver.rs:68–71`). A method is two steps here, `try_send` and then
`notify_one`, and the drain of `process_writes` one step for each `try_recv`. A `Notify`
stores one permit at most while nobody waits, a cancelled wait gives its permit back, and
after a wake-up the worker calls `process_writes` before it waits again.
-/

namespace ExtQuiche.Driver
open ExtQuiche.Base ExtQuiche.Conn ExtQuiche.Stream

/-- Where the worker of a connection stands. -/
inductive WorkerPoint where
  /-- `should_act` is still false, `src/quiche/driver.rs:60–62`. -/
  | handshake
  /-- At work; `due` until it has called `process_writes` after the last wake-up. -/
  | running (due : Bool)
  /-- Inside `wait_for_data`; `notified` once its waiter has been handed a permit. -/
  | waiting (notified : Bool)
  /-- `on_conn_close` has run and the driver is dropped. -/
  | stopped
  deriving DecidableEq, Repr

/-- One driver with its worker, the write channel and `Notify` of the connection, and the
writers that have sent and not yet notified. -/
structure Wakeup where
  driver : StreamQuicDriver
  tx : Channel StreamWriter
  permit : Bool
  worker : WorkerPoint
  notifying : List Outbound

/-- A step of a writer, of the worker, or of the driver inside `process_writes`. -/
inductive WakeupLabel where
  /-- `try_send` of the object's `write`. -/
  | write (o : StreamObject) (data : Bytes) (fin : Bool)
  /-- `try_send` of the object's `close`. -/
  | close (o : StreamObject)
  /-- `notify_one` of one of the writers. -/
  | notifyOne (i : Nat)
  /-- `on_conn_established`. -/
  | established
  /-- The worker polls `wait_for_data`. -/
  | waitForData
  /-- `notified()` is ready. -/
  | notified
  /-- Something else wakes the worker, and `notified()` is dropped. -/
  | woken
  | driver (op : WriteOp)
  | onConnClose

/-- Whether `process_writes` is still due after a call of the driver. -/
def WriteOp.owes (due : Bool) : WriteOp → Bool
  | .call => false
  | _ => due

namespace Wakeup

/-- `try_send` of a method on the connection's channel; a refusal is an exception. -/
def trySend (s : Wakeup) (m : Outbound) : Option Wakeup :=
  if m.writeTx = s.driver.streamEventRecv then
    match m.trySend s.tx with
    | .ok tx => some { s with tx, notifying := s.notifying ++ [m] }
    | .error _ => some s
  else none

/-- `notify_one`: the waiter gets a permit, or the permit is stored. -/
def notifyOne (s : Wakeup) : Wakeup :=
  match s.worker with
  | .waiting false => { s with worker := .waiting true }
  | _ => { s with permit := true }

/-- `wait_for_data`: a stored permit is taken at once. -/
def waitForData (s : Wakeup) : Wakeup :=
  if s.permit then { s with permit := false, worker := .running true }
  else { s with worker := .waiting false }

/-- One step. -/
def step (s : Wakeup) : WakeupLabel → Option Wakeup
  | .write o data fin => (o.write data fin).bind s.trySend
  | .close o => o.close.bind s.trySend
  | .notifyOne i =>
    s.notifying[i]?.map fun _ ↦ { s with notifying := s.notifying.eraseIdx i }.notifyOne
  | .established =>
    match s.worker with
    | .handshake => some { s with worker := .running false }
    | _ => none
  | .waitForData =>
    match s.worker, s.driver.point with
    | .running false, .idle => some s.waitForData
    | _, _ => none
  | .notified =>
    match s.worker with
    | .waiting true => some { s with worker := .running true }
    | _ => none
  | .woken =>
    match s.worker with
    | .waiting notified => some { s with worker := .running true, permit := s.permit || notified }
    | _ => none
  | .driver op =>
    match s.worker with
    | .running due =>
      (writeStep s.driver s.tx op).map fun r ↦
        { s with
          driver := r.driver
          tx := r.tx
          worker := .running (op.owes due) }
    | _ => none
  | .onConnClose =>
    match s.worker, s.driver.point with
    | .running _, .idle =>
      some { s with
        driver := { s.driver with point := .closed }
        tx := s.tx.disconnect
        worker := .stopped }
    | _, _ => none

/-- A connection that has just been accepted, `src/quiche/conn.rs:159–184`. -/
def Init (s : Wakeup) : Prop :=
  ∃ connId chan, s = ⟨.build connId chan, .new WRITE_CHANNEL_CAPACITY, false, .handshake, []⟩

/-- The worker sleeps in `wait_for_data`. -/
def Parked (s : Wakeup) : Prop := s.worker = .waiting false

/-- The worker will look at the write channel again before it waits. -/
def Draining (s : Wakeup) : Prop :=
  s.worker = .waiting true ∨ s.worker = .running true ∨
    (∃ due, s.worker = .running due) ∧ s.driver.point = .drainWrites

/-- Whatever is on the channel, someone is about to see to it, or the driver is gone. -/
def Attended (s : Wakeup) : Prop :=
  s.tx.queue = [] ∨ s.notifying ≠ [] ∨ s.permit = true ∨ s.Draining ∨ s.worker = .stopped

end Wakeup

/-- Runs of the writers and the worker of one connection. -/
def wakeup : Machine Wakeup WakeupLabel := ⟨Wakeup.Init, Wakeup.step⟩

section

variable {s t : Wakeup}

/-- A writer has still to notify, or has sent nothing. -/
theorem attended_trySend {m : Outbound} (hi : s.Attended) (h : s.trySend m = some t) :
    t.Attended := by
  unfold Wakeup.trySend at h
  split at h
  · split at h
    · cases h
      exact .inr (.inl (List.append_ne_nil_of_right_ne_nil _ (List.cons_ne_nil _ _)))
    · cases h
      exact hi
  · cases h

/-- A notification leaves a permit or wakes the worker. -/
theorem attended_notifyOne (s : Wakeup) : s.notifyOne.Attended := by
  unfold Wakeup.notifyOne
  split
  · exact .inr (.inr (.inr (.inl (.inl rfl))))
  · exact .inr (.inr (.inl rfl))

/-- The worker falls asleep only where nobody counts on it. -/
theorem attended_waitForData (hi : s.Attended) (hworker : s.worker = .running false)
    (hpoint : s.driver.point = .idle) : s.waitForData.Attended := by
  unfold Wakeup.waitForData
  split
  · exact .inr (.inr (.inr (.inl (.inr (.inl rfl)))))
  · next hpermit =>
    rcases hi with hq | hn | hp | (hd | hd | ⟨-, hd⟩) | hd
    · exact .inl hq
    · exact .inr (.inl hn)
    · exact absurd hp hpermit
    · rw [hworker] at hd
      cases hd
    · rw [hworker] at hd
      cases hd
    · rw [hpoint] at hd
      cases hd
    · rw [hworker] at hd
      cases hd

/-- A call inside `process_writes` leaves the drain only when the channel is empty. -/
theorem attended_driver {op : WriteOp} {due : Bool} {r : WriteResult} (hi : s.Attended)
    (hworker : s.worker = .running due) (h : Writes s.driver s.tx op r) :
    Wakeup.Attended { s with
      driver := r.driver
      tx := r.tx
      worker := .running (op.owes due) } := by
  -- outside the drain the channel stays as it is, and so does what the worker owes
  have hrest : r.tx = s.tx → s.driver.point ≠ .drainWrites → Wakeup.Attended { s with
      driver := r.driver
      tx := r.tx
      worker := .running due } := by
    intro htx hpoint
    rw [htx]
    rcases hi with hq | hn | hp | (hd | hd | ⟨-, hd⟩) | hd
    · exact .inl hq
    · exact .inr (.inl hn)
    · exact .inr (.inr (.inl hp))
    · rw [hworker] at hd
      cases hd
    · rw [hworker] at hd
      exact .inr (.inr (.inr (.inl (.inr (.inl hd)))))
    · exact absurd hd hpoint
    · rw [hworker] at hd
      cases hd
  cases h with
  | call hp => exact .inr (.inr (.inr (.inl (.inr (.inr ⟨⟨false, rfl⟩, rfl⟩)))))
  | drained chunk rest hp hq => exact .inr (.inr (.inr (.inl (.inr (.inr ⟨⟨due, rfl⟩, hp⟩)))))
  | drainedAll hp hq => exact .inl hq
  | retain order hp horder => exact hrest rfl (by simp [hp])
  | sent id todo bytes fin rest answer hp hq => exact hrest rfl (by simp [hp])
  | emptied id todo hp hq => exact hrest rfl (by simp [hp])
  | finished hp => exact hrest rfl (by simp [hp])

/-- Every step keeps the channel attended to. -/
theorem attended_step {l : WakeupLabel} (hi : s.Attended) (h : s.step l = some t) :
    t.Attended := by
  cases l with
  | write o data fin =>
    obtain ⟨m, -, hm⟩ := Option.bind_eq_some_iff.mp h
    exact attended_trySend hi hm
  | close o =>
    obtain ⟨m, -, hm⟩ := Option.bind_eq_some_iff.mp h
    exact attended_trySend hi hm
  | notifyOne i =>
    obtain ⟨m, -, rfl⟩ := Option.map_eq_some_iff.mp h
    exact attended_notifyOne _
  | established =>
    simp only [Wakeup.step] at h
    split at h
    · next hworker =>
      cases h
      rcases hi with hq | hn | hp | (hd | hd | ⟨⟨due, hd⟩, -⟩) | hd
      · exact .inl hq
      · exact .inr (.inl hn)
      · exact .inr (.inr (.inl hp))
      all_goals
        rw [hworker] at hd
        cases hd
    · cases h
  | waitForData =>
    simp only [Wakeup.step] at h
    split at h
    · next hworker hpoint =>
      cases h
      exact attended_waitForData hi hworker hpoint
    · cases h
  | notified =>
    simp only [Wakeup.step] at h
    split at h
    · cases h
      exact .inr (.inr (.inr (.inl (.inr (.inl rfl)))))
    · cases h
  | woken =>
    simp only [Wakeup.step] at h
    split at h
    · cases h
      exact .inr (.inr (.inr (.inl (.inr (.inl rfl)))))
    · cases h
  | driver op =>
    simp only [Wakeup.step] at h
    split at h
    · next due hworker =>
      obtain ⟨r, hr, rfl⟩ := Option.map_eq_some_iff.mp h
      exact attended_driver hi hworker (writeStep_writes hr)
    · cases h
  | onConnClose =>
    simp only [Wakeup.step] at h
    split at h
    · cases h
      exact .inr (.inr (.inr (.inr rfl)))
    · cases h

/-- No wake-up is lost: while the worker sleeps without a stored permit, the write channel is
empty or a writer is between its `try_send` and its `notify_one`.
`src/stream.rs:67–83`, `src/quiche/driver.rs:68–71,134–142`. -/
theorem attended_of_parked (h : wakeup.Reachable s) (hparked : s.Parked)
    (hpermit : s.permit = false) : s.tx.queue = [] ∨ s.notifying ≠ [] := by
  have hi : s.Attended := by
    refine h.invariant (I := Wakeup.Attended) ?_ fun _ _ _ _ hi _ ht ↦ attended_step hi ht
    rintro _ ⟨connId, chan, rfl⟩
    exact .inl rfl
  unfold Wakeup.Parked at hparked
  rcases hi with hq | hn | hp | (hd | hd | ⟨⟨due, hd⟩, -⟩) | hd
  · exact .inl hq
  · exact .inr hn
  · rw [hpermit] at hp
    cases hp
  all_goals
    rw [hparked] at hd
    cases hd

end

/-- A bidirectional stream of connection 0. -/
def bidiObject : StreamObject := .bidi ⟨0, 1, 0, 0, ⟨0, .data⟩, ⟨0, .close⟩⟩

/-- The worker goes to sleep, and a writer has sent a byte but not yet notified. -/
theorem betweenSendAndNotify :
    ∃ s, wakeup.Reachable s ∧ s.Parked ∧ s.permit = false ∧ s.tx.queue ≠ [] ∧
      (s.tx.queue = [] ∨ s.notifying ≠ []) := by
  obtain ⟨s, hs, hfacts⟩ : ∃ s, wakeup.run ⟨.build 0 0, .new WRITE_CHANNEL_CAPACITY, false,
      .handshake, []⟩ [.established, .waitForData, .write bidiObject [97] false] = some s ∧
      s.worker = .waiting false ∧ s.permit = false ∧ s.tx.queue ≠ [] :=
    ⟨_, rfl, rfl, rfl, by decide⟩
  have hreach : wakeup.Reachable s := Machine.Reachable.run (.init ⟨0, 0, rfl⟩) hs
  exact ⟨s, hreach, hfacts.1, hfacts.2.1, hfacts.2.2,
    attended_of_parked hreach hfacts.1 hfacts.2.1⟩

end ExtQuiche.Driver
