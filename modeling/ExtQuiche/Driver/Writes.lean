import ExtQuiche.Driver.Reads

/-!
# The write pass of the driver

Library `Driver`. `process_writes` of `src/quiche/driver.rs:131–173`: the write channel
is drained into per-stream queues, then `retain` visits the queues in the map's
iteration order and sends from each until the transport refuses. As for the read loop,
a step is one channel operation or one transport answer.
-/

namespace ExtQuiche.Driver
open ExtQuiche.Base ExtQuiche.Conn

/-- Queue of a stream in `pending_writes`; a missing entry is empty. -/
def queueOf (pending : Std.ExtTreeMap StreamId (List (Bytes × Bool))) (id : StreamId) :
    List (Bytes × Bool) :=
  (pending[id]?).getD []

@[simp] theorem queueOf_empty (id : StreamId) : queueOf ∅ id = [] := by simp [queueOf]

@[simp] theorem queueOf_insert (pending : Std.ExtTreeMap StreamId (List (Bytes × Bool)))
    (id other : StreamId) (queue : List (Bytes × Bool)) :
    queueOf (pending.insert id queue) other = if other = id then queue else queueOf pending other := by
  simp only [queueOf, Std.ExtTreeMap.getElem?_insert, Std.compare_eq_iff_eq, eq_comm (a := id)]
  split <;> rfl

@[simp] theorem queueOf_erase (pending : Std.ExtTreeMap StreamId (List (Bytes × Bool)))
    (id other : StreamId) :
    queueOf (pending.erase id) other = if other = id then [] else queueOf pending other := by
  simp only [queueOf, Std.ExtTreeMap.getElem?_erase, Std.compare_eq_iff_eq, eq_comm (a := id)]
  split <;> rfl

/-- One observable call of `process_writes`, with the transport's answer. -/
inductive WriteOp where
  /-- The worker calls `process_writes`. -/
  | call
  | tryRecv
  /-- `retain` fixes the order in which it visits the entries. -/
  | retain (order : List StreamId)
  | streamSend (answer : Except QuicheError Nat)
  /-- `queue.front()` is `None`: the entry is dropped. -/
  | queueEmpty
  /-- The last entry has been visited. -/
  | finish
  deriving Repr

/-- Driver and write channel after a call. -/
structure WriteResult where
  driver : StreamQuicDriver
  tx : Channel StreamWriter

/-- `entry(id).or_default().push_back`, `src/quiche/driver.rs:137–141`. -/
def StreamQuicDriver.enqueue (d : StreamQuicDriver) (chunk : StreamWriter) : StreamQuicDriver :=
  { d with
    pendingWrites := d.pendingWrites.insert chunk.1
      (queueOf d.pendingWrites chunk.1 ++ [(chunk.2.1.getD [], chunk.2.2)]) }

/-- What an answer to a send of the queue head leaves: the queue, and whether the
entry is visited further. `src/quiche/driver.rs:147–167`. -/
def afterSend (bytes : Bytes) (fin : Bool) (rest : List (Bytes × Bool)) :
    Except QuicheError Nat → List (Bytes × Bool) × Bool
  | .ok n => if n = bytes.length then (rest, true) else ((bytes.drop n, fin) :: rest, false)
  -- no window right now; the head stays
  | .error .done => ((bytes, fin) :: rest, false)
  -- any other error is logged and the head is dropped
  | .error _ => (rest, true)

/-- One observable call of `process_writes`, `src/quiche/driver.rs:131–173`. -/
def writeStep (d : StreamQuicDriver) (tx : Channel StreamWriter) : WriteOp → Option WriteResult
  | .call =>
    match d.point with
    | .idle => some ⟨{ d with point := .drainWrites }, tx⟩
    | _ => none
  | .tryRecv =>
    match d.point with
    | .drainWrites =>
      match tx.tryRecv with
      | some (chunk, tx') => some ⟨d.enqueue chunk, tx'⟩
      | none => some ⟨{ d with point := .retain }, tx⟩
    | _ => none
  | .retain order =>
    match d.point with
    | .retain =>
      if order.Perm d.pendingWrites.keys then some ⟨{ d with point := .flush order }, tx⟩ else none
    | _ => none
  | .streamSend answer =>
    match d.point with
    | .flush (id :: todo) =>
      match queueOf d.pendingWrites id with
      | [] => none
      | (bytes, fin) :: rest =>
        match afterSend bytes fin rest answer with
        | (queue, visiting) =>
          some ⟨{ d with
                  pendingWrites := d.pendingWrites.insert id queue
                  point := if visiting then .flush (id :: todo) else .flush todo }, tx⟩
    | _ => none
  | .queueEmpty =>
    match d.point with
    | .flush (id :: todo) =>
      if queueOf d.pendingWrites id = [] then
        some ⟨{ d with
                pendingWrites := d.pendingWrites.erase id
                point := .flush todo }, tx⟩
      else none
    | _ => none
  | .finish =>
    match d.point with
    | .flush [] => some ⟨{ d with point := .idle }, tx⟩
    | _ => none

/-- What a call of `process_writes` can do, by the point it is made from. -/
inductive Writes (d : StreamQuicDriver) (tx : Channel StreamWriter) : WriteOp → WriteResult → Prop where
  | call (hp : d.point = .idle) : Writes d tx .call ⟨{ d with point := .drainWrites }, tx⟩
  | drained (chunk : StreamWriter) (rest : List StreamWriter) (hp : d.point = .drainWrites)
      (hq : tx.queue = chunk :: rest) :
      Writes d tx .tryRecv ⟨d.enqueue chunk, { tx with queue := rest }⟩
  | drainedAll (hp : d.point = .drainWrites) (hq : tx.queue = []) :
      Writes d tx .tryRecv ⟨{ d with point := .retain }, tx⟩
  | retain (order : List StreamId) (hp : d.point = .retain)
      (horder : order.Perm d.pendingWrites.keys) :
      Writes d tx (.retain order) ⟨{ d with point := .flush order }, tx⟩
  | sent (id : StreamId) (todo : List StreamId) (bytes : Bytes) (fin : Bool)
      (rest : List (Bytes × Bool)) (answer : Except QuicheError Nat)
      (hp : d.point = .flush (id :: todo))
      (hq : queueOf d.pendingWrites id = (bytes, fin) :: rest) :
      Writes d tx (.streamSend answer)
        ⟨{ d with
            pendingWrites := d.pendingWrites.insert id (afterSend bytes fin rest answer).1
            point := if (afterSend bytes fin rest answer).2 then .flush (id :: todo)
              else .flush todo }, tx⟩
  | emptied (id : StreamId) (todo : List StreamId) (hp : d.point = .flush (id :: todo))
      (hq : queueOf d.pendingWrites id = []) :
      Writes d tx .queueEmpty
        ⟨{ d with pendingWrites := d.pendingWrites.erase id, point := .flush todo }, tx⟩
  | finished (hp : d.point = .flush []) : Writes d tx .finish ⟨{ d with point := .idle }, tx⟩

/-- The step function does nothing else. -/
theorem writeStep_writes {d : StreamQuicDriver} {tx : Channel StreamWriter} {op : WriteOp}
    {r : WriteResult} (h : writeStep d tx op = some r) : Writes d tx op r := by
  cases op with
  | call =>
    simp only [writeStep] at h
    split at h
    · next hp => cases h; exact .call hp
    · cases h
  | tryRecv =>
    simp only [writeStep] at h
    split at h
    · next hp =>
      split at h
      · next chunk tx' hr =>
        obtain ⟨rest, hq, rfl⟩ := Channel.tryRecv_eq_some.mp hr
        cases h
        exact .drained chunk rest hp hq
      · next hr => cases h; exact .drainedAll hp (Channel.tryRecv_eq_none.mp hr)
    · cases h
  | retain order =>
    simp only [writeStep] at h
    split at h
    · next hp =>
      split at h
      · next ho => cases h; exact .retain order hp ho
      · cases h
    · cases h
  | streamSend answer =>
    simp only [writeStep] at h
    split at h
    · next id todo hp =>
      split at h
      · cases h
      · next bytes fin rest hq => cases h; exact .sent id todo bytes fin rest answer hp hq
    · cases h
  | queueEmpty =>
    simp only [writeStep] at h
    split at h
    · next id todo hp =>
      split at h
      · next hq => cases h; exact .emptied id todo hp hq
      · cases h
    · cases h
  | finish =>
    simp only [writeStep] at h
    split at h
    · next hp => cases h; exact .finished hp
    · cases h

/-- A call of `process_writes` is made on an open driver of the connection and leaves one. -/
theorem Writes.alive {d : StreamQuicDriver} {tx : Channel StreamWriter} {op : WriteOp}
    {r : WriteResult} (h : Writes d tx op r) :
    d.point ≠ .closed ∧ r.driver.point ≠ .closed ∧ r.driver.connId = d.connId := by
  cases h with
  | call hp => simp [hp]
  | drained chunk rest hp hq => simp [hp, StreamQuicDriver.enqueue]
  | drainedAll hp hq => simp [hp]
  | retain order hp horder => simp [hp]
  | sent id todo bytes fin rest answer hp hq =>
    refine ⟨by simp [hp], ?_, rfl⟩
    dsimp only
    split <;> simp
  | emptied id todo hp hq => simp [hp]
  | finished hp => simp [hp]

/-- A call of `process_writes` keeps the driver's end of the write channel. -/
theorem Writes.streamEventRecv {d : StreamQuicDriver} {tx : Channel StreamWriter} {op : WriteOp}
    {r : WriteResult} (h : Writes d tx op r) : r.driver.streamEventRecv = d.streamEventRecv := by
  cases h <;> rfl

/-- What a call of `process_writes` can do is what the step function computes. -/
theorem Writes.writeStep_eq {d : StreamQuicDriver} {tx : Channel StreamWriter} {op : WriteOp}
    {r : WriteResult} (h : Writes d tx op r) : writeStep d tx op = some r := by
  cases h with
  | call hp => simp [writeStep, hp]
  | drained chunk rest hp hq => simp [writeStep, hp, Channel.tryRecv, hq]
  | drainedAll hp hq => simp [writeStep, hp, Channel.tryRecv, hq]
  | retain order hp horder => simp [writeStep, hp, horder]
  | sent id todo bytes fin rest answer hp hq => simp [writeStep, hp, hq]
  | emptied id todo hp hq => simp [writeStep, hp, hq]
  | finished hp => simp [writeStep, hp]

/-- Where the task stands as far as `process_writes` can tell. -/
def Point.writing : Point → Point
  | .drainWrites => .drainWrites
  | .retain => .retain
  | .flush todo => .flush todo
  | .idle | .readableNext | .announce _ | .reserve _ | .recv _ | .closed => .idle

/-- The driver as `process_writes` sees it: at rest outside the write pass. -/
def StreamQuicDriver.writing (d : StreamQuicDriver) : StreamQuicDriver :=
  { d with seenStreams := ∅, point := d.point.writing }

/-- A call of `process_reads` is nothing to `process_writes`. -/
theorem Reads.writing_eq {d : StreamQuicDriver} {events : EventChannel} {op : ReadOp}
    {r : ReadResult} (h : Reads d events op r) : r.driver.writing = d.writing := by
  cases h with
  | visit id hp =>
    obtain ⟨p, hv, hpoint⟩ := d.visit_eq id
    rw [hv]
    rcases hpoint with rfl | rfl <;> simp [StreamQuicDriver.writing, Point.writing, hp]
  | received id data fin hp =>
    simp [StreamQuicDriver.writing, StreamQuicDriver.received, Point.writing, hp]
  | refused id hp hroom =>
    rcases hp with hp | hp <;> simp [StreamQuicDriver.writing, Point.writing, hp]
  | call hp => simp [StreamQuicDriver.writing, Point.writing, hp]
  | finished hp => simp [StreamQuicDriver.writing, Point.writing, hp]
  | announced id hp hroom => simp [StreamQuicDriver.writing, Point.writing, hp]
  | reserved id hp hroom => simp [StreamQuicDriver.writing, Point.writing, hp]
  | stopped id e hp => simp [StreamQuicDriver.writing, Point.writing, hp]

/-- A call of `process_writes` looks at nothing else of the driver. -/
theorem Writes.writing {d : StreamQuicDriver} {tx : Channel StreamWriter} {op : WriteOp}
    {r : WriteResult} (h : Writes d tx op r) :
    Writes d.writing tx op ⟨r.driver.writing, r.tx⟩ := by
  cases h with
  | call hp => exact .call (by simp [StreamQuicDriver.writing, Point.writing, hp])
  | drained chunk rest hp hq =>
    have hw : d.writing.point = .drainWrites := by
      simp [StreamQuicDriver.writing, Point.writing, hp]
    exact .drained chunk rest hw hq
  | drainedAll hp hq =>
    have hw : d.writing.point = .drainWrites := by
      simp [StreamQuicDriver.writing, Point.writing, hp]
    exact .drainedAll hw hq
  | retain order hp horder =>
    have hw : d.writing.point = .retain := by simp [StreamQuicDriver.writing, Point.writing, hp]
    exact .retain order hw horder
  | sent id todo bytes fin rest answer hp hq =>
    have hw : d.writing.point = .flush (id :: todo) := by
      simp [StreamQuicDriver.writing, Point.writing, hp]
    have hs : Writes d.writing tx (.streamSend answer) _ :=
      .sent id todo bytes fin rest answer hw hq
    by_cases hgo : (afterSend bytes fin rest answer).2 = true
    · simp only [hgo, if_true] at hs ⊢
      exact hs
    · simp only [hgo] at hs ⊢
      exact hs
  | emptied id todo hp hq =>
    have hw : d.writing.point = .flush (id :: todo) := by
      simp [StreamQuicDriver.writing, Point.writing, hp]
    exact .emptied id todo hw hq
  | finished hp =>
    have hw : d.writing.point = .flush [] := by simp [StreamQuicDriver.writing, Point.writing, hp]
    exact .finished hw

/-- A call of `process_writes` is nothing to `process_reads`. -/
theorem Writes.reading_eq {d : StreamQuicDriver} {tx : Channel StreamWriter} {op : WriteOp}
    {r : WriteResult} (h : Writes d tx op r) : r.driver.reading = d.reading := by
  cases h with
  | drained chunk rest hp hq =>
    simp [StreamQuicDriver.reading, StreamQuicDriver.enqueue, Point.reading, hp]
  | sent id todo bytes fin rest answer hp hq =>
    simp only [StreamQuicDriver.reading, hp]
    split <;> rfl
  | call hp => simp [StreamQuicDriver.reading, Point.reading, hp]
  | drainedAll hp hq => simp [StreamQuicDriver.reading, Point.reading, hp]
  | retain order hp horder => simp [StreamQuicDriver.reading, Point.reading, hp]
  | emptied id todo hp hq => simp [StreamQuicDriver.reading, Point.reading, hp]
  | finished hp => simp [StreamQuicDriver.reading, Point.reading, hp]

end ExtQuiche.Driver
