import ExtQuiche.Base.Channel
import ExtQuiche.Conn.Handles
import Mathlib.Data.Finset.Basic
import Std.Data.ExtTreeMap

/-!
# The driver and its read loop

Library `Driver`. `StreamQuicDriver` of `src/quiche/driver.rs:20–47` and
`process_reads` of `src/quiche/driver.rs:73–129`. The loop runs on a worker thread
beside the server and the other drivers, so it is a machine whose steps are the
calls that others can observe: one transport answer or one channel operation each.
A control point names the next such call of the source.
-/

namespace ExtQuiche.Driver
open ExtQuiche.Base ExtQuiche.Conn

/-- Where the driver task stands: the next observable call it makes. -/
inductive Point where
  /-- Between the worker's calls. -/
  | idle
  /-- `'outer: while let`, `src/quiche/driver.rs:76`. -/
  | readableNext
  /-- `try_reserve` for the announcement, `src/quiche/driver.rs:81`. -/
  | announce (streamId : StreamId)
  /-- `try_reserve` of the drain loop, `src/quiche/driver.rs:99`. -/
  | reserve (streamId : StreamId)
  /-- `stream_recv` with a permit held, `src/quiche/driver.rs:103`. -/
  | recv (streamId : StreamId)
  /-- Drain of the write channel, `src/quiche/driver.rs:136`. -/
  | drainWrites
  /-- `pending_writes.retain`, `src/quiche/driver.rs:146`. -/
  | retain
  /-- Inside `retain`: the entries still to visit, the current one first. -/
  | flush (todo : List StreamId)
  /-- `on_conn_close` has run, `src/quiche/driver.rs:175`. -/
  | closed
  deriving DecidableEq, Repr

/-- `src/quiche/driver.rs:20–47`; the channel ends are references and `point` is the
control point of the task that owns the driver. -/
structure StreamQuicDriver where
  connId : ConnId
  streamEventRecv : ChanRef
  pendingWrites : Std.ExtTreeMap StreamId (List (Bytes × Bool))
  seenStreams : Finset StreamId
  point : Point

/-- The driver that `ConnState::build` returns, `src/quiche/conn.rs:174–184`. -/
def StreamQuicDriver.build (connId : ConnId) (streamEventRecv : ChanRef) : StreamQuicDriver :=
  { connId, streamEventRecv, pendingWrites := ∅, seenStreams := ∅, point := .idle }

/-- The server's event channel, shared by all drivers. -/
abbrev EventChannel := Channel (ConnId × DriverEvent)

/-- One observable call of `process_reads`, with the transport's answer. -/
inductive ReadOp where
  /-- The worker calls `process_reads`. -/
  | call
  | readableNext (answer : Option StreamId)
  | tryReserve
  | streamRecv (answer : Except QuicheError (Bytes × Bool))
  deriving Repr

/-- Driver and event channel after a call, and the event it put on the channel. -/
structure ReadResult where
  driver : StreamQuicDriver
  events : EventChannel
  sent : Option DriverEvent

/-- The next stream of the outer loop: announce it first if it is client-initiated
and not yet seen, else drain it. `src/quiche/driver.rs:76–97`. -/
def StreamQuicDriver.visit (d : StreamQuicDriver) (streamId : StreamId) : StreamQuicDriver :=
  if clientInitiated streamId && !decide (streamId ∈ d.seenStreams) then
    { d with point := .announce streamId }
  else { d with point := .reserve streamId }

/-- A successful `stream_recv` becomes a data event; a fin forgets the stream.
`src/quiche/driver.rs:104–116`. -/
def StreamQuicDriver.received (d : StreamQuicDriver) (streamId : StreamId) (fin : Bool) :
    StreamQuicDriver :=
  { d with
    seenStreams := if fin then d.seenStreams.erase streamId else d.seenStreams
    point := .reserve streamId }

/-- One observable call of `process_reads`, `src/quiche/driver.rs:73–129`. -/
def readStep (d : StreamQuicDriver) (events : EventChannel) : ReadOp → Option ReadResult
  | .call =>
    match d.point with
    | .idle => some ⟨{ d with point := .readableNext }, events, none⟩
    | _ => none
  | .readableNext answer =>
    match d.point, answer with
    | .readableNext, none => some ⟨{ d with point := .idle }, events, none⟩
    | .readableNext, some streamId => some ⟨d.visit streamId, events, none⟩
    | _, _ => none
  | .tryReserve =>
    match d.point with
    | .announce streamId =>
      match events.tryReserve with
      | .ok events' =>
        some ⟨{ d with
                seenStreams := insert streamId d.seenStreams
                point := .reserve streamId },
          events'.send (d.connId, announcement streamId), some (announcement streamId)⟩
      -- `break 'outer`: the id has left the readable set
      | .error _ => some ⟨{ d with point := .idle }, events, none⟩
    | .reserve streamId =>
      match events.tryReserve with
      | .ok events' => some ⟨{ d with point := .recv streamId }, events', none⟩
      -- `break 'outer`, possibly in the middle of the stream's data
      | .error _ => some ⟨{ d with point := .idle }, events, none⟩
    | _ => none
  | .streamRecv answer =>
    match d.point with
    | .recv streamId =>
      match answer with
      | .ok (data, fin) =>
        some ⟨d.received streamId fin, events.send (d.connId, .data streamId data fin),
          some (.data streamId data fin)⟩
      | .error .done => some ⟨{ d with point := .readableNext }, events.release, none⟩
      -- any other error is logged; the unused permit is dropped as well
      | .error _ => some ⟨{ d with point := .readableNext }, events.release, none⟩
    | _ => none

/-- What a call of `process_reads` can do, by the point it is made from. -/
inductive Reads (d : StreamQuicDriver) (events : EventChannel) : ReadOp → ReadResult → Prop where
  | call (hp : d.point = .idle) :
      Reads d events .call ⟨{ d with point := .readableNext }, events, none⟩
  | finished (hp : d.point = .readableNext) :
      Reads d events (.readableNext none) ⟨{ d with point := .idle }, events, none⟩
  | visit (id : StreamId) (hp : d.point = .readableNext) :
      Reads d events (.readableNext (some id)) ⟨d.visit id, events, none⟩
  | announced (id : StreamId) (hp : d.point = .announce id) (hroom : events.HasRoom) :
      Reads d events .tryReserve
        ⟨{ d with seenStreams := insert id d.seenStreams, point := .reserve id },
          { events with queue := events.queue ++ [(d.connId, announcement id)] },
          some (announcement id)⟩
  | reserved (id : StreamId) (hp : d.point = .reserve id) (hroom : events.HasRoom) :
      Reads d events .tryReserve
        ⟨{ d with point := .recv id }, { events with reserved := events.reserved + 1 }, none⟩
  | refused (id : StreamId) (hp : d.point = .announce id ∨ d.point = .reserve id)
      (hroom : ¬ events.HasRoom) :
      Reads d events .tryReserve ⟨{ d with point := .idle }, events, none⟩
  | received (id : StreamId) (data : Bytes) (fin : Bool) (hp : d.point = .recv id) :
      Reads d events (.streamRecv (.ok (data, fin)))
        ⟨d.received id fin, events.send (d.connId, .data id data fin), some (.data id data fin)⟩
  | stopped (id : StreamId) (e : QuicheError) (hp : d.point = .recv id) :
      Reads d events (.streamRecv (.error e))
        ⟨{ d with point := .readableNext }, events.release, none⟩

/-- The step function does nothing else. -/
theorem readStep_reads {d : StreamQuicDriver} {events : EventChannel} {op : ReadOp}
    {r : ReadResult} (h : readStep d events op = some r) : Reads d events op r := by
  cases op with
  | call =>
    simp only [readStep] at h
    split at h
    · next hp => cases h; exact .call hp
    · cases h
  | readableNext answer =>
    simp only [readStep] at h
    split at h
    · next hp => cases h; exact .finished hp
    · next id hp => cases h; exact .visit id hp
    · cases h
  | tryReserve =>
    simp only [readStep] at h
    split at h
    · next id hp =>
      split at h
      · next events' he =>
        obtain ⟨hroom, rfl⟩ := Channel.tryReserve_eq_ok.mp he
        cases h
        exact .announced id hp hroom
      · next e he =>
        cases h
        exact .refused id (.inl hp) (Channel.tryReserve_eq_error.mp he).1
    · next id hp =>
      split at h
      · next events' he =>
        obtain ⟨hroom, rfl⟩ := Channel.tryReserve_eq_ok.mp he
        cases h
        exact .reserved id hp hroom
      · next e he =>
        cases h
        exact .refused id (.inr hp) (Channel.tryReserve_eq_error.mp he).1
    · cases h
  | streamRecv answer =>
    simp only [readStep] at h
    split at h
    · next id hp =>
      split at h
      · next data fin => cases h; exact .received id data fin hp
      · cases h; exact .stopped id .done hp
      · next e _ => cases h; exact .stopped id e hp
    · cases h

/-- A visit keeps the connection and goes on with the stream. -/
theorem StreamQuicDriver.visit_eq (d : StreamQuicDriver) (id : StreamId) :
    ∃ p, d.visit id = { d with point := p } ∧ (p = .announce id ∨ p = .reserve id) := by
  unfold visit
  split
  · exact ⟨_, rfl, .inl rfl⟩
  · exact ⟨_, rfl, .inr rfl⟩

/-- A visit announces nothing yet. -/
theorem StreamQuicDriver.visit_seenStreams (d : StreamQuicDriver) (id : StreamId) :
    (d.visit id).seenStreams = d.seenStreams := by
  unfold visit
  split <;> rfl

/-- Only a stream that has not been seen is to be announced. -/
theorem StreamQuicDriver.visit_unseen (d : StreamQuicDriver) (id other : StreamId)
    (h : (d.visit id).point = .announce other) : other ∉ d.seenStreams := by
  unfold visit at h
  split at h
  · next hc =>
    cases h
    simp only [Bool.and_eq_true, Bool.not_eq_true', decide_eq_false_iff_not] at hc
    exact hc.2
  · cases h

/-- A call of `process_reads` is made on an open driver of the connection and leaves one. -/
theorem Reads.alive {d : StreamQuicDriver} {events : EventChannel} {op : ReadOp} {r : ReadResult}
    (h : Reads d events op r) :
    d.point ≠ .closed ∧ r.driver.point ≠ .closed ∧ r.driver.connId = d.connId := by
  cases h with
  | call hp => simp [hp]
  | finished hp => simp [hp]
  | visit id hp =>
    obtain ⟨p, hv, hpoint⟩ := d.visit_eq id
    rcases hpoint with rfl | rfl <;> simp [hp, hv]
  | announced id hp hroom => simp [hp]
  | reserved id hp hroom => simp [hp]
  | refused id hp hroom => rcases hp with hp | hp <;> simp [hp]
  | received id data fin hp => simp [hp, StreamQuicDriver.received]
  | stopped id e hp => simp [hp]

/-- A call of `process_reads` keeps the driver's end of the write channel. -/
theorem Reads.streamEventRecv {d : StreamQuicDriver} {events : EventChannel} {op : ReadOp}
    {r : ReadResult} (h : Reads d events op r) : r.driver.streamEventRecv = d.streamEventRecv := by
  cases h with
  | visit id hp =>
    obtain ⟨p, hv, -⟩ := d.visit_eq id
    rw [hv]
  | _ => rfl

/-- The driver holds a permit of the event channel: it is about to call `stream_recv`. -/
def StreamQuicDriver.reserves (d : StreamQuicDriver) : Bool :=
  match d.point with
  | .recv _ => true
  | _ => false

/-- A call of `process_reads` keeps the bound of the channel, and takes or gives back the
permit that the driver holds. -/
theorem Reads.permits {d : StreamQuicDriver} {events : EventChannel} {op : ReadOp}
    {r : ReadResult} (h : Reads d events op r) (hwf : events.WF)
    (hheld : d.reserves = true → 0 < events.reserved) :
    r.events.WF ∧ r.events.capacity = events.capacity ∧
      r.events.reserved + d.reserves.toNat = events.reserved + r.driver.reserves.toNat := by
  cases h with
  | call hp => exact ⟨hwf, rfl, by simp [StreamQuicDriver.reserves, hp]⟩
  | finished hp => exact ⟨hwf, rfl, by simp [StreamQuicDriver.reserves, hp]⟩
  | visit id hp =>
    obtain ⟨p, hv, hpoint⟩ := d.visit_eq id
    refine ⟨hwf, rfl, ?_⟩
    rw [hv]
    rcases hpoint with rfl | rfl <;> simp [StreamQuicDriver.reserves, hp]
  | announced id hp hroom =>
    refine ⟨Channel.wf_trySend (Channel.trySend_eq_ok.mpr ⟨hroom, rfl⟩), rfl, ?_⟩
    simp [StreamQuicDriver.reserves, hp]
  | reserved id hp hroom =>
    refine ⟨Channel.wf_tryReserve (Channel.tryReserve_eq_ok.mpr ⟨hroom, rfl⟩), rfl, ?_⟩
    simp [StreamQuicDriver.reserves, hp]
  | refused id hp hroom =>
    refine ⟨hwf, rfl, ?_⟩
    rcases hp with hp | hp <;> simp [StreamQuicDriver.reserves, hp]
  | received id data fin hp =>
    have hlt := hheld (by simp [StreamQuicDriver.reserves, hp])
    refine ⟨Channel.wf_send hwf hlt _, rfl, ?_⟩
    simp only [StreamQuicDriver.reserves, hp, StreamQuicDriver.received, Channel.send,
      Bool.toNat_true, Bool.toNat_false]
    omega
  | stopped id e hp =>
    have hlt := hheld (by simp [StreamQuicDriver.reserves, hp])
    refine ⟨Channel.wf_release hwf, rfl, ?_⟩
    simp only [StreamQuicDriver.reserves, hp, Channel.release, Bool.toNat_true, Bool.toNat_false]
    omega

/-- Where the task stands as far as `process_reads` can tell. -/
def Point.reading : Point → Point
  | .drainWrites | .retain | .flush _ | .closed => .idle
  | p => p

/-- The driver as `process_reads` sees it: at rest outside the read pass. -/
def StreamQuicDriver.reading (d : StreamQuicDriver) : StreamQuicDriver :=
  { d with pendingWrites := ∅, point := d.point.reading }

/-- A call of `process_reads` looks at nothing else of the driver. -/
theorem Reads.readStep_reading {d : StreamQuicDriver} {events : EventChannel} {op : ReadOp}
    {r : ReadResult} (h : Reads d events op r) :
    d.reading.point = d.point ∧
      readStep d.reading events op = some ⟨r.driver.reading, r.events, r.sent⟩ := by
  have hsame : ∀ {p : Point}, d.point = p → p.reading = p → d.reading.point = p := by
    intro p hp hread
    rw [StreamQuicDriver.reading, hp, hread]
  cases h with
  | call hp =>
    have hr := hsame hp rfl
    exact ⟨hr.trans hp.symm, by simp [readStep, StreamQuicDriver.reading, Point.reading, hp]⟩
  | finished hp =>
    have hr := hsame hp rfl
    exact ⟨hr.trans hp.symm, by simp [readStep, StreamQuicDriver.reading, Point.reading, hp]⟩
  | visit id hp =>
    have hr := hsame hp rfl
    have hvisit : d.reading.visit id = (d.visit id).reading := by
      unfold StreamQuicDriver.visit
      rw [apply_ite StreamQuicDriver.reading]
      rfl
    exact ⟨hr.trans hp.symm, by simp [readStep, hr, hvisit]⟩
  | announced id hp hroom =>
    have hr := hsame hp rfl
    have htake := Channel.tryReserve_eq_ok.mpr ⟨hroom, rfl⟩
    refine ⟨hr.trans hp.symm, ?_⟩
    simp [readStep, htake, StreamQuicDriver.reading, Point.reading, Channel.send, hp]
  | reserved id hp hroom =>
    have hr := hsame hp rfl
    have htake := Channel.tryReserve_eq_ok.mpr ⟨hroom, rfl⟩
    refine ⟨hr.trans hp.symm, ?_⟩
    simp [readStep, htake, StreamQuicDriver.reading, Point.reading, hp]
  | refused id hp hroom =>
    have hrefuse := Channel.tryReserve_eq_error.mpr ⟨hroom, rfl⟩
    rcases hp with hp | hp
    · have hr := hsame hp rfl
      refine ⟨hr.trans hp.symm, ?_⟩
      simp [readStep, hrefuse, StreamQuicDriver.reading, Point.reading, hp]
    · have hr := hsame hp rfl
      refine ⟨hr.trans hp.symm, ?_⟩
      simp [readStep, hrefuse, StreamQuicDriver.reading, Point.reading, hp]
  | received id data fin hp =>
    have hr := hsame hp rfl
    refine ⟨hr.trans hp.symm, ?_⟩
    simp [readStep, StreamQuicDriver.received, StreamQuicDriver.reading, Point.reading, hp]
  | stopped id e hp =>
    have hr := hsame hp rfl
    refine ⟨hr.trans hp.symm, ?_⟩
    cases e <;> simp [readStep, StreamQuicDriver.reading, Point.reading, hp]

end ExtQuiche.Driver
