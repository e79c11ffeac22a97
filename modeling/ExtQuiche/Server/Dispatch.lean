import ExtQuiche.Base.Machine
import ExtQuiche.Server.Calls

/-!
# The server loop's handlers

Library `Server`. `dispatch_driver_event`, `fire_on_close` and `call_stream_callback` of
`src/quiche/socket.rs:250–370`, the `NewConn` and `ConnClosed` arms of `tick`
(`src/quiche/socket.rs:186–223`), `close` (`src/quiche/socket.rs:110–129`), and the
machine whose steps they are. Each step carries what it cannot know: the scripts of the
callbacks it runs and the orders of the hash maps it drains.
-/

namespace ExtQuiche.Server
open ExtQuiche.Base ExtQuiche.Base.Locking ExtQuiche.Conn ExtQuiche.Stream

namespace QuicheServerSocketImpl

/-- An entry has left a slot map. -/
def removed (s : QuicheServerSocketImpl) (map : MapRef) (streamId : StreamId) :
    QuicheServerSocketImpl :=
  { s with maps := Function.update s.maps map ((s.maps map).erase streamId) }

/-- All entries have left a slot map. -/
def emptied (s : QuicheServerSocketImpl) (map : MapRef) : QuicheServerSocketImpl :=
  { s with maps := Function.update s.maps map ∅ }

/-- The script of the next callback; without one on tape it does nothing. -/
def nextScript (s : QuicheServerSocketImpl) : Script := s.tape.headD ⟨[], none⟩

/-- A callback has been entered and follows the next script. -/
def entered (s : QuicheServerSocketImpl) (held : List MutexRef) (invocation : Invocation) :
    QuicheServerSocketImpl :=
  { s with
    tape := s.tape.tail
    log := s.log ++ [.invoked ⟨invocation, held, s.objects, s.nextScript⟩] }

/-- The record of a connection is gone. -/
def forgotten (s : QuicheServerSocketImpl) (connId : ConnId) : QuicheServerSocketImpl :=
  { s with connections := s.connections.erase connId }

end QuicheServerSocketImpl

/-- `try_call` on a callable. -/
def tryCall (invocation : Invocation) : PhpM (Except PhpException PUnit) := do
  let held ← getHeld
  let s ← getData
  modifyData (·.entered held invocation)
  s.nextScript.calls.forM runCall
  match s.nextScript.throws with
  | none => return .ok ⟨⟩
  | some e => return .error e

/-- `if let Some(cb) = .. && let Ok(callable) = ZendCallable::new(cb)`: call it and
ignore what it returns. -/
def callIfCallable (callback : Option Zval) (invocation : Invocation) : PhpM PUnit :=
  match callback with
  | some cb =>
    if cb.isCallable then do
      let _ ← tryCall invocation
    else pure ⟨⟩
  | none => pure ⟨⟩

/-- `src/quiche/socket.rs:346–353`. -/
def fireOnClose (slot : SlotRef) (peerClosed : Bool) : PhpM PUnit := do
  note (.fireOnClose slot peerClosed)
  withLock (.slot slot) do
    let s ← getData
    callIfCallable (s.slots slot) (.onClose slot peerClosed)
  note (.firedOnClose slot)

/-- `src/quiche/socket.rs:358–370`, with the object made by `ZendClassObject::new`. -/
def callStreamCallback (connId : ConnId) (streamId : StreamId) (o : StreamObject) :
    PhpM PUnit := do
  let s ← getData
  modifyData (·.withObject o)
  withLock .streamCallback (callIfCallable s.streamCallback (.stream connId streamId s.objects.length))

section

variable {held : List MutexRef} {s : QuicheServerSocketImpl} {Q : QuicheServerSocketImpl → Prop}
  {H : MutexRef → QuicheServerSocketImpl → Prop}

/-- A callable is entered and makes the calls of its script. -/
theorem callIfCallable_spec {callback : Option Zval} {invocation : Invocation}
    (hcall : (∃ cb ∈ callback, cb.isCallable = true) →
      Spec held (· = s.entered held invocation) (s.nextScript.calls.forM runCall) (fun _ ↦ Q) H)
    (hskip : (¬ ∃ cb ∈ callback, cb.isCallable = true) → Q s) :
    Spec held (· = s) (callIfCallable callback invocation) (fun _ ↦ Q) H := by
  unfold callIfCallable
  split
  · next cb =>
    split
    · next hcb =>
      refine .bind (Q := fun _ ↦ Q) ?_ fun _ ↦ .pure fun _ h ↦ h
      refine .bind .getHeld fun held' ↦ .getData_bind ?_
      rintro t ⟨rfl, rfl⟩
      refine .bind (.modifyData (Q := fun _ ↦ (· = t.entered held' invocation)) ?_) fun _ ↦
        .bind (Q := fun _ ↦ Q) (hcall ⟨cb, rfl, hcb⟩) fun _ ↦ ?_
      · rintro u rfl
        rfl
      · split <;> exact .pure fun _ h ↦ h
    · next hcb =>
      refine .pure ?_
      rintro t rfl
      exact hskip (by simpa using hcb)
  · refine .pure ?_
    rintro t rfl
    exact hskip (by simp)

/-- `fire_on_close` is noted when it is called and when it returns; in between the
`on_close` callback runs with its slot locked. -/
theorem fireOnClose_spec {slot : SlotRef} {peerClosed : Bool}
    (hrun : .slot slot ∉ held →
      Spec (.slot slot :: held) (· = s.noted (.fireOnClose slot peerClosed))
        (callIfCallable (s.slots slot) (.onClose slot peerClosed))
        (fun _ t ↦ Q (t.noted (.firedOnClose slot))) H)
    (hhang : .slot slot ∈ held → H (.slot slot) (s.noted (.fireOnClose slot peerClosed))) :
    Spec held (· = s) (fireOnClose slot peerClosed) (fun _ ↦ Q) H := by
  refine .bind (.modifyData (Q := fun _ ↦ (· = s.noted (.fireOnClose slot peerClosed))) ?_)
    fun _ ↦ .bind (Q := fun _ t ↦ Q (t.noted (.firedOnClose slot))) (.withLock (fun hfree ↦ ?_) ?_)
      fun _ ↦ .modifyData fun _ h ↦ h
  · rintro t rfl
    rfl
  · refine .getData_bind ?_
    rintro t rfl
    exact hrun hfree
  · rintro hheld t rfl
    exact hhang hheld

/-- The stream callback runs on the new object. -/
theorem callStreamCallback_spec {connId : ConnId} {streamId : StreamId} {o : StreamObject}
    (hrun : Spec [.streamCallback] (· = s.withObject o)
      (callIfCallable s.streamCallback (.stream connId streamId s.objects.length)) (fun _ ↦ Q) H) :
    Spec [] (· = s) (callStreamCallback connId streamId o) (fun _ ↦ Q) H := by
  refine .getData_bind ?_
  rintro t rfl
  refine .bind (.modifyData (Q := fun _ ↦ (· = t.withObject o)) ?_) fun _ ↦
    .withLock (fun _ ↦ hrun) fun hno ↦ absurd hno List.not_mem_nil
  rintro u rfl
  rfl

end

/-- The `NewBidi` arm, `src/quiche/socket.rs:257–281`. -/
def dispatchNewBidi (connId : ConnId) (state : ConnState) (streamId : StreamId) : PhpM PUnit := do
  let slots ← makeSlotPair
  insertSlots .announced connId state.phpStreamCallbacks streamId slots
  callStreamCallback connId streamId
    (.incomingBidi ⟨connId, streamId, state.peerAddr, state.openHandle.writeTx,
      state.openHandle.writeNotify, slots.onData, slots.onClose, state.openHandle⟩)

/-- The `NewUni` arm, `src/quiche/socket.rs:283–305`. -/
def dispatchNewUni (connId : ConnId) (state : ConnState) (streamId : StreamId) : PhpM PUnit := do
  let slots ← makeSlotPair
  insertSlots .announced connId state.phpStreamCallbacks streamId slots
  callStreamCallback connId streamId
    (.incomingUni ⟨connId, streamId, state.peerAddr, slots.onData, slots.onClose,
      state.openHandle⟩)

/-- The chunk goes to the `on_data` callback of the stream, `src/quiche/socket.rs:312–328`. -/
def deliver (connId : ConnId) (map : MapRef) (streamId : StreamId) (data : Bytes) (fin : Bool) :
    PhpM PUnit := do
  let onDataSlot ← withLock (.slotsMap map) do
    let s ← getData
    return (s.maps map)[streamId]?.map (·.onData)
  match onDataSlot with
  | some slot =>
    withLock (.slot slot) do
      let s ← getData
      callIfCallable (s.slots slot) (.onData slot connId streamId data fin)
  | none => pure ⟨⟩

/-- The peer's fin ends the stream, `src/quiche/socket.rs:333–338`. -/
def finish (map : MapRef) (streamId : StreamId) : PhpM PUnit := do
  let removed ← withLock (.slotsMap map) do
    let s ← getData
    modifyData (·.removed map streamId)
    return (s.maps map)[streamId]?
  match removed with
  | some slots => fireOnClose slots.onClose true
  | none => pure ⟨⟩

/-- The `Data` arm, `src/quiche/socket.rs:307–339`. -/
def dispatchData (connId : ConnId) (state : ConnState) (streamId : StreamId) (data : Bytes)
    (fin : Bool) : PhpM PUnit := do
  deliver connId state.phpStreamCallbacks streamId data fin
  if fin then finish state.phpStreamCallbacks streamId

/-- `src/quiche/socket.rs:250–341`. -/
def dispatchDriverEvent (connId : ConnId) (ev : DriverEvent) : PhpM PUnit := do
  let s ← getData
  match s.connections[connId]? with
  -- late event for an already-closed connection
  | none => pure ⟨⟩
  | some state =>
    match ev with
    | .newBidi streamId => dispatchNewBidi connId state streamId
    | .newUni streamId => dispatchNewUni connId state streamId
    | .data streamId data fin => dispatchData connId state streamId data fin

/-- `for (_, slots) in slots_map.drain() { fire_on_close(..) }` with the map locked,
`src/quiche/socket.rs:115–122,214–217`. -/
def fireAll (map : MapRef) (order : List StreamId) (peerClosed : Bool) : PhpM PUnit :=
  withLock (.slotsMap map) do
    let s ← getData
    modifyData (·.emptied map)
    (drainInOrder (s.maps map) order).forM fun e ↦ fireOnClose e.2.onClose peerClosed

/-- The `ConnClosed` arm, `src/quiche/socket.rs:210–223`. -/
def connClosed (connId : ConnId) (peerInitiated : Bool) (order : List StreamId) :
    PhpM PUnit := do
  let s ← getData
  match s.connections[connId]? with
  | none => pure ⟨⟩
  | some state => do
    modifyData (·.forgotten connId)
    fireAll state.phpStreamCallbacks order peerInitiated

/-- `src/quiche/socket.rs:110–129`. A drained record counts as gone when the loop comes
to it; nobody looks at `connections` in between. -/
def close (conns : List ConnId) (orders : ConnId → List StreamId) : PhpM PUnit := do
  let s ← getData
  (drainInOrder s.connections conns).forM fun e ↦ do
    modifyData (·.forgotten e.1)
    fireAll e.2.phpStreamCallbacks (orders e.1) false
  modifyData fun s ↦ { s with listening := false }

section

variable {s : QuicheServerSocketImpl} {Q : QuicheServerSocketImpl → Prop}
  {H : MutexRef → QuicheServerSocketImpl → Prop} {map : MapRef} {streamId : StreamId}

/-- The object handed to the stream callback. -/
inductive AnnouncesAs (connId : ConnId) (state : ConnState) (streamId : StreamId) (pair : Nat) :
    StreamObject → Prop where
  | bidi : AnnouncesAs connId state streamId pair (.incomingBidi ⟨connId, streamId, state.peerAddr,
      state.openHandle.writeTx, state.openHandle.writeNotify, ⟨pair, .data⟩, ⟨pair, .close⟩,
      state.openHandle⟩)
  | uni : AnnouncesAs connId state streamId pair (.incomingUni ⟨connId, streamId, state.peerAddr,
      ⟨pair, .data⟩, ⟨pair, .close⟩, state.openHandle⟩)

private theorem register_spec {connId : ConnId} {next : StreamSlots → PhpM PUnit}
    (h : Spec [] (· = s.allocated.inserted .announced connId map streamId (.ofPair s.nextPair))
      (next (.ofPair s.nextPair)) (fun _ ↦ Q) H) :
    Spec [] (· = s) (do
      let slots ← makeSlotPair
      insertSlots .announced connId map streamId slots
      next slots) (fun _ ↦ Q) H := by
  refine .bind makeSlotPair_spec fun slots ↦ .of_forall ?_
  rintro t ⟨rfl, rfl⟩
  refine .bind ((insertSlots_spec _ _ _ _ _).weaken (fun _ h ↦ h) (fun _ _ h ↦ h.2) ?_) fun _ ↦ h
  rintro m t ⟨-, hno, -⟩
  exact absurd hno List.not_mem_nil

/-- A chunk for a registered stream runs its `on_data` callback, with the slot locked. -/
theorem deliver_spec {connId : ConnId} {data : Bytes} {fin : Bool}
    (hnone : (s.maps map)[streamId]? = none → Q s)
    (hsome : ∀ slots, (s.maps map)[streamId]? = some slots →
      Spec [.slot slots.onData] (· = s) (callIfCallable (s.slots slots.onData)
        (.onData slots.onData connId streamId data fin)) (fun _ ↦ Q) H) :
    Spec [] (· = s) (deliver connId map streamId data fin) (fun _ ↦ Q) H := by
  refine .bind (Q := fun a t ↦ a = (s.maps map)[streamId]?.map (·.onData) ∧ t = s)
    (.withLock (fun _ ↦ .getData_bind ?_) fun hno ↦ absurd hno List.not_mem_nil)
    fun slot? ↦ .of_forall ?_
  · rintro t rfl
    exact .pure fun _ h ↦ ⟨rfl, h⟩
  · rintro t ⟨rfl, rfl⟩
    cases hs : (t.maps map)[streamId]? with
    | none => exact .pure fun _ h ↦ h ▸ hnone hs
    | some slots =>
      refine .withLock (fun _ ↦ .getData_bind ?_) fun hno ↦ absurd hno List.not_mem_nil
      rintro u rfl
      exact hsome slots hs

/-- A fin takes the stream's entry and fires its `on_close`. -/
theorem finish_spec (hnone : (s.maps map)[streamId]? = none → Q (s.removed map streamId))
    (hsome : ∀ slots, (s.maps map)[streamId]? = some slots →
      Spec [] (· = s.removed map streamId) (fireOnClose slots.onClose true) (fun _ ↦ Q) H) :
    Spec [] (· = s) (finish map streamId) (fun _ ↦ Q) H := by
  refine .bind (Q := fun a t ↦ a = (s.maps map)[streamId]? ∧ t = s.removed map streamId)
    (.withLock (fun _ ↦ .getData_bind ?_) fun hno ↦ absurd hno List.not_mem_nil)
    fun removed ↦ .of_forall ?_
  · rintro t rfl
    refine .bind (.modifyData (Q := fun _ ↦ (· = t.removed map streamId)) ?_) fun _ ↦
      .pure fun _ h ↦ ⟨rfl, h⟩
    rintro u rfl
    rfl
  · rintro t ⟨rfl, rfl⟩
    cases hs : (s.maps map)[streamId]? with
    | none => exact .pure fun _ h ↦ h ▸ hnone hs
    | some slots => exact hsome slots hs

/-- All entries are taken first, then fired one by one with the map locked. -/
theorem fireAll_spec {order : List StreamId} {peerClosed : Bool}
    (h : Spec [.slotsMap map] (· = s.emptied map)
      ((drainInOrder (s.maps map) order).forM fun e ↦ fireOnClose e.2.onClose peerClosed)
      (fun _ ↦ Q) H) :
    Spec [] (· = s) (fireAll map order peerClosed) (fun _ ↦ Q) H := by
  refine .withLock (fun _ ↦ .getData_bind ?_) fun hno ↦ absurd hno List.not_mem_nil
  rintro t rfl
  refine .bind (.modifyData (Q := fun _ ↦ (· = t.emptied map)) ?_) fun _ ↦ h
  rintro u rfl
  rfl

/-- An event of a known connection is an announcement or a chunk; any other is dropped. -/
theorem dispatchDriverEvent_spec {connId : ConnId} {ev : DriverEvent}
    (hnone : s.connections[connId]? = none → Q s)
    (hnew : ∀ state o, s.connections[connId]? = some state → ev.announces = true →
      AnnouncesAs connId state ev.streamId s.nextPair o →
      Spec [] (· = s.allocated.inserted .announced connId state.phpStreamCallbacks ev.streamId
        (.ofPair s.nextPair)) (callStreamCallback connId ev.streamId o) (fun _ ↦ Q) H)
    (hdata : ∀ state id data fin, s.connections[connId]? = some state → ev = .data id data fin →
      Spec [] (· = s) (dispatchData connId state id data fin) (fun _ ↦ Q) H) :
    Spec [] (· = s) (dispatchDriverEvent connId ev) (fun _ ↦ Q) H := by
  refine .getData_bind ?_
  rintro t rfl
  split
  · next hno => exact .pure fun _ h ↦ h ▸ hnone hno
  · next state hc =>
    cases ev with
    | newBidi id => exact register_spec (hnew state _ hc rfl .bidi)
    | newUni id => exact register_spec (hnew state _ hc rfl .uni)
    | data id data fin => exact hdata state id data fin hc rfl

end

namespace QuicheServerSocketImpl

/-- The accept arm up to `conn.start`, `src/quiche/socket.rs:187–196`. -/
def newConn (s : QuicheServerSocketImpl) (peerAddr : SocketAddr) : QuicheServerSocketImpl :=
  { s with
    idCounter := s.idCounter + 1
    nextRef := s.nextRef + 1
    accepting := some (s.idCounter, ConnState.build s.idCounter peerAddr s.nextRef)
    writes := Function.update s.writes s.nextRef (.new WRITE_CHANNEL_CAPACITY)
    permits := Function.update s.permits s.nextRef false
    maps := Function.update s.maps s.nextRef ∅ }

/-- The rest of the accept arm, `src/quiche/socket.rs:197`. -/
def insertConn (s : QuicheServerSocketImpl) (connId : ConnId) (state : ConnState) :
    QuicheServerSocketImpl :=
  { s with connections := s.connections.insert connId state, accepting := none }

/-- The insertion of a record changes that of its connection only. -/
theorem getElem?_insertConn (s : QuicheServerSocketImpl) (c c' : ConnId) (st : ConnState) :
    (s.insertConn c st).connections[c']? = if c' = c then some st else s.connections[c']? := by
  rcases eq_or_ne c' c with rfl | hne
  · simp [insertConn]
  · simp [insertConn, Std.ExtTreeMap.getElem?_insert, hne, hne.symm]

/-- So does the removal of a record. -/
theorem getElem?_forgotten (s : QuicheServerSocketImpl) (c c' : ConnId) :
    (s.forgotten c).connections[c']? = if c' = c then none else s.connections[c']? := by
  rcases eq_or_ne c' c with rfl | hne
  · simp [forgotten]
  · simp [forgotten, Std.ExtTreeMap.getElem?_erase, hne, hne.symm]

/-- A record that is left was there. -/
theorem getElem?_of_forgotten {s : QuicheServerSocketImpl} {c c' : ConnId} {st : ConnState}
    (h : (s.forgotten c).connections[c']? = some st) : s.connections[c']? = some st := by
  rw [getElem?_forgotten] at h
  split at h
  · cases h
  · exact h

/-- The PHP thread is between two handlers. -/
def Free (s : QuicheServerSocketImpl) : Prop := s.hung = none ∧ s.accepting = none

instance (s : QuicheServerSocketImpl) : Decidable s.Free :=
  inferInstanceAs (Decidable (_ ∧ _))

end QuicheServerSocketImpl

/-- A handler of the PHP thread, a call from PHP between two handlers, or a driver at
its end of a write channel. -/
inductive Label where
  | newConn (peerAddr : SocketAddr)
  | insertConn
  | driverEvent (connId : ConnId) (ev : DriverEvent) (tape : List Script)
  | connClosed (connId : ConnId) (peerInitiated : Bool) (order : List StreamId)
      (tape : List Script)
  | close (conns : List ConnId) (orders : ConnId → List StreamId) (tape : List Script)
  | call (c : PhpCall)
  | driverWrites (ref : ChanRef) (tx : Channel StreamWriter)

namespace QuicheServerSocketImpl

/-- A handler runs on the PHP thread with the scripts of its callbacks. -/
def handle (s : QuicheServerSocketImpl) (tape : List Script) (prog : PhpM PUnit) :
    Option QuicheServerSocketImpl :=
  if s.Free then some ({ s with tape }.exec prog) else none

/-- What a specification says of a handler. -/
theorem handle_spec {s t : QuicheServerSocketImpl} {tape : List Script} {prog : PhpM PUnit}
    {Q : PUnit → QuicheServerSocketImpl → Prop} {H : MutexRef → QuicheServerSocketImpl → Prop}
    (hprog : Spec [] (· = { s with tape }) prog Q H) (h : s.handle tape prog = some t) :
    s.Free ∧ ∃ u, (t = { u with hung := none } ∧ Q ⟨⟩ u) ∨
      ∃ m, t = { u with hung := some m } ∧ H m u := by
  unfold handle at h
  split at h
  · next hfree =>
    cases h
    have hexec := hprog.exec rfl
    refine ⟨hfree, (Locking.exec prog { s with tape }).1, ?_⟩
    unfold exec
    split at hexec
    · next hm => exact .inl ⟨by rw [hm], hexec⟩
    · next m hm => exact .inr ⟨m, by rw [hm], hexec⟩
  · cases h

/-- One step of the server. -/
def step (s : QuicheServerSocketImpl) : Label → Option QuicheServerSocketImpl
  | .newConn peerAddr => if s.Free ∧ s.listening then some (s.newConn peerAddr) else none
  | .insertConn => s.accepting.map fun (connId, state) ↦ s.insertConn connId state
  | .driverEvent connId ev tape => s.handle tape (dispatchDriverEvent connId ev)
  | .connClosed connId peerInitiated order tape =>
    s.handle tape (ExtQuiche.Server.connClosed connId peerInitiated order)
  | .close conns orders tape => s.handle tape (ExtQuiche.Server.close conns orders)
  | .call c => s.handle [] (runCall c)
  | .driverWrites ref tx => some { s with writes := Function.update s.writes ref tx }

/-- A server that `bind` has returned. -/
def Init (s : QuicheServerSocketImpl) : Prop := ∃ callback, s = bind callback

end QuicheServerSocketImpl

/-- Runs of the server. -/
def server : Machine QuicheServerSocketImpl Label :=
  ⟨QuicheServerSocketImpl.Init, QuicheServerSocketImpl.step⟩

end ExtQuiche.Server
