import ExtQuiche.Server.State

/-!
# What PHP can call

Library `Server`. The methods of the stream objects of `src/stream.rs` with the helpers
they go through, `install_slot` of `src/stream.rs:9–17` and `prepare_bidi_stream` and
`prepare_uni_stream` of `src/quiche/conn.rs:82–132`. Every effect a call can have is one
case of `Effect`; invariants of the server look at those cases only.
-/

namespace ExtQuiche.Server
open ExtQuiche.Base ExtQuiche.Base.Locking ExtQuiche.Conn ExtQuiche.Stream

namespace QuicheServerSocketImpl

/-- A fresh pair of empty slots has been allocated. -/
def allocated (s : QuicheServerSocketImpl) : QuicheServerSocketImpl :=
  { s with
    nextPair := s.nextPair + 1
    slots := Function.update (Function.update s.slots ⟨s.nextPair, .data⟩ none)
      ⟨s.nextPair, .close⟩ none }

/-- The map belongs to the connection's record. -/
def attached (s : QuicheServerSocketImpl) (connId : ConnId) (map : MapRef) : Bool :=
  s.connections[connId]?.any fun state ↦ state.phpStreamCallbacks == map

/-- An `insert` into a slot map and its account. -/
def inserted (s : QuicheServerSocketImpl) (origin : Origin) (connId : ConnId) (map : MapRef)
    (streamId : StreamId) (slots : StreamSlots) : QuicheServerSocketImpl :=
  { s with
    maps := Function.update s.maps map ((s.maps map).insert streamId slots)
    log := s.log ++ [.inserted ⟨origin, connId, map, streamId, slots, (s.maps map)[streamId]?,
      s.attached connId map⟩] }

/-- A new PHP object. -/
def withObject (s : QuicheServerSocketImpl) (o : StreamObject) : QuicheServerSocketImpl :=
  { s with objects := s.objects ++ [o] }

/-- A chunk has entered a write channel and its driver is woken. -/
def sent (s : QuicheServerSocketImpl) (o : Outbound) (tx : Channel StreamWriter) :
    QuicheServerSocketImpl :=
  { s with
    writes := Function.update s.writes o.writeTx tx
    permits := Function.update s.permits o.writeNotify true }

/-- A write or close has returned without an exception. -/
def accounted (s : QuicheServerSocketImpl) (call : Submission) : QuicheServerSocketImpl :=
  { s with submitted := s.submitted ++ [call] }

/-- A callback has been stored. -/
def installed (s : QuicheServerSocketImpl) (slot : SlotRef) (callback : Zval) :
    QuicheServerSocketImpl :=
  { s with slots := Function.update s.slots slot (some callback) }

end QuicheServerSocketImpl

/-- `src/stream.rs:9–17`. -/
def installSlot (slot : SlotRef) (callback : Zval) (name : String) :
    PhpM (Except PhpException PUnit) := do
  if callback.isCallable then
    withLock (.slot slot) (modifyData fun s ↦ s.installed slot callback)
    return .ok ⟨⟩
  else
    return .error ⟨name ++ " expects a callable"⟩

/-- `src/quiche/conn.rs:127–132`. -/
def makeSlotPair : PhpM StreamSlots := do
  let s ← getData
  modifyData (·.allocated)
  return .ofPair s.nextPair

/-- `php_stream_callbacks.lock().insert(stream_id, slots)`. -/
def insertSlots (origin : Origin) (connId : ConnId) (map : MapRef) (streamId : StreamId)
    (slots : StreamSlots) : PhpM PUnit :=
  withLock (.slotsMap map) (modifyData fun s ↦ s.inserted origin connId map streamId slots)

/-- `src/quiche/conn.rs:82–105`. -/
def prepareBidiStream (handle : ConnOpenHandle) (streamId : StreamId) :
    PhpM (ChanRef × NotifyRef × SlotRef × SlotRef) := do
  let slots ← makeSlotPair
  insertSlots .opened handle.connId handle.phpStreamCallbacks streamId slots
  return (handle.writeTx, handle.writeNotify, slots.onData, slots.onClose)

/-- `src/quiche/conn.rs:110–123`. -/
def prepareUniStream (handle : ConnOpenHandle) (streamId : StreamId) :
    PhpM (ChanRef × NotifyRef × SlotRef) := do
  let slots ← makeSlotPair
  insertSlots .opened handle.connId handle.phpStreamCallbacks streamId slots
  return (handle.writeTx, handle.writeNotify, slots.onClose)

/-- `src/stream.rs:88–99,168–179`; both incoming classes have this body. -/
def openBidiStream (handle : ConnOpenHandle) (streamId : StreamId) : PhpM PUnit := do
  let (writeTx, writeNotify, onData, onClose) ← prepareBidiStream handle streamId
  modifyData (·.withObject
    (.bidi ⟨handle.connId, streamId, writeTx, writeNotify, onData, onClose⟩))

/-- `src/stream.rs:104–114,182–192`; both incoming classes have this body. -/
def openUniStream (handle : ConnOpenHandle) (streamId : StreamId) : PhpM PUnit := do
  let (writeTx, writeNotify, onClose) ← prepareUniStream handle streamId
  modifyData (·.withObject (.uni ⟨handle.connId, streamId, writeTx, writeNotify, onClose⟩))

/-- `try_send`, then `notify_one`. -/
def send (o : Outbound) : PhpM (Except PhpException PUnit) := do
  let s ← getData
  match o.trySend (s.writes o.writeTx) with
  | .ok tx =>
    modifyData (·.sent o tx)
    return .ok ⟨⟩
  | .error e => return .error e

/-- The account of a write or close, by its result. -/
def account (call : Submission) : Except PhpException PUnit → PhpM PUnit
  | .ok _ => modifyData (·.accounted call)
  | .error _ => pure ⟨⟩

/-- A method that the object's class has, else nothing. -/
def onMethod {α : Type} (method : Option α) (body : α → PhpM PUnit) : PhpM PUnit :=
  match method with
  | some a => body a
  | none => pure ⟨⟩

/-- The object a call is made on. -/
def PhpCall.obj : PhpCall → Nat
  | .setOnData obj _ => obj
  | .setOnClose obj _ => obj
  | .write obj _ _ => obj
  | .close obj => obj
  | .openBidiStream obj _ => obj
  | .openUniStream obj _ => obj

/-- A method call on an object; the script already accounts for its result. -/
def callOn (o : StreamObject) : PhpCall → PhpM PUnit
  | .setOnData _ callback => onMethod o.onData? fun slot ↦ do
    let _ ← installSlot slot callback "setOnData"
  | .setOnClose _ callback => do
    let _ ← installSlot o.onClose callback "setOnClose"
  | .write _ data fin => onMethod (o.write data fin) fun m ↦ do
    account ⟨o, data, fin⟩ (← send m)
  | .close _ => onMethod o.close fun m ↦ do
    account ⟨o, [], true⟩ (← send m)
  | .openBidiStream _ streamId => onMethod o.connHandle? fun handle ↦ openBidiStream handle streamId
  | .openUniStream _ streamId => onMethod o.connHandle? fun handle ↦ openUniStream handle streamId

/-- A method call of PHP. -/
def runCall (call : PhpCall) : PhpM PUnit := do
  let s ← getData
  onMethod s.objects[call.obj]? fun o ↦ callOn o call

/-- The mutex a call locks. -/
def PhpCall.locks (call : PhpCall) (o : StreamObject) : Option MutexRef :=
  match call with
  | .setOnData _ callback => if callback.isCallable then o.onData?.map .slot else none
  | .setOnClose _ callback => if callback.isCallable then some (.slot o.onClose) else none
  | .write _ _ _ => none
  | .close _ => none
  | .openBidiStream _ _ => o.connHandle?.map fun handle ↦ .slotsMap handle.phpStreamCallbacks
  | .openUniStream _ _ => o.connHandle?.map fun handle ↦ .slotsMap handle.phpStreamCallbacks

/-- The object that opening a stream creates. -/
inductive OpensAs (handle : ConnOpenHandle) (streamId : StreamId) (pair : Nat) :
    StreamObject → Prop where
  | bidi : OpensAs handle streamId pair (.bidi ⟨handle.connId, streamId, handle.writeTx,
      handle.writeNotify, ⟨pair, .data⟩, ⟨pair, .close⟩⟩)
  | uni : OpensAs handle streamId pair (.uni ⟨handle.connId, streamId, handle.writeTx,
      handle.writeNotify, ⟨pair, .close⟩⟩)

/-- What one call can do to the server. -/
inductive Effect (s : QuicheServerSocketImpl) : QuicheServerSocketImpl → Prop where
  | none : Effect s s
  | installed (o : StreamObject) (ho : o ∈ s.objects) (slot : SlotRef)
      (hslot : o.onData? = some slot ∨ o.onClose = slot) (callback : Zval)
      (hcb : callback.isCallable = true) : Effect s (s.installed slot callback)
  | sent (o : StreamObject) (ho : o ∈ s.objects) (data : Bytes) (fin : Bool) (m : Outbound)
      (hm : o.Sends data fin m) (tx : Channel StreamWriter)
      (htx : m.trySend (s.writes m.writeTx) = .ok tx) :
      Effect s ((s.sent m tx).accounted ⟨o, data, fin⟩)
  /-- A pair was made, then the thread hung on the slot map. -/
  | allocated : Effect s s.allocated
  | opened (o : StreamObject) (ho : o ∈ s.objects) (handle : ConnOpenHandle)
      (hh : o.connHandle? = some handle) (streamId : StreamId) (new : StreamObject)
      (hnew : OpensAs handle streamId s.nextPair new) :
      Effect s ((s.allocated.inserted .opened handle.connId handle.phpStreamCallbacks streamId
        (.ofPair s.nextPair)).withObject new)

/-- A call changes no record. -/
theorem Effect.connections {s t : QuicheServerSocketImpl} (h : Effect s t) :
    t.connections = s.connections := by
  cases h <;> rfl

/-- A call only adds to the log. -/
theorem Effect.log {s t : QuicheServerSocketImpl} (h : Effect s t) : s.log <+: t.log := by
  cases h with
  | none => exact List.prefix_refl _
  | installed o ho slot hslot callback hcb => exact List.prefix_refl _
  | sent o ho data fin m hm tx htx => exact List.prefix_refl _
  | allocated => exact List.prefix_refl _
  | opened o ho handle hh streamId new hnew => exact List.prefix_append _ _

/-- What a call adds to the log are registrations. -/
theorem Effect.mem_log {s t : QuicheServerSocketImpl} (h : Effect s t) {e : Obs}
    (he : e ∈ t.log) : e ∈ s.log ∨ ∃ i, e = .inserted i := by
  cases h with
  | none => exact .inl he
  | installed o ho slot hslot callback hcb => exact .inl he
  | sent o ho data fin m hm tx htx => exact .inl he
  | allocated => exact .inl he
  | opened o ho handle hh streamId new hnew =>
    exact (List.mem_append.mp he).imp_right fun he ↦ ⟨_, List.mem_singleton.mp he⟩

section

variable {held : List MutexRef} {s : QuicheServerSocketImpl}
  {H : MutexRef → QuicheServerSocketImpl → Prop}

/-- A pair is made and nothing else. -/
theorem makeSlotPair_spec :
    Spec held (· = s) makeSlotPair
      (fun slots t ↦ slots = .ofPair s.nextPair ∧ t = s.allocated) H := by
  refine .bind .getData fun t ↦ .bind (.modifyData (Q := fun _ u ↦
    .ofPair t.nextPair = StreamSlots.ofPair s.nextPair ∧ u = s.allocated) ?_)
    fun _ ↦ .pure fun _ h ↦ h
  rintro u ⟨rfl, rfl⟩
  exact ⟨rfl, rfl⟩

/-- An insertion, unless the thread itself holds the map. -/
theorem insertSlots_spec (origin : Origin) (connId : ConnId) (map : MapRef)
    (streamId : StreamId) (slots : StreamSlots) :
    Spec held (· = s) (insertSlots origin connId map streamId slots)
      (fun _ t ↦ .slotsMap map ∉ held ∧ t = s.inserted origin connId map streamId slots)
      (fun m t ↦ m = .slotsMap map ∧ .slotsMap map ∈ held ∧ t = s) := by
  refine .withLock (fun hfree ↦ .modifyData ?_) ?_
  · rintro t rfl
    exact ⟨hfree, rfl⟩
  · rintro hheld t rfl
    exact ⟨rfl, hheld, rfl⟩

/-- How a call ends: with its effect and no mutex locked twice, or hung on the one
mutex it locks. -/
def CallSpec (held : List MutexRef) (s : QuicheServerSocketImpl) (locks : Option MutexRef)
    (prog : PhpM PUnit) : Prop :=
  Spec held (· = s) prog
    (fun _ t ↦ Effect s t ∧ ∀ m ∈ locks, m ∉ held)
    (fun m t ↦ Effect s t ∧ m ∈ locks ∧ m ∈ held)

private theorem callSpec_onMethod {α : Type} {method : Option α} {body : α → PhpM PUnit}
    {locks : α → Option MutexRef} (h : ∀ a, method = some a → CallSpec held s (locks a) (body a)) :
    CallSpec held s (method.bind locks) (onMethod method body) := by
  cases method with
  | none => exact .pure fun t ht ↦ ht ▸ ⟨.none, by simp⟩
  | some a => exact h a rfl

private theorem callSpec_installSlot {o : StreamObject} (ho : o ∈ s.objects) {slot : SlotRef}
    (hslot : o.onData? = some slot ∨ o.onClose = slot) (callback : Zval) (name : String) :
    CallSpec held s (if callback.isCallable then some (.slot slot) else none) (do
      let _ ← installSlot slot callback name) := by
  unfold installSlot
  refine .bind (Q := fun _ t ↦ Effect s t ∧
    ∀ m ∈ if callback.isCallable then some (MutexRef.slot slot) else none, m ∉ held) ?_
    fun _ ↦ .pure fun _ h ↦ h
  split
  · next hcb =>
    refine .bind (Q := fun _ t ↦ Effect s t ∧ ∀ m ∈ some (MutexRef.slot slot), m ∉ held)
      (.withLock (fun hfree ↦ .modifyData ?_) ?_) fun _ ↦ .pure fun _ h ↦ h
    · rintro t rfl
      exact ⟨.installed o ho slot hslot callback hcb, by simpa using hfree⟩
    · rintro hheld t rfl
      exact ⟨.none, rfl, hheld⟩
  · refine .pure ?_
    rintro t rfl
    exact ⟨.none, by simp⟩

private theorem callSpec_send {o : StreamObject} (ho : o ∈ s.objects) {data : Bytes} {fin : Bool}
    {m : Outbound} (hm : o.Sends data fin m) :
    CallSpec held s none (do account ⟨o, data, fin⟩ (← send m)) := by
  unfold send
  refine .bind (Q := fun result t ↦ match result with
    | .ok _ => ∃ tx, m.trySend (s.writes m.writeTx) = .ok tx ∧ t = s.sent m tx
    | .error _ => t = s) (.bind .getData fun t ↦ ?_) fun result ↦ ?_
  · split
    · next tx htx =>
      refine .bind (Q := fun _ u ↦ ∃ tx, m.trySend (s.writes m.writeTx) = .ok tx ∧
        u = s.sent m tx) (.modifyData ?_) fun _ ↦ .pure fun _ h ↦ h
      rintro u ⟨rfl, rfl⟩
      exact ⟨tx, htx, rfl⟩
    · refine .pure ?_
      rintro u ⟨rfl, rfl⟩
      rfl
  · cases result with
    | ok =>
      simp only [account]
      refine .modifyData ?_
      rintro t ⟨tx, htx, rfl⟩
      exact ⟨.sent o ho data fin m hm tx htx, by simp⟩
    | error e =>
      refine .pure ?_
      rintro t rfl
      exact ⟨.none, by simp⟩

private theorem callSpec_open {o : StreamObject} (ho : o ∈ s.objects) {handle : ConnOpenHandle}
    (hh : o.connHandle? = some handle) {streamId : StreamId} {new : StreamSlots → StreamObject}
    (hnew : OpensAs handle streamId s.nextPair (new (.ofPair s.nextPair))) :
    CallSpec held s (some (.slotsMap handle.phpStreamCallbacks)) (do
      let slots ← makeSlotPair
      insertSlots .opened handle.connId handle.phpStreamCallbacks streamId slots
      modifyData (·.withObject (new slots))) := by
  refine .bind makeSlotPair_spec fun slots ↦ .of_forall ?_
  rintro t ⟨rfl, rfl⟩
  refine .bind ((insertSlots_spec _ _ _ _ _).weaken (fun _ h ↦ h) (fun _ _ h ↦ h) ?_)
    fun _ ↦ .modifyData ?_
  · rintro m t ⟨rfl, hheld, rfl⟩
    exact ⟨.allocated, rfl, hheld⟩
  · rintro t ⟨hfree, rfl⟩
    exact ⟨.opened o ho handle hh streamId _ hnew, by simpa using hfree⟩

/-- Opening a stream, with what it prepares written out. -/
theorem openBidiStream_eq (handle : ConnOpenHandle) (streamId : StreamId) :
    openBidiStream handle streamId = (do
      let slots ← makeSlotPair
      insertSlots .opened handle.connId handle.phpStreamCallbacks streamId slots
      modifyData (·.withObject (.bidi ⟨handle.connId, streamId, handle.writeTx,
        handle.writeNotify, slots.onData, slots.onClose⟩))) := by
  simp [openBidiStream, prepareBidiStream]

/-- Opening a stream, with what it prepares written out. -/
theorem openUniStream_eq (handle : ConnOpenHandle) (streamId : StreamId) :
    openUniStream handle streamId = (do
      let slots ← makeSlotPair
      insertSlots .opened handle.connId handle.phpStreamCallbacks streamId slots
      modifyData (·.withObject (.uni ⟨handle.connId, streamId, handle.writeTx,
        handle.writeNotify, slots.onClose⟩))) := by
  simp [openUniStream, prepareUniStream]

/-- Every method call has one of the effects, and hangs exactly on a held mutex. -/
theorem callOn_spec {o : StreamObject} (ho : o ∈ s.objects) (call : PhpCall) :
    CallSpec held s (call.locks o) (callOn o call) := by
  cases call with
  | setOnData obj callback =>
    have h : PhpCall.locks (.setOnData obj callback) o = o.onData?.bind fun slot ↦
        if callback.isCallable then some (.slot slot) else none := by
      simp only [PhpCall.locks]
      split <;> cases o.onData? <;> rfl
    rw [h]
    exact callSpec_onMethod fun slot hslot ↦ callSpec_installSlot ho (.inl hslot) callback _
  | setOnClose obj callback => exact callSpec_installSlot ho (.inr rfl) callback _
  | write obj data fin =>
    have h : PhpCall.locks (.write obj data fin) o =
        (o.write data fin).bind fun _ ↦ none := by
      cases o.write data fin <;> rfl
    rw [h]
    exact callSpec_onMethod fun m hm ↦ callSpec_send ho (.inl hm)
  | close obj =>
    have h : PhpCall.locks (.close obj) o = o.close.bind fun _ ↦ none := by
      cases o.close <;> rfl
    rw [h]
    exact callSpec_onMethod fun m hm ↦ callSpec_send ho (.inr ⟨hm, rfl, rfl⟩)
  | openBidiStream obj streamId =>
    have h : PhpCall.locks (.openBidiStream obj streamId) o =
        o.connHandle?.bind fun handle ↦ some (.slotsMap handle.phpStreamCallbacks) :=
      Option.map_eq_bind
    rw [h]
    refine callSpec_onMethod fun handle hh ↦ ?_
    rw [openBidiStream_eq]
    exact callSpec_open ho hh .bidi
  | openUniStream obj streamId =>
    have h : PhpCall.locks (.openUniStream obj streamId) o =
        o.connHandle?.bind fun handle ↦ some (.slotsMap handle.phpStreamCallbacks) :=
      Option.map_eq_bind
    rw [h]
    refine callSpec_onMethod fun handle hh ↦ ?_
    rw [openUniStream_eq]
    exact callSpec_open ho hh .uni

/-- A call on an object that does not exist does nothing. -/
theorem runCall_spec (call : PhpCall) :
    CallSpec held s (s.objects[call.obj]?.bind call.locks) (runCall call) := by
  refine .bind .getData fun t ↦ .of_forall ?_
  rintro u ⟨rfl, rfl⟩
  exact callSpec_onMethod fun o ho ↦ callOn_spec (List.mem_of_getElem? ho) call

/-- What every effect keeps, the calls of a callback keep, whether or not it returns. -/
theorem runCalls_spec {I : QuicheServerSocketImpl → Prop}
    (hI : ∀ s t, I s → Effect s t → I t) (calls : List PhpCall) :
    Spec held I (calls.forM runCall) (fun _ ↦ I) fun _ ↦ I := by
  refine .forM_mem fun call _ ↦ .of_forall fun s hs ↦ ?_
  exact (runCall_spec call).weaken (fun _ h ↦ h) (fun _ t h ↦ hI s t hs h.1)
    fun _ t h ↦ hI s t hs h.1

end

end ExtQuiche.Server
