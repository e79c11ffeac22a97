import ExtQuiche.Base.Channel
import ExtQuiche.Conn.Handles

/-!
# PHP stream objects and their outbound calls

Library `Stream`. The four classes of `src/stream.rs` with their fields, and their
`write` and `close` methods. Each of these is one non-blocking send on the write
channel of the connection followed by a wake-up of its driver.
-/

namespace ExtQuiche.Stream
open ExtQuiche.Base ExtQuiche.Conn

/-- Exception thrown into PHP. -/
structure PhpException where
  message : String
  deriving DecidableEq, Repr

/-- A chunk for a write channel, the driver to wake and the verb of the error text. -/
structure Outbound where
  writeTx : ChanRef
  writeNotify : NotifyRef
  verb : String
  chunk : StreamWriter
  deriving DecidableEq, Repr

/-- `try_send` of an outbound chunk; the error text of `src/stream.rs:71,80`. -/
def Outbound.trySend (o : Outbound) (tx : Channel StreamWriter) :
    Except PhpException (Channel StreamWriter) :=
  match tx.trySend o.chunk with
  | .ok tx' => .ok tx'
  | .error e => .error ⟨o.verb ++ " failed: " ++ e.message⟩

/-- It succeeds where the channel takes the chunk. -/
theorem Outbound.trySend_eq_ok {o : Outbound} {tx tx' : Channel StreamWriter} :
    o.trySend tx = .ok tx' ↔ tx.trySend o.chunk = .ok tx' := by
  unfold Outbound.trySend
  split
  · next h => simp [h]
  · next h => simp [h]

/-- Body shared by the `write` methods, `src/stream.rs:67–74`. -/
def writeChunk (streamId : StreamId) (writeTx : ChanRef) (writeNotify : NotifyRef)
    (data : Bytes) (fin : Bool) : Outbound :=
  ⟨writeTx, writeNotify, "write", (streamId, some data, fin)⟩

/-- Body shared by the `close` methods: an empty fin, `src/stream.rs:77–83`. -/
def closeChunk (streamId : StreamId) (writeTx : ChanRef) (writeNotify : NotifyRef) : Outbound :=
  ⟨writeTx, writeNotify, "close", (streamId, some [], true)⟩

/-- `src/stream.rs:33–42`. -/
structure IncomingBidiStream where
  connId : ConnId
  streamId : StreamId
  peerAddr : String
  writeTx : ChanRef
  writeNotify : NotifyRef
  onData : SlotRef
  onClose : SlotRef
  connHandle : ConnOpenHandle
  deriving DecidableEq, Repr

/-- `src/stream.rs:143–150`. -/
structure IncomingUniStream where
  connId : ConnId
  streamId : StreamId
  peerAddr : String
  onData : SlotRef
  onClose : SlotRef
  connHandle : ConnOpenHandle
  deriving DecidableEq, Repr

/-- `src/stream.rs:224–231`. -/
structure BidiStream where
  connId : ConnId
  streamId : StreamId
  writeTx : ChanRef
  writeNotify : NotifyRef
  onData : SlotRef
  onClose : SlotRef
  deriving DecidableEq, Repr

/-- `src/stream.rs:287–293`. -/
structure UniStream where
  connId : ConnId
  streamId : StreamId
  writeTx : ChanRef
  writeNotify : NotifyRef
  onClose : SlotRef
  deriving DecidableEq, Repr

/-- `src/stream.rs:67–74`. -/
def IncomingBidiStream.write (o : IncomingBidiStream) (data : Bytes) (fin : Bool) : Outbound :=
  writeChunk o.streamId o.writeTx o.writeNotify data fin

/-- `src/stream.rs:77–83`. -/
def IncomingBidiStream.close (o : IncomingBidiStream) : Outbound :=
  closeChunk o.streamId o.writeTx o.writeNotify

/-- `src/stream.rs:251–258`. -/
def BidiStream.write (o : BidiStream) (data : Bytes) (fin : Bool) : Outbound :=
  writeChunk o.streamId o.writeTx o.writeNotify data fin

/-- `src/stream.rs:261–267`. -/
def BidiStream.close (o : BidiStream) : Outbound :=
  closeChunk o.streamId o.writeTx o.writeNotify

/-- `src/stream.rs:306–313`. -/
def UniStream.write (o : UniStream) (data : Bytes) (fin : Bool) : Outbound :=
  writeChunk o.streamId o.writeTx o.writeNotify data fin

/-- `src/stream.rs:316–322`. -/
def UniStream.close (o : UniStream) : Outbound :=
  closeChunk o.streamId o.writeTx o.writeNotify

/-- A stream object held by PHP. -/
inductive StreamObject where
  | incomingBidi (o : IncomingBidiStream)
  | incomingUni (o : IncomingUniStream)
  | bidi (o : BidiStream)
  | uni (o : UniStream)
  deriving DecidableEq, Repr

namespace StreamObject

/-- Connection of the stream. -/
def connId : StreamObject → ConnId
  | .incomingBidi o => o.connId
  | .incomingUni o => o.connId
  | .bidi o => o.connId
  | .uni o => o.connId

/-- Stream of the object. -/
def streamId : StreamObject → StreamId
  | .incomingBidi o => o.streamId
  | .incomingUni o => o.streamId
  | .bidi o => o.streamId
  | .uni o => o.streamId

/-- The `write` method of the object's class; an incoming uni stream has none. -/
def write : StreamObject → Bytes → Bool → Option Outbound
  | .incomingBidi o, data, fin => some (o.write data fin)
  | .incomingUni _, _, _ => none
  | .bidi o, data, fin => some (o.write data fin)
  | .uni o, data, fin => some (o.write data fin)

/-- The `close` method of the object's class; an incoming uni stream has none. -/
def close : StreamObject → Option Outbound
  | .incomingBidi o => some o.close
  | .incomingUni _ => none
  | .bidi o => some o.close
  | .uni o => some o.close

/-- The object's end of a write channel; an incoming uni stream has none. -/
def writeTx? : StreamObject → Option ChanRef
  | .incomingBidi o => some o.writeTx
  | .incomingUni _ => none
  | .bidi o => some o.writeTx
  | .uni o => some o.writeTx

/-- What PHP asks the object to send, and the outbound chunk that its class makes of it:
`write` with its data and fin, or `close`, which is an empty fin. -/
def Sends (o : StreamObject) (data : Bytes) (fin : Bool) (m : Outbound) : Prop :=
  o.write data fin = some m ∨ o.close = some m ∧ data = [] ∧ fin = true

/-- The chunk is the caller's data and fin on the object's stream. -/
theorem Sends.chunk {o : StreamObject} {data : Bytes} {fin : Bool} {m : Outbound}
    (h : o.Sends data fin m) : m.chunk = (o.streamId, some data, fin) := by
  rcases h with h | ⟨h, rfl, rfl⟩ <;> cases o <;> cases h <;> rfl

/-- The chunk goes to the object's write channel. -/
theorem Sends.writeTx {o : StreamObject} {data : Bytes} {fin : Bool} {m : Outbound}
    (h : o.Sends data fin m) : o.writeTx? = some m.writeTx := by
  rcases h with h | ⟨h, -, -⟩ <;> cases o <;> cases h <;> rfl

/-- The `on_data` slot; a server-initiated uni stream keeps none. -/
def onData? : StreamObject → Option SlotRef
  | .incomingBidi o => some o.onData
  | .incomingUni o => some o.onData
  | .bidi o => some o.onData
  | .uni _ => none

/-- The `on_close` slot. -/
def onClose : StreamObject → SlotRef
  | .incomingBidi o => o.onClose
  | .incomingUni o => o.onClose
  | .bidi o => o.onClose
  | .uni o => o.onClose

/-- The handle for opening streams; only incoming streams have one. -/
def connHandle? : StreamObject → Option ConnOpenHandle
  | .incomingBidi o => some o.connHandle
  | .incomingUni o => some o.connHandle
  | .bidi _ => none
  | .uni _ => none

end StreamObject

end ExtQuiche.Stream
