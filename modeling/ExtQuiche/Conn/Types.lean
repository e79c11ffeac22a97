import Mathlib.Data.List.Basic

/-!
# Messages between the drivers, the server and the PHP stream objects

Library `Conn`. Types and constants of `src/quiche/conn.rs:9–62`,
`src/quiche/driver.rs:13–18` and `src/quiche/socket.rs:24–32`. Stream ids are the
`u64` of the wire; connection ids are the values of the server's counter.
-/

namespace ExtQuiche.Conn

/-- `src/quiche/conn.rs:9`. -/
abbrev StreamId := UInt64

/-- Values of `id_counter`, `src/quiche/socket.rs:41`, without its wrap: the counter of the source
is a `u64` and comes back to 0 after `2 ^ 64` acceptances. Only what is said of isolation bounds
their number. -/
abbrev ConnId := Nat

/-- Payload of a chunk, `bytes::Bytes`. -/
abbrev Bytes := List UInt8

/-- Outbound chunk of the per-connection write channel, `src/quiche/conn.rs:13–15`. -/
abbrev StreamWriter := StreamId × Option Bytes × Bool

/-- Events of every driver into the shared channel, `src/quiche/conn.rs:49–62`. -/
inductive DriverEvent where
  | newBidi (streamId : StreamId)
  | newUni (streamId : StreamId)
  | data (streamId : StreamId) (data : Bytes) (fin : Bool)
  deriving DecidableEq, Repr

/-- Errors of the transport. The code tells only `done` from the rest. -/
inductive QuicheError where
  | done
  | streamLimit
  | streamStopped (code : UInt64)
  | streamReset (code : UInt64)
  | invalidStreamState (streamId : StreamId)
  | other (code : Int)
  deriving DecidableEq, Repr

/-- `src/quiche/driver.rs:17`. -/
def STREAM_ID_INITIATOR_MASK : UInt64 := 0b01

/-- `src/quiche/driver.rs:18`. -/
def STREAM_ID_DIRECTION_MASK : UInt64 := 0b10

/-- `src/quiche/conn.rs:34`. -/
def STREAM_BUFFER_SIZE : Nat := 65536

/-- `src/quiche/socket.rs:28`. -/
def SERVER_EVENT_CHANNEL_CAPACITY : Nat := 8192

/-- `src/quiche/socket.rs:32`. -/
def CONN_CLOSE_CHANNEL_CAPACITY : Nat := 1024

/-- Capacity of a connection's write channel, `src/quiche/conn.rs:159`. -/
def WRITE_CHANNEL_CAPACITY : Nat := 256

/-- The peer opened the stream, `src/quiche/driver.rs:79`. -/
def clientInitiated (streamId : StreamId) : Bool :=
  streamId &&& STREAM_ID_INITIATOR_MASK == 0

/-- Announcement of a stream by its direction bit, `src/quiche/driver.rs:85–89`. -/
def announcement (streamId : StreamId) : DriverEvent :=
  if streamId &&& STREAM_ID_DIRECTION_MASK == 0 then .newBidi streamId else .newUni streamId

namespace DriverEvent

/-- Stream an event is about. -/
def streamId : DriverEvent → StreamId
  | .newBidi id => id
  | .newUni id => id
  | .data id _ _ => id

/-- The event announces a stream. -/
def announces : DriverEvent → Bool
  | .newBidi _ => true
  | .newUni _ => true
  | .data _ _ _ => false

/-- The event carries the peer's end of stream. -/
def isFin : DriverEvent → Bool
  | .newBidi _ => false
  | .newUni _ => false
  | .data _ _ fin => fin

/-- Payload and fin flag of a data event. -/
def chunk? : DriverEvent → Option (Bytes × Bool)
  | .newBidi _ => none
  | .newUni _ => none
  | .data _ bytes fin => some (bytes, fin)

end DriverEvent

@[simp] theorem streamId_announcement (id : StreamId) : (announcement id).streamId = id := by
  unfold announcement
  split <;> rfl

@[simp] theorem announces_announcement (id : StreamId) : (announcement id).announces = true := by
  unfold announcement
  split <;> rfl

@[simp] theorem isFin_announcement (id : StreamId) : (announcement id).isFin = false := by
  unfold announcement
  split <;> rfl

@[simp] theorem chunk?_announcement (id : StreamId) : (announcement id).chunk? = none := by
  unfold announcement
  split <;> rfl

end ExtQuiche.Conn
