import ExtQuiche.Conn.Types

/-!
# Callback slots and connection handles

Library `Conn`. `src/quiche/conn.rs:17–72,141–145`. An `Arc` of the source is a
reference here: the server and the PHP objects that hold clones of one `Arc` hold the
same reference. A slot pair is made whole by `make_slot_pair`, so a slot reference is
the number of its pair and a side.
-/

namespace ExtQuiche.Conn

/-- A PHP value as far as the extension looks at it. -/
structure Zval where
  handle : Nat
  isCallable : Bool
  deriving DecidableEq, Repr

/-- The two slots of a pair. -/
inductive SlotSide where
  | data
  | close
  deriving DecidableEq, Repr

/-- Reference of a `CallbackSlot`, `src/quiche/conn.rs:18`. -/
structure SlotRef where
  pair : Nat
  side : SlotSide
  deriving DecidableEq, Repr

/-- Reference of a `PhpStreamCallbacks` map, `src/quiche/conn.rs:30–31`. -/
abbrev MapRef := Nat

/-- Reference of a connection's write channel. -/
abbrev ChanRef := Nat

/-- Reference of a connection's `Notify`. -/
abbrev NotifyRef := Nat

/-- Text of a peer address. -/
abbrev SocketAddr := String

/-- Per-stream callback slots, `src/quiche/conn.rs:22–25`. -/
structure StreamSlots where
  onData : SlotRef
  onClose : SlotRef
  deriving DecidableEq, Repr

/-- The pair with a given number. -/
def StreamSlots.ofPair (n : Nat) : StreamSlots := ⟨⟨n, .data⟩, ⟨n, .close⟩⟩

@[simp] theorem StreamSlots.ofPair_onClose (n : Nat) : (ofPair n).onClose = ⟨n, .close⟩ := rfl

/-- `src/quiche/conn.rs:65–72`. -/
structure ConnOpenHandle where
  connId : ConnId
  peerAddr : SocketAddr
  writeTx : ChanRef
  writeNotify : NotifyRef
  phpStreamCallbacks : MapRef
  deriving DecidableEq, Repr

/-- Per-connection record of the server, `src/quiche/conn.rs:141–145`. -/
structure ConnState where
  peerAddr : SocketAddr
  phpStreamCallbacks : MapRef
  openHandle : ConnOpenHandle
  deriving DecidableEq, Repr

/-- The record of a new connection, its channel, `Notify` and map all numbered `ref`.
`src/quiche/conn.rs:159–190`. -/
def ConnState.build (connId : ConnId) (peerAddr : SocketAddr) (ref : Nat) : ConnState :=
  ⟨peerAddr, ref, ⟨connId, peerAddr, ref, ref, ref⟩⟩

end ExtQuiche.Conn
