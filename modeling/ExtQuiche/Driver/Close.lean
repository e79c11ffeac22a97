import ExtQuiche.Driver.Reads

/-!
# The end of a driver

Library `Driver`. `on_conn_close` of `src/quiche/driver.rs:175–197`, the last call the
worker makes on a driver: one non-blocking send on the server's close channel.
-/

namespace ExtQuiche.Driver
open ExtQuiche.Base ExtQuiche.Conn

/-- How a connection ends, as far as the transport tells the driver. -/
inductive ConnEnd where
  /-- The peer sent `CONNECTION_CLOSE`. -/
  | peerClosed (code : UInt64)
  | idleTimeout
  | localClose
  | transportError (e : QuicheError)
  deriving DecidableEq, Repr

/-- `conn.peer_error()`: the code the peer closed with. -/
def ConnEnd.peerError : ConnEnd → Option UInt64
  | .peerClosed code => some code
  | .idleTimeout => none
  | .localClose => none
  | .transportError _ => none

/-- The peer ended the connection, by its `CONNECTION_CLOSE` or by going silent, as the
documentation of `setOnClose` counts it. `src/stream.rs:57–60`. -/
def ConnEnd.byPeer : ConnEnd → Bool
  | .peerClosed _ => true
  | .idleTimeout => true
  | .localClose => false
  | .transportError _ => false

/-- The server's close channel, shared by all drivers. -/
abbrev CloseChannel := Channel (ConnId × Bool)

/-- `src/quiche/driver.rs:175–197`; a refused message is logged and lost. -/
def onConnClose (d : StreamQuicDriver) (closes : CloseChannel) (ended : ConnEnd) :
    Option (StreamQuicDriver × CloseChannel) :=
  match d.point with
  | .idle =>
    match closes.trySend (d.connId, ended.peerError.isSome) with
    | .ok closes' => some ({ d with point := .closed }, closes')
    | .error _ => some ({ d with point := .closed }, closes)
  | _ => none

/-- The driver is closed, and its message is queued exactly where there is room. -/
theorem onConnClose_eq_some {d d' : StreamQuicDriver} {closes closes' : CloseChannel}
    {ended : ConnEnd} (h : onConnClose d closes ended = some (d', closes')) :
    d.point = .idle ∧ d' = { d with point := .closed } ∧
      closes' = if closes.HasRoom then
        { closes with queue := closes.queue ++ [(d.connId, ended.peerError.isSome)] }
      else closes := by
  unfold onConnClose at h
  split at h
  · next hp =>
    split at h
    · next closes'' hs =>
      obtain ⟨hroom, rfl⟩ := Channel.trySend_eq_ok.mp hs
      cases h
      exact ⟨hp, rfl, by simp [hroom]⟩
    · next e hs =>
      cases h
      have hno : ¬ closes.HasRoom := fun hroom ↦ by
        rw [Channel.trySend_eq_ok.mpr ⟨hroom, rfl⟩] at hs
        cases hs
      exact ⟨hp, rfl, by simp [hno]⟩
  · cases h

end ExtQuiche.Driver
