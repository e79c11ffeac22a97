import ExtQuiche.Base.History
import ExtQuiche.Server.Isolation
import ExtQuiche.System.Lifecycle

/-!
# The story of a run

Library `System`. What later statements have to remember of a run beyond its last state:
which connections got a record, how the transport ended them, which streams it reset, and
what was known when a slot was passed to `fire_on_close`.
-/

namespace ExtQuiche.System
open ExtQuiche.Base ExtQuiche.Conn ExtQuiche.Driver ExtQuiche.Server

/-- The step is the close of the server. -/
def Label.byServer : Label → Bool
  | .close _ _ _ => true
  | _ => false

/-- A call of `fire_on_close`, with what the drivers had read and which connections had
ended when it was made, and whether `close` made it. -/
structure Firing where
  slot : SlotRef
  peerClosed : Bool
  received : ConnId → StreamId → List (Bytes × Bool)
  ends : ConnId → Option ConnEnd
  byServer : Bool

/-- The account of a run. -/
structure Tale where
  recorded : ConnId → Bool
  ends : ConnId → Option ConnEnd
  resets : ConnId → StreamId → Bool
  firings : List Firing

namespace Tale

/-- Nothing has happened. -/
def start : Tale := ⟨fun _ ↦ false, fun _ ↦ none, fun _ _ ↦ false, []⟩

/-- Connections that got a record, after a step. -/
def recordedAfter (t : Tale) (w : World) : Label → ConnId → Bool
  | .insertConn => (w.server.accepting.map fun a ↦ Function.update t.recorded a.1 true).getD t.recorded
  | _ => t.recorded

/-- Ends of the connections, after a step. -/
def endsAfter (t : Tale) : Label → ConnId → Option ConnEnd
  | .driver c (.onConnClose ended) => Function.update t.ends c (some ended)
  | _ => t.ends

/-- Streams whose `stream_recv` has returned a reset, after a step. -/
def resetsAfter (t : Tale) (w : World) : Label → ConnId → StreamId → Bool
  | .driver c (.read (.streamRecv (.error (.streamReset _)))) =>
    match (w.drivers c).map StreamQuicDriver.point with
    | some (.recv id) => Function.update t.resets c (Function.update (t.resets c) id true)
    | _ => t.resets
  | _ => t.resets

/-- The calls of `fire_on_close` that a step has added to the log. -/
def firingsOf (t : Tale) (w : World) (l : Label) (w' : World) : List Firing :=
  ((w'.server.log.drop w.server.log.length).filterMap Obs.fires).map fun (slot, peerClosed) ↦
    ⟨slot, peerClosed, w.received, t.ends, l.byServer⟩

/-- A step goes into the account. -/
def add (t : Tale) (w : World) (l : Label) (w' : World) : Tale where
  recorded := t.recordedAfter w l
  ends := t.endsAfter l
  resets := t.resetsAfter w l
  firings := t.firings ++ t.firingsOf w l w'

end Tale

/-- Runs of the system with their account. -/
def story : Machine (World × Tale) Label := world.withAccount ⟨.start, Tale.add⟩

end ExtQuiche.System
