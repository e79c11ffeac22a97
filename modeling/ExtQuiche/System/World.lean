import ExtQuiche.Driver.Sends
import ExtQuiche.Server.Handlers

/-!
# Drivers, channels and the server loop

Library `System`. The server, all drivers and the two channels between them, as a
machine. The drivers run on worker threads; the PHP thread is outside `tick` or inside
its `select!`, whose arms are polled in the order of the source, one step each
(`src/quiche/socket.rs:151–240`). The rest of the record is an account of the run: how
often the event arm has been polled, after which poll each event was sent, which events
were handled, when a close message removed a record, and what the drivers have read.
-/

namespace ExtQuiche.System
open ExtQuiche.Base ExtQuiche.Conn ExtQuiche.Driver ExtQuiche.Server

/-- Where the PHP thread stands. -/
inductive TickPoint where
  /-- `tick` is not running. -/
  | outside
  /-- About to poll `server_event_rx.recv()`, `src/quiche/socket.rs:160`. -/
  | eventArm
  /-- About to poll `conn_close_rx.recv()`, `src/quiche/socket.rs:164`. -/
  | closeArm
  /-- About to poll the listener and the timer, `src/quiche/socket.rs:168–181`. -/
  | otherArms
  /-- Between `conn.start` and `connections.insert`, `src/quiche/socket.rs:196–197`. -/
  | inserting
  deriving DecidableEq, Repr

/-- An event put on the channel, and the number of event arm polls before it. -/
structure Sent where
  connId : ConnId
  event : DriverEvent
  poll : Nat
  deriving DecidableEq, Repr

/-- An event taken from the channel, and whether its connection had a record. -/
structure Handled where
  sent : Sent
  found : Bool
  deriving DecidableEq, Repr

/-- The server, its channels and the drivers, with the account of the run. -/
structure World where
  server : QuicheServerSocketImpl
  events : EventChannel
  closes : CloseChannel
  drivers : ConnId → Option StreamQuicDriver
  tick : TickPoint
  polls : Nat
  pending : List Sent
  handled : List Handled
  removedAt : ConnId → Option Nat
  received : ConnId → StreamId → List (Bytes × Bool)

/-- A call of the worker on a driver. -/
inductive DriverOp where
  | read (op : ReadOp)
  | write (op : WriteOp)
  | onConnClose (ended : ConnEnd)
  /-- The task is over and drops the driver with its receiver. -/
  | drop

/-- A step of one of the parties. -/
inductive Label where
  | enterTick
  | pollEvents (tape : List Script)
  | pollCloses (order : List StreamId) (tape : List Script)
  /-- The listener yields a connection. -/
  | accept (peerAddr : SocketAddr)
  | insertConn
  /-- No arm is ready, or the listener yields an error: `select!` starts over. -/
  | again
  | timer
  | call (c : PhpCall)
  | close (conns : List ConnId) (orders : ConnId → List StreamId) (tape : List Script)
  | driver (c : ConnId) (op : DriverOp)

namespace World

/-- All events sent so far. -/
def sent (w : World) : List Sent := w.handled.map (·.sent) ++ w.pending

/-- The PHP thread goes on from a point, unless it hangs. -/
def goOn (w : World) (point : TickPoint) (next : Option World) : Option World :=
  if w.tick = point ∧ w.server.hung = none then next else none

/-- The event arm is polled: the oldest event is dispatched, or the next arm is polled. -/
def pollEvents (w : World) (tape : List Script) : Option World :=
  match w.events.tryRecv with
  | some ((c, ev), events) =>
    (w.server.step (.driverEvent c ev tape)).map fun server ↦
      { w with
        server
        events
        polls := w.polls + 1
        pending := w.pending.tail
        handled := w.handled ++ (w.pending.head?.map fun sent ↦
          ⟨sent, w.server.connections[c]?.isSome⟩).toList }
  | none => some { w with tick := .closeArm, polls := w.polls + 1 }

/-- The close arm is polled: the oldest message is handled, or the next arm is polled. -/
def pollCloses (w : World) (order : List StreamId) (tape : List Script) : Option World :=
  match w.closes.tryRecv with
  | some ((c, peerInitiated), closes) =>
    (w.server.step (.connClosed c peerInitiated order tape)).map fun server ↦
      { w with
        server
        closes
        tick := .eventArm
        removedAt := if w.server.connections[c]?.isSome then
            Function.update w.removedAt c (some w.polls)
          else w.removedAt }
  | none => some { w with tick := .otherArms }

/-- The accept arm up to `conn.start`: the driver runs from here on. -/
def accept (w : World) (peerAddr : SocketAddr) : Option World :=
  (w.server.step (.newConn peerAddr)).map fun server ↦
    { w with
      server
      tick := .inserting
      drivers := Function.update w.drivers w.server.idCounter
        (some (.build w.server.idCounter w.server.nextRef)) }

/-- A result of `stream_recv` in the account of what was read. -/
def recorded (w : World) (d : StreamQuicDriver) (op : ReadOp) :
    ConnId → StreamId → List (Bytes × Bool) :=
  Function.update w.received d.connId (d.recorded (w.received d.connId) op)

/-- A call of the worker on its driver. -/
def driverStep (w : World) (d : StreamQuicDriver) : DriverOp → Option World
  | .read op =>
    (readStep d w.events op).map fun r ↦
      { w with
        events := r.events
        drivers := Function.update w.drivers d.connId (some r.driver)
        pending := w.pending ++ (r.sent.map fun ev ↦ ⟨d.connId, ev, w.polls⟩).toList
        received := w.recorded d op }
  | .write op =>
    (writeStep d (w.server.writes d.streamEventRecv) op).bind fun r ↦
      (w.server.step (.driverWrites d.streamEventRecv r.tx)).map fun server ↦
        { w with server, drivers := Function.update w.drivers d.connId (some r.driver) }
  | .onConnClose ended =>
    (onConnClose d w.closes ended).map fun (d', closes) ↦
      { w with closes, drivers := Function.update w.drivers d.connId (some d') }
  | .drop =>
    match d.point with
    | .closed =>
      (w.server.step (.driverWrites d.streamEventRecv
        (w.server.writes d.streamEventRecv).disconnect)).map fun server ↦ { w with server }
    | _ => none

/-- One step of the system. -/
def step (w : World) : Label → Option World
  | .enterTick => w.goOn .outside (some { w with tick := .eventArm })
  | .pollEvents tape => w.goOn .eventArm (w.pollEvents tape)
  | .pollCloses order tape => w.goOn .closeArm (w.pollCloses order tape)
  | .accept peerAddr => w.goOn .otherArms (w.accept peerAddr)
  | .insertConn =>
    w.goOn .inserting ((w.server.step .insertConn).map fun server ↦
      { w with server, tick := .eventArm })
  | .again => w.goOn .otherArms (some { w with tick := .eventArm })
  | .timer => w.goOn .otherArms (some { w with tick := .outside })
  | .call c => w.goOn .outside ((w.server.step (.call c)).map fun server ↦ { w with server })
  | .close conns orders tape =>
    w.goOn .outside ((w.server.step (.close conns orders tape)).map fun server ↦ { w with server })
  | .driver c op => (w.drivers c).bind fun d ↦ w.driverStep d op

/-- The system `QuicheServerSocket::__construct` leaves, `src/conn.rs:23–84`. -/
def start (streamCallback : Zval) : World where
  server := .bind (some streamCallback)
  events := .new SERVER_EVENT_CHANNEL_CAPACITY
  closes := .new CONN_CLOSE_CHANNEL_CAPACITY
  drivers _ := none
  tick := .outside
  polls := 0
  pending := []
  handled := []
  removedAt _ := none
  received _ _ := []

/-- The constructor checks its callable. -/
def Init (w : World) : Prop := ∃ callback : Zval, callback.isCallable = true ∧ w = start callback

end World

/-- Runs of the system. -/
def world : Machine World Label := ⟨World.Init, World.step⟩

/-- What a step of the system can do. -/
inductive Happens (w : World) : Label → World → Prop where
  | moved (l : Label) (p : TickPoint) (hl : l = .enterTick ∨ l = .again ∨ l = .timer)
      (ht : w.tick = .outside ∨ w.tick = .otherArms) (hp : p = .eventArm ∨ p = .outside) :
      Happens w l { w with tick := p }
  | noEvent (tape : List Script) (ht : w.tick = .eventArm) (hq : w.events.queue = []) :
      Happens w (.pollEvents tape) { w with tick := .closeArm, polls := w.polls + 1 }
  | dispatched (tape : List Script) (c : ConnId) (ev : DriverEvent)
      (rest : List (ConnId × DriverEvent)) (server : QuicheServerSocketImpl)
      (ht : w.tick = .eventArm) (hq : w.events.queue = (c, ev) :: rest)
      (hs : w.server.step (.driverEvent c ev tape) = some server) :
      Happens w (.pollEvents tape)
        { w with
          server
          events := { w.events with queue := rest }
          polls := w.polls + 1
          pending := w.pending.tail
          handled := w.handled ++ (w.pending.head?.map fun sent ↦
            ⟨sent, w.server.connections[c]?.isSome⟩).toList }
  | noClose (order : List StreamId) (tape : List Script) (ht : w.tick = .closeArm)
      (hq : w.closes.queue = []) :
      Happens w (.pollCloses order tape) { w with tick := .otherArms }
  | closed (order : List StreamId) (tape : List Script) (c : ConnId) (peerInitiated : Bool)
      (rest : List (ConnId × Bool)) (server : QuicheServerSocketImpl)
      (ht : w.tick = .closeArm) (hq : w.closes.queue = (c, peerInitiated) :: rest)
      (hs : w.server.step (.connClosed c peerInitiated order tape) = some server) :
      Happens w (.pollCloses order tape)
        { w with
          server
          closes := { w.closes with queue := rest }
          tick := .eventArm
          removedAt := if w.server.connections[c]?.isSome then
              Function.update w.removedAt c (some w.polls)
            else w.removedAt }
  | accepted (peerAddr : SocketAddr) (ht : w.tick = .otherArms)
      (hfree : w.server.Free ∧ w.server.listening = true) :
      Happens w (.accept peerAddr)
        { w with
          server := w.server.newConn peerAddr
          tick := .inserting
          drivers := Function.update w.drivers w.server.idCounter
            (some (.build w.server.idCounter w.server.nextRef)) }
  | inserted (c : ConnId) (st : ConnState) (ht : w.tick = .inserting)
      (hacc : w.server.accepting = some (c, st)) :
      Happens w .insertConn { w with server := w.server.insertConn c st, tick := .eventArm }
  | called (call : PhpCall) (server : QuicheServerSocketImpl) (ht : w.tick = .outside)
      (hs : w.server.step (.call call) = some server) : Happens w (.call call) { w with server }
  | serverClosed (conns : List ConnId) (orders : ConnId → List StreamId) (tape : List Script)
      (server : QuicheServerSocketImpl) (ht : w.tick = .outside)
      (hs : w.server.step (.close conns orders tape) = some server) :
      Happens w (.close conns orders tape) { w with server }
  | read (c : ConnId) (d : StreamQuicDriver) (op : ReadOp) (r : ReadResult)
      (hd : w.drivers c = some d) (hr : Reads d w.events op r) :
      Happens w (.driver c (.read op))
        { w with
          events := r.events
          drivers := Function.update w.drivers d.connId (some r.driver)
          pending := w.pending ++ (r.sent.map fun ev ↦ ⟨d.connId, ev, w.polls⟩).toList
          received := w.recorded d op }
  | wrote (c : ConnId) (d : StreamQuicDriver) (op : WriteOp) (r : WriteResult)
      (hd : w.drivers c = some d)
      (hr : Writes d (w.server.writes d.streamEventRecv) op r) :
      Happens w (.driver c (.write op))
        { w with
          server := { w.server with
            writes := Function.update w.server.writes d.streamEventRecv r.tx }
          drivers := Function.update w.drivers d.connId (some r.driver) }
  | ended (c : ConnId) (d : StreamQuicDriver) (ended : ConnEnd) (hd : w.drivers c = some d)
      (hp : d.point = .idle) :
      Happens w (.driver c (.onConnClose ended))
        { w with
          closes := if w.closes.HasRoom then
              { w.closes with queue := w.closes.queue ++ [(d.connId, ended.peerError.isSome)] }
            else w.closes
          drivers := Function.update w.drivers d.connId (some { d with point := .closed }) }
  | dropped (c : ConnId) (d : StreamQuicDriver) (hd : w.drivers c = some d)
      (hp : d.point = .closed) :
      Happens w (.driver c .drop)
        { w with
          server := { w.server with
            writes := Function.update w.server.writes d.streamEventRecv
              (w.server.writes d.streamEventRecv).disconnect } }

/-- The PHP thread goes on from that point. -/
theorem goOn_eq_some {w w' : World} {point : TickPoint} {next : Option World}
    (h : w.goOn point next = some w') : w.tick = point ∧ next = some w' := by
  unfold World.goOn at h
  split at h
  · next hp => exact ⟨hp.1, h⟩
  · cases h

private theorem driver_happens {w w' : World} {c : ConnId} {op : DriverOp}
    (h : w.step (.driver c op) = some w') : Happens w (.driver c op) w' := by
  obtain ⟨d, hd, h⟩ := Option.bind_eq_some_iff.mp h
  cases op with
  | read op =>
    obtain ⟨r, hr, rfl⟩ := Option.map_eq_some_iff.mp h
    exact .read c d op r hd (readStep_reads hr)
  | write op =>
    obtain ⟨r, hr, h⟩ := Option.bind_eq_some_iff.mp h
    obtain ⟨server, hs, rfl⟩ := Option.map_eq_some_iff.mp h
    cases hs
    exact .wrote c d op r hd (writeStep_writes hr)
  | onConnClose ended =>
    obtain ⟨⟨d', closes⟩, hr, rfl⟩ := Option.map_eq_some_iff.mp h
    obtain ⟨hp, rfl, rfl⟩ := onConnClose_eq_some hr
    exact .ended c d ended hd hp
  | drop =>
    simp only [World.driverStep] at h
    split at h
    · next hp =>
      obtain ⟨server, hs, rfl⟩ := Option.map_eq_some_iff.mp h
      cases hs
      exact .dropped c d hd hp
    · cases h

/-- The step function does nothing else. -/
theorem step_happens {w w' : World} {l : Label} (h : world.step w l = some w') :
    Happens w l w' := by
  cases l with
  | enterTick =>
    obtain ⟨ht, h⟩ := goOn_eq_some h
    cases h
    exact .moved _ _ (.inl rfl) (.inl ht) (.inl rfl)
  | again =>
    obtain ⟨ht, h⟩ := goOn_eq_some h
    cases h
    exact .moved _ _ (.inr (.inl rfl)) (.inr ht) (.inl rfl)
  | timer =>
    obtain ⟨ht, h⟩ := goOn_eq_some h
    cases h
    exact .moved _ _ (.inr (.inr rfl)) (.inr ht) (.inr rfl)
  | pollEvents tape =>
    obtain ⟨ht, h⟩ := goOn_eq_some h
    simp only [World.pollEvents] at h
    split at h
    · next c ev events he =>
      obtain ⟨rest, hq, rfl⟩ := Channel.tryRecv_eq_some.mp he
      obtain ⟨server, hs, rfl⟩ := Option.map_eq_some_iff.mp h
      exact .dispatched tape c ev rest server ht hq hs
    · next he =>
      cases h
      exact .noEvent tape ht (Channel.tryRecv_eq_none.mp he)
  | pollCloses order tape =>
    obtain ⟨ht, h⟩ := goOn_eq_some h
    simp only [World.pollCloses] at h
    split at h
    · next c b closes he =>
      obtain ⟨rest, hq, rfl⟩ := Channel.tryRecv_eq_some.mp he
      obtain ⟨server, hs, rfl⟩ := Option.map_eq_some_iff.mp h
      exact .closed order tape c b rest server ht hq hs
    · next he =>
      cases h
      exact .noClose order tape ht (Channel.tryRecv_eq_none.mp he)
  | accept peerAddr =>
    obtain ⟨ht, h⟩ := goOn_eq_some h
    obtain ⟨server, hs, rfl⟩ := Option.map_eq_some_iff.mp h
    simp only [QuicheServerSocketImpl.step] at hs
    split at hs
    · next hfree =>
      cases hs
      exact .accepted peerAddr ht hfree
    · cases hs
  | insertConn =>
    obtain ⟨ht, h⟩ := goOn_eq_some h
    obtain ⟨server, hs, rfl⟩ := Option.map_eq_some_iff.mp h
    obtain ⟨⟨c, st⟩, hacc, rfl⟩ := Option.map_eq_some_iff.mp hs
    exact .inserted c st ht hacc
  | call c =>
    obtain ⟨ht, h⟩ := goOn_eq_some h
    obtain ⟨server, hs, rfl⟩ := Option.map_eq_some_iff.mp h
    exact .called c server ht hs
  | close conns orders tape =>
    obtain ⟨ht, h⟩ := goOn_eq_some h
    obtain ⟨server, hs, rfl⟩ := Option.map_eq_some_iff.mp h
    exact .serverClosed conns orders tape server ht hs
  | driver c op => exact driver_happens h

/-- A step of the system keeps the server, or is a step of the server: an event where the
event arm is polled, and another step elsewhere. -/
theorem Happens.server {w w' : World} {l : Label} (h : Happens w l w') :
    w'.server = w.server ∨ ∃ k, w.server.step k = some w'.server ∧
      ((∃ tape, l = .pollEvents tape) ∨ ∀ c ev tape, k ≠ .driverEvent c ev tape) := by
  cases h with
  | moved l p hl ht hp => exact .inl rfl
  | noEvent tape ht hq => exact .inl rfl
  | noClose order tape ht hq => exact .inl rfl
  | dispatched tape c ev rest s ht hq hs => exact .inr ⟨_, hs, .inl ⟨tape, rfl⟩⟩
  | closed order tape c b rest s ht hq hs => exact .inr ⟨_, hs, .inr fun _ _ _ ↦ nofun⟩
  | accepted peerAddr ht hfree =>
    exact .inr ⟨.newConn peerAddr, if_pos hfree, .inr fun _ _ _ ↦ nofun⟩
  | inserted c st ht hacc =>
    exact .inr ⟨.insertConn, Option.map_eq_some_iff.mpr ⟨_, hacc, rfl⟩, .inr fun _ _ _ ↦ nofun⟩
  | called call s ht hs => exact .inr ⟨_, hs, .inr fun _ _ _ ↦ nofun⟩
  | serverClosed conns orders tape s ht hs => exact .inr ⟨_, hs, .inr fun _ _ _ ↦ nofun⟩
  | read c d op r hd hr => exact .inl rfl
  | wrote c d op r hd hr => exact .inr ⟨.driverWrites _ _, rfl, .inr fun _ _ _ ↦ nofun⟩
  | ended c d e hd hp => exact .inl rfl
  | dropped c d hd hp => exact .inr ⟨.driverWrites _ _, rfl, .inr fun _ _ _ ↦ nofun⟩

/-- The server of a reachable system is a reachable server. -/
theorem server_reachable {w : World} (h : world.Reachable w) : server.Reachable w.server := by
  refine h.map (f := World.server) ?_ fun w l w' hl ↦ ?_
  · rintro _ ⟨callback, -, rfl⟩
    exact ⟨_, rfl⟩
  · exact (step_happens hl).server.imp_right fun ⟨k, hk, _⟩ ↦ ⟨k, hk⟩

/-- The records of a reachable system carry the numbers the server gave out. -/
theorem registry_of_reachable {w : World} (h : world.Reachable w) : w.server.Registry := by
  obtain ⟨hand, hsound⟩ := (audited_of_reachable (server_reachable h)).sound
  exact hsound.registry

end ExtQuiche.System
