import ExtQuiche.Base.Drain
import ExtQuiche.Base.Locking
import ExtQuiche.Stream.Objects
import Mathlib.Logic.Function.Basic

/-!
# The server and what the PHP thread shares with it

Library `Server`. `QuicheServerSocketImpl` of `src/quiche/socket.rs:34–57` without its two
receivers, which the drivers share, and the heap of everything an `Arc` points to. All
callbacks and all stream objects live on the PHP thread, so its programs run one at a
time over this record. The log and the account of the writes are for the reader of a run
only: no program looks at them.
-/

namespace ExtQuiche.Server
open ExtQuiche.Base ExtQuiche.Conn ExtQuiche.Stream

/-- The `parking_lot` mutexes of the extension. -/
inductive MutexRef where
  | slot (r : SlotRef)
  | slotsMap (r : MapRef)
  | streamCallback
  deriving DecidableEq, Repr

/-- A method call on a stream object, named by its place among all objects. -/
inductive PhpCall where
  | setOnData (obj : Nat) (callback : Zval)
  | setOnClose (obj : Nat) (callback : Zval)
  | write (obj : Nat) (data : Bytes) (fin : Bool)
  | close (obj : Nat)
  | openBidiStream (obj : Nat) (streamId : StreamId)
  | openUniStream (obj : Nat) (streamId : StreamId)
  deriving DecidableEq, Repr

/-- What one run of a callback does: its method calls, whatever it made of their
results, and the exception it ends with, if any. -/
structure Script where
  calls : List PhpCall
  throws : Option PhpException
  deriving DecidableEq, Repr

/-- The three kinds of callback invocations with their arguments. -/
inductive Invocation where
  | stream (connId : ConnId) (streamId : StreamId) (obj : Nat)
  | onData (slot : SlotRef) (connId : ConnId) (streamId : StreamId) (data : Bytes) (fin : Bool)
  | onClose (slot : SlotRef) (peerClosed : Bool)
  deriving DecidableEq, Repr

/-- Pair of the invoked slot. -/
def Invocation.pair? : Invocation → Option Nat
  | .stream _ _ _ => none
  | .onData slot _ _ _ _ => some slot.pair
  | .onClose slot _ => some slot.pair

/-- Who registers a stream: the dispatcher for the peer, or PHP. -/
inductive Origin where
  | announced
  | opened
  deriving DecidableEq, Repr

/-- One `insert` into a slot map, with what it found: the entry it replaced, and whether
the map is the one of a connection in `connections`. -/
structure Insertion where
  origin : Origin
  connId : ConnId
  map : MapRef
  streamId : StreamId
  slots : StreamSlots
  replaced : Option StreamSlots
  attached : Bool
  deriving DecidableEq, Repr

/-- One run of a callback: the mutexes held around it, the objects that existed when it
began and the script it followed. -/
structure CallbackRun where
  invocation : Invocation
  held : List MutexRef
  objects : List StreamObject
  script : Script
  deriving DecidableEq, Repr

/-- What happens on the PHP thread, in order. -/
inductive Obs where
  | inserted (i : Insertion)
  | invoked (r : CallbackRun)
  | fireOnClose (slot : SlotRef) (peerClosed : Bool)
  | firedOnClose (slot : SlotRef)
  deriving DecidableEq, Repr

/-- A `write` of PHP on a stream object, with its data and fin; a `close` is an empty fin. -/
structure Submission where
  object : StreamObject
  data : Bytes
  fin : Bool
  deriving DecidableEq, Repr

/-- `src/quiche/socket.rs:34–57`; `accepting` is the record of the accept arm between
`conn.start` and its insertion, `tape` the scripts of the callbacks to come, `submitted` the
writes and closes that have returned without an exception, and `hung` the mutex on which the
PHP thread waits for itself. -/
structure QuicheServerSocketImpl where
  connections : Std.ExtTreeMap ConnId ConnState
  idCounter : ConnId
  listening : Bool
  streamCallback : Option Zval
  accepting : Option (ConnId × ConnState)
  nextPair : Nat
  nextRef : Nat
  slots : SlotRef → Option Zval
  maps : MapRef → Std.ExtTreeMap StreamId StreamSlots
  writes : ChanRef → Channel StreamWriter
  permits : NotifyRef → Bool
  objects : List StreamObject
  tape : List Script
  log : List Obs
  submitted : List Submission
  hung : Option MutexRef

/-- Programs of the PHP thread. -/
abbrev PhpM := Locking MutexRef QuicheServerSocketImpl

namespace QuicheServerSocketImpl

/-- The server `bind` returns, `src/quiche/socket.rs:60–105`. -/
def bind (streamCallback : Option Zval) : QuicheServerSocketImpl where
  connections := ∅
  idCounter := 0
  listening := true
  streamCallback
  accepting := none
  nextPair := 0
  nextRef := 0
  slots _ := none
  maps _ := ∅
  writes _ := .new 0
  permits _ := false
  objects := []
  tape := []
  log := []
  submitted := []
  hung := none

/-- The program runs to its end or to a mutex the thread already holds. -/
def exec (s : QuicheServerSocketImpl) (prog : PhpM PUnit) : QuicheServerSocketImpl :=
  { (Locking.exec prog s).1 with hung := (Locking.exec prog s).2 }

/-- An entry has been appended to the log. -/
def noted (s : QuicheServerSocketImpl) (e : Obs) : QuicheServerSocketImpl :=
  { s with log := s.log ++ [e] }

end QuicheServerSocketImpl

/-- Append to the log. -/
def note (e : Obs) : PhpM PUnit := Locking.modifyData (·.noted e)

end ExtQuiche.Server
