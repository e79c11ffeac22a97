import ExtQuiche.Base.History
import ExtQuiche.Driver.Conservation
import ExtQuiche.Server.Isolation
import ExtQuiche.System.Lifecycle

/-!
# The write paths of the system

Library `System`. What PHP writes enters the write channels from method calls of its
stream objects, inside and outside callbacks (`src/stream.rs:67–83,251–267,306–322`), and
leaves them in the write passes of the drivers (`src/quiche/driver.rs:131–173`). With an
account of both ends, the write path of every connection is a run of the write path of
one connection, whatever the other connections, the reads and the server loop do.
-/

namespace ExtQuiche.System
open ExtQuiche.Base ExtQuiche.Conn ExtQuiche.Driver ExtQuiche.Server ExtQuiche.Stream

/-- What PHP has written on a stream with the calls on some of the objects, in call order. -/
def writtenBy (mine : StreamObject → Bool) (calls : List Submission) (id : StreamId) :
    List (Piece UInt8) :=
  (calls.filter fun call ↦ mine call.object && call.object.streamId == id).map fun call ↦
    (call.data, call.fin)

/-- What PHP has written on the streams of a connection: the data and fin of every `write` that
has returned without an exception, an empty fin for a `close`. -/
def written (s : QuicheServerSocketImpl) (c : ConnId) : StreamId → List (Piece UInt8) :=
  writtenBy (·.connId == c) s.submitted

/-- Per connection, what its transport has taken; `failed` are the streams with a hard error
so far. -/
structure Outbox where
  accepted : ConnId → StreamId → List (Piece UInt8)
  failed : ConnId → Finset StreamId

/-- An answer of a transport to the send of a queue's head. -/
structure SendResult where
  connId : ConnId
  streamId : StreamId
  piece : Piece UInt8
  answer : Except QuicheError Nat

/-- The send of a step, with its answer. -/
def World.sends (w : World) : Label → Option SendResult
  | .driver c (.write (.streamSend answer)) =>
    (w.drivers c).bind fun d ↦ d.sending.map fun x ↦ ⟨c, x.1, x.2, answer⟩
  | _ => none

/-- What a send adds to the account. -/
def Outbox.settle (o : Outbox) : Option SendResult → Outbox
  | some r =>
    { accepted := Function.update o.accepted r.connId
        (Function.update (o.accepted r.connId) r.streamId
          (o.accepted r.connId r.streamId ++ taken r.piece r.answer))
      failed := Function.update o.failed r.connId
        (failedAfter (o.failed r.connId) r.streamId r.answer) }
  | none => o

/-- The account of the transports. -/
def outbox : Account World Label Outbox where
  start := ⟨fun _ _ ↦ [], fun _ ↦ ∅⟩
  add o w l _ := o.settle (w.sends l)

/-- The write path of a connection as a state of its own machine. -/
def writerOf (w : World) (o : Outbox) (c : ConnId) (d : StreamQuicDriver) : Writer where
  driver := d.writing
  tx := w.server.writes c
  accepted := o.accepted c
  written := written w.server c
  failed := o.failed c

/-- A condition on the answers to sends and on nothing else. -/
def OfSends (ok : Writer → WriterLabel → Prop) : Prop :=
  ∀ x l, (∀ answer, l ≠ .driver (.streamSend answer)) → ok x l

/-- Every send of the connection is answered within the transport's contract, and as `ok` admits
in the state of its write path; the other connections' transports answer as they like. -/
def EachSend (c : ConnId) (ok : Writer → WriterLabel → Prop) (p : World × Outbox) (l : Label) :
    Prop :=
  ∀ r ∈ p.1.sends l, r.connId = c → Possible r.piece r.answer ∧
    ∀ d ∈ p.1.drivers c, ok (writerOf p.1 p.2 c d) (.driver (.streamSend r.answer))

instance (c : ConnId) (ok : Writer → WriterLabel → Prop) [∀ x l, Decidable (ok x l)]
    (p : World × Outbox) (l : Label) : Decidable (EachSend c ok p l) :=
  inferInstanceAs (Decidable (∀ r ∈ p.1.sends l, r.connId = c → _ ∧ ∀ d ∈ p.1.drivers c, _))

section

variable {s t : QuicheServerSocketImpl} {c : ConnId}

/-- What a handler does to write channels, objects and the account of the writes are the calls
of its callbacks, and the objects of the streams it announces. -/
private theorem stable_of_effects
    {I : (ChanRef → Channel StreamWriter) → List StreamObject → List Submission → Prop}
    (heffect : ∀ u u', I u.writes u.objects u.submitted → Effect u u' →
      I u'.writes u'.objects u'.submitted)
    (hobject : ∀ writes objects calls o, I writes objects calls → I writes (objects ++ [o]) calls) :
    Stable (fun _ _ ↦ True) (fun _ _ ↦ True) fun u ↦ I u.writes u.objects u.submitted where
  grows _ _ _ _ h := h
  callback _ _ hs := callback_of_effect heffect hs
  fireOnClose _ _ _ hs := hs
  firedOnClose _ hs := hs
  announced _ _ _ _ hs := hobject _ _ _ _ hs
  removed _ hs := hs
  emptied _ hs := hs
  hung _ hs := hs

/-- What every call keeps of the write channels, every step of the PHP thread keeps that creates
no connection. -/
theorem keeps_of_effects
    {I : (ChanRef → Channel StreamWriter) → List StreamObject → List Submission → Prop}
    (heffect : ∀ u u', I u.writes u.objects u.submitted → Effect u u' →
      I u'.writes u'.objects u'.submitted)
    (hobject : ∀ writes objects calls o, I writes objects calls → I writes (objects ++ [o]) calls)
    {k : Server.Label} (hk : s.step k = some t) (hnew : ∀ peerAddr, k ≠ .newConn peerAddr)
    (hdriver : ∀ ref tx, k ≠ .driverWrites ref tx) (h0 : I s.writes s.objects s.submitted) :
    I t.writes t.objects t.submitted := by
  have hstable := stable_of_effects heffect hobject
  cases k with
  | newConn peerAddr => exact absurd rfl (hnew peerAddr)
  | driverWrites ref tx => exact absurd rfl (hdriver ref tx)
  | insertConn =>
    obtain ⟨⟨c', st⟩, -, rfl⟩ := Option.map_eq_some_iff.mp hk
    exact h0
  | driverEvent c' ev tape =>
    exact hstable.step_driverEvent hk h0 (fun _ _ ↦ trivial) (fun _ _ _ _ _ _ _ ↦ trivial)
      (fun _ _ _ _ _ ↦ trivial) fun _ _ _ _ _ _ _ _ ↦ trivial
  | connClosed c' b order tape =>
    exact hstable.step_connClosed hk (fun _ ↦ h0) h0 (fun _ _ _ ↦ trivial)
      fun _ _ _ _ _ ↦ trivial
  | close conns orders tape =>
    exact hstable.step_close hk h0 (fun _ _ ↦ trivial) (fun _ _ _ _ _ _ ↦ trivial)
      (fun _ _ hu ↦ hu) fun _ hu ↦ hu
  | call c' => exact hstable.step_call hk heffect h0

/-- Every call in the account was made on an object that can send, and the object is kept. -/
def Honest (s : QuicheServerSocketImpl) : Prop :=
  ∀ call ∈ s.submitted, call.object ∈ s.objects ∧ ∃ m, call.object.Sends call.data call.fin m

private theorem Honest.effect (hs : Honest s) (h : Effect s t) : Honest t := by
  intro call hcall
  cases h with
  | sent o ho data fin m hm tx htx =>
    rcases List.mem_append.mp hcall with hold | hnew
    · exact hs call hold
    · obtain rfl := List.mem_singleton.mp hnew
      exact ⟨ho, m, hm⟩
  | opened o ho handle hh streamId new hnew =>
    exact (hs call hcall).imp_left (List.mem_append_left _)
  | _ => exact hs call hcall

private theorem lasting_honest : Lasting Honest where
  stable :=
    { grows := fun _ _ _ _ hA ↦ hA
      callback := fun _ _ hs ↦ callback_of_effect (fun _ _ hs he ↦ hs.effect he) hs
      fireOnClose := fun _ _ _ hs ↦ hs
      firedOnClose := fun _ hs ↦ hs
      announced := fun _ _ _ _ hs call hcall ↦ (hs call hcall).imp_left (List.mem_append_left _)
      removed := fun _ hs ↦ hs
      emptied := fun _ hs ↦ hs
      hung := fun _ hs ↦ hs }
  effect _ _ hs he := hs.effect he
  newConn _ _ hs := hs
  insertConn _ _ _ _ hs := hs
  forgotten _ _ hs := hs
  rest _ _ _ _ hs := hs

/-- The account is one of calls on objects. -/
theorem honest_of_reachable (h : server.Reachable s) : Honest s :=
  lasting_honest.of_reachable (fun _ _ hno ↦ absurd hno List.not_mem_nil) h

/-- The object sends on the connection's write channel. -/
def onChannel (c : ConnId) (o : StreamObject) : Bool := o.writeTx? == some c

/-- The objects of a connection are those that send on its channel. -/
theorem written_eq (h : server.Reachable s) (c : ConnId) :
    written s c = writtenBy (onChannel c) s.submitted := by
  funext id
  unfold written writtenBy
  congr 1
  refine List.filter_congr fun call hcall ↦ ?_
  obtain ⟨hobj, m, hm⟩ := honest_of_reachable h call hcall
  have hown : m.writeTx = call.object.connId :=
    (((owned_of_reachable h).objects _ hobj).outbound m
      (hm.imp (fun hm ↦ ⟨_, _, hm⟩) And.left)).1
  simp [onChannel, hm.writeTx, hown]

/-- A call on one of the objects is the last one written on its stream. -/
private theorem writtenBy_mine {mine : StreamObject → Bool} {call : Submission}
    (h : mine call.object = true) (calls : List Submission) :
    writtenBy mine (calls ++ [call]) = Function.update (writtenBy mine calls) call.object.streamId
      (writtenBy mine calls call.object.streamId ++ [(call.data, call.fin)]) := by
  funext id
  by_cases hid : id = call.object.streamId
  · subst hid
    simp [writtenBy, h]
  · simp [writtenBy, hid, Ne.symm hid]

/-- A call on another object is not among them. -/
private theorem writtenBy_other {mine : StreamObject → Bool} {call : Submission}
    (h : mine call.object = false) (calls : List Submission) :
    writtenBy mine (calls ++ [call]) = writtenBy mine calls := by
  funext id
  simp [writtenBy, h]

/-- A state of the write path, with the channel and the account of the server in it. -/
private def fed (x : Writer) (c : ConnId) (writes : ChanRef → Channel StreamWriter)
    (calls : List Submission) : Writer :=
  { x with tx := writes c, written := writtenBy (onChannel c) calls }

section

variable {ok : Writer → WriterLabel → Prop} {x y : Writer}

/-- A method call whose chunk is taken by the channel is a step of the write path. -/
private theorem reachable_offered (hok : OfSends ok) (hy : writer.ReachableWhile ok y)
    {o : StreamObject} {data : Bytes} {fin : Bool} {m : Outbound} (hm : o.Sends data fin m)
    {z : Writer} (hoffer : y.offer o.streamId (data, fin) m = some z) :
    writer.ReachableWhile ok z := by
  rcases hm with hm | ⟨hm, rfl, rfl⟩
  · have hstep : writer.step y (.write o data fin) = y.offer o.streamId (data, fin) m :=
      congrArg (·.bind (y.offer o.streamId (data, fin))) hm
    exact .step (.write o data fin) hy (hok _ _ (by simp)) (hstep.trans hoffer)
  · have hstep : writer.step y (.close o) = y.offer o.streamId ([], true) m :=
      congrArg (·.bind (y.offer o.streamId ([], true))) hm
    exact .step (.close o) hy (hok _ _ (by simp)) (hstep.trans hoffer)

/-- Every effect of a call is a step of the write path, or none. -/
private theorem fed_effect (hok : OfSends ok) (hd : x.driver.streamEventRecv = c)
    (h : writer.ReachableWhile ok (fed x c s.writes s.submitted)) (he : Effect s t) :
    writer.ReachableWhile ok (fed x c t.writes t.submitted) := by
  cases he with
  | sent o ho data fin m hm tx htx =>
    have hmine := hm.writeTx
    by_cases hc : m.writeTx = c
    · subst hc
      refine reachable_offered hok h hm ?_
      simp only [Writer.offer, fed, hd, if_true, htx, QuicheServerSocketImpl.accounted,
        QuicheServerSocketImpl.sent, Function.update_self]
      rw [writtenBy_mine (by simp [onChannel, hmine])]
    · simp only [fed, QuicheServerSocketImpl.accounted, QuicheServerSocketImpl.sent,
        Function.update_of_ne (Ne.symm hc)]
      rw [writtenBy_other (by simp [onChannel, hmine, hc])]
      exact h
  | _ => exact h

/-- A step of the PHP thread that creates no connection makes steps of every write path. -/
theorem fed_step (hok : OfSends ok) (hd : x.driver.streamEventRecv = c)
    (hx : writer.ReachableWhile ok x) (htx : x.tx = s.writes c)
    (hwritten : x.written = writtenBy (onChannel c) s.submitted) {k : Server.Label}
    (hk : s.step k = some t) (hnew : ∀ peerAddr, k ≠ .newConn peerAddr)
    (hdriver : ∀ ref tx, k ≠ .driverWrites ref tx) :
    writer.ReachableWhile ok
      { x with tx := t.writes c, written := writtenBy (onChannel c) t.submitted } := by
  have h0 : fed x c s.writes s.submitted = x := by
    unfold fed
    rw [← htx, ← hwritten]
  exact keeps_of_effects (I := fun writes _ calls ↦ writer.ReachableWhile ok (fed x c writes calls))
    (fun _ _ hu he ↦ fed_effect hok hd hu he) (fun _ _ _ _ hu ↦ hu) hk hnew hdriver
    (h0.symm ▸ hx)

end

/-- A channel without room takes nothing in a step of the PHP thread that creates no connection,
and nothing counts as written on it. -/
theorem full_step {k : Server.Label} (hk : s.step k = some t)
    (hnew : ∀ peerAddr, k ≠ .newConn peerAddr) (hdriver : ∀ ref tx, k ≠ .driverWrites ref tx)
    (hfull : ¬ (s.writes c).HasRoom) :
    t.writes c = s.writes c ∧
      writtenBy (onChannel c) t.submitted = writtenBy (onChannel c) s.submitted := by
  apply keeps_of_effects (I := fun writes _ calls ↦ writes c = s.writes c ∧
    writtenBy (onChannel c) calls = writtenBy (onChannel c) s.submitted) ?_
    (fun _ _ _ _ hu ↦ hu) hk hnew hdriver ⟨rfl, rfl⟩
  rintro u u' ⟨hwrites, hwritten⟩ he
  cases he with
  | sent o ho data fin m hm tx htx =>
    have hne : m.writeTx ≠ c := by
      rintro rfl
      obtain ⟨hroom, -⟩ := Channel.trySend_eq_ok.mp (Outbound.trySend_eq_ok.mp htx)
      exact hfull (hwrites ▸ hroom)
    exact ⟨(Function.update_of_ne hne.symm ..).trans hwrites,
      (writtenBy_other (by simp [onChannel, hm.writeTx, hne]) _).trans hwritten⟩
  | _ => exact ⟨hwrites, hwritten⟩

end

end ExtQuiche.System
