import ExtQuiche.Base.Machine
import ExtQuiche.Base.Pieces
import ExtQuiche.Driver.Writes
import ExtQuiche.Stream.Objects

/-!
# Conservation of written data

Library `Driver`. One connection's write path: `write` and `close` of its stream
objects, `src/stream.rs`, the bounded write channel, the queues of `pending_writes`
and the transport, `src/quiche/driver.rs:131–173`. What PHP has written on a stream is
cut into what the transport has taken, what is queued and what is in the channel, as
long as the transport gives no hard error on the stream.
-/

namespace ExtQuiche.Driver
open ExtQuiche.Base ExtQuiche.Conn ExtQuiche.Stream

/-- The driver, its write channel, and per stream what the transport has taken and
what PHP has written: the data and fin of every `write` that has returned, an empty fin
for a `close`. `failed` are the streams with a hard error so far. -/
structure Writer where
  driver : StreamQuicDriver
  tx : Channel StreamWriter
  accepted : StreamId → List (Piece UInt8)
  written : StreamId → List (Piece UInt8)
  failed : Finset StreamId

/-- A PHP call on a stream object, or a call of the driver. -/
inductive WriterLabel where
  | write (o : StreamObject) (data : Bytes) (fin : Bool)
  | close (o : StreamObject)
  | driver (op : WriteOp)

/-- A channel message as a chunk of its stream. -/
def pieceOf (chunk : StreamWriter) : Piece UInt8 := (chunk.2.1.getD [], chunk.2.2)

/-- Chunks of a stream among channel messages, oldest first. -/
def chunksOf (id : StreamId) (queue : List StreamWriter) : List (Piece UInt8) :=
  (queue.filter fun chunk ↦ chunk.1 == id).map pieceOf

/-- The head the current entry of `retain` would send. -/
def StreamQuicDriver.sending (d : StreamQuicDriver) : Option (StreamId × Piece UInt8) :=
  match d.point with
  | .flush (id :: _) => (queueOf d.pendingWrites id).head?.map fun p ↦ (id, p)
  | _ => none

/-- What the transport takes of a piece: `Ok(len)` all of it with the fin, `Ok(n)` the
first `n` bytes, an error nothing. -/
def taken (p : Piece UInt8) : Except QuicheError Nat → List (Piece UInt8)
  | .ok n => if n = p.1.length then [p] else if n = 0 then [] else [(p.1.take n, false)]
  | .error _ => []

/-- An answer to a send is within the transport's contract. -/
def Possible (p : Piece UInt8) : Except QuicheError Nat → Prop
  | .ok n => n ≤ p.1.length
  | .error _ => True

instance (p : Piece UInt8) : ∀ a, Decidable (Possible p a)
  | .ok n => inferInstanceAs (Decidable (n ≤ p.1.length))
  | .error _ => .isTrue trivial

/-- Streams with a hard error after an answer. -/
def failedAfter (failed : Finset StreamId) (id : StreamId) : Except QuicheError Nat → Finset StreamId
  | .ok _ => failed
  | .error .done => failed
  | .error _ => insert id failed

/-- A PHP call offers its chunk to the connection's channel. Once the call has returned, `p`,
what PHP gave, counts as written; a refused chunk is an exception and nothing else. -/
def Writer.offer (s : Writer) (id : StreamId) (p : Piece UInt8) (m : Outbound) : Option Writer :=
  if m.writeTx = s.driver.streamEventRecv then
    match m.trySend s.tx with
    | .ok tx =>
      some { s with tx, written := Function.update s.written id (s.written id ++ [p]) }
    | .error _ => some s
  else none

/-- The transport's account of a call. -/
def Writer.account (s : Writer) : WriteOp → Option Writer
  | .streamSend answer =>
    match s.driver.sending with
    | some (id, p) =>
      if Possible p answer then
        some { s with
          accepted := Function.update s.accepted id (s.accepted id ++ taken p answer)
          failed := failedAfter s.failed id answer }
      else none
    | none => none
  | _ => some s

/-- One step of the write path. -/
def Writer.step (s : Writer) : WriterLabel → Option Writer
  | .write o data fin => (o.write data fin).bind (s.offer o.streamId (data, fin))
  | .close o => o.close.bind (s.offer o.streamId ([], true))
  | .driver op =>
    (s.account op).bind fun s' ↦
      (writeStep s.driver s.tx op).map fun r ↦ { s' with driver := r.driver, tx := r.tx }

/-- A fresh connection. -/
def Writer.Init (s : Writer) : Prop :=
  ∃ connId chan, s = ⟨.build connId chan, .new WRITE_CHANNEL_CAPACITY, fun _ ↦ [], fun _ ↦ [], ∅⟩

/-- Runs of the write path of one connection. -/
def writer : Machine Writer WriterLabel := ⟨Writer.Init, Writer.step⟩

/-- The transport answers sends with `Ok` or `Done`. -/
def OkOrDone (_ : Writer) : WriterLabel → Prop
  | .driver (.streamSend (.error e)) => e = .done
  | _ => True

instance (s : Writer) : ∀ l, Decidable (OkOrDone s l)
  | .driver (.streamSend (.error e)) => inferInstanceAs (Decidable (e = .done))
  | .driver (.streamSend (.ok _)) | .driver .call | .driver .tryRecv | .driver (.retain _)
  | .driver .queueEmpty | .driver .finish | .write _ _ _ | .close _ => .isTrue trivial

/-- The transport takes nothing on a stream it has answered with a hard error. -/
def ErrorsFinal (s : Writer) : WriterLabel → Prop
  | .driver (.streamSend answer) =>
    ∀ x ∈ s.driver.sending, x.1 ∈ s.failed → taken x.2 answer = []
  | _ => True

instance (s : Writer) : ∀ l, Decidable (ErrorsFinal s l)
  | .driver (.streamSend answer) =>
    inferInstanceAs (Decidable
      (∀ x ∈ s.driver.sending, x.1 ∈ s.failed → taken x.2 answer = []))
  | .driver .call | .driver .tryRecv | .driver (.retain _) | .driver .queueEmpty
  | .driver .finish | .write _ _ _ | .close _ => .isTrue trivial

/-- What has not reached the transport: the queue, then the channel. -/
def Writer.waiting (s : Writer) (id : StreamId) : List (Piece UInt8) :=
  queueOf s.driver.pendingWrites id ++ chunksOf id s.tx.queue

/-- Every byte written on the stream is taken, queued or in the channel, in order; the
pieces are the written chunks cut before their last byte at most; and a fin, taken or
not, is on the last piece of its chunk, after every earlier byte of the stream. -/
structure Conserved (s : Writer) (id : StreamId) : Prop where
  bytes : symbols (s.accepted id) ++ symbols (queueOf s.driver.pendingWrites id) ++
    symbols (chunksOf id s.tx.queue) = symbols (s.written id)
  pieces : Cuts (s.accepted id ++ s.waiting id) (s.written id)
  fins : ∀ ps last qs, s.accepted id ++ s.waiting id = ps ++ (last, true) :: qs →
    ∃ ds c es, s.written id = ds ++ c :: es ∧ c.2 = true ∧ (c.1 ≠ [] → last ≠ []) ∧
      symbols (ps ++ [(last, true)]) = symbols (ds ++ [c])

/-- What the transport has taken is an initial part of what was written: no byte is
missing, a fin comes only at the end of its chunk, and no chunk is skipped. -/
structure Gapless (accepted written : List (Piece UInt8)) : Prop where
  bytes : symbols accepted <+: symbols written
  fins : ∀ ps last qs, accepted = ps ++ (last, true) :: qs →
    ∃ ds c es, written = ds ++ c :: es ∧ c.2 = true ∧
      symbols (ps ++ [(last, true)]) = symbols (ds ++ [c])
  noSkip : ∃ rest, Cuts (accepted ++ rest) written

/-- Without a hard error, what was taken and what waits is what was written. -/
private def Whole (s : Writer) (id : StreamId) : Prop :=
  id ∉ s.failed → Cuts (s.accepted id ++ s.waiting id) (s.written id)

/-- Some continuation of what was taken is what was written. -/
private def Continues (s : Writer) (id : StreamId) : Prop :=
  ∃ rest, Cuts (s.accepted id ++ rest) (s.written id)

private theorem chunksOf_snoc (id : StreamId) (queue : List StreamWriter) (c : StreamWriter) :
    chunksOf id (queue ++ [c]) =
      chunksOf id queue ++ if c.1 = id then [pieceOf c] else [] := by
  unfold chunksOf
  by_cases h : c.1 = id <;> simp [h]

private theorem chunksOf_cons (id : StreamId) (queue : List StreamWriter) (c : StreamWriter) :
    chunksOf id (c :: queue) = (if c.1 = id then [pieceOf c] else []) ++ chunksOf id queue := by
  unfold chunksOf
  by_cases h : c.1 = id <;> simp [h]

/-- What one step of the write path can do: a call of PHP, which is taken or refused, a step of
the driver that sends nothing, or a send. -/
inductive Writer.Moves (s : Writer) : WriterLabel → Writer → Prop where
  | offered (l : WriterLabel) (id : StreamId) (data : Bytes) (fin : Bool)
      (tx : Channel StreamWriter) (htx : s.tx.trySend (id, some data, fin) = .ok tx) :
      Moves s l
        { s with tx, written := Function.update s.written id (s.written id ++ [(data, fin)]) }
  | refused (l : WriterLabel) : Moves s l s
  | quiet (op : WriteOp) (r : WriteResult) (hr : Writes s.driver s.tx op r)
      (hop : ∀ answer, op ≠ .streamSend answer) :
      Moves s (.driver op) { s with driver := r.driver, tx := r.tx }
  | sent (id : StreamId) (todo : List StreamId) (bytes : Bytes) (fin : Bool)
      (rest : List (Bytes × Bool)) (answer : Except QuicheError Nat)
      (hp : s.driver.point = .flush (id :: todo))
      (hq : queueOf s.driver.pendingWrites id = (bytes, fin) :: rest)
      (hposs : Possible (bytes, fin) answer) :
      Moves s (.driver (.streamSend answer))
        { s with
          driver := { s.driver with
            pendingWrites := s.driver.pendingWrites.insert id (afterSend bytes fin rest answer).1
            point := if (afterSend bytes fin rest answer).2 then .flush (id :: todo)
              else .flush todo }
          accepted := Function.update s.accepted id (s.accepted id ++ taken (bytes, fin) answer)
          failed := failedAfter s.failed id answer }

private theorem moves_offer {s t : Writer} {l : WriterLabel} {o : StreamObject} {data : Bytes}
    {fin : Bool} {m : Outbound} (hm : o.Sends data fin m)
    (h : s.offer o.streamId (data, fin) m = some t) : s.Moves l t := by
  unfold Writer.offer at h
  split at h
  case isFalse => cases h
  split at h
  · next tx htx =>
    cases h
    exact .offered l _ data fin tx (hm.chunk ▸ Outbound.trySend_eq_ok.mp htx)
  · cases h
    exact .refused l

private theorem moves_driver {s t : Writer} {op : WriteOp}
    (h : writer.step s (.driver op) = some t) : s.Moves (.driver op) t := by
  obtain ⟨s', hs', hmap⟩ := Option.bind_eq_some_iff.mp h
  obtain ⟨r, hr, rfl⟩ := Option.map_eq_some_iff.mp hmap
  cases writeStep_writes hr with
  | sent id todo bytes fin rest answer hp hq =>
    simp only [Writer.account, StreamQuicDriver.sending, hp, hq, List.head?_cons,
      Option.map_some] at hs'
    split at hs'
    · next hposs =>
      cases hs'
      exact .sent id todo bytes fin rest answer hp hq hposs
    · cases hs'
  | call | drained | drainedAll | retain | emptied | finished =>
    cases hs'
    exact .quiet _ _ (writeStep_writes hr) (by simp)

/-- A step of the write path does nothing else. -/
theorem Writer.step_moves {s t : Writer} {l : WriterLabel} (h : writer.step s l = some t) :
    s.Moves l t := by
  cases l with
  | write o data fin =>
    obtain ⟨m, hm, hoffer⟩ := Option.bind_eq_some_iff.mp h
    exact moves_offer (.inl hm) hoffer
  | close o =>
    obtain ⟨m, hm, hoffer⟩ := Option.bind_eq_some_iff.mp h
    exact moves_offer (.inr ⟨hm, rfl, rfl⟩) hoffer
  | driver op => exact moves_driver h

/-- A chunk that moves from the channel to its queue keeps its place. -/
theorem enqueue_waiting (d : StreamQuicDriver) (c : StreamWriter) (rest : List StreamWriter)
    (id : StreamId) :
    queueOf (d.enqueue c).pendingWrites id ++ chunksOf id rest =
      queueOf d.pendingWrites id ++ chunksOf id (c :: rest) := by
  simp only [chunksOf_cons, StreamQuicDriver.enqueue, queueOf_insert]
  by_cases h : id = c.1
  · subst h
    simp [pieceOf]
  · simp [h, Ne.symm h]

/-- The sent piece, cut as the transport took it, then what the queue keeps. -/
private theorem cuts_afterSend {ps qs cs rest : List (Piece UInt8)} {p : Piece UInt8}
    {answer : Except QuicheError Nat} (hposs : Possible p answer)
    (hfailed : ∀ e, answer = .error e → e = .done)
    (h : Cuts (ps ++ p :: (rest ++ qs)) cs) :
    Cuts (ps ++ taken p answer ++ ((afterSend p.1 p.2 rest answer).1 ++ qs)) cs := by
  obtain ⟨bytes, fin⟩ := p
  cases answer with
  | error e =>
    rw [hfailed e rfl]
    simpa [taken, afterSend] using h
  | ok n =>
    by_cases hn : n = bytes.length
    · simpa [taken, afterSend, hn] using h
    · by_cases h0 : n = 0
      · subst h0
        have hb : ¬ 0 = bytes.length := hn
        simpa [taken, afterSend, hb] using h
      · have hdrop : bytes.drop n ≠ [] := by
          have hle : n ≤ bytes.length := hposs
          simp only [ne_eq, List.drop_eq_nil_iff]
          omega
        rw [← List.take_append_drop n bytes] at h
        simpa [taken, afterSend, hn, h0] using h.refine hdrop

private theorem failedAfter_error {failed : Finset StreamId} {id : StreamId}
    {answer : Except QuicheError Nat} (h : id ∉ failedAfter failed id answer) :
    id ∉ failed ∧ ∀ e, answer = .error e → e = .done := by
  cases answer with
  | ok n => exact ⟨h, by simp⟩
  | error e =>
    cases e <;> simp_all [failedAfter]

private theorem mem_failedAfter {failed : Finset StreamId} {id other : StreamId}
    {answer : Except QuicheError Nat} (ho : other ≠ id) :
    other ∈ failedAfter failed id answer ↔ other ∈ failed := by
  cases answer with
  | ok n => rfl
  | error e => cases e <;> simp [failedAfter, ho]

/-- A step of the driver that sends nothing leaves every stream's waiting pieces alone. -/
theorem Writes.waiting {s : Writer} {op : WriteOp} {r : WriteResult}
    (h : Writes s.driver s.tx op r) (hop : ∀ answer, op ≠ .streamSend answer) (id : StreamId) :
    queueOf r.driver.pendingWrites id ++ chunksOf id r.tx.queue = s.waiting id := by
  cases h with
  | call | drainedAll | retain | finished => rfl
  | drained chunk rest hp hq => rw [enqueue_waiting, Writer.waiting, hq]
  | emptied other todo hp hq =>
    rw [queueOf_erase, Writer.waiting]
    split
    · next heq => rw [heq, hq]
    · rfl
  | sent id todo bytes fin rest answer hp hq => exact absurd rfl (hop answer)

private theorem whole_init {s : Writer} (h : s.Init) (id : StreamId) : Whole s id := by
  obtain ⟨c, ch, rfl⟩ := h
  intro _
  simpa [Writer.waiting, StreamQuicDriver.build, chunksOf] using Cuts.nil

private theorem whole_step {s t : Writer} {l : WriterLabel} (hi : ∀ id, Whole s id)
    (h : s.Moves l t) (id : StreamId) : Whole t id := by
  cases h with
  | refused => exact hi id
  | quiet op r hr hop =>
    intro hf
    have hcuts := hi id hf
    rwa [← hr.waiting hop id] at hcuts
  | offered l other data fin tx htx =>
    intro hf
    have hq : tx.queue = s.tx.queue ++ [(other, some data, fin)] := by
      rw [(Channel.trySend_eq_ok.mp htx).2]
    have hcuts := hi id hf
    by_cases hid : other = id
    · subst hid
      simpa [Writer.waiting, hq, chunksOf_snoc, pieceOf] using hcuts.snoc (data, fin)
    · simpa [Writer.waiting, hq, chunksOf_snoc, hid, Function.update_of_ne (Ne.symm hid)]
        using hcuts
  | sent other todo bytes fin rest answer hp hq hposs =>
    intro hf
    by_cases hid : id = other
    · subst hid
      obtain ⟨hold, herr⟩ := failedAfter_error hf
      have hcuts := hi id hold
      rw [Writer.waiting, hq, List.cons_append] at hcuts
      simpa [Writer.waiting] using cuts_afterSend hposs herr hcuts
    · have hcuts := hi id fun h ↦ hf ((mem_failedAfter hid).mpr h)
      simpa [Writer.waiting, Function.update_of_ne hid, hid] using hcuts

/-- Without a hard error on the stream, everything written on it has been taken or waits, in
order, cut before a chunk's last byte at most; whatever happened on the other streams. -/
theorem whole_of_reachable {s : Writer} (hs : writer.Reachable s) {id : StreamId}
    (hf : id ∉ s.failed) : Cuts (s.accepted id ++ s.waiting id) (s.written id) := by
  have hi : ∀ id, Whole s id :=
    hs.invariant (fun _ h ↦ whole_init h) fun _ _ _ _ hi _ ht ↦
      whole_step hi (Writer.step_moves ht)
  exact hi id hf

private theorem continues_step {s t : Writer} {l : WriterLabel} (hw : ∀ id, Whole t id)
    (hi : ∀ id, Continues s id) (hok : ErrorsFinal s l) (h : s.Moves l t) (id : StreamId) :
    Continues t id := by
  -- once a stream has failed, only what was written on it grows
  by_cases hf : id ∈ t.failed
  case neg => exact ⟨_, hw id hf⟩
  obtain ⟨rest, hcuts⟩ := hi id
  cases h with
  | refused | quiet => exact ⟨rest, hcuts⟩
  | offered l other data fin tx htx =>
    by_cases hid : other = id
    · subst hid
      refine ⟨rest ++ [(data, fin)], ?_⟩
      rw [← List.append_assoc]
      simpa using hcuts.snoc (data, fin)
    · exact ⟨rest, by simpa [Function.update_of_ne (Ne.symm hid)] using hcuts⟩
  | sent other todo bytes fin queue answer hp hq hposs =>
    by_cases hid : id = other
    · subst hid
      have htaken : taken (bytes, fin) answer = [] := by
        by_cases hold : id ∈ s.failed
        · exact hok (id, (bytes, fin)) (by simp [StreamQuicDriver.sending, hp, hq]) hold
        · cases answer with
          | ok n => exact absurd hf hold
          | error e => rfl
      exact ⟨rest, by simpa [htaken] using hcuts⟩
    · exact ⟨rest, by simpa [Function.update_of_ne hid] using hcuts⟩

private theorem continues_of_reachable {s : Writer} (hs : writer.ReachableWhile ErrorsFinal s)
    (id : StreamId) : Continues s id := by
  refine hs.invariant (I := fun s ↦ ∀ id, Continues s id) ?_ ?_ id
  · intro s h id
    obtain ⟨c, ch, rfl⟩ := h
    exact ⟨[], .nil⟩
  · intro s l t hs hi hok ht
    have ht' : writer.Reachable t := .step l (hs.mono fun _ _ _ ↦ trivial) trivial ht
    exact continues_step (fun id ↦ whole_of_reachable ht') hi hok (Writer.step_moves ht)

private theorem failed_step {s t : Writer} {l : WriterLabel} (hf : s.failed = ∅)
    (hok : OkOrDone s l) (h : s.Moves l t) : t.failed = ∅ := by
  cases h with
  | refused | quiet | offered => exact hf
  | sent id todo bytes fin rest answer hp hq hposs =>
    cases answer with
    | ok n => exact hf
    | error e =>
      obtain rfl : e = .done := hok
      exact hf

/-- Without hard errors every byte written on a stream is taken by the transport,
queued or in the channel, in order and once, and every fin stays at the end of its
chunk. `src/stream.rs:67–83,251–267,306–322`, `src/quiche/driver.rs:131–173`. -/
theorem written_conserved {s : Writer} (hs : writer.ReachableWhile OkOrDone s) (id : StreamId) :
    Conserved s id := by
  have hf : s.failed = ∅ := by
    refine hs.invariant (I := fun s ↦ s.failed = ∅) ?_ fun _ _ _ _ hf hok ht ↦
      failed_step hf hok (Writer.step_moves ht)
    rintro _ ⟨c, ch, rfl⟩
    rfl
  have hcuts : Cuts (s.accepted id ++ s.waiting id) (s.written id) :=
    whole_of_reachable (hs.mono fun _ _ _ ↦ trivial) (by simp [hf])
  refine ⟨?_, hcuts, ?_⟩
  · rw [← hcuts.symbols_eq]
    simp [Writer.waiting]
  · intro ps last qs he
    rw [he] at hcuts
    obtain ⟨ds, c, es, hw, hc, hl, hleft, -⟩ := hcuts.at_mark
    exact ⟨ds, c, es, hw, hc, hl, hleft.symbols_eq⟩

/-- A fresh connection, all ends numbered 0. -/
def freshWriter : Writer :=
  ⟨.build 0 0, .new WRITE_CHANNEL_CAPACITY, fun _ ↦ [], fun _ ↦ [], ∅⟩

private theorem freshWriter_reached (ok : Writer → WriterLabel → Prop) :
    writer.ReachableWhile ok freshWriter := .init ⟨0, 0, rfl⟩

/-- The server-initiated uni stream 3 of that connection. -/
def uniStream3 : StreamObject := .uni ⟨0, 3, 0, 0, ⟨0, .close⟩⟩

/-- A pass over one chunk in the channel, with the transport's answer to its send. -/
def passOver (answer : Except QuicheError Nat) (last : WriteOp) : List WriterLabel :=
  [.driver .call, .driver .tryRecv, .driver .tryRecv, .driver (.retain [3]),
    .driver (.streamSend answer), .driver last]

/-- `"ab"` with a fin, of which the transport has taken `"a"`. -/
theorem partialWrite_conserved :
    ∃ s, writer.run freshWriter (.write uniStream3 [97, 98] true :: passOver (.ok 1) .finish) =
        some s ∧ s.accepted 3 = [([97], false)] ∧ Conserved s 3 := by
  have h : (writer.run freshWriter
      (.write uniStream3 [97, 98] true :: passOver (.ok 1) .finish)).map (·.accepted 3) =
        some [([97], false)] := by decide
  obtain ⟨s, hs, ha⟩ := Option.map_eq_some_iff.mp h
  exact ⟨s, hs, ha, written_conserved
    ((freshWriter_reached _).run (by decide) hs) 3⟩

/-- Where hard errors are final, what the transport has taken on a stream is at all
times an initial part of what was written on it. `src/quiche/driver.rs:147–168`. -/
theorem accepted_gapless {s : Writer} (hs : writer.ReachableWhile ErrorsFinal s) (id : StreamId) :
    Gapless (s.accepted id) (s.written id) := by
  obtain ⟨rest, hcuts⟩ := continues_of_reachable hs id
  refine ⟨?_, ?_, rest, hcuts⟩
  · rw [← hcuts.symbols_eq, symbols_append]
    exact List.prefix_append _ _
  · intro ps last qs he
    rw [he, List.append_assoc, List.cons_append] at hcuts
    obtain ⟨ds, c, es, hw, hc, -, hleft, -⟩ := hcuts.at_mark
    exact ⟨ds, c, es, hw, hc, hleft.symbols_eq⟩

/-- `"a"` is taken, then the peer stops the stream: `"b"` is dropped and nothing more
is taken. -/
theorem stopped_gapless :
    ∃ s, writer.run freshWriter
        ([.write uniStream3 [97] false] ++ passOver (.ok 1) .queueEmpty ++ [.driver .finish] ++
          [.write uniStream3 [98] false] ++
          passOver (.error (.streamStopped 0)) .queueEmpty) = some s ∧
      s.written 3 = [([97], false), ([98], false)] ∧ Gapless (s.accepted 3) (s.written 3) := by
  have h : (writer.run freshWriter
        ([.write uniStream3 [97] false] ++ passOver (.ok 1) .queueEmpty ++ [.driver .finish] ++
          [.write uniStream3 [98] false] ++
          passOver (.error (.streamStopped 0)) .queueEmpty)).map (·.written 3) =
      some [([97], false), ([98], false)] := by decide
  obtain ⟨s, hs, hw⟩ := Option.map_eq_some_iff.mp h
  exact ⟨s, hs, hw, accepted_gapless
    ((freshWriter_reached _).run (by decide) hs) 3⟩

/-- `StreamLimit` drops `"a"`; once the peer has raised the limit `"b"` is taken. -/
theorem streamLimit_gap :
    ∃ s, writer.run freshWriter
        ([.write uniStream3 [97] false] ++ passOver (.error .streamLimit) .queueEmpty ++
          [.driver .finish] ++ [.write uniStream3 [98] false] ++ passOver (.ok 1) .queueEmpty) =
        some s ∧
      s.written 3 = [([97], false), ([98], false)] ∧ s.accepted 3 = [([98], false)] ∧
      ¬ Gapless (s.accepted 3) (s.written 3) := by
  have h : (writer.run freshWriter
        ([.write uniStream3 [97] false] ++ passOver (.error .streamLimit) .queueEmpty ++
          [.driver .finish] ++ [.write uniStream3 [98] false] ++
          passOver (.ok 1) .queueEmpty)).map (fun s ↦ (s.written 3, s.accepted 3)) =
      some ([([97], false), ([98], false)], [([98], false)]) := by decide
  obtain ⟨s, hs, he⟩ := Option.map_eq_some_iff.mp h
  obtain ⟨hw, ha⟩ := Prod.mk.inj he
  refine ⟨s, hs, hw, ha, ?_⟩
  rw [hw, ha]
  intro hbad
  exact absurd hbad.bytes (by decide)

end ExtQuiche.Driver
