import ExtQuiche.Driver.Conservation

/-!
# Writes without back-pressure

Library `Driver`. The write channel holds 256 chunks, `src/quiche/conn.rs:159`, but every pass of
`process_writes` first moves all of them into `pending_writes`, `src/quiche/driver.rs:134–142`,
whose queues have no bound. A transport that takes nothing is therefore never felt by PHP.
-/

namespace ExtQuiche.Driver
open ExtQuiche.Base ExtQuiche.Conn ExtQuiche.Stream

section

variable {s t u : Writer}

/-- The channel of a connection is open, and holds nothing in reserve. -/
private def OpenTx (s : Writer) : Prop :=
  ∃ queue, s.tx = ⟨WRITE_CHANNEL_CAPACITY, queue, 0, true⟩

private theorem openTx_step {l : WriterLabel} (hi : OpenTx s) (h : s.Moves l t) : OpenTx t := by
  obtain ⟨queue, hq⟩ := hi
  cases h with
  | refused | sent => exact ⟨queue, hq⟩
  | offered l id data fin tx htx =>
    rw [hq] at htx
    obtain ⟨-, rfl⟩ := Channel.trySend_eq_ok.mp htx
    exact ⟨_, rfl⟩
  | quiet op r hr hop =>
    cases hr with
    | drained chunk rest hp hq' => exact ⟨rest, by simp [hq]⟩
    | _ => exact ⟨queue, hq⟩

private theorem openTx_of_reachable (h : writer.Reachable s) : OpenTx s := by
  refine h.invariant (I := OpenTx) ?_ fun _ _ _ _ hi _ ht ↦ openTx_step hi (Writer.step_moves ht)
  rintro _ ⟨c, chan, rfl⟩
  exact ⟨[], rfl⟩

/-- The driver's steps have left everything waiting that waited. -/
private structure Blocked (s : Writer) (ls : List WriterLabel) (t : Writer) : Prop where
  run : writer.run s ls = some t
  accepted : t.accepted = s.accepted
  written : t.written = s.written
  failed : t.failed = s.failed
  recv : t.driver.streamEventRecv = s.driver.streamEventRecv
  waiting : ∀ id, t.waiting id = s.waiting id

private theorem Blocked.refl (s : Writer) : Blocked s [] s := ⟨rfl, rfl, rfl, rfl, rfl, fun _ ↦ rfl⟩

private theorem Blocked.trans {ls ms : List WriterLabel} (h : Blocked s ls t)
    (h' : Blocked t ms u) :
    Blocked s (ls ++ ms) u := by
  refine ⟨?_, h'.accepted.trans h.accepted, h'.written.trans h.written, h'.failed.trans h.failed,
    h'.recv.trans h.recv, fun id ↦ (h'.waiting id).trans (h.waiting id)⟩
  rw [Machine.run_append, h.run, Option.bind_some, h'.run]

/-- A call of the driver of which the transport takes no account. -/
private theorem blocked_step {op : WriteOp} {r : WriteResult} (hr : Writes s.driver s.tx op r)
    (haccount : s.account op = some s)
    (hwaiting : ∀ id, queueOf r.driver.pendingWrites id ++ chunksOf id r.tx.queue = s.waiting id) :
    ∃ t, Blocked s [.driver op] t ∧ t.driver = r.driver ∧ t.tx = r.tx := by
  refine ⟨{ s with driver := r.driver, tx := r.tx }, ?_, rfl, rfl⟩
  refine ⟨?_, rfl, rfl, rfl, hr.streamEventRecv, hwaiting⟩
  simp [writer, Writer.step, haccount, hr.writeStep_eq]

/-- The channel is drained into the queues. -/
private theorem blocked_drain (queue : List StreamWriter) (hp : s.driver.point = .drainWrites)
    (hq : s.tx.queue = queue) :
    ∃ ls t, Blocked s ls t ∧ t.driver.point = .retain ∧ t.tx.queue = [] := by
  induction queue generalizing s with
  | nil =>
    obtain ⟨t, ht, hd, htx⟩ := blocked_step (.drainedAll hp hq) rfl fun _ ↦ rfl
    exact ⟨_, t, ht, by rw [hd], by rw [htx, hq]⟩
  | cons chunk rest ih =>
    obtain ⟨u, hu, hd, htx⟩ := blocked_step (.drained chunk rest hp hq) rfl fun id ↦ by
      rw [enqueue_waiting, ← hq]
      rfl
    obtain ⟨ls, t, ht, hpoint, hempty⟩ := ih (s := u) (by rw [hd]; exact hp) (by rw [htx])
    exact ⟨_, t, hu.trans ht, hpoint, hempty⟩

/-- Every queue is visited and keeps its head, as the transport has no room for it. -/
private theorem blocked_flush (todo : List StreamId) (hp : s.driver.point = .flush todo) :
    ∃ ls t, Blocked s ls t ∧ t.driver.point = .idle ∧ t.tx = s.tx := by
  induction todo generalizing s with
  | nil =>
    obtain ⟨t, ht, hd, htx⟩ := blocked_step (.finished hp) rfl fun _ ↦ rfl
    exact ⟨_, t, ht, by rw [hd], htx⟩
  | cons id todo ih =>
    cases hq : queueOf s.driver.pendingWrites id with
    | nil =>
      obtain ⟨u, hu, hd, htx⟩ := blocked_step (.emptied id todo hp hq) rfl fun other ↦ by
        rw [queueOf_erase, Writer.waiting]
        split
        · next heq => rw [heq, hq]
        · rfl
      obtain ⟨ls, t, ht, hidle, htx'⟩ := ih (s := u) (by rw [hd])
      exact ⟨_, t, hu.trans ht, hidle, htx'.trans htx⟩
    | cons p rest =>
      have haccount : s.account (.streamSend (.error .done)) = some s := by
        simp [Writer.account, StreamQuicDriver.sending, hp, hq, Possible, taken, failedAfter]
      obtain ⟨u, hu, hd, htx⟩ := blocked_step (.sent id todo p.1 p.2 rest (.error .done) hp hq)
        haccount fun other ↦ by
          rw [queueOf_insert, Writer.waiting]
          split
          · next heq =>
            rw [heq, hq]
            rfl
          · rfl
      obtain ⟨ls, t, ht, hidle, htx'⟩ := ih (s := u) (by rw [hd]; rfl)
      exact ⟨_, t, hu.trans ht, hidle, htx'.trans htx⟩

/-- A pass against a transport that takes nothing empties the channel all the same. -/
private theorem blocked_pass (hp : s.driver.point = .idle) :
    ∃ ls t, Blocked s ls t ∧ t.driver.point = .idle ∧ t.tx.queue = [] := by
  obtain ⟨a, ha, hd, -⟩ := blocked_step (.call hp) rfl fun _ ↦ rfl
  obtain ⟨ls, b, hb, hretain, hempty⟩ := blocked_drain (s := a) _ (by rw [hd]) rfl
  obtain ⟨c, hc, hd, htx⟩ := blocked_step (.retain b.driver.pendingWrites.keys hretain
    (List.Perm.refl _)) rfl fun _ ↦ rfl
  obtain ⟨ms, t, ht, hidle, htx'⟩ := blocked_flush (s := c) b.driver.pendingWrites.keys (by rw [hd])
  refine ⟨_, t, ((ha.trans hb).trans hc).trans ht, hidle, ?_⟩
  rw [htx', htx]
  exact hempty

/-- A `write` on the stream while the channel is empty succeeds, and its chunk waits. -/
private theorem write_waits {o : StreamObject} {data : Bytes} {m : Outbound}
    (hm : o.write data false = some m) (hown : m.writeTx = s.driver.streamEventRecv)
    (hopen : OpenTx s) (hempty : s.tx.queue = []) :
    ∃ t, writer.step s (.write o data false) = some t ∧ t.accepted = s.accepted ∧
      t.failed = s.failed ∧ t.driver = s.driver ∧
      t.written = Function.update s.written o.streamId (s.written o.streamId ++ [(data, false)]) ∧
      t.waiting o.streamId = s.waiting o.streamId ++ [(data, false)] := by
  obtain ⟨queue, hq⟩ := hopen
  obtain rfl : queue = [] := by rwa [hq] at hempty
  have hchunk : m.chunk = (o.streamId, some data, false) := StreamObject.Sends.chunk (.inl hm)
  have hsend : m.trySend s.tx = .ok { s.tx with queue := [m.chunk] } := by
    simp [Outbound.trySend, Channel.trySend, Channel.HasRoom, hq, WRITE_CHANNEL_CAPACITY]
  refine ⟨{ s with
    tx := { s.tx with queue := [m.chunk] }
    written := Function.update s.written o.streamId (s.written o.streamId ++ [(data, false)]) },
    ?_, rfl, rfl, rfl, rfl, ?_⟩
  · simp [writer, Writer.step, hm, Writer.offer, hown, hsend]
  · simp [Writer.waiting, hempty, chunksOf, hchunk, pieceOf]

/-- From `s` on the chunks have been written, and wait with what waited before. -/
private structure Piled (s : Writer) (id : StreamId) (chunks : List Bytes) (t : Writer) : Prop where
  reach : ∃ ls, writer.run s ls = some t
  idle : t.driver.point = .idle
  empty : t.tx.queue = []
  accepted : t.accepted = s.accepted
  failed : t.failed = s.failed
  written : t.written id = s.written id ++ chunks.map (·, false)
  waiting : t.waiting id = s.waiting id ++ chunks.map (·, false)

/-- Any number of writes pile up, one pass after the other. -/
private theorem exists_piled {o : StreamObject} (chunks : List Bytes) (h : writer.Reachable s)
    (hwrite : ∀ data, ∃ m, o.write data false = some m ∧ m.writeTx = s.driver.streamEventRecv)
    (hidle : s.driver.point = .idle) (hempty : s.tx.queue = []) :
    ∃ t, Piled s o.streamId chunks t := by
  induction chunks generalizing s with
  | nil => exact ⟨s, ⟨[], rfl⟩, hidle, hempty, rfl, rfl, by simp, by simp⟩
  | cons data chunks ih =>
    obtain ⟨m, hm, hown⟩ := hwrite data
    obtain ⟨a, ha, haccepted, hfailed, hdriver, hwritten, hwaiting⟩ :=
      write_waits hm hown (openTx_of_reachable h) hempty
    obtain ⟨ls, b, hb, hidle', hempty'⟩ := blocked_pass (s := a) (by rw [hdriver, hidle])
    have hrun : writer.run s (.write o data false :: ls) = some b := by
      rw [Machine.run_cons, ha, Option.bind_some, hb.run]
    have hrecv : b.driver.streamEventRecv = s.driver.streamEventRecv := by
      rw [hb.recv, hdriver]
    obtain ⟨t, ht⟩ := ih (Machine.Reachable.run h hrun) (by rwa [hrecv]) hidle' hempty'
    obtain ⟨ms, hms⟩ := ht.reach
    refine ⟨t, ⟨WriterLabel.write o data false :: ls ++ ms, ?_⟩, ht.idle, ht.empty,
      ht.accepted.trans (hb.accepted.trans haccepted),
      ht.failed.trans (hb.failed.trans hfailed), ?_, ?_⟩
    · rw [Machine.run_append, hrun, Option.bind_some, hms]
    · rw [ht.written, hb.written, hwritten]
      simp
    · rw [ht.waiting, hb.waiting, hwaiting]
      simp

/-- PHP need not feel back-pressure: from every state between two passes there is a run, one pass
after each write and a transport that takes nothing, in which any number of writes on a stream
succeed, and all of them pile up in `pending_writes`.
`src/stream.rs:67–74`, `src/quiche/driver.rs:131–173`, `src/quiche/conn.rs:159`. -/
theorem writes_unbounded {o : StreamObject} (h : writer.Reachable s)
    (hidle : s.driver.point = .idle)
    (hwrite : ∀ data, ∃ m, o.write data false = some m ∧ m.writeTx = s.driver.streamEventRecv)
    (chunks : List Bytes) :
    ∃ ls t, writer.run s ls = some t ∧ t.driver.point = .idle ∧ t.tx.queue = [] ∧
      t.accepted = s.accepted ∧ t.failed = s.failed ∧
      t.written o.streamId = s.written o.streamId ++ chunks.map (·, false) ∧
      queueOf t.driver.pendingWrites o.streamId =
        s.waiting o.streamId ++ chunks.map (·, false) := by
  obtain ⟨ls, u, hu, hidle', hempty⟩ := blocked_pass hidle
  obtain ⟨t, ht⟩ := exists_piled chunks (Machine.Reachable.run h hu.run) (by rwa [hu.recv])
    hidle' hempty
  obtain ⟨ms, hms⟩ := ht.reach
  refine ⟨ls ++ ms, t, ?_, ht.idle, ht.empty, ht.accepted.trans hu.accepted,
    ht.failed.trans hu.failed, ?_, ?_⟩
  · rw [Machine.run_append, hu.run, Option.bind_some, hms]
  · rw [ht.written, hu.written]
  · have hwaiting := ht.waiting
    rwa [Writer.waiting, ht.empty, hu.waiting, chunksOf, List.filter_nil, List.map_nil,
      List.append_nil] at hwaiting

end

/-- On a fresh connection a thousand chunks are taken, with room for 256 on the channel. -/
theorem freshWriter_unbounded :
    ∃ ls t, writer.run freshWriter ls = some t ∧ t.driver.point = .idle ∧ t.tx.queue = [] ∧
      t.accepted = freshWriter.accepted ∧ t.failed = freshWriter.failed ∧
      t.written 1 = freshWriter.written 1 ++ (List.replicate 1000 [97]).map (·, false) ∧
      queueOf t.driver.pendingWrites 1 =
        freshWriter.waiting 1 ++ (List.replicate 1000 [97]).map (·, false) :=
  writes_unbounded (o := .uni ⟨0, 1, 0, 0, ⟨0, .close⟩⟩) (.init ⟨0, 0, rfl⟩) rfl
    (fun _ ↦ ⟨_, rfl, rfl⟩) (List.replicate 1000 [97])

end ExtQuiche.Driver
