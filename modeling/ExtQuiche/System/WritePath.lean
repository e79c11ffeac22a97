import ExtQuiche.System.Severed

/-!
# Every write path is a run of its own machine

Library `System`. The system seen from the write path of one connection: PHP's calls are its
writes, the write passes of its driver are its driver steps, and everything else is nothing.
What holds of every run of the write path of one connection thereby holds of each
connection of the system, until its driver is dropped. A callback runs in one step of the system,
so the driver makes its calls before or after it.
-/

namespace ExtQuiche.System
open ExtQuiche.Base ExtQuiche.Conn ExtQuiche.Driver ExtQuiche.Server ExtQuiche.Stream

/-- The account of a connection's write path is that of a run of its own, which is where the
connection is for as long as the driver has its receiver. -/
structure Mirrored (ok : Writer → WriterLabel → Prop) (w : World) (o : Outbox) (c : ConnId) :
    Prop where
  run : ∃ driver tx, writer.ReachableWhile ok
      ⟨driver, tx, o.accepted c, written w.server c, o.failed c⟩ ∧
    ((w.server.writes c).connected = true → ∀ d, w.drivers c = some d →
      driver = d.writing ∧ tx = w.server.writes c)
  fresh : w.drivers c = none → w.server.writes c = .new 0 ∧ (o.accepted c = fun _ ↦ []) ∧
    (written w.server c = fun _ ↦ []) ∧ o.failed c = ∅

section

variable {ok : Writer → WriterLabel → Prop} {w w' : World} {o : Outbox} {c : ConnId} {l : Label}

/-- The account of a connection without a send of its own. -/
private theorem settle_other {r : Option SendResult} (h : ∀ x ∈ r, x.connId ≠ c) :
    (o.settle r).accepted c = o.accepted c ∧ (o.settle r).failed c = o.failed c := by
  cases r with
  | none => exact ⟨rfl, rfl⟩
  | some x =>
    have hne := (h x rfl).symm
    exact ⟨Function.update_of_ne hne .., Function.update_of_ne hne ..⟩

/-- A step outside the connection's write path, or the end of it. -/
private theorem mirrored_quiet (h : Mirrored ok w o c) (hsends : ∀ r ∈ w.sends l, r.connId ≠ c)
    (hwritten : written w'.server c = written w.server c)
    (hdrivers : (w'.drivers c).map (·.writing) = (w.drivers c).map (·.writing))
    (hwrites : w'.server.writes c = w.server.writes c ∨
      (w'.server.writes c).connected = false ∧ w.drivers c ≠ none) :
    Mirrored ok w' (outbox.add o w l w') c := by
  obtain ⟨haccepted, hfailed⟩ := settle_other (o := o) hsends
  change Mirrored ok w' (o.settle (w.sends l)) c
  obtain ⟨driver, tx, hx, hlive⟩ := h.run
  refine ⟨⟨driver, tx, ?_, fun hconn d hd ↦ ?_⟩, fun hno ↦ ?_⟩
  · rw [haccepted, hwritten, hfailed]
    exact hx
  · rw [hd] at hdrivers
    obtain ⟨d', hd', hwriting⟩ : ∃ d', w.drivers c = some d' ∧ d'.writing = d.writing :=
      Option.map_eq_some_iff.mp hdrivers.symm
    rcases hwrites with hwrites | ⟨hno, -⟩
    · rw [hwrites] at hconn ⊢
      rw [← hwriting]
      exact hlive hconn d' hd'
    · rw [hno] at hconn
      cases hconn
  · rw [hno] at hdrivers
    have hold : w.drivers c = none := Option.map_eq_none_iff.mp hdrivers.symm
    obtain ⟨hnew, hacc, hwrote, hfail⟩ := h.fresh hold
    rcases hwrites with hwrites | ⟨-, hsome⟩
    · exact ⟨hwrites.trans hnew, haccepted.trans hacc, hwritten.trans hwrote, hfailed.trans hfail⟩
    · exact absurd hold hsome

/-- A step of the PHP thread that creates no connection. -/
private theorem mirrored_php (hok : OfSends ok) (h : Mirrored ok w o c)
    (hreach : world.Reachable w) (hreach' : world.Reachable w') (hsends : w.sends l = none)
    {k : Server.Label} (hk : w.server.step k = some w'.server)
    (hnew : ∀ peerAddr, k ≠ .newConn peerAddr) (hdriver : ∀ ref tx, k ≠ .driverWrites ref tx)
    (hdrivers : w'.drivers = w.drivers) : Mirrored ok w' (outbox.add o w l w') c := by
  have heq := written_eq (server_reachable hreach) c
  have heq' := written_eq (server_reachable hreach') c
  by_cases hroom : (w.server.writes c).HasRoom
  · cases hd : w.drivers c with
    | none =>
      -- the channel of a connection that does not exist yet has no room
      rw [(h.fresh hd).1] at hroom
      exact absurd hroom.2 (Nat.not_lt_zero _)
    | some d =>
      obtain ⟨driver, tx, hx, hlive⟩ := h.run
      obtain ⟨rfl, rfl⟩ := hlive hroom.1 d hd
      have hfed := fed_step hok (streamEventRecv_eq hreach c d hd) hx rfl heq hk hnew hdriver
      change Mirrored ok w' (o.settle (w.sends l)) c
      rw [hsends]
      refine ⟨⟨d.writing, w'.server.writes c, ?_, fun _ d' hd' ↦ ?_⟩, fun hno ↦ ?_⟩
      · rw [heq']
        exact hfed
      · rw [hdrivers, hd] at hd'
        cases hd'
        exact ⟨rfl, rfl⟩
      · rw [hdrivers, hd] at hno
        cases hno
  · obtain ⟨hwrites, hwritten⟩ := full_step hk hnew hdriver hroom
    exact mirrored_quiet h (by simp [hsends]) (by rw [heq', heq, hwritten]) (by rw [hdrivers])
      (.inl hwrites)

private theorem sending_writing (d : StreamQuicDriver) : d.writing.sending = d.sending := by
  unfold StreamQuicDriver.sending StreamQuicDriver.writing
  cases d.point with
  | flush todo => cases todo <;> rfl
  | _ => rfl

/-- A call of `process_writes` is a step of its connection's write path. -/
private theorem writer_step (hof : OfSends ok) {d : StreamQuicDriver} {op : WriteOp}
    {r : WriteResult} (hd : w.drivers c = some d) (hr : Writes d (w.server.writes c) op r)
    (hok : EachSend c ok (w, o) (.driver c (.write op))) :
    ok (writerOf w o c d) (.driver op) ∧
      writer.step (writerOf w o c d) (.driver op) = some
        { driver := r.driver.writing
          tx := r.tx
          accepted := (o.settle (w.sends (.driver c (.write op)))).accepted c
          written := written w.server c
          failed := (o.settle (w.sends (.driver c (.write op)))).failed c } := by
  have hstep : writer.step (writerOf w o c d) (.driver op) =
      ((writerOf w o c d).account op).bind fun x ↦ some
        { x with driver := r.driver.writing, tx := r.tx } := by
    change ((writerOf w o c d).account op).bind _ = _
    congr 1
    funext x
    change (writeStep d.writing (w.server.writes c) op).map _ = _
    rw [hr.writing.writeStep_eq]
    rfl
  rw [hstep]
  cases hr with
  | sent id todo bytes fin rest answer hp hq =>
    have hsending : d.sending = some (id, (bytes, fin)) := by
      simp [StreamQuicDriver.sending, hp, hq]
    have hsends : w.sends (.driver c (.write (.streamSend answer))) =
        some ⟨c, id, (bytes, fin), answer⟩ := by
      simp [World.sends, hd, hsending]
    obtain ⟨hposs, hmeets⟩ := hok _ hsends rfl
    have hview : (writerOf w o c d).driver.sending = some (id, (bytes, fin)) :=
      (sending_writing d).trans hsending
    refine ⟨hmeets d hd, ?_⟩
    have haccount : (writerOf w o c d).account (.streamSend answer) = some
        { writerOf w o c d with
          accepted := Function.update (o.accepted c) id
            (o.accepted c id ++ taken (bytes, fin) answer)
          failed := failedAfter (o.failed c) id answer } := by
      simp only [Writer.account, hview, if_pos hposs]
      rfl
    rw [haccount, hsends]
    simp [Outbox.settle, writerOf]
  | _ => exact ⟨hof _ _ (by simp), rfl⟩

/-- A call of `process_writes` of the connection's own driver. -/
private theorem mirrored_wrote (hof : OfSends ok) (h : Mirrored ok w o c)
    (hconn : (w.server.writes c).connected = true) {d : StreamQuicDriver} {op : WriteOp}
    {r : WriteResult} (hl : l = .driver c (.write op)) (hd : w.drivers c = some d)
    (hr : Writes d (w.server.writes c) op r) (hok : EachSend c ok (w, o) l)
    (hwrites : w'.server.writes c = r.tx) (hwritten : written w'.server c = written w.server c)
    (hdrivers : w'.drivers c = some r.driver) : Mirrored ok w' (outbox.add o w l w') c := by
  subst hl
  obtain ⟨driver, tx, hx, hlive⟩ := h.run
  obtain ⟨rfl, rfl⟩ := hlive hconn d hd
  obtain ⟨hmeets, hstep⟩ := writer_step hof hd hr hok
  refine ⟨⟨r.driver.writing, r.tx, ?_, fun _ d' hd' ↦ ?_⟩, fun hno ↦ ?_⟩
  · rw [hwritten]
    exact hx.step _ hmeets hstep
  · rw [hdrivers] at hd'
    cases hd'
    exact ⟨rfl, hwrites.symm⟩
  · rw [hdrivers] at hno
    cases hno

/-- The driver of a new connection has nothing to write. -/
private theorem mirrored_accepted (h : Mirrored ok w o c) (hfresh : w.drivers c = none)
    (hsends : w.sends l = none) (hwrites : w'.server.writes c = .new WRITE_CHANNEL_CAPACITY)
    (hwritten : written w'.server c = written w.server c)
    (hdrivers : w'.drivers c = some (.build c c)) : Mirrored ok w' (outbox.add o w l w') c := by
  obtain ⟨-, haccepted, hnothing, hfailed⟩ := h.fresh hfresh
  change Mirrored ok w' (o.settle (w.sends l)) c
  rw [hsends]
  refine ⟨⟨.build c c, .new WRITE_CHANNEL_CAPACITY, .init ⟨c, c, ?_⟩, fun _ d hd ↦ ?_⟩,
    fun hno ↦ ?_⟩
  · change Writer.mk _ _ (o.accepted c) _ (o.failed c) = _
    rw [haccepted, hfailed, hwritten, hnothing]
  · rw [hdrivers] at hd
    cases hd
    exact ⟨rfl, hwrites.symm⟩
  · rw [hdrivers] at hno
    cases hno

private theorem map_writing_update {drivers : ConnId → Option StreamQuicDriver} {c' : ConnId}
    {d d' : StreamQuicDriver} (hd : drivers c' = some d) (hsame : d'.writing = d.writing) :
    (Function.update drivers c' (some d') c).map (·.writing) = (drivers c).map (·.writing) := by
  rw [Function.update_apply]
  split
  · next heq => rw [heq, hd, Option.map_some, Option.map_some, hsame]
  · rfl

private theorem Mirrored.step (hof : OfSends ok) (h : Mirrored ok w o c)
    (hreach : world.Reachable w) (hreach' : world.Reachable w') (hok : EachSend c ok (w, o) l)
    (hstep : Happens w l w') : Mirrored ok w' (outbox.add o w l w') c := by
  have hw := linked_of_reachable hreach
  have hrecv := streamEventRecv_eq hreach
  cases hstep with
  | moved l p hl ht hp =>
    have hsends : w.sends l = none := by rcases hl with rfl | rfl | rfl <;> rfl
    exact mirrored_quiet h (by simp [hsends]) rfl rfl (.inl rfl)
  | noEvent tape ht hq => exact mirrored_quiet h (by simp [World.sends]) rfl rfl (.inl rfl)
  | noClose order tape ht hq => exact mirrored_quiet h (by simp [World.sends]) rfl rfl (.inl rfl)
  | dispatched tape c' ev rest s ht hq hs =>
    exact mirrored_php hof h hreach hreach' rfl hs (fun _ ↦ nofun) (fun _ _ ↦ nofun) rfl
  | closed order tape c' b rest s ht hq hs =>
    exact mirrored_php hof h hreach hreach' rfl hs (fun _ ↦ nofun) (fun _ _ ↦ nofun) rfl
  | called call s ht hs =>
    exact mirrored_php hof h hreach hreach' rfl hs (fun _ ↦ nofun) (fun _ _ ↦ nofun) rfl
  | serverClosed conns orders tape s ht hs =>
    exact mirrored_php hof h hreach hreach' rfl hs (fun _ ↦ nofun) (fun _ _ ↦ nofun) rfl
  | inserted c' st ht hacc => exact mirrored_quiet h (by simp [World.sends]) rfl rfl (.inl rfl)
  | accepted peerAddr ht hfree =>
    have hrefs := (registry_of_reachable hreach).refs
    rcases eq_or_ne c w.server.idCounter with rfl | hne
    · refine mirrored_accepted h hw.fresh rfl ?_ rfl ?_
      · change Function.update w.server.writes w.server.nextRef _ w.server.idCounter = _
        rw [hrefs, Function.update_self]
      · dsimp only
        rw [hrefs, Function.update_self]
    · refine mirrored_quiet h (by simp [World.sends]) rfl ?_ (.inl ?_)
      · dsimp only
        rw [Function.update_of_ne hne]
      · change Function.update w.server.writes w.server.nextRef _ c = _
        rw [hrefs, Function.update_of_ne hne]
  | read c' d op r hd hr' =>
    obtain rfl := (hw.drivers c' d hd).2
    exact mirrored_quiet h (by simp [World.sends]) rfl (map_writing_update hd hr'.writing_eq)
      (.inl rfl)
  | ended c' d e hd hp =>
    obtain rfl := (hw.drivers c' d hd).2
    refine mirrored_quiet h (by simp [World.sends]) rfl (map_writing_update hd ?_) (.inl rfl)
    simp [StreamQuicDriver.writing, Point.writing, hp]
  | wrote c' d op r hd hr' =>
    obtain rfl := (hw.drivers c' d hd).2
    rw [hrecv _ d hd] at hr' ⊢
    rcases eq_or_ne c d.connId with rfl | hne
    · have hconn : (w.server.writes d.connId).connected = true := by
        by_contra hno
        obtain ⟨-, e, he, hp⟩ :=
          (piped_of_reachable hreach).severed d.connId (Bool.eq_false_iff.mpr hno)
        rw [hd] at he
        cases he
        exact hr'.alive.1 hp
      exact mirrored_wrote hof h hconn rfl hd hr' hok (Function.update_self ..) rfl
        (Function.update_self ..)
    · refine mirrored_quiet h ?_ rfl ?_ (.inl (Function.update_of_ne hne ..))
      · intro x hx
        cases op with
        | streamSend answer =>
          obtain ⟨d', -, hx⟩ := Option.bind_eq_some_iff.mp hx
          obtain ⟨y, -, rfl⟩ := Option.map_eq_some_iff.mp hx
          exact hne.symm
        | _ => cases hx
      · dsimp only
        rw [Function.update_of_ne hne]
  | dropped c' d hd hp =>
    obtain rfl := (hw.drivers c' d hd).2
    rw [hrecv _ d hd]
    refine mirrored_quiet h (by simp [World.sends]) rfl rfl ?_
    rcases eq_or_ne c d.connId with rfl | hne
    · exact .inr ⟨by simp [Channel.disconnect], by simp [hd]⟩
    · exact .inl (Function.update_of_ne hne ..)

/-- Whatever the answers to its sends are, the account mirrors a run of the write path. -/
theorem mirrored_of_reachable (hof : OfSends ok)
    (h : (world.withAccount outbox).ReachableWhile (EachSend c ok) (w, o)) :
    Mirrored ok w o c := by
  apply h.account_invariant (I := fun w o ↦ Mirrored ok w o c)
  · rintro _ ⟨callback, -, rfl⟩
    exact ⟨⟨.build 0 0, .new WRITE_CHANNEL_CAPACITY, .init ⟨0, 0, rfl⟩, fun _ _ hno ↦ by cases hno⟩,
      fun _ ↦ ⟨rfl, rfl, rfl, rfl⟩⟩
  · intro w o l w' hreach hi hok ht
    exact hi.step hof hreach.forget (hreach.forget.step l trivial ht) hok (step_happens ht)

/-- Until its driver is dropped, every write path of the system is a run of the write path of one
connection, under every condition that its sends meet: the calls of PHP are its writes and the
write passes of its driver are its driver steps, whatever the other connections, the reads and
the server loop do in between. `src/stream.rs:67–83,251–267,306–322`,
`src/quiche/driver.rs:131–173`. -/
theorem writePath_refined (hof : OfSends ok)
    (h : (world.withAccount outbox).ReachableWhile (EachSend c ok) (w, o))
    {d : StreamQuicDriver} (hd : w.drivers c = some d)
    (halive : (w.server.writes c).connected = true) :
    writer.ReachableWhile ok (writerOf w o c d) := by
  obtain ⟨driver, tx, hx, hlive⟩ := (mirrored_of_reachable hof h).run
  obtain ⟨rfl, rfl⟩ := hlive halive d hd
  exact hx

end

/-- The peer's stream 0 is announced, its callback writes `"ab"` with a fin on it, and the driver
sends what the callback wrote. -/
def writtenInCallback : List Label :=
  arrivals 1 ++
    [.driver 0 (.read .call), .driver 0 (.read (.readableNext (some 0))),
      .driver 0 (.read .tryReserve), .pollEvents [⟨[.write 0 [97, 98] true], none⟩],
      .driver 0 (.read .tryReserve), .driver 0 (.read (.streamRecv (.error .done))),
      .driver 0 (.read (.readableNext none)), .driver 0 (.write .call),
      .driver 0 (.write .tryRecv), .driver 0 (.write .tryRecv), .driver 0 (.write (.retain [0])),
      .driver 0 (.write (.streamSend (.ok 1)))]

private theorem writtenInCallback_reached (ok : Writer → WriterLabel → Prop)
    [∀ x l, Decidable (ok x l)] (halong : (world.withAccount outbox).Along (EachSend 0 ok)
      (.start closure, outbox.start) writtenInCallback) :
    ∃ w o d, (world.withAccount outbox).ReachableWhile (EachSend 0 ok) (w, o) ∧
      w.drivers 0 = some d ∧ (w.server.writes 0).connected = true ∧
      written w.server 0 0 = [([97, 98], true)] ∧ o.accepted 0 0 = [([97], false)] ∧
      0 ∉ o.failed 0 := by
  have hrun : ((world.withAccount outbox).run (.start closure, outbox.start)
      writtenInCallback).map (fun p ↦ decide ((p.1.drivers 0).isSome = true ∧
        (p.1.server.writes 0).connected = true ∧ written p.1.server 0 0 = [([97, 98], true)] ∧
        p.2.accepted 0 0 = [([97], false)] ∧ 0 ∉ p.2.failed 0)) = some true := by decide +kernel
  obtain ⟨⟨w, o⟩, hw, heq⟩ := Option.map_eq_some_iff.mp hrun
  rw [decide_eq_true_eq] at heq
  obtain ⟨hd, hconn, hwritten, haccepted, hfailed⟩ := heq
  obtain ⟨d, hd⟩ := Option.isSome_iff_exists.mp hd
  have hinit : (world.withAccount outbox).init (.start closure, outbox.start) :=
    ⟨⟨closure, rfl, rfl⟩, rfl⟩
  exact ⟨w, o, d, .run (.init hinit) halong hw, hd, hconn, hwritten, haccepted, hfailed⟩

/-- Its write path is in the middle of a write pass. -/
theorem writtenInCallback_refined :
    ∃ w o d, w.drivers 0 = some d ∧ o.accepted 0 0 = [([97], false)] ∧
      writer.ReachableWhile OkOrDone (writerOf w o 0 d) := by
  obtain ⟨w, o, d, h, hd, hconn, -, haccepted, -⟩ :=
    writtenInCallback_reached OkOrDone (by decide +kernel)
  refine ⟨w, o, d, hd, haccepted, writePath_refined (fun x l hl ↦ ?_) h hd hconn⟩
  cases l with
  | driver op =>
    cases op with
    | streamSend answer => exact absurd rfl (hl answer)
    | _ => trivial
  | _ => trivial

section

variable {w w' : World} {o : Outbox} {c : ConnId} {l : Label}

/-- What PHP has written on a stream, by calls on objects of this stream, is taken by the
transport, queued or in the channel, in order and once. -/
structure WritesCarried (w : World) (o : Outbox) (c : ConnId) (d : StreamQuicDriver)
    (id : StreamId) : Prop where
  own : ∀ call ∈ w.server.submitted, call.object.connId = c → call.object ∈ w.server.objects ∧
    ∃ m, call.object.Sends call.data call.fin m ∧ m.writeTx = c ∧
      m.chunk = (call.object.streamId, some call.data, call.fin)
  part : ∃ rest, Cuts (o.accepted c id ++ rest) (written w.server c id)
  whole : (w.server.writes c).connected = true →
    Cuts (o.accepted c id ++ (queueOf d.pendingWrites id ++
      chunksOf id (w.server.writes c).queue)) (written w.server c id)
  bytes : (w.server.writes c).connected = true →
    symbols (o.accepted c id) ++ symbols (queueOf d.pendingWrites id) ++
      symbols (chunksOf id (w.server.writes c).queue) = symbols (written w.server c id)

/-- No interleaving of the connections, of callbacks and of drivers loses, repeats, reorders
or misdirects what PHP writes on a stream, up to the first hard error on the stream or the end
of the driver; what the transport has taken is an initial part of it in any case.
`src/stream.rs:67–83,251–267,306–322`, `src/quiche/driver.rs:131–173`,
`src/quiche/conn.rs:82–123`. -/
theorem writes_carried
    (h : (world.withAccount outbox).ReachableWhile (EachSend c fun _ _ ↦ True) (w, o))
    {d : StreamQuicDriver} (hd : w.drivers c = some d) {id : StreamId} (hf : id ∉ o.failed c) :
    WritesCarried w o c d id := by
  have hserver := server_reachable h.forget
  obtain ⟨driver, tx, hx, hlive⟩ := (mirrored_of_reachable (fun _ _ _ ↦ trivial) h).run
  have hcuts := whole_of_reachable hx hf
  have hwhole : (w.server.writes c).connected = true →
      Cuts (o.accepted c id ++ (queueOf d.pendingWrites id ++
        chunksOf id (w.server.writes c).queue)) (written w.server c id) := by
    intro hconn
    obtain ⟨rfl, rfl⟩ := hlive hconn d hd
    exact hcuts
  refine ⟨fun call hcall hc ↦ ?_, ⟨_, hcuts⟩, hwhole, fun hconn ↦ ?_⟩
  · obtain ⟨hobj, m, hm⟩ := honest_of_reachable hserver call hcall
    have hown := ((owned_of_reachable hserver).objects _ hobj).outbound m
      (hm.imp (fun hm ↦ ⟨_, _, hm⟩) And.left)
    exact ⟨hobj, m, hm, hown.1.trans hc, hm.chunk⟩
  · rw [← (hwhole hconn).symbols_eq, symbols_append, symbols_append, List.append_assoc]

end

/-- `"a"` has been taken and `"b"` is queued. -/
theorem writtenInCallback_carried :
    ∃ w o d, w.drivers 0 = some d ∧ (w.server.writes 0).connected = true ∧
      written w.server 0 0 = [([97, 98], true)] ∧ o.accepted 0 0 = [([97], false)] ∧
      WritesCarried w o 0 d 0 := by
  obtain ⟨w, o, d, h, hd, hconn, hwritten, haccepted, hfailed⟩ :=
    writtenInCallback_reached (fun _ _ ↦ True) (by decide +kernel)
  exact ⟨w, o, d, hd, hconn, hwritten, haccepted, writes_carried h hd hfailed⟩

end ExtQuiche.System
