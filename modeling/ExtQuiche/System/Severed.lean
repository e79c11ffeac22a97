import ExtQuiche.System.Bounds
import ExtQuiche.System.Isolated
import ExtQuiche.System.Outbound

/-!
# Write channels over the life of a connection

Library `System`. The write channel of a connection holds at most 256 messages
(`src/quiche/conn.rs:159`) from its acceptance on. Its receiver lives in the driver: once the
task has dropped it with the messages it had not received, no step of any run puts one on the
channel, and every `write` and `close` of the connection's objects throws (`src/stream.rs:67–83`).
-/

namespace ExtQuiche.System
open ExtQuiche.Base ExtQuiche.Conn ExtQuiche.Driver ExtQuiche.Server ExtQuiche.Stream

/-- The write channels of accepted connections are within their bound, there are no others, and
a channel without its receiver is empty and that of a connection that is over. -/
structure World.Piped (w : World) : Prop where
  bound : ∀ c, (w.server.writes c).WF
  capacity : ∀ c, (w.server.writes c).capacity =
    if c < w.server.idCounter then WRITE_CHANNEL_CAPACITY else 0
  severed : ∀ c, (w.server.writes c).connected = false →
    (w.server.writes c).queue = [] ∧ w.Ended c

section

variable {w w' : World} {c : ConnId} {l : Label}

/-- What PHP does keeps the bound of every write channel and its receiver. -/
private theorem channel_step {s t : QuicheServerSocketImpl} {k : Server.Label}
    (hk : s.step k = some t) (hnew : ∀ peerAddr, k ≠ .newConn peerAddr)
    (hdriver : ∀ ref tx, k ≠ .driverWrites ref tx) (hwf : (s.writes c).WF) :
    (t.writes c).WF ∧ (t.writes c).capacity = (s.writes c).capacity ∧
      (t.writes c).connected = (s.writes c).connected := by
  apply keeps_of_effects (I := fun writes _ _ ↦ (writes c).WF ∧
    (writes c).capacity = (s.writes c).capacity ∧ (writes c).connected = (s.writes c).connected)
    ?_ (fun _ _ _ _ hu ↦ hu) hk hnew hdriver ⟨hwf, rfl, rfl⟩
  rintro u u' ⟨hwf, hcap, hconn⟩ he
  cases he with
  | sent o ho data fin m hm tx htx =>
    by_cases hc : m.writeTx = c
    · subst hc
      have hsend := Outbound.trySend_eq_ok.mp htx
      have hwf' := Channel.wf_trySend hsend
      obtain ⟨-, rfl⟩ := Channel.trySend_eq_ok.mp hsend
      simp only [QuicheServerSocketImpl.accounted, QuicheServerSocketImpl.sent,
        Function.update_self]
      exact ⟨hwf', hcap, hconn⟩
    · simp only [QuicheServerSocketImpl.accounted, QuicheServerSocketImpl.sent,
        Function.update_of_ne (Ne.symm hc)]
      exact ⟨hwf, hcap, hconn⟩
  | _ => exact ⟨hwf, hcap, hconn⟩

/-- A step of the PHP thread that accepts no connection keeps all write channels in order. -/
private theorem piped_php (hi : w.Piped) {k : Server.Label}
    (hk : w.server.step k = some w'.server) (hnew : ∀ peerAddr, k ≠ .newConn peerAddr)
    (hdriver : ∀ ref tx, k ≠ .driverWrites ref tx)
    (hcounter : w'.server.idCounter = w.server.idCounter) (hdrivers : w'.drivers = w.drivers) :
    w'.Piped where
  bound c := (channel_step hk hnew hdriver (hi.bound c)).1
  capacity c := by
    rw [(channel_step hk hnew hdriver (hi.bound c)).2.1, hcounter]
    exact hi.capacity c
  severed c hno := by
    rw [(channel_step hk hnew hdriver (hi.bound c)).2.2] at hno
    obtain ⟨hempty, d, hd, hp⟩ := hi.severed c hno
    rw [(full_step hk hnew hdriver (Channel.not_hasRoom_of_disconnected hno)).1]
    exact ⟨hempty, d, hdrivers ▸ hd, hp⟩

/-- A driver at its end of the write channel keeps the bound. -/
private theorem writes_channel {d : StreamQuicDriver} {tx : Channel StreamWriter} {op : WriteOp}
    {r : WriteResult} (h : Writes d tx op r) (hwf : tx.WF) :
    r.tx.WF ∧ r.tx.capacity = tx.capacity ∧ r.tx.connected = tx.connected := by
  cases h with
  | drained chunk rest hp hq =>
    exact ⟨Channel.wf_tryRecv hwf (Channel.tryRecv_eq_some.mpr ⟨rest, hq, rfl⟩), rfl, rfl⟩
  | _ => exact ⟨hwf, rfl, rfl⟩

private theorem piped_step (hreach : world.Reachable w) (hi : w.Piped) (h : Happens w l w') :
    w'.Piped := by
  have hw := linked_of_reachable hreach
  have hmove := h.drivers hw
  have hended : ∀ c, w.Ended c → w'.Ended c := fun c ↦ hmove.ended
  have hrecv := streamEventRecv_eq hreach
  cases h with
  | dispatched tape c ev rest s ht hq hs =>
    exact piped_php hi hs (fun _ ↦ nofun) (fun _ _ ↦ nofun) (serves_step hs).1 rfl
  | closed order tape c b rest s ht hq hs =>
    exact piped_php hi hs (fun _ ↦ nofun) (fun _ _ ↦ nofun) (serves_step hs).1 rfl
  | called call s ht hs =>
    exact piped_php hi hs (fun _ ↦ nofun) (fun _ _ ↦ nofun) (serves_step hs).1 rfl
  | serverClosed conns orders tape s ht hs =>
    exact piped_php hi hs (fun _ ↦ nofun) (fun _ _ ↦ nofun) (serves_step hs).1 rfl
  | accepted peerAddr ht hfree =>
    have hrefs := (registry_of_reachable hreach).refs
    have hwrites : ∀ c, (w.server.newConn peerAddr).writes c =
        if c = w.server.idCounter then .new WRITE_CHANNEL_CAPACITY else w.server.writes c := by
      intro c
      change Function.update w.server.writes w.server.nextRef _ c = _
      rw [hrefs, Function.update_apply]
    refine ⟨fun c ↦ ?_, fun c ↦ ?_, fun c hno ↦ ?_⟩
    · rw [hwrites]
      split
      · exact Channel.wf_new _
      · exact hi.bound c
    · rw [hwrites]
      change _ = if c < w.server.idCounter + 1 then _ else _
      by_cases hc : c = w.server.idCounter
      · rw [if_pos hc, if_pos (Nat.lt_succ_of_le hc.le)]
        rfl
      · have hiff : c < w.server.idCounter + 1 ↔ c < w.server.idCounter :=
          ⟨fun hlt ↦ lt_of_le_of_ne (Nat.le_of_lt_succ hlt) hc, Nat.lt_succ_of_lt⟩
        rw [if_neg hc, hi.capacity c]
        simp only [hiff]
    · rw [hwrites] at hno
      split at hno
      · cases hno
      · next hc =>
        rw [hwrites, if_neg hc]
        exact (hi.severed c hno).imp_right (hended c)
  | wrote c d op r hd hr =>
    obtain rfl := (hw.drivers c d hd).2
    rw [hrecv _ d hd] at hr ⊢
    obtain ⟨hwf, hcap, hconn⟩ := writes_channel hr (hi.bound d.connId)
    refine ⟨fun c ↦ ?_, fun c ↦ ?_, fun c hno ↦ ?_⟩
    · rcases eq_or_ne c d.connId with rfl | hne
      · simpa using hwf
      · simpa [hne] using hi.bound c
    · rcases eq_or_ne c d.connId with rfl | hne
      · simpa using hcap.trans (hi.capacity d.connId)
      · simpa [hne] using hi.capacity c
    · rcases eq_or_ne c d.connId with rfl | hne
      · -- a driver that is at work has its receiver
        obtain ⟨-, e, he, hp⟩ := hi.severed d.connId (by simpa [hconn] using hno)
        rw [hd] at he
        cases he
        exact absurd hp hr.alive.1
      · obtain ⟨hempty, hover⟩ := hi.severed c (by simpa [hne] using hno)
        exact ⟨by simpa [hne] using hempty, hended c hover⟩
  | dropped c d hd hp =>
    obtain rfl := (hw.drivers c d hd).2
    rw [hrecv _ d hd]
    refine ⟨fun c ↦ ?_, fun c ↦ ?_, fun c hno ↦ ?_⟩
    · rcases eq_or_ne c d.connId with rfl | hne
      · have hbound := hi.bound d.connId
        simp only [Channel.disconnect, Channel.WF, Function.update_self, List.length_nil]
          at hbound ⊢
        omega
      · simpa [hne] using hi.bound c
    · rcases eq_or_ne c d.connId with rfl | hne
      · simpa [Channel.disconnect] using hi.capacity d.connId
      · simpa [hne] using hi.capacity c
    · rcases eq_or_ne c d.connId with rfl | hne
      · exact ⟨by simp [Channel.disconnect], d, hd, hp⟩
      · obtain ⟨hempty, hover⟩ := hi.severed c (by simpa [hne] using hno)
        exact ⟨by simpa [hne] using hempty, hended c hover⟩
  | _ => exact ⟨hi.bound, hi.capacity, fun c hno ↦ (hi.severed c hno).imp_right (hended c)⟩

/-- All write channels are in order in every reachable state. -/
theorem piped_of_reachable (h : world.Reachable w) : w.Piped := by
  refine h.invariant (I := World.Piped) ?_ fun w l w' hs hi _ ht ↦
    piped_step hs hi (step_happens ht)
  rintro _ ⟨callback, -, rfl⟩
  exact ⟨fun _ ↦ Channel.wf_new _, fun _ ↦ rfl, fun _ hno ↦ by cases hno⟩

/-- No channel of the extension ever holds more than the source allows: the two shared ones,
with the permits that drivers have reserved, and every connection's write channel.
`src/quiche/socket.rs:24–32`, `src/quiche/conn.rs:159`. -/
theorem channels_bounded (h : world.Reachable w) :
    w.Bounded ∧ ∀ c, (w.server.writes c).queue.length ≤ WRITE_CHANNEL_CAPACITY := by
  refine ⟨bounded_of_reachable h, fun c ↦ ?_⟩
  have hpiped := piped_of_reachable h
  have hwf := hpiped.bound c
  have hcap := hpiped.capacity c
  unfold Channel.WF at hwf
  split at hcap <;> omega

/-- A step leaves a severed channel and the account of it as they are. -/
private theorem severed_step (hreach : world.Reachable w)
    (hno : (w.server.writes c).connected = false) (h : Happens w l w') :
    w'.server.writes c = w.server.writes c ∧
      writtenBy (onChannel c) w'.server.submitted = writtenBy (onChannel c) w.server.submitted := by
  obtain ⟨hempty, e, he, hp⟩ := (piped_of_reachable hreach).severed c hno
  have hw := linked_of_reachable hreach
  have hrecv := streamEventRecv_eq hreach
  have hfull := Channel.not_hasRoom_of_disconnected hno
  cases h with
  | dispatched tape c ev rest s ht hq hs => exact full_step hs (by simp) (by simp) hfull
  | closed order tape c b rest s ht hq hs => exact full_step hs (by simp) (by simp) hfull
  | called call s ht hs => exact full_step hs (by simp) (by simp) hfull
  | serverClosed conns orders tape s ht hs => exact full_step hs (by simp) (by simp) hfull
  | accepted peerAddr ht hfree =>
    have hne : c ≠ w.server.nextRef := by
      rw [(registry_of_reachable hreach).refs]
      exact (hw.drivers c e he).1.ne
    exact ⟨Function.update_of_ne hne .., rfl⟩
  | wrote c' d op r hd hr =>
    obtain rfl := (hw.drivers c' d hd).2
    have hne : c ≠ d.streamEventRecv := by
      rw [hrecv _ d hd]
      rintro rfl
      rw [he] at hd
      cases hd
      exact hr.alive.1 hp
    exact ⟨Function.update_of_ne hne .., rfl⟩
  | dropped c' d hd hp' =>
    obtain rfl := (hw.drivers c' d hd).2
    dsimp only
    refine ⟨?_, rfl⟩
    rcases eq_or_ne c d.streamEventRecv with rfl | hne
    · rw [Function.update_self, Channel.disconnect, ← hno, ← hempty]
    · exact Function.update_of_ne hne ..
  | _ => exact ⟨rfl, rfl⟩

/-- Once the driver of a connection has been dropped, its write channel is empty and stays so in
every run, and a `write` or `close` on any of the connection's objects, also on those opened
later, throws and counts as nothing. `src/stream.rs:67–83,251–267,306–322`,
`src/quiche/conn.rs:159,174–184`. -/
theorem severed_final (h : world.Reachable w) (hno : (w.server.writes c).connected = false)
    {ls : List Label} (hrun : world.run w ls = some w') :
    (w'.server.writes c).queue = [] ∧ w'.server.writes c = w.server.writes c ∧
      written w'.server c = written w.server c ∧
      ∀ obj ∈ w'.server.objects, obj.connId = c → ∀ data fin m, obj.Sends data fin m →
        m.trySend (w'.server.writes m.writeTx) =
          .error ⟨m.verb ++ " failed: " ++ "channel closed"⟩ := by
  have h' : world.Reachable w' := .run h hrun
  have hsame : w'.server.writes c = w.server.writes c ∧
      writtenBy (onChannel c) w'.server.submitted =
        writtenBy (onChannel c) w.server.submitted := by
    clear h'
    induction ls generalizing w with
    | nil =>
      cases hrun
      exact ⟨rfl, rfl⟩
    | cons l ls ih =>
      obtain ⟨u, hu, hrest⟩ := Option.bind_eq_some_iff.mp hrun
      obtain ⟨hwrites, hwritten⟩ := severed_step h hno (step_happens hu)
      obtain ⟨hwrites', hwritten'⟩ := ih (h.step l trivial hu) (by rw [hwrites, hno]) hrest
      exact ⟨hwrites'.trans hwrites, hwritten'.trans hwritten⟩
  obtain ⟨hwrites, hwritten⟩ := hsame
  refine ⟨?_, hwrites, ?_, fun obj hobj hc data fin m hm ↦ ?_⟩
  · rw [hwrites]
    exact ((piped_of_reachable h).severed c hno).1
  · rw [written_eq (server_reachable h'), written_eq (server_reachable h), hwritten]
  · have hown := (owned_of_reachable (server_reachable h')).objects obj hobj
    have htx : m.writeTx = c :=
      (hown.outbound m (hm.imp (fun hm ↦ ⟨_, _, hm⟩) And.left)).1.trans hc
    rw [htx, hwrites, Outbound.trySend, Channel.trySend_disconnected hno]
    rfl

end

/-- The peer's stream 0 is announced, its callback writes, and the connection ends before its
driver has taken the chunk. -/
def endsUnwritten : List Label :=
  arrivals 1 ++
    [.driver 0 (.read .call), .driver 0 (.read (.readableNext (some 0))),
      .driver 0 (.read .tryReserve), .pollEvents [⟨[.write 0 [97] false], none⟩],
      .driver 0 (.read .tryReserve), .driver 0 (.read (.streamRecv (.error .done))),
      .driver 0 (.read (.readableNext none)), .driver 0 (.onConnClose .idleTimeout)]

/-- All bounds hold where the driver still has its receiver. -/
theorem endsUnwritten_bounded :
    ∃ w, world.run (.start closure) endsUnwritten = some w ∧ (w.server.writes 0).queue ≠ [] ∧
      w.Bounded ∧ ∀ c, (w.server.writes c).queue.length ≤ WRITE_CHANNEL_CAPACITY := by
  have hw : (world.run (.start closure) endsUnwritten).map
      (fun w ↦ (w.server.writes 0).queue.isEmpty) = some false := by decide +kernel
  obtain ⟨w, hrun, hempty⟩ := Option.map_eq_some_iff.mp hw
  have hne : (w.server.writes 0).queue ≠ [] := by
    intro hnil
    rw [hnil] at hempty
    cases hempty
  exact ⟨w, hrun, hne, channels_bounded (.run (.init ⟨closure, rfl, rfl⟩) hrun)⟩

/-- The chunk is gone once the driver is, and PHP can go on to write in vain. -/
theorem endsUnwritten_severed :
    ∃ w w', world.run (.start closure) (endsUnwritten ++ [.driver 0 .drop]) = some w ∧
      world.run w [.pollEvents [], .pollCloses [] [], .pollEvents []] = some w' ∧
      written w.server 0 0 = [([97], false)] ∧ (w'.server.writes 0).queue = [] ∧
      w'.server.writes 0 = w.server.writes 0 ∧ written w'.server 0 = written w.server 0 ∧
      ∀ obj ∈ w'.server.objects, obj.connId = 0 → ∀ data fin m, obj.Sends data fin m →
        m.trySend (w'.server.writes m.writeTx) =
          .error ⟨m.verb ++ " failed: " ++ "channel closed"⟩ := by
  have hw : (world.run (.start closure) (endsUnwritten ++ [.driver 0 .drop])).map (fun w ↦
      (decide (written w.server 0 0 = [([97], false)]), (w.server.writes 0).connected,
        (world.run w [.pollEvents [], .pollCloses [] [], .pollEvents []]).isSome)) =
      some (true, false, true) := by decide +kernel
  obtain ⟨w, hrun, heq⟩ := Option.map_eq_some_iff.mp hw
  simp only [Prod.mk.injEq, decide_eq_true_eq] at heq
  obtain ⟨hwritten, hno, hnext⟩ := heq
  obtain ⟨w', hrun'⟩ := Option.isSome_iff_exists.mp hnext
  have hfinal := severed_final (.run (.init ⟨closure, rfl, rfl⟩) hrun) hno hrun'
  exact ⟨w, w', hrun, hrun', hwritten, hfinal⟩

end ExtQuiche.System
