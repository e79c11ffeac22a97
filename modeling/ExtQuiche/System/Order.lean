import ExtQuiche.System.CloseSignals

/-!
# Events against close messages

Library `System`. The order of the two channels is the order in which the biased
`select!` of `src/quiche/socket.rs:151–183` polls them, so a close message overtakes
exactly the events sent between the poll of the event arm and the poll of the close arm
of one iteration. The handler of an overtaken event finds no record.
-/

namespace ExtQuiche.System
open ExtQuiche.Base ExtQuiche.Conn ExtQuiche.Driver ExtQuiche.Server

/-- The server is not closed. -/
def NoServerClose (_ : World) : Label → Prop
  | .close _ _ _ => False
  | _ => True

instance (w : World) : ∀ l, Decidable (NoServerClose w l)
  | .close _ _ _ => .isFalse id
  | .driver _ _ | .enterTick | .pollEvents _ | .pollCloses _ _ | .accept _ | .insertConn
  | .again | .timer | .call _ => .isTrue trivial

namespace World

/-- No event has been discarded, nor is one waiting whose connection has lost its record. -/
structure NoneDropped (w : World) : Prop where
  handled : ∀ h ∈ w.handled, h.found = true
  pending : ∀ s ∈ w.pending, w.removedAt s.connId = none

/-- The event was sent after the last poll of the event arm before the poll of the close
arm that took its connection's close message. -/
def Late (w : World) (s : Sent) : Prop := w.removedAt s.connId = some s.poll

/-- The discarded events are the late ones, and the events waiting for a connection that
has lost its record are late. -/
structure LateDropped (w : World) : Prop where
  handled : ∀ h ∈ w.handled, h.found = false ↔ w.Late h.sent
  pending : ∀ s ∈ w.pending, w.removedAt s.connId ≠ none → w.Late s

end World

/-- What carries the order of the two channels from step to step. -/
private structure Timed (w : World) : Prop where
  handled : ∀ h ∈ w.handled, h.sent.poll < w.polls
  sent : ∀ s ∈ w.pending, s.poll ≤ w.polls
  fresh : w.tick = .closeArm → ∀ s ∈ w.pending, s.poll = w.polls
  removed : ∀ c p, w.removedAt c = some p → ¬ w.server.Serves c ∧ w.Ended c
  kept : ∀ c, w.HasDriver c → w.removedAt c = none → w.server.Serves c
  late : w.LateDropped

section

variable {w w' : World}

private theorem timed_init (h : w.Init) : Timed w := by
  obtain ⟨callback, -, rfl⟩ := h
  refine ⟨?_, ?_, ?_, ?_, ?_, ?_, ?_⟩ <;> simp [World.start, World.HasDriver]

/-- A step that leaves the events and the removals alone. -/
private theorem timed_quiet {l : Label} (hw : w.Linked) (hi : Timed w) (h : Happens w l w')
    (hhandled : w'.handled = w.handled) (hpending : w'.pending = w.pending)
    (hpolls : w'.polls = w.polls) (hremoved : w'.removedAt = w.removedAt)
    (htick : w'.tick = .closeArm → w.tick = .closeArm)
    (hserves : ∀ c, w.server.Serves c → w'.server.Serves c) : Timed w' := by
  refine ⟨?_, ?_, ?_, ?_, ?_, ?_, ?_⟩
  · rw [hhandled, hpolls]
    exact hi.handled
  · rw [hpending, hpolls]
    exact hi.sent
  · rw [hpending, hpolls]
    exact fun ht ↦ hi.fresh (htick ht)
  · intro c p hp
    obtain ⟨hno, hended⟩ := hi.removed c p (hremoved ▸ hp)
    refine ⟨fun hs ↦ ?_, (h.drivers hw).ended hended⟩
    rcases h.serves hs with hs | ⟨rfl, -⟩
    · exact hno hs
    · obtain ⟨d, hd, -⟩ := hended
      exact Nat.lt_irrefl _ (hw.drivers _ d hd).1
  · intro c hc hnone
    rcases (h.drivers hw).hasDriver_inv hc with hc | hs
    · exact hserves c (hi.kept c hc (hremoved ▸ hnone))
    · exact hs
  · rw [hhandled]
    simpa only [World.Late, hremoved] using hi.late.handled
  · rw [hpending]
    simpa only [World.Late, hremoved] using hi.late.pending

/-- The event arm finds the channel empty: from here on pending events are fresh. -/
private theorem timed_noEvent (hw : w.Linked) (hi : Timed w) (hq : w.events.queue = []) :
    Timed { w with tick := .closeArm, polls := w.polls + 1 } := by
  have hnone : w.pending = [] := by
    have hpending := hw.pending
    rwa [hq, List.map_eq_nil_iff] at hpending
  have hno : ∀ s, s ∉ w.pending := fun s hs ↦ by
    rw [hnone] at hs
    exact List.not_mem_nil hs
  exact ⟨fun h hh ↦ (hi.handled h hh).trans (Nat.lt_succ_self _), fun s hs ↦ absurd hs (hno s),
    fun _ s hs ↦ absurd hs (hno s), hi.removed, hi.kept, ⟨hi.late.handled, hi.late.pending⟩⟩

/-- The oldest event is handled: it is discarded where its connection has lost its record. -/
private theorem timed_dispatched (hw : w.Linked) (hi : Timed w) {c : ConnId}
    {ev : DriverEvent} {rest : List (ConnId × DriverEvent)} {tape : List Script}
    {s : QuicheServerSocketImpl} (ht : w.tick = .eventArm)
    (hq : w.events.queue = (c, ev) :: rest)
    (hs : w.server.step (.driverEvent c ev tape) = some s) {events : EventChannel} :
    Timed { w with
      server := s
      events
      polls := w.polls + 1
      pending := w.pending.tail
      handled := w.handled ++ (w.pending.head?.map fun sent ↦
        ⟨sent, w.server.connections[c]?.isSome⟩).toList } := by
  have hpending := hw.pending
  rw [hq] at hpending
  obtain ⟨first, later, hp, hfirst, -⟩ := List.map_eq_cons_iff.mp hpending
  obtain ⟨rfl, -⟩ := Prod.mk.inj hfirst
  have hfound := serves_iff_of_free (records_driverEvent hs).1 first.connId
  have hmem : first ∈ w.pending := hp ▸ List.mem_cons_self ..
  have hserves := (serves_step hs).2
  refine ⟨?_, ?_, fun ht' ↦ ?_, ?_, ?_, ?_, ?_⟩
  · intro h hh
    rcases List.mem_append.mp hh with hh | hh
    · exact (hi.handled h hh).trans (Nat.lt_succ_self _)
    · rw [hp] at hh
      cases List.mem_singleton.mp hh
      exact Nat.lt_succ_of_le (hi.sent first hmem)
  · exact fun s hs ↦ (hi.sent s (List.mem_of_mem_tail hs)).trans (Nat.le_succ _)
  · exact absurd (ht.symm.trans ht') (by simp)
  · exact fun c p hc ↦ (hi.removed c p hc).imp_left fun hno hyes ↦ hno ((hserves c).mp hyes)
  · exact fun c hc hnone ↦ (hserves c).mpr (hi.kept c hc hnone)
  · intro h hh
    rcases List.mem_append.mp hh with hh | hh
    · exact hi.late.handled h hh
    · rw [hp] at hh
      cases List.mem_singleton.mp hh
      dsimp only
      rw [← Bool.not_eq_true, ← hfound]
      constructor
      · intro hno
        refine hi.late.pending first hmem fun hnone ↦ ?_
        exact hno (hi.kept _ (hw.senders first (List.mem_append_right _ hmem)) hnone)
      · exact fun hlate ↦ (hi.removed _ _ hlate).1
  · exact fun s hs ↦ hi.late.pending s (List.mem_of_mem_tail hs)

/-- The close arm takes a message: the events pending for its connection are fresh. -/
private theorem timed_closed (hw : w.Linked) (hi : Timed w) {c : ConnId} {b : Bool}
    {rest : List (ConnId × Bool)} {order : List StreamId} {tape : List Script}
    {s : QuicheServerSocketImpl} (ht : w.tick = .closeArm)
    (hq : w.closes.queue = (c, b) :: rest)
    (hs : w.server.step (.connClosed c b order tape) = some s) {closes : CloseChannel} :
    Timed { w with
      server := s
      closes
      tick := .eventArm
      removedAt := if w.server.connections[c]?.isSome then
          Function.update w.removedAt c (some w.polls)
        else w.removedAt } := by
  have hserves := (serves_step hs).2
  have hended : w.Ended c := hw.closing c b (hq ▸ List.mem_cons_self ..)
  have hfound := serves_iff_of_free (records_connClosed hs).1 c
  have hlt : ∀ h ∈ w.handled, h.sent.poll ≠ w.polls := fun h hh ↦ (hi.handled h hh).ne
  refine ⟨hi.handled, hi.sent, fun ht' ↦ absurd ht' (by simp), ?_, ?_, ?_⟩
  · intro c' p hp
    dsimp only at hp
    rw [hserves c']
    split at hp
    · rw [Function.update_apply] at hp
      split at hp
      · next heq => exact ⟨fun h ↦ h.2 heq, heq ▸ hended⟩
      · exact (hi.removed c' p hp).imp_left fun hno hyes ↦ hno hyes.1
    · exact (hi.removed c' p hp).imp_left fun hno hyes ↦ hno hyes.1
  · intro c' hc hnone
    dsimp only at hnone
    rw [hserves c']
    split at hnone
    · rw [Function.update_apply] at hnone
      split at hnone
      · cases hnone
      · next hne => exact ⟨hi.kept c' hc hnone, hne⟩
    · next hno =>
      refine ⟨hi.kept c' hc hnone, ?_⟩
      rintro rfl
      exact hno (hfound.mp (hi.kept c' hc hnone))
  · constructor
    · intro h hh
      rw [hi.late.handled h hh]
      simp only [World.Late]
      split
      · next hyes =>
        rw [Function.update_apply]
        split
        · next heq =>
          -- handled while its connection was served, and before this poll
          have hserved : w.server.Serves h.sent.connId := heq ▸ hfound.mpr hyes
          refine ⟨fun hp ↦ absurd hserved (hi.removed _ _ hp).1, fun hp ↦ ?_⟩
          exact absurd (Option.some.inj hp).symm (hlt h hh)
        · rfl
      · rfl
    · intro s hs hne
      simp only [World.Late] at hne ⊢
      split at hne
      · next hyes =>
        rw [if_pos hyes]
        rw [Function.update_apply] at hne ⊢
        split at hne
        · next heq => rw [if_pos heq, hi.fresh ht s hs]
        · next hother =>
          rw [if_neg hother]
          exact hi.late.pending s hs hne
      · next hno =>
        rw [if_neg hno]
        exact hi.late.pending s hs hne

/-- A driver's call sends at most one event, and the driver is open. -/
private theorem timed_read (hw : w.Linked) (hi : Timed w) {c : ConnId} {d : StreamQuicDriver}
    {op : ReadOp} {r : ReadResult} (hd : w.drivers c = some d) (hr : Reads d w.events op r) :
    Timed { w with
      events := r.events
      drivers := Function.update w.drivers d.connId (some r.driver)
      pending := w.pending ++ (r.sent.map fun ev ↦ ⟨d.connId, ev, w.polls⟩).toList
      received := w.recorded d op } := by
  have h : Happens w (.driver c (.read op)) _ := .read c d op r hd hr
  have hnew : ∀ s ∈ w.pending ++ (r.sent.map fun ev ↦ Sent.mk d.connId ev w.polls).toList,
      s ∈ w.pending ∨ s.connId = d.connId ∧ s.poll = w.polls := by
    intro s hs
    refine (List.mem_append.mp hs).imp_right fun hs ↦ ?_
    obtain ⟨ev, -, rfl⟩ := by simpa using hs
    exact ⟨rfl, rfl⟩
  have hopen : ¬ w.Ended d.connId := by
    rintro ⟨d', hd', hp⟩
    obtain rfl := (hw.drivers c d hd).2
    rw [hd] at hd'
    cases hd'
    exact hr.alive.1 hp
  refine ⟨hi.handled, ?_, ?_, ?_, ?_, hi.late.handled, ?_⟩
  · intro s hs
    rcases hnew s hs with hs | ⟨-, hp⟩
    · exact hi.sent s hs
    · exact hp.le
  · intro ht s hs
    rcases hnew s hs with hs | ⟨-, hp⟩
    · exact hi.fresh ht s hs
    · exact hp
  · exact fun c p hp ↦ (hi.removed c p hp).imp_right (h.drivers hw).ended
  · intro c hc hnone
    exact ((h.drivers hw).hasDriver_inv hc).elim (hi.kept c · hnone) id
  · intro s hs hne
    rcases hnew s hs with hs | ⟨hc, -⟩
    · exact hi.late.pending s hs hne
    · obtain ⟨p, hp⟩ := Option.ne_none_iff_exists'.mp hne
      exact absurd (hc ▸ (hi.removed _ p hp).2) hopen

private theorem timed_step {l : Label} (hw : w.Linked) (hi : Timed w) (hok : NoServerClose w l)
    (h : Happens w l w') : Timed w' := by
  cases h with
  | noEvent tape ht hq => exact timed_noEvent hw hi hq
  | dispatched tape c ev rest s ht hq hs => exact timed_dispatched hw hi ht hq hs
  | closed order tape c b rest s ht hq hs => exact timed_closed hw hi ht hq hs
  | read c d op r hd hr => exact timed_read hw hi hd hr
  | serverClosed conns orders tape s ht hs => exact absurd hok id
  | moved l p hl ht hp =>
    have hne : p ≠ .closeArm := by rcases hp with rfl | rfl <;> simp
    exact timed_quiet hw hi (.moved l p hl ht hp) rfl rfl rfl rfl (absurd · hne) fun _ ↦ id
  | noClose order tape ht hq =>
    exact timed_quiet hw hi (.noClose order tape ht hq) rfl rfl rfl rfl nofun fun _ ↦ id
  | accepted peerAddr ht hfree =>
    refine timed_quiet hw hi (.accepted peerAddr ht hfree) rfl rfl rfl rfl nofun fun c hc ↦ ?_
    have hs : w.server.step (.newConn peerAddr) = some (w.server.newConn peerAddr) := if_pos hfree
    exact ((serves_step hs).2 c).mpr (.inl hc)
  | inserted c' st ht hacc =>
    refine timed_quiet hw hi (.inserted c' st ht hacc) rfl rfl rfl rfl nofun fun c hc ↦ ?_
    have hs : w.server.step .insertConn = some (w.server.insertConn c' st) :=
      Option.map_eq_some_iff.mpr ⟨_, hacc, rfl⟩
    exact ((serves_step hs).2 c).mpr hc
  | called call s ht hs =>
    exact timed_quiet hw hi (.called call s ht hs) rfl rfl rfl rfl id
      fun c hc ↦ ((serves_step hs).2 c).mpr hc
  | wrote c d op r hd hr =>
    exact timed_quiet hw hi (.wrote c d op r hd hr) rfl rfl rfl rfl id fun _ ↦ id
  | ended c d e hd hp =>
    exact timed_quiet hw hi (.ended c d e hd hp) rfl rfl rfl rfl id fun _ ↦ id
  | dropped c d hd hp =>
    exact timed_quiet hw hi (.dropped c d hd hp) rfl rfl rfl rfl id fun _ ↦ id

/-- Without a close of the server, the discarded events are exactly those sent after the
last poll of the event arm before their connection's close message was taken; every
earlier event is dispatched before the record goes. `src/quiche/socket.rs:151–254`. -/
theorem lateDropped_of_noServerClose (h : world.ReachableWhile NoServerClose w) :
    w.LateDropped := by
  have hi : Timed w := h.invariant (I := Timed) (fun _ h0 ↦ timed_init h0) fun _ _ _ hs hi hok ht ↦
    timed_step (linked_of_reachable hs) hi hok (step_happens ht)
  exact hi.late

end

/-- A driver announces stream 0, reads nothing of it, and its connection times out. -/
def announcesAndEnds : List Label :=
  [.driver 0 (.read .call), .driver 0 (.read (.readableNext (some 0))),
    .driver 0 (.read .tryReserve), .driver 0 (.read .tryReserve),
    .driver 0 (.read (.streamRecv (.error .done))), .driver 0 (.read (.readableNext none)),
    .driver 0 (.onConnClose .idleTimeout)]

/-- The driver runs between two iterations: its event is dispatched, then its record goes. -/
theorem betweenIterations_lateDropped :
    ∃ w, world.run (.start closure)
        (arrivals 1 ++ announcesAndEnds ++ [.pollEvents [], .pollEvents [], .pollCloses [] []]) =
        some w ∧
      w.handled.map (·.found) = [true] ∧ w.removedAt 0 = some 3 ∧ w.LateDropped := by
  have h : (world.run (.start closure)
      (arrivals 1 ++ announcesAndEnds ++ [.pollEvents [], .pollEvents [], .pollCloses [] []])).map
        (fun w ↦ (w.handled.map (·.found), w.removedAt 0)) = some ([true], some 3) := by
    decide +kernel
  obtain ⟨w, hw, heq⟩ := Option.map_eq_some_iff.mp h
  obtain ⟨hfound, hremoved⟩ := Prod.mk.inj heq
  refine ⟨w, hw, hfound, hremoved, lateDropped_of_noServerClose
    (.run (.init ⟨closure, rfl, rfl⟩) ?_ hw)⟩
  decide +kernel

/-- The driver runs between the polls of the two arms: its event is discarded. -/
theorem betweenArms_drops :
    ∃ w, world.run (.start closure)
        (arrivals 1 ++ [.pollEvents []] ++ announcesAndEnds ++
          [.pollCloses [] [], .pollEvents []]) = some w ∧
      world.Along NoServerClose (.start closure)
        (arrivals 1 ++ [.pollEvents []] ++ announcesAndEnds ++
          [.pollCloses [] [], .pollEvents []]) ∧
      w.handled.map (fun h ↦ (h.sent.connId, h.sent.event, h.found)) = [(0, .newBidi 0, false)] ∧
      ¬ w.NoneDropped := by
  have h : (world.run (.start closure)
      (arrivals 1 ++ [.pollEvents []] ++ announcesAndEnds ++
        [.pollCloses [] [], .pollEvents []])).map
        (fun w ↦ w.handled.map fun h ↦ (h.sent.connId, h.sent.event, h.found)) =
      some [(0, .newBidi 0, false)] := by decide +kernel
  obtain ⟨w, hw, heq⟩ := Option.map_eq_some_iff.mp h
  refine ⟨w, hw, by decide +kernel, heq, fun hnone ↦ ?_⟩
  have hall : ∀ x ∈ w.handled.map (fun h ↦ (h.sent.connId, h.sent.event, h.found)),
      x.2.2 = true := List.forall_mem_map.mpr hnone.handled
  rw [heq] at hall
  exact absurd (hall _ (List.mem_singleton_self _)) (by simp)

end ExtQuiche.System
