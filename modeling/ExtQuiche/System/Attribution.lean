import ExtQuiche.Server.Sweep
import ExtQuiche.System.CloseSignals
import ExtQuiche.System.Story

/-!
# Who ended a stream

Library `System`. `setOnClose` promises its callback whether the peer ended the stream
(`src/stream.rs:52–61`). The flag is `true` where a fin is dispatched, comes from
`peer_error` where a close message is taken (`src/quiche/driver.rs:175–197`), and is `false`
where the server closes; the first of these to reach the slot wins.
-/

namespace ExtQuiche.System
open ExtQuiche.Base ExtQuiche.Conn ExtQuiche.Driver ExtQuiche.Server

/-- The peer ended the stream: its fin has been read, or it ended the connection. -/
def PeerEnded (received : ConnId → StreamId → List (Bytes × Bool)) (ends : ConnId → Option ConnEnd)
    (c : ConnId) (id : StreamId) : Prop :=
  (received c id).any (·.2) = true ∨ (ends c).any ConnEnd.byPeer = true

instance (received : ConnId → StreamId → List (Bytes × Bool)) (ends : ConnId → Option ConnEnd)
    (c : ConnId) (id : StreamId) : Decidable (PeerEnded received ends c id) :=
  inferInstanceAs (Decidable (_ ∨ _))

/-- The flag tells who ended the stream: it is `false` only where the server closed or its
side ended the connection, and `true` wherever the peer ended the stream. -/
structure Firing.Tells (f : Firing) (i : Insertion) : Prop where
  ofFalse : f.peerClosed = false → f.byServer = true ∨
    ∃ ended, f.ends i.connId = some ended ∧ ended.byPeer = false
  ofPeer : PeerEnded f.received f.ends i.connId i.streamId → f.peerClosed = true

/-- The account has every call of `fire_on_close`, each is that of one registered stream, and
its flag tells who ended that stream. -/
structure Told (w : World) (t : Tale) : Prop where
  firings : t.firings.map (fun f ↦ (f.slot, f.peerClosed)) = w.server.log.filterMap Obs.fires
  tells : ∀ f ∈ t.firings, ∃ i, .inserted i ∈ w.server.log ∧ i.slots.onClose = f.slot ∧
    (∀ j, .inserted j ∈ w.server.log → j.slots.onClose = f.slot → j = i) ∧ f.Tells i

/-- A close message with `false` is taken, or the server is closed, only where the peer has
ended none of the streams that this fires: those in the map of the connection, and for the
close of the server those that its callbacks open as well. -/
def Attributed : World × Tale → Label → Prop
  | (w, t), .pollCloses _ _ =>
    ∀ m ∈ w.closes.queue.head?.toList, m.2 = false → w.server.connections[m.1]? ≠ none →
      ∀ e ∈ (w.server.maps m.1).toList, ¬ PeerEnded w.received t.ends m.1 e.1
  | (w, t), .close _ _ tape =>
    (∀ e ∈ w.server.connections.toList, ∀ f ∈ (w.server.maps e.1).toList,
      ¬ PeerEnded w.received t.ends e.1 f.1) ∧
    ∀ p ∈ w.server.openedOn tape, w.server.connections[p.1]? ≠ none →
      ¬ PeerEnded w.received t.ends p.1 p.2
  | _, _ => True

instance : ∀ p l, Decidable (Attributed p l)
  | (_, _), .pollCloses _ _ => inferInstanceAs (Decidable (∀ _ ∈ _, _ → _ → _))
  | (_, _), .close _ _ _ => inferInstanceAs (Decidable (_ ∧ _))
  | _, .driver _ _ | _, .enterTick | _, .pollEvents _ | _, .accept _ | _, .insertConn | _, .again
  | _, .timer | _, .call _ => .isTrue trivial

section

variable {w w' : World} {t : Tale}

/-- A close message carries whether the transport has an error of the peer. -/
private def Ends (w : World) (t : Tale) : Prop :=
  ∀ c b, (c, b) ∈ w.closes.queue → ∃ ended, t.ends c = some ended ∧ ended.peerError.isSome = b

private theorem ends_step {l : Label} (hw : w.Linked) (hi : Ends w t) (h : Happens w l w') :
    Ends w' (t.add w l w') := by
  cases h with
  | moved l p hl ht hp => rcases hl with rfl | rfl | rfl <;> exact hi
  | closed order tape c b rest s ht hq hs =>
    exact fun c' b' hmem ↦ hi c' b' (hq ▸ List.mem_cons_of_mem _ hmem)
  | ended c d e hd hp =>
    obtain rfl := (hw.drivers c d hd).2
    have hother : ∀ c' b', (c', b') ∈ w.closes.queue →
        ∃ ended, Function.update t.ends d.connId (some e) c' = some ended ∧
          ended.peerError.isSome = b' := by
      intro c' b' hmem
      have hne : c' ≠ d.connId := by
        rintro rfl
        obtain ⟨d', hd', hp'⟩ := hw.closing _ _ hmem
        rw [hd] at hd'
        cases hd'
        rw [hp] at hp'
        cases hp'
      rw [Function.update_of_ne hne]
      exact hi c' b' hmem
    intro c' b' hmem
    dsimp only at hmem
    split at hmem
    · rcases List.mem_append.mp hmem with hold | hnew
      · exact hother c' b' hold
      · cases List.mem_singleton.mp hnew
        exact ⟨e, Function.update_self .., rfl⟩
    · exact hother c' b' hmem
  | _ => exact hi

private theorem ends_of_reachable {ok : World × Tale → Label → Prop}
    (h : story.ReachableWhile ok (w, t)) : Ends w t := by
  refine h.account_invariant (I := Ends) ?_ fun w t l w' hreach hi _ ht ↦
    ends_step (linked_of_reachable hreach.forget) hi (step_happens ht)
  rintro _ ⟨callback, -, rfl⟩ c b hno
  exact absurd hno List.not_mem_nil

/-- What a step fires, it fires for registered streams, with flags that tell. -/
private def FiresTold (w : World) (t : Tale) (l : Label) (w' : World) : Prop :=
  ∀ slot b, .fireOnClose slot b ∈ w'.server.log.drop w.server.log.length →
    ∃ i, .inserted i ∈ w'.server.log ∧ i.slots.onClose = slot ∧
      Firing.Tells ⟨slot, b, w.received, t.ends, l.byServer⟩ i

private theorem firesTold_of_traced {l : Label} {A : List Obs → Invocation → Prop}
    (h : Traced A w.server w'.server)
    (hA : ∀ slot b, A w'.server.log (.onClose slot b) → ∃ i, .inserted i ∈ w'.server.log ∧
      i.slots.onClose = slot ∧ Firing.Tells ⟨slot, b, w.received, t.ends, l.byServer⟩ i) :
    FiresTold w t l w' := fun slot b hmem ↦ hA slot b (h.fired slot b hmem)

private theorem firesTold_of_log {l : Label} (h : w'.server.log = w.server.log) :
    FiresTold w t l w' := by
  intro slot b hmem
  rw [h, List.drop_length] at hmem
  exact absurd hmem List.not_mem_nil

private theorem firesTold_dispatched {l : Label} (hs : server.Reachable w.server) {c : ConnId}
    {ev : DriverEvent} {tape : List Script}
    (ht : w.server.step (.driverEvent c ev tape) = some w'.server) : FiresTold w t l w' := by
  refine firesTold_of_traced (traced_driverEvent (owned_of_reachable hs) (listed_of_reachable hs) ht)
    fun slot b hA ↦ ?_
  obtain ⟨i, hi, -, hslot, rfl, -⟩ := hA
  exact ⟨i, hi, hslot, ⟨nofun, fun _ ↦ rfl⟩⟩

private theorem mem_toList {m : Std.ExtTreeMap StreamId StreamSlots} {id : StreamId}
    (h : m[id]? ≠ none) : ∃ slots, (id, slots) ∈ m.toList := by
  obtain ⟨slots, hslots⟩ := Option.ne_none_iff_exists'.mp h
  exact ⟨slots, Std.ExtTreeMap.mem_toList_iff_getElem?_eq_some.mpr hslots⟩

private theorem firesTold_closed {l : Label} (hs : server.Reachable w.server) (hends : Ends w t)
    {c : ConnId} {b : Bool} {rest : List (ConnId × Bool)} {order : List StreamId}
    {tape : List Script} (hq : w.closes.queue = (c, b) :: rest)
    (hok : Attributed (w, t) (.pollCloses order tape))
    (ht : w.server.step (.connClosed c b order tape) = some w'.server) : FiresTold w t l w' := by
  refine firesTold_of_traced (traced_connClosed (owned_of_reachable hs) (listed_of_reachable hs) ht)
    fun slot b' hA ↦ ?_
  obtain ⟨i, hi, rfl, hslot, rfl, hrecord, hplace⟩ := hA
  refine ⟨i, hi, hslot, ?_⟩
  cases b' with
  | true => exact ⟨nofun, fun _ ↦ rfl⟩
  | false =>
    obtain ⟨slots, hmem⟩ := mem_toList hplace
    have hpeer := hok (i.connId, false) (by simp [hq]) rfl hrecord _ hmem
    obtain ⟨ended, hended, herror⟩ := hends i.connId false (hq ▸ List.mem_cons_self ..)
    refine ⟨fun _ ↦ .inr ⟨ended, hended, ?_⟩, fun hyes ↦ absurd hyes hpeer⟩
    rw [← Bool.not_eq_true]
    exact fun hby ↦ hpeer (.inr (by rw [hended]; exact hby))

private theorem firesTold_serverClosed (hs : server.Reachable w.server) {conns : List ConnId}
    {orders : ConnId → List StreamId} {tape : List Script}
    (hok : Attributed (w, t) (.close conns orders tape))
    (ht : w.server.step (.close conns orders tape) = some w'.server) :
    FiresTold w t (.close conns orders tape) w' := by
  refine firesTold_of_traced (traced_close (owned_of_reachable hs) (listed_of_reachable hs) ht)
    fun slot b hA ↦ ?_
  obtain ⟨rfl, i, hi, hslot, hrecord, hplace⟩ := hA
  refine ⟨i, hi, hslot, ⟨fun _ ↦ .inl rfl, fun hyes ↦ absurd hyes ?_⟩⟩
  rcases hplace with hold | hopened
  · obtain ⟨st, hst⟩ := Option.ne_none_iff_exists'.mp hrecord
    obtain ⟨slots, hmem⟩ := mem_toList hold
    exact hok.1 _ (Std.ExtTreeMap.mem_toList_iff_getElem?_eq_some.mpr hst) _ hmem
  · exact hok.2 _ hopened hrecord

private theorem firesTold_step {l : Label} (hs : server.Reachable w.server) (hends : Ends w t)
    (hok : Attributed (w, t) l) (h : Happens w l w') : FiresTold w t l w' := by
  cases h with
  | dispatched tape c ev rest s ht hq hstep => exact firesTold_dispatched hs hstep
  | closed order tape c b rest s ht hq hstep => exact firesTold_closed hs hends hq hok hstep
  | serverClosed conns orders tape s ht hstep => exact firesTold_serverClosed hs hok hstep
  | called call s ht hstep =>
    have htraced := stable_traced (A := fun _ _ ↦ False) (K := fun _ _ ↦ False)
      (fun _ _ _ _ hno ↦ hno) w.server
    refine firesTold_of_traced (htraced.step_call hstep (fun _ _ hu he ↦
      hu.effect (fun _ _ _ _ hno ↦ hno) he) (Traced.of_log rfl)) fun _ _ hno ↦ hno.elim
  | _ => exact firesTold_of_log rfl

private theorem told_step {l : Label} (hs : server.Reachable w'.server) (hi : Told w t)
    (hfires : FiresTold w t l w') (h : Happens w l w') : Told w' (t.add w l w') := by
  have hlog := h.log
  have honce := (registeredOnce_of_reachable hs).once
  constructor
  · have hsplit : w'.server.log = w.server.log ++ w'.server.log.drop w.server.log.length :=
      (List.prefix_iff_eq_append.mp hlog).symm
    rw [hsplit, List.filterMap_append, ← hi.firings]
    simp only [Tale.add, Tale.firingsOf, List.map_append, List.map_map]
    exact congrArg _ (List.map_id _)
  · intro f hf
    rcases List.mem_append.mp hf with hold | hnew
    · obtain ⟨i, hi, hslot, -, htells⟩ := hi.tells f hold
      exact ⟨i, hlog.subset hi, hslot, fun j hj heq ↦
        honce j i hj (hlog.subset hi) (heq.trans hslot.symm), htells⟩
    · obtain ⟨⟨slot, b⟩, hmem, rfl⟩ := List.mem_map.mp hnew
      obtain ⟨e, he, hfire⟩ := List.mem_filterMap.mp hmem
      cases e with
      | fireOnClose slot' b' =>
        cases hfire
        obtain ⟨i, hi, hslot, htells⟩ := hfires slot b he
        exact ⟨i, hi, hslot, fun j hj heq ↦ honce j i hj hi (heq.trans hslot.symm), htells⟩
      | inserted i => cases hfire
      | invoked r => cases hfire
      | firedOnClose slot' => cases hfire

/-- As long as no close message with `false` is taken, and the server is not closed, where the
peer has ended a stream that this fires, every `on_close` callback is told who ended its
stream. `src/quiche/driver.rs:175–197`, `src/quiche/socket.rs:210–223,330–339`. -/
theorem told_of_attributed (h : story.ReachableWhile Attributed (w, t)) : Told w t := by
  refine h.account_invariant (I := Told) ?_ fun w t l w' hreach hi hok ht ↦ ?_
  · rintro _ ⟨callback, -, rfl⟩
    exact ⟨rfl, fun f hno ↦ absurd hno List.not_mem_nil⟩
  · have hs := hreach.forget
    have hs' : world.Reachable w' := .step l hs trivial ht
    exact told_step (server_reachable hs') hi (firesTold_step (server_reachable hs)
      (ends_of_reachable hreach) hok (step_happens ht)) (step_happens ht)

/-- A callback is told `false` where the peer ended its stream. -/
private theorem not_told {f : Firing} (hf : f ∈ t.firings) {i : Insertion}
    (hi : .inserted i ∈ w.server.log) (hslot : i.slots.onClose = f.slot)
    (hpeer : PeerEnded f.received f.ends i.connId i.streamId) (hfalse : f.peerClosed = false) :
    ¬ Told w t := by
  intro h
  obtain ⟨i', -, -, honce, htells⟩ := h.tells f hf
  rw [← honce i hi hslot] at htells
  rw [htells.ofPeer hpeer] at hfalse
  cases hfalse

end

/-- The connection ends, and its close message is taken. -/
def endsWith (ended : ConnEnd) : List Label :=
  opensZero ++ [.driver 0 (.onConnClose ended), .pollCloses [] []]

/-- After the poll of the event arm the driver reads a fin, and the connection fails; its
close message is taken first. -/
def finThenFails : List Label :=
  opensZero ++
    [.driver 0 (.read .call), .driver 0 (.read (.readableNext (some 0))),
      .driver 0 (.read .tryReserve), .driver 0 (.read (.streamRecv (.ok ([], true)))),
      .driver 0 (.read .tryReserve), .driver 0 (.read (.streamRecv (.error .done))),
      .driver 0 (.read (.readableNext none)),
      .driver 0 (.onConnClose (.transportError (.other (-1)))), .pollCloses [] []]

/-- The server's side ends the connection, and the callback is told so. -/
theorem localClose_told :
    ∃ w t, story.run (.start closure, .start) (endsWith .localClose) = some (w, t) ∧
      t.firings.map (fun f ↦ (f.slot, f.peerClosed)) = [(⟨0, .close⟩, false)] ∧ Told w t := by
  have h : (story.run (.start closure, .start) (endsWith .localClose)).map
      (fun p ↦ p.2.firings.map fun f ↦ (f.slot, f.peerClosed)) = some [(⟨0, .close⟩, false)] := by
    decide +kernel
  obtain ⟨⟨w, t⟩, hrun, hfired⟩ := Option.map_eq_some_iff.mp h
  have hok : story.Along Attributed (.start closure, .start) (endsWith .localClose) := by
    decide +kernel
  exact ⟨w, t, hrun, hfired, told_of_attributed (.run (.init ⟨⟨closure, rfl, rfl⟩, rfl⟩) hok hrun)⟩

private theorem misleads_of_run {ls : List Label}
    (h : (story.run (.start closure, .start) ls).map (fun p ↦
      (decide (.inserted ⟨.announced, 0, 0, 0, .ofPair 0, none, true⟩ ∈ p.1.server.log),
        p.2.firings.map fun f ↦
          (f.slot, f.peerClosed, decide (PeerEnded f.received f.ends 0 0)))) =
      some (true, [(⟨0, .close⟩, false, true)])) :
    ∃ w t, story.run (.start closure, .start) ls = some (w, t) ∧ ¬ Told w t := by
  obtain ⟨⟨w, t⟩, hrun, heq⟩ := Option.map_eq_some_iff.mp h
  simp only [Prod.mk.injEq, decide_eq_true_eq] at heq
  obtain ⟨hi, hfirings⟩ := heq
  obtain ⟨f, hf, hlast⟩ := List.mem_map.mp (hfirings ▸ List.mem_singleton_self _)
  simp only [Prod.mk.injEq, decide_eq_true_eq] at hlast
  exact ⟨w, t, hrun, not_told hf hi hlast.1.symm hlast.2.2 hlast.2.1⟩

/-- The peer goes silent, or its fin is overtaken by the close message: each time the callback
is told that the server ended the stream. -/
theorem silenceAndFin_mislead :
    (∃ w t, story.run (.start closure, .start) (endsWith .idleTimeout) = some (w, t) ∧
      ¬ Told w t) ∧
    ∃ w t, story.run (.start closure, .start) finThenFails = some (w, t) ∧ ¬ Told w t :=
  ⟨misleads_of_run (by decide +kernel), misleads_of_run (by decide +kernel)⟩

end ExtQuiche.System
