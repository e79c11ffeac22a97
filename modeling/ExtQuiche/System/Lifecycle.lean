import ExtQuiche.Server.Frame
import ExtQuiche.System.World

/-!
# Connections over the runs of the system

Library `System`. What links a connection's driver, its record and its messages in
flight, in every reachable state: a record has a driver, a close message is that of a
closed driver, and the event channel holds the pending events of the account.
-/

namespace ExtQuiche.System
open ExtQuiche.Base ExtQuiche.Conn ExtQuiche.Driver ExtQuiche.Server

namespace World

/-- The connection has a driver, open or closed. -/
def HasDriver (w : World) (c : ConnId) : Prop := ∃ d, w.drivers c = some d

/-- `on_conn_close` of the connection's driver has run. -/
def Ended (w : World) (c : ConnId) : Prop := ∃ d, w.drivers c = some d ∧ d.point = .closed

/-- Records, drivers and messages in flight belong together. -/
structure Linked (w : World) : Prop where
  drivers : ∀ c d, w.drivers c = some d → c < w.server.idCounter ∧ d.connId = c
  served : ∀ c, w.server.Serves c → w.HasDriver c
  closing : ∀ c b, (c, b) ∈ w.closes.queue → w.Ended c
  inserting : w.server.accepting ≠ none → w.tick = .inserting
  pending : w.pending.map (fun s ↦ (s.connId, s.event)) = w.events.queue
  senders : ∀ s ∈ w.sent, w.HasDriver s.connId

end World

section

variable {w w' : World}

/-- The driver of the connection that the next acceptance creates is not there yet. -/
theorem World.Linked.fresh (hw : w.Linked) : w.drivers w.server.idCounter = none := by
  rw [Option.eq_none_iff_forall_ne_some]
  exact fun d hd ↦ Nat.lt_irrefl _ (hw.drivers _ d hd).1

/-- A step keeps the drivers, creates the one of the connection being accepted, or is a call
on one open driver. -/
inductive DriversMove (w : World) (l : Label) (w' : World) : Prop where
  | kept (h : w'.drivers = w.drivers)
  | new (c : ConnId) (chan : ChanRef) (hc : w.drivers c = none) (hlt : c < w'.server.idCounter)
      (hserves : w'.server.Serves c)
      (h : w'.drivers = Function.update w.drivers c (some (.build c chan)))
  | turned (c : ConnId) (d d' : StreamQuicDriver) (hd : w.drivers c = some d)
      (hopen : d.point ≠ .closed) (hc : d'.connId = c)
      (hclosed : d'.point = .closed → ∃ e, l = .driver c (.onConnClose e))
      (h : w'.drivers = Function.update w.drivers c (some d'))

/-- What a step does to the drivers. -/
theorem Happens.drivers {l : Label} (h : Happens w l w') (hw : w.Linked) :
    DriversMove w l w' := by
  cases h with
  | accepted peerAddr ht hfree =>
    exact .new w.server.idCounter _ hw.fresh (Nat.lt_succ_self _) (.inr ⟨_, rfl⟩) rfl
  | read c d op r hd hr =>
    obtain ⟨hopen, hopen', hc⟩ := hr.alive
    obtain rfl := (hw.drivers c d hd).2
    exact .turned _ d r.driver hd hopen hc (absurd · hopen') rfl
  | wrote c d op r hd hr =>
    obtain ⟨hopen, hopen', hc⟩ := hr.alive
    obtain rfl := (hw.drivers c d hd).2
    exact .turned _ d r.driver hd hopen hc (absurd · hopen') rfl
  | ended c d e hd hp =>
    obtain rfl := (hw.drivers c d hd).2
    exact .turned _ d { d with point := .closed } hd (by simp [hp]) rfl (fun _ ↦ ⟨e, rfl⟩) rfl
  | _ => exact .kept rfl

/-- A driver after a step was there before, is new, or has been turned. -/
theorem DriversMove.eq_some {l : Label} (h : DriversMove w l w') {c : ConnId}
    {d' : StreamQuicDriver} (hd' : w'.drivers c = some d') :
    w.drivers c = some d' ∨
      (c < w'.server.idCounter ∧ w'.server.Serves c ∧ ∃ chan, d' = .build c chan) ∨
      (∃ d, w.drivers c = some d) ∧ d'.connId = c ∧
        (d'.point = .closed → ∃ e, l = .driver c (.onConnClose e)) := by
  cases h with
  | kept h => exact .inl (h ▸ hd')
  | new c' chan hno hlt hserves h =>
    rw [h, Function.update_apply] at hd'
    split at hd'
    · next heq =>
      cases hd'
      subst heq
      exact .inr (.inl ⟨hlt, hserves, chan, rfl⟩)
    · exact .inl hd'
  | turned c' d d'' hd hopen hc hclosed h =>
    rw [h, Function.update_apply] at hd'
    split at hd'
    · next heq =>
      cases hd'
      subst heq
      exact .inr (.inr ⟨⟨d, hd⟩, hc, hclosed⟩)
    · exact .inl hd'

/-- A driver stays. -/
theorem DriversMove.hasDriver {l : Label} (h : DriversMove w l w') {c : ConnId}
    (hc : w.HasDriver c) : w'.HasDriver c := by
  obtain ⟨d, hd⟩ := hc
  cases h with
  | kept h => exact ⟨d, by rw [h, hd]⟩
  | new c' chan hno hlt hserves h =>
    have hne : c ≠ c' := by
      rintro rfl
      rw [hno] at hd
      cases hd
    exact ⟨d, by rw [h, Function.update_of_ne hne, hd]⟩
  | turned c' e e' he hopen hc' hclosed h =>
    rcases eq_or_ne c c' with rfl | hne
    · exact ⟨e', by rw [h, Function.update_self]⟩
    · exact ⟨d, by rw [h, Function.update_of_ne hne, hd]⟩

/-- A closed driver stays closed. -/
theorem DriversMove.ended {l : Label} (h : DriversMove w l w') {c : ConnId} (hc : w.Ended c) :
    w'.Ended c := by
  obtain ⟨d, hd, hp⟩ := hc
  cases h with
  | kept h => exact ⟨d, by rw [h, hd], hp⟩
  | new c' chan hno hlt hserves h =>
    have hne : c ≠ c' := by
      rintro rfl
      rw [hno] at hd
      cases hd
    exact ⟨d, by rw [h, Function.update_of_ne hne, hd], hp⟩
  | turned c' e e' he hopen hc' hclosed h =>
    rcases eq_or_ne c c' with rfl | hne
    · rw [hd] at he
      cases he
      exact absurd hp hopen
    · exact ⟨d, by rw [h, Function.update_of_ne hne, hd], hp⟩

/-- A driver is closed by its `on_conn_close` only. -/
theorem DriversMove.ended_inv {l : Label} (h : DriversMove w l w') {c : ConnId}
    (hc : w'.Ended c) : w.Ended c ∨ ∃ e, l = .driver c (.onConnClose e) := by
  obtain ⟨d', hd', hp'⟩ := hc
  rcases h.eq_some hd' with hold | ⟨-, -, chan, rfl⟩ | ⟨-, -, hclosed⟩
  · exact .inl ⟨d', hold, hp'⟩
  · cases hp'
  · exact .inr (hclosed hp')

/-- A driver was there, or has been created for a connection that is served from now on. -/
theorem DriversMove.hasDriver_inv {l : Label} (h : DriversMove w l w') {c : ConnId}
    (hc : w'.HasDriver c) : w.HasDriver c ∨ w'.server.Serves c := by
  obtain ⟨d', hd'⟩ := hc
  rcases h.eq_some hd' with hold | ⟨-, hserves, -⟩ | ⟨hold, -⟩
  · exact .inl ⟨d', hold⟩
  · exact .inr hserves
  · exact .inl hold

/-- Every step only adds to the log. -/
theorem Happens.log {l : Label} (h : Happens w l w') : w.server.log <+: w'.server.log := by
  rcases h.server with heq | ⟨k, hk, -⟩
  · rw [heq]
  · exact log_step hk

/-- The counter of the connections never goes back. -/
theorem Happens.idCounter_le {l : Label} (h : Happens w l w') :
    w.server.idCounter ≤ w'.server.idCounter := by
  cases h with
  | dispatched tape c ev rest s ht hq hs => exact (serves_step hs).1.ge
  | closed order tape c b rest s ht hq hs => exact (serves_step hs).1.ge
  | accepted peerAddr ht hfree => exact Nat.le_succ _
  | called call s ht hs => exact (serves_step hs).1.ge
  | serverClosed conns orders tape s ht hs => exact (serves_step hs).1.ge
  | _ => exact Nat.le_refl _

/-- A connection that is served was served, or has been accepted with its driver. -/
theorem Happens.serves {l : Label} (h : Happens w l w') {c : ConnId} (hc : w'.server.Serves c) :
    w.server.Serves c ∨ c = w.server.idCounter ∧ w'.HasDriver c ∧
      ∃ peerAddr, w'.server = w.server.newConn peerAddr ∧ w'.handled = w.handled := by
  cases h with
  | dispatched tape c' ev rest s ht hq hs => exact .inl (((serves_step hs).2 c).mp hc)
  | closed order tape c' b rest s ht hq hs => exact .inl (((serves_step hs).2 c).mp hc).1
  | accepted peerAddr ht hfree =>
    have hs : w.server.step (.newConn peerAddr) = some (w.server.newConn peerAddr) := if_pos hfree
    apply (((serves_step hs).2 c).mp hc).imp_right
    rintro rfl
    exact ⟨rfl, ⟨_, Function.update_self ..⟩, peerAddr, rfl, rfl⟩
  | inserted c' st ht hacc =>
    have hs : w.server.step .insertConn = some (w.server.insertConn c' st) :=
      Option.map_eq_some_iff.mpr ⟨_, hacc, rfl⟩
    exact .inl (((serves_step hs).2 c).mp hc)
  | called call s ht hs => exact .inl (((serves_step hs).2 c).mp hc)
  | serverClosed conns orders tape s ht hs => exact .inl ((serves_step hs).2 c hc)
  | _ => exact .inl hc

/-- A close message was queued before, or its driver has just closed. -/
theorem Happens.closing {l : Label} (h : Happens w l w') (hw : w.Linked) {c : ConnId} {b : Bool}
    (hc : (c, b) ∈ w'.closes.queue) : (c, b) ∈ w.closes.queue ∨ w'.Ended c := by
  cases h with
  | closed order tape c' b' rest s ht hq hs => exact .inl (hq ▸ List.mem_cons_of_mem _ hc)
  | ended c' d e hd hp =>
    obtain rfl := (hw.drivers c' d hd).2
    dsimp only at hc
    split at hc
    · rcases List.mem_append.mp hc with hc | hc
      · exact .inl hc
      · cases List.mem_singleton.mp hc
        exact .inr ⟨_, Function.update_self .., rfl⟩
    · exact .inl hc
  | _ => exact .inl hc

/-- A connection is being inserted only at the point of its insertion. -/
theorem Happens.inserting {l : Label} (h : Happens w l w')
    (hw : w.server.accepting ≠ none → w.tick = .inserting) :
    w'.server.accepting ≠ none → w'.tick = .inserting := by
  cases h with
  | moved l p hl ht hp =>
    intro hacc
    rcases ht with ht | ht <;> exact absurd (hw hacc) (by simp [ht])
  | noEvent tape ht hq => exact fun hacc ↦ absurd (hw hacc) (by simp [ht])
  | noClose order tape ht hq => exact fun hacc ↦ absurd (hw hacc) (by simp [ht])
  | dispatched tape c ev rest s ht hq hs =>
    obtain ⟨hfree, hrec⟩ := records_driverEvent hs
    exact fun hacc ↦ absurd ((congrArg (·.2.1) hrec).trans hfree.2) hacc
  | closed order tape c b rest s ht hq hs =>
    obtain ⟨hfree, hrec⟩ := records_connClosed hs
    exact fun hacc ↦ absurd ((congrArg (·.2.1) hrec).trans hfree.2) hacc
  | accepted peerAddr ht hfree => exact fun _ ↦ rfl
  | inserted c st ht hacc => exact fun hno ↦ absurd rfl hno
  | called call s ht hs =>
    obtain ⟨hfree, hrec⟩ := records_call hs
    exact fun hacc ↦ absurd ((congrArg (·.2.1) hrec).trans hfree.2) hacc
  | serverClosed conns orders tape s ht hs =>
    obtain ⟨hfree, hacc', -⟩ := records_close hs
    exact fun hacc ↦ absurd (hacc'.trans hfree.2) hacc
  | _ => exact hw

/-- What a driver's call sends goes to the end of the account. -/
def SentBy (w : World) (l : Label) (w' : World) (d : StreamQuicDriver) (r : ReadResult) : Prop :=
  ∃ c op, l = .driver c (.read op) ∧ w.drivers c = some d ∧ Reads d w.events op r ∧
    w'.sent = w.sent ++ (r.sent.map fun ev ↦ ⟨d.connId, ev, w.polls⟩).toList

/-- Only the reads of a driver send events. -/
theorem Happens.sent {l : Label} (h : Happens w l w') :
    w'.sent = w.sent ∨ ∃ d r, SentBy w l w' d r := by
  cases h with
  | dispatched tape c ev rest s ht hq hs =>
    refine .inl ?_
    cases hp : w.pending <;> simp [World.sent, hp]
  | read c d op r hd hr =>
    exact .inr ⟨d, r, c, op, rfl, hd, hr, (List.append_assoc ..).symm⟩
  | _ => exact .inl rfl

/-- The pending events of the account are those on the channel. -/
theorem Happens.pending {l : Label} (h : Happens w l w')
    (hw : w.pending.map (fun s ↦ (s.connId, s.event)) = w.events.queue) :
    w'.pending.map (fun s ↦ (s.connId, s.event)) = w'.events.queue := by
  cases h with
  | dispatched tape c ev rest s ht hq hs =>
    rw [List.map_tail, hw, hq]
    rfl
  | read c d op r hd hr =>
    rw [List.map_append, hw]
    cases hr <;> simp
  | _ => exact hw

/-- Linked parties stay linked. -/
theorem World.Linked.step {l : Label} (hw : w.Linked) (h : Happens w l w') : w'.Linked := by
  have hmove := h.drivers hw
  refine ⟨?_, ?_, ?_, ?_, h.pending hw.pending, ?_⟩
  · intro c d hd
    rcases hmove.eq_some hd with hold | ⟨hlt, -, chan, rfl⟩ | ⟨⟨e, he⟩, hc, -⟩
    · exact (hw.drivers c d hold).imp_left (·.trans_le h.idCounter_le)
    · exact ⟨hlt, rfl⟩
    · exact ⟨(hw.drivers c e he).1.trans_le h.idCounter_le, hc⟩
  · intro c hc
    rcases h.serves hc with hold | ⟨-, hnew, -⟩
    · exact hmove.hasDriver (hw.served c hold)
    · exact hnew
  · intro c b hc
    exact (h.closing hw hc).elim (fun hold ↦ hmove.ended (hw.closing c b hold)) id
  · exact h.inserting hw.inserting
  · intro s hs
    rcases h.sent with hsame | ⟨d, r, c, op, -, hd, -, hsent⟩
    · exact hmove.hasDriver (hw.senders s (hsame ▸ hs))
    · rw [hsent] at hs
      rcases List.mem_append.mp hs with hs | hs
      · exact hmove.hasDriver (hw.senders s hs)
      · obtain ⟨ev, -, rfl⟩ := by simpa using hs
        exact hmove.hasDriver ⟨d, (hw.drivers c d hd).2 ▸ hd⟩

/-- The parties are linked in every reachable state. -/
theorem linked_of_reachable {ok : World → Label → Prop} (h : world.ReachableWhile ok w) :
    w.Linked := by
  refine h.invariant (I := World.Linked) ?_ fun _ _ _ _ hw _ ht ↦ hw.step (step_happens ht)
  rintro _ ⟨callback, -, rfl⟩
  constructor <;> simp [World.start, World.sent, World.HasDriver, QuicheServerSocketImpl.bind,
    QuicheServerSocketImpl.Serves]

end

end ExtQuiche.System
