import ExtQuiche.System.Lifecycle

/-!
# Bounds of the shared channels

Library `System`. The event channel and the close channel never hold more than the server
allows, `src/quiche/socket.rs:28–32`, and no permit of the event channel leaks: each one is
that of a driver between its `try_reserve` and its `stream_recv`,
`src/quiche/driver.rs:99–126`.
-/

namespace ExtQuiche.System
open ExtQuiche.Base ExtQuiche.Conn ExtQuiche.Driver ExtQuiche.Server

namespace World

/-- The driver of the connection holds a permit. -/
def reserves (w : World) (c : ConnId) : Bool := (w.drivers c).any StreamQuicDriver.reserves

/-- Drivers that hold a permit. -/
def reserving (w : World) : Nat := (List.range w.server.idCounter).countP w.reserves

/-- Both channels are within their bounds, and every permit is held by one driver. -/
structure Bounded (w : World) : Prop where
  events : w.events.WF
  capacity : w.events.capacity = SERVER_EVENT_CHANNEL_CAPACITY
  reserved : w.events.reserved = w.reserving
  closes : w.closes.WF ∧ w.closes.capacity = CONN_CLOSE_CHANNEL_CAPACITY

end World

section

variable {w w' : World}

private theorem countP_range_update (f : Nat → Bool) (b : Bool) (c : Nat) {n : Nat} (hc : c < n) :
    (List.range n).countP (Function.update f c b) + (f c).toNat =
      (List.range n).countP f + b.toNat := by
  induction n with
  | zero => exact absurd hc (Nat.not_lt_zero c)
  | succ n ih =>
    have hsingle : ∀ g : Nat → Bool, [n].countP g = (g n).toNat := by
      intro g
      cases hg : g n <;> simp [hg]
    rw [List.range_succ, List.countP_append, List.countP_append, hsingle, hsingle]
    by_cases hn : c = n
    · subst hn
      have hsame : (List.range c).countP (Function.update f c b) = (List.range c).countP f := by
        apply List.countP_congr
        intro i hi
        rw [Function.update_of_ne (List.mem_range.mp hi).ne]
      rw [hsame, Function.update_self]
      omega
    · rw [Function.update_of_ne (Ne.symm hn)]
      have hi := ih (by omega)
      omega

/-- One driver changes, and the others are as they were. -/
private theorem reserving_update {c : ConnId} {d d' : StreamQuicDriver} (hd : w.drivers c = some d)
    (hc : c < w.server.idCounter) (hcounter : w'.server.idCounter = w.server.idCounter)
    (hdrivers : w'.drivers = Function.update w.drivers c (some d')) :
    w'.reserving + d.reserves.toNat = w.reserving + d'.reserves.toNat := by
  have hreserves : w'.reserves = Function.update w.reserves c d'.reserves := by
    funext c'
    rw [World.reserves, hdrivers]
    by_cases hcc : c' = c
    · subst hcc
      rw [Function.update_self, Function.update_self]
      rfl
    · rw [Function.update_of_ne hcc, Function.update_of_ne hcc]
      rfl
  have hold : w.reserves c = d.reserves := by rw [World.reserves, hd]; rfl
  rw [World.reserving, hcounter, hreserves, ← hold]
  exact countP_range_update w.reserves d'.reserves c hc

/-- A driver that holds a permit is counted. -/
private theorem reserving_pos {c : ConnId} {d : StreamQuicDriver} (hd : w.drivers c = some d)
    (hc : c < w.server.idCounter) (hr : d.reserves = true) : 0 < w.reserving := by
  apply List.countP_pos_iff.mpr
  exact ⟨c, List.mem_range.mpr hc, by rw [World.reserves, hd]; exact hr⟩

/-- A step that leaves the drivers alone counts the same permits. -/
private theorem reserving_kept (hcounter : w'.server.idCounter = w.server.idCounter)
    (hdrivers : w'.drivers = w.drivers) : w'.reserving = w.reserving := by
  have hreserves : w'.reserves = w.reserves := by
    funext c
    rw [World.reserves, World.reserves, hdrivers]
  rw [World.reserving, World.reserving, hcounter, hreserves]

/-- The driver of a new connection holds no permit. -/
private theorem reserving_accepted {chan : ChanRef}
    (hcounter : w'.server.idCounter = w.server.idCounter + 1)
    (hdrivers : w'.drivers = Function.update w.drivers w.server.idCounter
      (some (.build w.server.idCounter chan))) : w'.reserving = w.reserving := by
  have hnew : w'.reserves w.server.idCounter = false := by
    rw [World.reserves, hdrivers, Function.update_self]
    rfl
  have hold : (List.range w.server.idCounter).countP w'.reserves = w.reserving := by
    apply List.countP_congr
    intro c hc
    rw [World.reserves, World.reserves, hdrivers,
      Function.update_of_ne (List.mem_range.mp hc).ne]
  rw [World.reserving, hcounter, List.range_succ, List.countP_append, hold]
  simp [hnew]

private theorem not_reserves_writes {d : StreamQuicDriver} {tx : Channel StreamWriter}
    {op : WriteOp} {r : WriteResult} (h : Writes d tx op r) :
    d.reserves = false ∧ r.driver.reserves = false := by
  cases h with
  | sent id todo bytes fin rest answer hp hq =>
    simp only [StreamQuicDriver.reserves, hp, true_and]
    by_cases hgo : (afterSend bytes fin rest answer).2 = true
    · rw [if_pos hgo]
    · rw [if_neg hgo]
  | drained chunk rest hp hq => simp [StreamQuicDriver.reserves, StreamQuicDriver.enqueue, hp]
  | call hp => simp [StreamQuicDriver.reserves, hp]
  | drainedAll hp hq => simp [StreamQuicDriver.reserves, hp]
  | retain order hp horder => simp [StreamQuicDriver.reserves, hp]
  | emptied id todo hp hq => simp [StreamQuicDriver.reserves, hp]
  | finished hp => simp [StreamQuicDriver.reserves, hp]

private theorem bounded_step {l : Label} (hw : w.Linked) (hi : w.Bounded) (h : Happens w l w') :
    w'.Bounded := by
  obtain ⟨hevents, hcapacity, hreserved, hcloses, hcapacity'⟩ := hi
  have hsame : ∀ u : World, u.server.idCounter = w.server.idCounter → u.drivers = w.drivers →
      w.events.reserved = u.reserving := by
    intro u hcounter hdrivers
    rw [reserving_kept hcounter hdrivers, hreserved]
  have hquiet : ∀ (u : World) (c : ConnId) (d d' : StreamQuicDriver), w.drivers c = some d →
      u.server.idCounter = w.server.idCounter →
      u.drivers = Function.update w.drivers d.connId (some d') → d.reserves = false →
      d'.reserves = false → w.events.reserved = u.reserving := by
    intro u c d d' hd hcounter hdrivers hbefore hafter
    obtain ⟨hlt, rfl⟩ := hw.drivers c d hd
    have hcount := reserving_update hd hlt hcounter hdrivers
    rw [hbefore, hafter] at hcount
    omega
  cases h with
  | moved l p hl ht hp => exact ⟨hevents, hcapacity, hreserved, hcloses, hcapacity'⟩
  | noEvent tape ht hq => exact ⟨hevents, hcapacity, hreserved, hcloses, hcapacity'⟩
  | noClose order tape ht hq => exact ⟨hevents, hcapacity, hreserved, hcloses, hcapacity'⟩
  | dispatched tape c ev rest s ht hq hs =>
    exact ⟨Channel.wf_tryRecv hevents (Channel.tryRecv_eq_some.mpr ⟨rest, hq, rfl⟩), hcapacity,
      hsame _ (serves_step hs).1 rfl, hcloses, hcapacity'⟩
  | closed order tape c b rest s ht hq hs =>
    exact ⟨hevents, hcapacity, hsame _ (serves_step hs).1 rfl,
      Channel.wf_tryRecv hcloses (Channel.tryRecv_eq_some.mpr ⟨rest, hq, rfl⟩), hcapacity'⟩
  | accepted peerAddr ht hfree =>
    refine ⟨hevents, hcapacity, ?_, hcloses, hcapacity'⟩
    symm
    rw [hreserved]
    exact reserving_accepted rfl rfl
  | inserted c st ht hacc =>
    exact ⟨hevents, hcapacity, hsame _ rfl rfl, hcloses, hcapacity'⟩
  | called call s ht hs =>
    exact ⟨hevents, hcapacity, hsame _ (serves_step hs).1 rfl, hcloses, hcapacity'⟩
  | serverClosed conns orders tape s ht hs =>
    exact ⟨hevents, hcapacity, hsame _ (serves_step hs).1 rfl, hcloses, hcapacity'⟩
  | dropped c d hd hp =>
    exact ⟨hevents, hcapacity, hsame _ rfl rfl, hcloses, hcapacity'⟩
  | read c d op r hd hr =>
    obtain ⟨hlt, rfl⟩ := hw.drivers c d hd
    have hheld : d.reserves = true → 0 < w.events.reserved := fun hyes ↦
      hreserved ▸ reserving_pos hd hlt hyes
    obtain ⟨hwf, hcap, hcount⟩ := hr.permits hevents hheld
    refine ⟨hwf, hcap.trans hcapacity, ?_, hcloses, hcapacity'⟩
    have hupdate : ∀ u : World, u.server.idCounter = w.server.idCounter →
        u.drivers = Function.update w.drivers d.connId (some r.driver) →
        r.events.reserved = u.reserving := by
      intro u hcounter hdrivers
      have hturned := reserving_update hd hlt hcounter hdrivers
      omega
    exact hupdate _ rfl rfl
  | wrote c d op r hd hr =>
    obtain ⟨hbefore, hafter⟩ := not_reserves_writes hr
    exact ⟨hevents, hcapacity, hquiet _ c d r.driver hd rfl rfl hbefore hafter, hcloses,
      hcapacity'⟩
  | ended c d e hd hp =>
    have hbefore : d.reserves = false := by rw [StreamQuicDriver.reserves, hp]
    refine ⟨hevents, hcapacity, hquiet _ c d _ hd rfl rfl hbefore rfl, ?_⟩
    by_cases hroom : w.closes.HasRoom
    · rw [if_pos hroom]
      exact ⟨Channel.wf_trySend (Channel.trySend_eq_ok.mpr ⟨hroom, rfl⟩), hcapacity'⟩
    · rw [if_neg hroom]
      exact ⟨hcloses, hcapacity'⟩

/-- The channels are bounded in every reachable state, and no permit leaks. -/
theorem bounded_of_reachable (h : world.Reachable w) : w.Bounded := by
  refine h.invariant (I := World.Bounded) ?_ fun w l w' hs hi _ ht ↦
    bounded_step (linked_of_reachable hs) hi (step_happens ht)
  rintro _ ⟨callback, -, rfl⟩
  exact ⟨Channel.wf_new _, rfl, rfl, Channel.wf_new _, rfl⟩

end

end ExtQuiche.System
