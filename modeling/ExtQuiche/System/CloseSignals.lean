import ExtQuiche.Server.CloseOnce
import ExtQuiche.System.Lifecycle

/-!
# Close signals and leaked records

Library `System`. `on_conn_close` sends its message without waiting
(`src/quiche/driver.rs:191–196`) into a channel of 1024 that only `tick` drains, and only
when no event is ready. A message that finds no room is gone, and with it the only cause
for the removal of the record besides the close of the server.
-/

namespace ExtQuiche.System
open ExtQuiche.Base ExtQuiche.Conn ExtQuiche.Driver ExtQuiche.Server

/-- Every record whose driver is closed has a close message waiting; with none waiting,
every record has an open driver. -/
structure World.Signalled (w : World) : Prop where
  waiting : ∀ (c : ConnId) (st : ConnState), w.server.connections[c]? = some st → w.Ended c →
    ∃ b, (c, b) ∈ w.closes.queue
  drained : w.closes.queue = [] → ∀ (c : ConnId) (st : ConnState),
    w.server.connections[c]? = some st → ∃ d, w.drivers c = some d ∧ d.point ≠ .closed

/-- `on_conn_close` finds room in the close channel, or the connection has no record. -/
def Heard (w : World) : Label → Prop
  | .driver c (.onConnClose _) => w.closes.HasRoom ∨ ¬ w.server.Serves c
  | _ => True

instance (w : World) : ∀ l, Decidable (Heard w l)
  | .driver _ (.onConnClose _) => inferInstanceAs (Decidable (_ ∨ _))
  | .driver _ (.read _) | .driver _ (.write _) | .driver _ .drop | .enterTick | .pollEvents _
  | .pollCloses _ _ | .accept _ | .insertConn | .again | .timer | .call _ | .close _ _ _ =>
    .isTrue trivial

section

variable {w w' : World}

/-- A served connection with a closed driver has a close message waiting. -/
private def Announced (w : World) : Prop :=
  ∀ c, w.Ended c → w.server.Serves c → ∃ b, (c, b) ∈ w.closes.queue

/-- A close message leaves the channel only to end its connection. -/
private theorem waiting_step {l : Label} (h : Happens w l w') {c : ConnId} {b : Bool}
    (hc : (c, b) ∈ w.closes.queue) : (c, b) ∈ w'.closes.queue ∨ ¬ w'.server.Serves c := by
  cases h with
  | closed order tape c' b' rest s ht hq hs =>
    rcases List.mem_cons.mp (hq ▸ hc) with heq | hrest
    · cases heq
      exact .inr fun hserves ↦ (((serves_step hs).2 c).mp hserves).2 rfl
    · exact .inl hrest
  | ended c' d e hd hp =>
    dsimp only
    split
    · exact .inl (List.mem_append_left _ hc)
    · exact .inl hc
  | _ => exact .inl hc

private theorem announced_kept {l : Label} (hw : w.Linked) (hi : Announced w) (hok : Heard w l)
    (h : Happens w l w') : Announced w' := by
  intro c hended hserves
  have hold : w.Ended c → ∃ b, (c, b) ∈ w'.closes.queue := by
    intro hc
    have hs : w.server.Serves c := by
      apply (h.serves hserves).resolve_right
      rintro ⟨rfl, -⟩
      obtain ⟨d, hd, -⟩ := hc
      exact Nat.lt_irrefl _ (hw.drivers _ d hd).1
    obtain ⟨b, hb⟩ := hi c hc hs
    exact ⟨b, (waiting_step h hb).resolve_right (not_not_intro hserves)⟩
  rcases (h.drivers hw).ended_inv hended with hc | ⟨e, rfl⟩
  · exact hold hc
  · cases h with
    | moved l p hl ht hp => exact absurd hl (by simp)
    | ended c d e hd hp =>
      obtain rfl := (hw.drivers c d hd).2
      have hroom : w.closes.HasRoom := hok.resolve_right (not_not_intro hserves)
      exact ⟨e.peerError.isSome, by simp [hroom]⟩

/-- As long as every `on_conn_close` finds room or has no record to close, no close
signal is lost and no record outlives its driver once the close channel is drained.
`src/quiche/driver.rs:175–197`, `src/quiche/socket.rs:30–32,210–223`. -/
theorem signalled_of_heard (h : world.ReachableWhile Heard w) : w.Signalled := by
  have hi : Announced w := by
    refine h.invariant (I := Announced) ?_ fun _ _ _ hs hi hok ht ↦
      announced_kept (linked_of_reachable hs) hi hok (step_happens ht)
    rintro _ ⟨callback, -, rfl⟩ c ⟨d, hd, -⟩
    cases hd
  refine ⟨fun c st hc hended ↦ hi c hended (.inl ⟨st, hc⟩), fun hq c st hc ↦ ?_⟩
  obtain ⟨d, hd⟩ := (linked_of_reachable h).served c (.inl ⟨st, hc⟩)
  refine ⟨d, hd, fun hp ↦ ?_⟩
  obtain ⟨b, hb⟩ := hi c ⟨d, hd, hp⟩ (.inl ⟨st, hc⟩)
  rw [hq] at hb
  exact List.not_mem_nil hb

/-- A refused signal is lost: the connection is served, its driver is closed, and no
message of it is waiting. -/
theorem lost_of_not_heard {l : Label} (h : world.Reachable w) (hl : ¬ Heard w l)
    (ht : world.step w l = some w') :
    ∃ c, w'.server.Serves c ∧ w'.Ended c ∧ ∀ b, (c, b) ∉ w'.closes.queue := by
  have hw := linked_of_reachable h
  cases step_happens ht with
  | moved l p hmoved => rcases hmoved with rfl | rfl | rfl <;> exact absurd trivial hl
  | ended c d e hd hp =>
    obtain rfl := (hw.drivers c d hd).2
    obtain ⟨hroom, hserves⟩ := not_or.mp hl
    refine ⟨d.connId, not_not.mp hserves, ⟨_, Function.update_self .., rfl⟩, fun b hb ↦ ?_⟩
    simp only [hroom, if_false] at hb
    obtain ⟨d', hd', hp'⟩ := hw.closing _ b hb
    rw [hd] at hd'
    cases hd'
    rw [hp] at hp'
    cases hp'
  | _ => exact absurd trivial hl

end

/-- A connection is accepted while PHP runs `tick`. -/
def onePeer : List Label := [.pollEvents [], .pollCloses [] [], .accept "192.0.2.1:4433", .insertConn]

/-- `n` connections are accepted. -/
def arrivals (n : Nat) : List Label := .enterTick :: (List.replicate n onePeer).flatten

/-- The peer opens stream 0, its driver reads nothing of it yet, and PHP hooks its end. -/
def opensZero : List Label :=
  arrivals 1 ++
    [.driver 0 (.read .call), .driver 0 (.read (.readableNext (some 0))),
      .driver 0 (.read .tryReserve), .driver 0 (.read .tryReserve),
      .driver 0 (.read (.streamRecv (.error .done))), .driver 0 (.read (.readableNext none)),
      .pollEvents [⟨[.setOnClose 0 closure], none⟩], .pollEvents []]

/-- The first `n` connections run into their idle timeout, with no `tick` in between. -/
def departures (n : Nat) : List Label :=
  (List.range n).map fun c ↦ .driver c (.onConnClose .idleTimeout)

/-- One of two connections ends: its message is waiting. -/
theorem oneDeparture_signalled :
    ∃ w, world.run (.start closure) (arrivals 2 ++ departures 1) = some w ∧
      w.closes.queue = [(0, false)] ∧ w.Signalled := by
  have h : (world.run (.start closure) (arrivals 2 ++ departures 1)).map (·.closes.queue) =
      some [(0, false)] := by decide +kernel
  obtain ⟨w, hw, hq⟩ := Option.map_eq_some_iff.mp h
  have hok : world.Along Heard (.start closure) (arrivals 2 ++ departures 1) := by decide +kernel
  exact ⟨w, hw, hq, signalled_of_heard (.run (.init ⟨closure, rfl, rfl⟩) hok hw)⟩

/-- `n` connections have been accepted, the first `k` of them have ended, and `tick` has
taken no message since. -/
private structure Crowd (n k : Nat) (w : World) : Prop where
  tick : w.tick = .eventArm
  free : w.server.Free ∧ w.server.listening = true
  counter : w.server.idCounter = n
  events : w.events.queue = []
  records : ∀ c < n, ∃ st : ConnState, w.server.connections[c]? = some st
  closes : w.closes = ⟨CONN_CLOSE_CHANNEL_CAPACITY, (List.range k).map (·, false), 0, true⟩
  idle : ∀ c, k ≤ c → c < n → ∃ d, w.drivers c = some d ∧ d.connId = c ∧ d.point = .idle

private theorem crowd_arrival {n : Nat} {w : World} (h : Crowd n 0 w) :
    ∃ w', world.run w onePeer = some w' ∧ Crowd (n + 1) 0 w' := by
  have hcloses : w.closes.queue = [] := by rw [h.closes]; rfl
  have hevents : world.step w (.pollEvents []) =
      some { w with tick := .closeArm, polls := w.polls + 1 } := by
    simp [world, World.step, World.goOn, World.pollEvents, Channel.tryRecv, h.tick, h.free.1.1,
      h.events]
  have hclose : world.step { w with tick := .closeArm, polls := w.polls + 1 } (.pollCloses [] []) =
      some { w with tick := .otherArms, polls := w.polls + 1 } := by
    simp [world, World.step, World.goOn, World.pollCloses, Channel.tryRecv, h.free.1.1, hcloses]
  refine ⟨{ w with
    server := (w.server.newConn "192.0.2.1:4433").insertConn n (.build n "192.0.2.1:4433"
      w.server.nextRef)
    tick := .eventArm
    polls := w.polls + 1
    drivers := Function.update w.drivers n (some (.build n w.server.nextRef)) }, ?_, ?_⟩
  · rw [onePeer, Machine.run_cons, hevents, Option.bind_some, Machine.run_cons, hclose]
    simp [world, World.step, World.goOn, World.accept, QuicheServerSocketImpl.step, h.free,
      QuicheServerSocketImpl.newConn, h.free.1.1, h.counter]
  · refine ⟨rfl, ⟨⟨h.free.1.1, rfl⟩, h.free.2⟩, congrArg (· + 1) h.counter, h.events, ?_, h.closes,
      ?_⟩
    · intro c hc
      rcases eq_or_ne c n with rfl | hne
      · exact ⟨_, Std.ExtTreeMap.getElem?_insert_self⟩
      · obtain ⟨st, hst⟩ := h.records c (by omega)
        exact ⟨st, by simp [QuicheServerSocketImpl.insertConn, QuicheServerSocketImpl.newConn,
          Std.ExtTreeMap.getElem?_insert, hne.symm, hst]⟩
    · intro c hk hc
      rcases eq_or_ne c n with rfl | hne
      · exact ⟨_, Function.update_self .., rfl, rfl⟩
      · obtain ⟨d, hd, hp⟩ := h.idle c hk (by omega)
        exact ⟨d, (Function.update_of_ne hne ..).trans hd, hp⟩

private theorem crowd_arrivals (n : Nat) :
    ∃ w, world.run (.start closure) (arrivals n) = some w ∧ Crowd n 0 w := by
  induction n with
  | zero =>
    refine ⟨{ World.start closure with tick := .eventArm }, rfl, ⟨rfl, ⟨⟨rfl, rfl⟩, rfl⟩, rfl, rfl,
      ?_, rfl, ?_⟩⟩
    · exact fun c hc ↦ absurd hc (Nat.not_lt_zero c)
    · exact fun c _ hc ↦ absurd hc (Nat.not_lt_zero c)
  | succ n ih =>
    obtain ⟨w, hw, hcrowd⟩ := ih
    obtain ⟨w', hw', hcrowd'⟩ := crowd_arrival hcrowd
    refine ⟨w', ?_, hcrowd'⟩
    have hruns : arrivals (n + 1) = arrivals n ++ onePeer := by
      simp [arrivals, List.replicate_succ']
    rw [hruns, Machine.run_append, hw]
    exact hw'

private theorem crowd_departures {n k : Nat} (hk : k ≤ CONN_CLOSE_CHANNEL_CAPACITY) (hkn : k ≤ n)
    {w : World} (h : Crowd n 0 w) :
    ∃ w', world.run w (departures k) = some w' ∧ Crowd n k w' := by
  induction k with
  | zero => exact ⟨w, rfl, h⟩
  | succ k ih =>
    obtain ⟨u, hu, hcrowd⟩ := ih (by omega) (by omega)
    obtain ⟨d, hd, hc, hp⟩ := hcrowd.idle k le_rfl (by omega)
    have hroom : u.closes.HasRoom := by
      rw [hcrowd.closes]
      exact ⟨rfl, by simpa using Nat.lt_of_succ_le hk⟩
    have hstep : world.step u (.driver k (.onConnClose .idleTimeout)) = some { u with
        closes := { u.closes with queue := u.closes.queue ++ [(k, false)] }
        drivers := Function.update u.drivers k (some { d with point := .closed }) } := by
      simp [world, World.step, World.driverStep, onConnClose, Channel.trySend, hd, hc, hp, hroom,
        ConnEnd.peerError]
    refine ⟨{ u with
      closes := { u.closes with queue := u.closes.queue ++ [(k, false)] }
      drivers := Function.update u.drivers k (some { d with point := .closed }) }, ?_,
      ⟨hcrowd.tick, hcrowd.free, hcrowd.counter, hcrowd.events, hcrowd.records, ?_, ?_⟩⟩
    · rw [departures, List.range_succ, List.map_append, ← departures, Machine.run_append, hu,
        Option.bind_some, List.map_singleton, Machine.run_cons, hstep]
      rfl
    · simp [hcrowd.closes, List.range_succ]
    · intro c hk hc
      obtain ⟨d, hd, hp⟩ := hcrowd.idle c (by omega) hc
      have hne : c ≠ k := by omega
      exact ⟨d, (Function.update_of_ne hne ..).trans hd, hp⟩

/-- 1025 connections end between two polls of the close channel: one message is refused,
and that connection's record stays without a driver or a message. -/
theorem manyDepartures_lost :
    ∃ w, world.run (.start closure) (arrivals 1025 ++ departures 1025) = some w ∧
      ¬ w.Signalled := by
  obtain ⟨v, hv, hcrowd⟩ := crowd_arrivals 1025
  obtain ⟨u, hu, hfull⟩ := crowd_departures (k := 1024) le_rfl (by omega) hcrowd
  obtain ⟨d, hd, hc, hp⟩ := hfull.idle 1024 le_rfl (by omega)
  obtain ⟨st, hst⟩ := hfull.records 1024 (by omega)
  have hroom : ¬ u.closes.HasRoom := by
    rw [hfull.closes]
    simp [Channel.HasRoom, CONN_CLOSE_CHANNEL_CAPACITY]
  have hstep : world.step u (.driver 1024 (.onConnClose .idleTimeout)) = some { u with
      drivers := Function.update u.drivers 1024 (some { d with point := .closed }) } := by
    simp [world, World.step, World.driverStep, onConnClose, Channel.trySend, hd, hc, hp, hroom]
  refine ⟨{ u with
    drivers := Function.update u.drivers 1024 (some { d with point := .closed }) }, ?_, fun h ↦ ?_⟩
  · have hruns : departures 1025 = departures 1024 ++ [.driver 1024 (.onConnClose .idleTimeout)] := by
      rw [departures, List.range_succ, List.map_append]
      rfl
    rw [hruns, Machine.run_append, hv, Option.bind_some, Machine.run_append, hu, Option.bind_some,
      Machine.run_cons, hstep]
    rfl
  · obtain ⟨b, hb⟩ := h.waiting 1024 st hst
      ⟨{ d with point := .closed }, Function.update_self (1024 : ConnId) _ u.drivers, rfl⟩
    simp [hfull.closes] at hb

end ExtQuiche.System
