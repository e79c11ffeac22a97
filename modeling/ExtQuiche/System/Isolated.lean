import ExtQuiche.System.CloseSignals
import ExtQuiche.System.Story
import Mathlib.Algebra.Group.Nat.Defs

/-!
# Connections are kept apart

Library `System`. One event channel and one close channel carry the messages of all
connections, a driver runs before its record is inserted, and stream objects outlive
records. The counter of `src/quiche/socket.rs:189` keeps them apart: it numbers the record,
the channel, the map and the tags of a connection, and is never used twice.
-/

namespace ExtQuiche.System
open ExtQuiche.Base ExtQuiche.Conn ExtQuiche.Driver ExtQuiche.Server

/-- Connection of the message that a step takes from a channel. -/
def World.takes (w : World) : Label → Option ConnId
  | .pollEvents _ => w.events.queue.head?.map Prod.fst
  | .pollCloses _ _ => w.closes.queue.head?.map Prod.fst
  | _ => none

/-- Since `s`, only callbacks of the connection have been invoked, and the maps of other
connections have changed only where PHP opened a stream. -/
structure StaysWith (c : ConnId) (s t : QuicheServerSocketImpl) : Prop where
  traced : Traced (Concerns c fun _ _ ↦ True) s t
  others : OthersKept c s t

/-- Connections are kept apart, and none is registered late. -/
structure Isolated (w : World) (t : Tale) : Prop where
  counted : (∀ (c : ConnId) (st : ConnState), w.server.connections[c]? = some st →
      c < w.server.idCounter) ∧
    (∀ c ev, (c, ev) ∈ w.events.queue → c < w.server.idCounter) ∧
    ∀ c b, (c, b) ∈ w.closes.queue → c < w.server.idCounter
  /-- Below `2^64` acceptances the source's `u64` ids are distinct. -/
  wide : w.server.idCounter ≤ 2 ^ 64 → ∀ c c' : ConnId, c < w.server.idCounter →
    c' < w.server.idCounter → UInt64.ofNat c = UInt64.ofNat c' → c = c'
  accepting : ∀ c st, w.server.accepting = some (c, st) → w.server.connections[c]? = none
  /-- A tag without a record is that of a connection whose record has been removed. -/
  registered : w.tick ≠ .inserting → (∀ c ev, (c, ev) ∈ w.events.queue → t.recorded c = true) ∧
    ∀ c b, (c, b) ∈ w.closes.queue → t.recorded c = true
  apart : ∀ (c c' : ConnId) (st st' : ConnState), w.server.connections[c]? = some st →
    w.server.connections[c']? = some st' → c ≠ c' →
      st.phpStreamCallbacks ≠ st'.phpStreamCallbacks ∧
        st.openHandle.writeTx ≠ st'.openHandle.writeTx
  drivers : ∀ c d, w.drivers c = some d → d.connId = c ∧ d.streamEventRecv = c
  objects : ∀ o ∈ w.server.objects, OwnObject o
  messages : ∀ l c w', w.takes l = some c → world.step w l = some w' →
    StaysWith c w.server w'.server
  writes : ∀ call o w', call.sends = true → w.server.objects[call.obj]? = some o →
    world.step w (.call call) = some w' → Reaches o.connId w.server w'.server

section

variable {w w' : World} {t : Tale}

/-- Every connection with a driver has got its record, or is being accepted. -/
def Registered (w : World) (t : Tale) : Prop :=
  ∀ c, w.HasDriver c → t.recorded c = true ∨ ∃ st, w.server.accepting = some (c, st)

/-- A record once inserted stays in the account. -/
theorem recordedAfter_of_recorded (l : Label) {c : ConnId} (h : t.recorded c = true) :
    t.recordedAfter w l c = true := by
  cases l with
  | insertConn =>
    simp only [Tale.recordedAfter]
    cases w.server.accepting with
    | none => exact h
    | some a =>
      simp only [Option.map_some, Option.getD_some, Function.update_apply]
      split
      · rfl
      · exact h
  | _ => exact h

private theorem drivers_update {c c' : ConnId} {d d' : StreamQuicDriver}
    (h : Function.update w.drivers c' (some d') c = some d) :
    (c = c' ∧ d = d') ∨ w.drivers c = some d := by
  rw [Function.update_apply] at h
  split at h
  · next heq =>
    cases h
    exact .inl ⟨heq, rfl⟩
  · exact .inr h

/-- A driver was there before the step, or is the one of the connection being accepted. -/
private theorem hasDriver_before {l : Label} (hw : w.Linked) (h : Happens w l w') {c : ConnId}
    (hc : w'.HasDriver c) : w.HasDriver c ∨ ∃ st, w'.server.accepting = some (c, st) := by
  have hturned : ∀ {c₁ d₁ d₂ d'}, w.drivers c₁ = some d₁ →
      Function.update w.drivers d₁.connId (some d₂) c = some d' → w.HasDriver c := by
    intro c₁ d₁ d₂ d' hd₁ hd'
    rcases drivers_update hd' with ⟨rfl, -⟩ | hold
    · exact ⟨d₁, (hw.drivers c₁ d₁ hd₁).2 ▸ hd₁⟩
    · exact ⟨d', hold⟩
  obtain ⟨d', hd'⟩ := hc
  cases h with
  | accepted peerAddr ht hfree =>
    rcases drivers_update hd' with ⟨rfl, -⟩ | hold
    · exact .inr ⟨_, rfl⟩
    · exact .inl ⟨d', hold⟩
  | read c' d op r hd hr => exact .inl (hturned hd hd')
  | wrote c' d op r hd hr => exact .inl (hturned hd hd')
  | ended c' d e hd hp => exact .inl (hturned hd hd')
  | _ => exact .inl ⟨d', hd'⟩

/-- The connection being accepted stays so until its record is inserted. -/
private theorem accepting_step {l : Label} (h : Happens w l w') {c : ConnId} {st : ConnState}
    (hacc : w.server.accepting = some (c, st)) :
    w'.server.accepting = some (c, st) ∨ t.recordedAfter w l c = true := by
  have hnot : ¬ w.server.Free := fun hfree ↦ by
    rw [hfree.2] at hacc
    cases hacc
  cases h with
  | dispatched tape c' ev rest s ht hq hs => exact absurd (free_of_handle hs) hnot
  | closed order tape c' b rest s ht hq hs => exact absurd (free_of_handle hs) hnot
  | called call s ht hs => exact absurd (free_of_handle hs) hnot
  | serverClosed conns orders tape s ht hs => exact absurd (free_of_handle hs) hnot
  | accepted peerAddr ht hfree => exact absurd hfree.1 hnot
  | inserted c' st' ht hacc' =>
    right
    rw [hacc] at hacc'
    cases hacc'
    simp [Tale.recordedAfter, hacc]
  | _ => exact .inl hacc

private theorem registered_step {l : Label} (hw : w.Linked) (hi : Registered w t)
    (h : Happens w l w') : Registered w' (t.add w l w') := by
  intro c hc
  rcases hasDriver_before hw h hc with hold | hnew
  · rcases hi c hold with hrecorded | ⟨st, hacc⟩
    · exact .inl (recordedAfter_of_recorded l hrecorded)
    · exact (accepting_step h hacc).symm.imp_right fun hacc' ↦ ⟨st, hacc'⟩
  · exact .inr hnew

/-- No driver reads before its connection is registered or being accepted. -/
theorem registered_of_reachable (h : story.Reachable (w, t)) : Registered w t := by
  refine h.account_invariant (I := Registered) ?_ fun w t l w' hreach hi _ ht ↦
    registered_step (linked_of_reachable hreach.forget) hi (step_happens ht)
  rintro _ ⟨callback, -, rfl⟩ c ⟨d, hd⟩
  cases hd

/-- A driver reads the write channel of its connection. -/
theorem streamEventRecv_eq (h : world.Reachable w) :
    ∀ c d, w.drivers c = some d → d.streamEventRecv = c := by
  apply h.invariant (I := fun w ↦ ∀ c d, w.drivers c = some d → d.streamEventRecv = c)
  · rintro _ ⟨callback, -, rfl⟩ c d hd
    cases hd
  · intro w l w' hreach hi _ ht c d' hd'
    have hw := linked_of_reachable hreach
    have hturned : ∀ {c₁ d₁ d₂}, w.drivers c₁ = some d₁ →
        d₂.streamEventRecv = d₁.streamEventRecv →
        Function.update w.drivers d₁.connId (some d₂) c = some d' → d'.streamEventRecv = c := by
      intro c₁ d₁ d₂ hd₁ heq hd'
      rcases drivers_update hd' with ⟨rfl, rfl⟩ | hold
      · rw [heq, hi _ _ hd₁, (hw.drivers c₁ d₁ hd₁).2]
      · exact hi c d' hold
    cases step_happens ht with
    | accepted peerAddr ht hfree =>
      rcases drivers_update hd' with ⟨rfl, rfl⟩ | hold
      · exact (owned_of_reachable (server_reachable hreach)).refs
      · exact hi c d' hold
    | read c₁ d op r hd hr => exact hturned hd hr.streamEventRecv hd'
    | wrote c₁ d op r hd hr => exact hturned hd hr.streamEventRecv hd'
    | ended c₁ d e hd hp =>
      refine hturned hd ?_ hd'
      rfl
    | _ => exact hi c d' hd'

/-- A message is handled by the step of the server for its connection. -/
private theorem staysWith_of_takes (hs : server.Reachable w.server) {l : Label} {c : ConnId}
    (hl : w.takes l = some c) (h : Happens w l w') : StaysWith c w.server w'.server := by
  have hown := owned_of_reachable hs
  have hlisted := listed_of_reachable hs
  cases h with
  | dispatched tape c' ev rest s ht hq hs =>
    simp only [World.takes, hq, List.head?_cons, Option.map_some, Option.some.injEq] at hl
    subst hl
    exact ⟨(traced_driverEvent hown hlisted hs).mono fun _ _ _ ↦ trivial,
      othersKept_driverEvent hown hs⟩
  | closed order tape c' b rest s ht hq hs =>
    simp only [World.takes, hq, List.head?_cons, Option.map_some, Option.some.injEq] at hl
    subst hl
    exact ⟨(traced_connClosed hown hlisted hs).mono fun _ _ _ ↦ trivial,
      othersKept_connClosed hown hs⟩
  | noEvent tape ht hq => simp [World.takes, hq] at hl
  | noClose order tape ht hq => simp [World.takes, hq] at hl
  | moved l p hmoved => rcases hmoved with rfl | rfl | rfl <;> cases hl
  | _ => cases hl

private theorem ofNat_injective {n c c' : Nat} (hn : n ≤ 2 ^ 64) (hc : c < n) (hc' : c' < n)
    (h : UInt64.ofNat c = UInt64.ofNat c') : c = c' := by
  have hmod := congrArg UInt64.toNat h
  simp only [UInt64.toNat_ofNat'] at hmod
  omega

/-- Connections are kept apart in every state of every run: ids and tags are below the
counter, no record is replaced, every tag is that of a registered connection, and a message
or a write stays with its connection, but for the streams that callbacks open on other
ones. `src/quiche/socket.rs:186–223,250–341`, `src/quiche/conn.rs:153–193`. -/
theorem isolated_of_reachable (h : story.Reachable (w, t)) : Isolated w t := by
  have hreach : world.Reachable w := h.forget
  have hw := linked_of_reachable hreach
  have hs := server_reachable hreach
  have hown := owned_of_reachable hs
  have hregistry := registry_of_reachable hreach
  have hreg := registered_of_reachable h
  have hevents : ∀ c ev, (c, ev) ∈ w.events.queue → w.HasDriver c := by
    intro c ev hmem
    rw [← hw.pending] at hmem
    obtain ⟨s, hs, heq⟩ := List.mem_map.mp hmem
    cases heq
    exact hw.senders s (List.mem_append_right _ hs)
  have hcloses : ∀ c b, (c, b) ∈ w.closes.queue → w.HasDriver c := fun c b hmem ↦
    (hw.closing c b hmem).imp fun _ hd ↦ hd.1
  have hlt : ∀ c, w.HasDriver c → c < w.server.idCounter := fun c ⟨d, hd⟩ ↦ (hw.drivers c d hd).1
  have hrecorded : w.tick ≠ .inserting → ∀ c, w.HasDriver c → t.recorded c = true := by
    intro htick c hc
    apply (hreg c hc).resolve_right
    rintro ⟨st, hacc⟩
    exact htick (hw.inserting (by simp [hacc]))
  refine ⟨⟨fun c st hc ↦ (hregistry.conns c st hc).1, fun c ev hmem ↦ hlt c (hevents c ev hmem),
    fun c b hmem ↦ hlt c (hcloses c b hmem)⟩, ?_, fun c st hacc ↦ (hregistry.accepting c st hacc).2.1,
    fun htick ↦ ⟨fun c ev hmem ↦ hrecorded htick c (hevents c ev hmem),
      fun c b hmem ↦ hrecorded htick c (hcloses c b hmem)⟩, ?_, ?_, hown.objects, ?_, ?_⟩
  · exact fun hn c c' hc hc' ↦ ofNat_injective hn hc hc'
  · intro c c' st st' hc hc' hne
    have hrec := hown.conns c st hc
    have hrec' := hown.conns c' st' hc'
    rw [hrec.phpStreamCallbacks, hrec'.phpStreamCallbacks, hrec.openHandle.writeTx,
      hrec'.openHandle.writeTx]
    exact ⟨hne, hne⟩
  · exact fun c d hd ↦ ⟨(hw.drivers c d hd).2, streamEventRecv_eq hreach c d hd⟩
  · exact fun l c w' hl ht ↦ staysWith_of_takes hs hl (step_happens ht)
  · intro call o w' hsends ho ht
    cases step_happens ht with
    | moved l p hmoved => rcases hmoved with hno | hno | hno <;> cases hno
    | called _ s htick hstep => exact reaches_call hown hsends ho hstep

end

/-- The driver of a connection announces stream 0. -/
def announcesZero (c : ConnId) : List Label :=
  [.driver c (.read .call), .driver c (.read (.readableNext (some 0))), .driver c (.read .tryReserve)]

/-- Two peers open stream 0, and the server has handled the second one's announcement. -/
def twoPeers : List Label := arrivals 2 ++ announcesZero 1 ++ announcesZero 0 ++ [.pollEvents []]

/-- The callback of one connection's stream opens stream 1 on the object of the other. -/
def opensAcross : Label := .pollEvents [⟨[.openBidiStream 0 1], none⟩]

/-- The announcement of the first connection is waiting. -/
theorem twoPeers_isolated :
    ∃ w t, story.run (.start closure, .start) twoPeers = some (w, t) ∧
      w.takes opensAcross = some 0 ∧ Isolated w t := by
  have h : (story.run (.start closure, .start) twoPeers).map (fun p ↦ p.1.takes opensAcross) =
      some (some 0) := by decide +kernel
  obtain ⟨⟨w, t⟩, hrun, htakes⟩ := Option.map_eq_some_iff.mp h
  refine ⟨w, t, hrun, htakes, isolated_of_reachable (Machine.Reachable.run (.init ?_) hrun)⟩
  exact ⟨⟨closure, rfl, rfl⟩, rfl⟩

/-- Its handling changes the map of the second connection. -/
theorem opensAcross_changes :
    ∃ w w', world.run (.start closure) twoPeers = some w ∧ world.step w opensAcross = some w' ∧
      w.takes opensAcross = some 0 ∧ (w.server.maps 1)[(1 : StreamId)]? = none ∧
      (w'.server.maps 1)[(1 : StreamId)]? = some (.ofPair 2) := by
  have h : (world.run (.start closure) twoPeers).map (fun w ↦
      (w.takes opensAcross, (w.server.maps 1)[(1 : StreamId)]?,
        (world.step w opensAcross).map fun w' ↦ (w'.server.maps 1)[(1 : StreamId)]?)) =
      some (some 0, none, some (some (.ofPair 2))) := by decide +kernel
  obtain ⟨w, hw, heq⟩ := Option.map_eq_some_iff.mp h
  simp only [Prod.mk.injEq, Option.map_eq_some_iff] at heq
  obtain ⟨htakes, hold, w', hw', hnew⟩ := heq
  exact ⟨w, w', hw, hw', htakes, hold, hnew⟩

end ExtQuiche.System
